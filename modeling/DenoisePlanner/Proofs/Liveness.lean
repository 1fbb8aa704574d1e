import DenoisePlanner.Proofs.Eliciting
import DenoisePlanner.Proofs.Grid
import DenoisePlanner.Proofs.Issue
import DenoisePlanner.Proofs.Lanes

namespace DenoisePlanner

-- The stretch of the dispatches that a denoiser declared.
def DenoiserState.Declares (d : DenoiserState) (n : Nat) : Prop :=
  d.layout.dispatches.start ≤ n ∧ n < d.layout.dispatches.stop

namespace Roster

variable {r r' : Roster} {identifier : Identifier} {v : Variant}

-- The stretches are as long as the tables of passes ask for, and no pipeline is there for nothing.
structure Sparing (r : Roster) : Prop where
  stop : ∀ m ∈ r.members, m.layout.dispatches.stop = m.firstDispatch + m.dispatchCount
  asked : ∀ q ∈ r.tables.pipelines.pipelines, ∃ m ∈ r.members,
    ScheduledPass.Asks m.variant.blueprint.schedule q

theorem Sparing.enlist (h : r.Sparing) (hsound : r.Sound fun _ => false)
    (henlist : enlist identifier v r = .ok ⟨⟩ r') : r'.Sparing := by
  obtain ⟨-, layout, tables, hadd, rfl⟩ := exists_of_enlist henlist
  obtain ⟨hspan, hsize⟩ := Declarations.addVariant_dispatches hsound.room hadd
  obtain ⟨transient, hextends, -⟩ := Declarations.addVariant_ok hsound.room hsound.pairs hadd
  have hmembers (d : DenoiserState) :
      members ⟨tables, r.denoisers.push d⟩ = r.members ++ [d.member] := by
    rw [members, Array.toList_push, List.map_append]
    rfl
  constructor
  · rw [hmembers]
    refine List.forall_mem_append.mpr ⟨h.stop, fun m hm => ?_⟩
    rw [List.mem_singleton.mp hm]
    simp only [Member.firstDispatch, Member.dispatchCount, DenoiserState.member, hspan, hsize]
  · intro q hq
    rw [hmembers]
    obtain ⟨i, hi⟩ := Array.getElem?_of_mem hq
    rcases hextends.pipelines.of_getElem? hi with hold | ⟨-, hasks⟩
    · obtain ⟨m, hm, hasks⟩ := h.asked q (Array.mem_of_getElem? hold)
      exact ⟨m, List.mem_append_left _ hm, hasks⟩
    · exact ⟨_, List.mem_append_right _ (List.mem_singleton_self _), hasks⟩

theorem enlistAll_sparing {denoisers : List (Identifier × Variant)}
    (h : enlistAll denoisers {} = .ok ⟨⟩ r) : r.Sparing := by
  have hempty : Sparing {} := ⟨fun m hm => (List.not_mem_nil hm).elim,
    fun q hq => (Array.not_mem_empty q hq).elim⟩
  refine (Declaring.forM_ok (P := fun _ r => (r.Sound fun _ => false) ∧ r.Sparing) ?_
    ⟨.empty, hempty⟩ h).2
  rintro done ⟨identifier, v⟩ r₁ r₂ ⟨hsound, hsparing⟩ henlist
  exact ⟨(enlist_ok hsound henlist).1, hsparing.enlist hsound henlist⟩

theorem enlistAll_distinct {denoisers : List (Identifier × Variant)}
    (h : enlistAll denoisers {} = .ok ⟨⟩ r) : r.tables.pipelines.Distinct := by
  rcases Holds.empty.enlistAll denoisers with ⟨failure, r', herror, -⟩ | ⟨r', hok, hholds⟩
  · cases h.symm.trans herror
  · cases h.symm.trans hok
    exact hholds.roomy.distinct

end Roster

namespace Planner

variable {p p' : Planner} {store : ShaderStore} {denoisers : List (Identifier × Variant)}
  {flipped : Nat → Bool} {d : DenoiserState} {i n : Nat} {x : Dispatch}

-- The same of the pipelines that the host was told of, which go by different identifiers.
structure Sparing (p : Planner) : Prop where
  stop : ∀ m ∈ p.members, m.layout.dispatches.stop = m.firstDispatch + m.dispatchCount
  asked : ∀ q ∈ p.inventory.pipelines, ∃ m ∈ p.members,
    ScheduledPass.Asks m.variant.blueprint.schedule q.pipeline
  distinct : (p.inventory.pipelines.toList.map (·.pipeline.identifier)).Nodup

theorem Sparing.of_create (h : (create denoisers store).result = .ok p) : p.Sparing := by
  unfold create at h
  split at h
  · cases h
  · split at h
    · cases h
    · rename_i tables members henlist
      cases h
      have hsparing := Roster.enlistAll_sparing henlist
      have hdistinct := Roster.enlistAll_distinct henlist
      refine ⟨hsparing.stop, fun q hq => ?_, ?_⟩
      · obtain ⟨pipeline, hpipeline, rfl⟩ := Array.mem_map.mp hq
        exact hsparing.asked pipeline hpipeline
      · rw [PipelineTable.Distinct] at hdistinct
        simpa [Declarations.inventory, Function.comp_def] using hdistinct

theorem Reachable.sparing (h : Reachable denoisers store p) : p.Sparing := by
  obtain ⟨p₀, hcreate, hsucceeds⟩ := h.exists_create
  have hsparing := Sparing.of_create hcreate
  constructor
  · rw [hsucceeds.members]
    exact hsparing.stop
  · rw [hsucceeds.members, hsucceeds.inventory]
    exact hsparing.asked
  · rw [hsucceeds.inventory]
    exact hsparing.distinct

theorem Reachable.roll_eq (h : Reachable denoisers store p) : p.roll = denoisers := by
  obtain ⟨p₀, hcreate, hsucceeds⟩ := h.exists_create
  have hroll (q : Planner) : q.roll = q.members.map fun m => (m.identifier, m.variant) := by
    rw [members, Roster.members, List.map_map]
    rfl
  rw [hroll, hsucceeds.members, ← hroll, (create_ok hcreate).2.1]

theorem Reachable.declares_iff (h : Reachable denoisers store p) (hd : d ∈ p.denoisers) :
    d.Declares n ↔ Within Member.firstDispatch Member.dispatchCount d.member n := by
  have hmember : d.member ∈ p.members := List.mem_map_of_mem (Array.mem_toList_iff.mpr hd)
  have hstop : d.layout.dispatches.stop = _ := h.sparing.stop d.member hmember
  rw [DenoiserState.Declares, hstop]
  rfl

-- The dispatches of a denoiser are those of its passes.
theorem Reachable.declares_iff_contains (h : Reachable denoisers store p) (hd : d ∈ p.denoisers) :
    d.Declares n ↔ ∃ w ∈ d.layout.passes, w.Contains n := by
  obtain ⟨flipped, hsound⟩ := h.sound
  obtain ⟨i, hi⟩ := Array.getElem?_of_mem hd
  have htiles := (hsound.roster.installed i d hi).tiles_passes
  rw [h.declares_iff hd]
  constructor
  · exact fun hn => htiles.exists_within hn.1 hn.2
  · rintro ⟨w, hw, hn⟩
    exact htiles.within_lt hw hn

-- A pipeline of the inventory has one place.
theorem Sparing.pipeline_inj (h : p.Sparing) {i j : Nat} {q q' : CompiledPipeline}
    (hi : p.inventory.pipelines[i]? = some q) (hj : p.inventory.pipelines[j]? = some q')
    (hidentifier : q.pipeline.identifier = q'.pipeline.identifier) : i = j := by
  have hget {k : Nat} {q : CompiledPipeline} (hk : p.inventory.pipelines[k]? = some q) :
      (p.inventory.pipelines.toList.map (·.pipeline.identifier))[k]? =
        some q.pipeline.identifier := by
    rw [List.getElem?_map, Array.getElem?_toList, hk, Option.map_some]
  have hlt := (List.getElem?_eq_some_iff.mp (hget hi)).1
  exact (List.getElem?_inj hlt h.distinct).mp (by rw [hget hi, hget hj, hidentifier])

-- A dispatch of a frame is a declared one, and has its pipeline.
def Performs (p : Planner) (declared : DeclaredDispatch) (x : Dispatch) : Prop :=
  p.Issues declared x ∧ x.pipeline = declared.pipeline

theorem Reachable.performs (h : Reachable denoisers store p) {declared : DeclaredDispatch}
    (hdeclared : p.tables.dispatches[n]? = some declared) (hissues : p.Issues declared x) :
    p.Performs declared x := by
  obtain ⟨flipped, hsound⟩ := h.sound
  obtain ⟨pipeline, hpipeline⟩ := (hsound.suits h.lasting hdeclared).pipeline
  have hget : p.inventory.pipelines[declared.pipeline]? =
      some ⟨pipeline, store.bytecode pipeline.key⟩ := by
    rw [hsound.inventory, Array.getElem?_map, hpipeline, Option.map_some]
  exact ⟨hissues, h.sparing.pipeline_inj (hissues.pipeline.trans hget) hget rfl⟩

-- The shader that a declared dispatch runs.
def shader? (p : Planner) (n : Nat) : Option ShaderKey :=
  p.tables.dispatches[n]?.bind fun declared =>
    p.inventory.pipelines[declared.pipeline]?.map (·.pipeline.key)

section Sound

variable {base : Nat} {e : ScheduledPass} {s : Specialization}

theorem Sound.exists_declared (h : p.Sound store flipped) (hi : p.denoisers[i]? = some d)
    (hplace : (base, e) ∈ ScheduledPass.place d.layout.dispatches.start d.variant.blueprint.schedule)
    (hs : s ∈ Specialization.all e.pass.conditions) :
    ∃ declared, p.tables.dispatches[base + s.bits]? = some declared ∧ declared.stage = e.stage ∧
      p.tables.resources declared = d.layout.claims.allBound (flipped i) (e.pass.bindings s) ∧
      p.inventory.pipelines[declared.pipeline]? =
        some ⟨⟨e.key s, (e.key s).identifier, e.layout s⟩, store.bytecode (e.key s)⟩ := by
  have hinstalled := h.roster.installed i d hi
  obtain ⟨position, span, pipeline, hdispatch, hpipeline, hid, hlayout, -, hbindings⟩ :=
    hinstalled.realizes base e hplace s hs
  exact ⟨_, hdispatch, rfl, Claims.resolve_bindings hinstalled.inPhase hbindings,
    h.pipeline_eq (ScheduledPass.mem_of_mem_place hplace) hpipeline hid hlayout⟩

theorem Sound.shader?_eq (h : p.Sound store flipped) (hi : p.denoisers[i]? = some d)
    (hplace : (base, e) ∈ ScheduledPass.place d.layout.dispatches.start d.variant.blueprint.schedule)
    (hs : s ∈ Specialization.all e.pass.conditions) :
    p.shader? (base + s.bits) = some (e.key s) := by
  obtain ⟨declared, hdeclared, -, -, hpipeline⟩ := h.exists_declared hi hplace hs
  rw [shader?, hdeclared, Option.bind_some, hpipeline, Option.map_some]

theorem Sound.isSome_shader? (h : p.Sound store flipped) (hi : p.denoisers[i]? = some d)
    {w : DeclaredPass} (hw : w ∈ d.layout.passes) (hn : w.Contains n) :
    (p.shader? n).isSome := by
  obtain ⟨e, hplace, -, hstands⟩ := (h.roster.installed i d hi).exists_place hw
  obtain ⟨s, hs, rfl⟩ := hstands n hn
  rw [h.shader?_eq hi hplace hs]
  rfl

-- The specialisations of a pass run different shaders.
theorem Sound.shader?_inj (h : p.Sound store flipped) (hi : p.denoisers[i]? = some d)
    {w : DeclaredPass} (hw : w ∈ d.layout.passes) {m n : Nat} (hm : w.Contains m)
    (hn : w.Contains n) (hshader : p.shader? m = p.shader? n) : m = n := by
  obtain ⟨e, hplace, -, hstands⟩ := (h.roster.installed i d hi).exists_place hw
  obtain ⟨s, hs, rfl⟩ := hstands m hm
  obtain ⟨s', hs', rfl⟩ := hstands n hn
  rw [h.shader?_eq hi hplace hs, h.shader?_eq hi hplace hs', Option.some_inj] at hshader
  have hnodup := d.variant.nodup_conditions e (ScheduledPass.mem_of_mem_place hplace)
  have hdefines := List.append_cancel_left (congrArg ShaderKey.defines hshader)
  rw [Specialization.defines_inj hnodup hs hs' hdefines]

-- No two declared dispatches of a denoiser are performed by the same dispatch of a frame.
theorem Sound.performs_inj (h : p.Sound store flipped) (hi : p.denoisers[i]? = some d)
    {w w' : DeclaredPass} (hw : w ∈ d.layout.passes) (hw' : w' ∈ d.layout.passes) {m n : Nat}
    (hm : w.Contains m) (hn : w'.Contains n) {a b : DeclaredDispatch}
    (ha : p.tables.dispatches[m]? = some a) (hb : p.tables.dispatches[n]? = some b)
    (hxa : p.Performs a x) (hxb : p.Performs b x) : m = n := by
  have hinstalled := h.roster.installed i d hi
  obtain ⟨e, hplace, hpass, hstands⟩ := hinstalled.exists_place hw
  obtain ⟨e', hplace', hpass', hstands'⟩ := hinstalled.exists_place hw'
  by_cases hsame : (w.base, e) = (w'.base, e')
  · -- the pipelines tell the specialisations of a pass apart
    obtain ⟨hbase, rfl⟩ := Prod.mk.inj hsame
    obtain rfl : w = w' := by rw [hpass, hpass', hbase]
    refine h.shader?_inj hi hw hm hn ?_
    rw [shader?, shader?, ha, hb, Option.bind_some, Option.bind_some, ← hxa.2, ← hxb.2]
  · -- the stages tell passes apart, and the textures tell clears apart
    have hsymm : Std.Symm fun y z : Nat × ScheduledPass => y.2.stage = z.2.stage →
        y.2.stage = .clear ∧
          (y.2.pass.bindings default).outputs ≠ (z.2.pass.bindings default).outputs :=
      ⟨fun y z hyz hstage => ⟨hstage.trans (hyz hstage.symm).1, (hyz hstage.symm).2.symm⟩⟩
    obtain ⟨s, hs, rfl⟩ := hstands m hm
    obtain ⟨s', hs', rfl⟩ := hstands' n hn
    obtain ⟨_, ha', hstage, hresources, -⟩ := h.exists_declared hi hplace hs
    obtain ⟨_, hb', hstage', hresources', -⟩ := h.exists_declared hi hplace' hs'
    obtain rfl := Option.some.inj (ha.symm.trans ha')
    obtain rfl := Option.some.inj (hb.symm.trans hb')
    have hstages : e.stage = e'.stage := by
      rw [← hstage, ← hstage', ← hxa.1.stage, ← hxb.1.stage]
    obtain ⟨hclear, houtputs⟩ :=
      (d.variant.pairwise_place _).forall hplace hplace' hsame hstages
    obtain ⟨k, texture, rfl⟩ :=
      d.variant.exists_clear (ScheduledPass.mem_of_mem_place hplace) hclear
    obtain ⟨k', texture', rfl⟩ :=
      d.variant.exists_clear (ScheduledPass.mem_of_mem_place hplace') (hstages ▸ hclear)
    have hbound := hresources.symm.trans (hxa.1.resources.symm.trans
      (hxb.1.resources.trans hresources'))
    have hslot : k = k' := by
      simpa [Claims.allBound, ScheduledPass.clear, Pass.clear, Claims.bound, Claims.place,
        Reference.location] using hbound
    exact absurd (by rw [hslot]; rfl) houtputs

end Sound

end Planner

section Eliciting

variable {d : DenoiserState} {base : Nat} {e : ScheduledPass} {s : Specialization}

theorem DenoiserState.switches_eliciting {stage : Stage}
    (h : d.settings = .eliciting stage s d.variant.family) :
    d.switches (.eliciting s) = d.variant.eliciting stage s := by
  rw [switches, h]
  rfl

theorem DenoiserState.moves_eliciting (d : DenoiserState) : d.moves (.eliciting s) = true := by
  rw [d.moves_eq]
  change (!decide ((1 : Float32) ≤ 0.5)) = true
  decide +kernel

-- Under the settings for a specialisation its dispatch is picked.
theorem DenoiserState.exists_placement
    (hsettings : d.settings = .eliciting e.stage s d.variant.family)
    (hplace : (base, e) ∈ ScheduledPass.place d.layout.dispatches.start d.variant.blueprint.schedule)
    (hs : s ∈ Specialization.all e.pass.conditions) :
    ∃ em ∈ d.placements (.eliciting s),
      (em.map fun y => y.2.declared y.1).selected.dispatch = base + s.bits := by
  have he := ScheduledPass.mem_of_mem_place hplace
  have hdenoises : (d.switches (.eliciting s)).isPassthrough = false := by
    simpa [moves] using d.moves_eliciting (s := s)
  obtain ⟨hruns, hagrees⟩ := d.variant.elicits e he s hs
  rw [← switches_eliciting hsettings] at hruns hagrees
  have hbegins (hatrous : e.stage.isAtrous = true) : ∃ first ∈
      ScheduledPass.place d.layout.dispatches.start d.variant.blueprint.schedule,
      first.2.stage = .atrousFirst := by
    obtain ⟨first, hmem, hfirst⟩ := d.variant.exists_atrousFirst e he hatrous
    obtain ⟨b, hb⟩ := ScheduledPass.exists_mem_place d.layout.dispatches.start hmem
    exact ⟨(b, first), hb, hfirst⟩
  refine ⟨_, Emission.mem_all_of_runs hdenoises hplace (d.variant.single_steps _) hbegins
    hruns, ?_⟩
  have hselect := Specialization.select_eq (d.variant.nodup_conditions e he) hs hagrees
  exact congrArg (fun t : Specialization => base + t.bits) hselect

end Eliciting

namespace Planner

variable {p q : Planner} {store : ShaderStore} {denoisers : List (Identifier × Variant)}
  {d : DenoiserState} {n : Nat} {declared : DeclaredDispatch} {policy : MemoryPolicy}
  {identifiers : List Identifier} {frame : Frame}

-- There are settings, all of them valid, under which a frame of the denoiser performs a declared
-- dispatch, so long as there is memory for the frame.
def Elicits (p : Planner) (d : DenoiserState) (declared : DeclaredDispatch) : Prop :=
  ∃ frameSettings settings p' q, FrameSettings.validate frameSettings = .ok () ∧
    DenoiserSettings.Suits settings d.variant ∧ p.setFrameSettings frameSettings = .ok p' ∧
    p'.setDenoiserSettings d.identifier settings = .ok q ∧
    ∀ policy, MemoryPolicy.Grants policy → ∃ frame,
      (q.frame policy [d.identifier]).result = .ok frame ∧
      ∃ x ∈ Frame.share frame d.identifier, q.Performs declared x

-- A frame with the settings for a specialisation performs its dispatch.
theorem Reachable.exists_performed (h : Reachable denoisers store q) (hd : d ∈ q.denoisers)
    {base : Nat} {e : ScheduledPass} {s : Specialization}
    (hsettings : d.settings = .eliciting e.stage s d.variant.family)
    (hframes : q.settings = .eliciting s)
    (hplace : (base, e) ∈ ScheduledPass.place d.layout.dispatches.start d.variant.blueprint.schedule)
    (hs : s ∈ Specialization.all e.pass.conditions)
    (hdeclared : q.tables.dispatches[base + s.bits]? = some declared)
    (hframe : (q.frame policy [d.identifier]).result = .ok frame) :
    ∃ x ∈ frame.share d.identifier, q.Performs declared x := by
  obtain ⟨flipped, hsound⟩ := h.sound
  obtain ⟨i, hi⟩ := Array.getElem?_of_mem hd
  obtain ⟨em, hem, hdispatch⟩ := DenoiserState.exists_placement hsettings hplace hs
  rw [← hframes] at hem
  have hshares := hsound.shares hi hframe (List.mem_singleton_self _)
  have houtline : d.outline q.settings store (flipped i) (em.map Prod.snd) ∈
      (frame.share d.identifier).map q.outline := by
    rw [hshares.outlines, d.emissions_eq_placements, List.map_map]
    exact List.mem_map_of_mem hem
  obtain ⟨x, hx, houtline⟩ := List.mem_map.mp houtline
  obtain ⟨_, hissued, hissues⟩ := hsound.issuesAt hi hem houtline
  rw [hdispatch, hdeclared] at hissued
  obtain rfl := Option.some.inj hissued
  exact ⟨x, hx, h.performs hdeclared hissues⟩

theorem Reachable.elicits (h : Reachable denoisers store p) (hd : d ∈ p.denoisers)
    (hn : d.Declares n) :
    ∃ declared, p.tables.dispatches[n]? = some declared ∧ p.Elicits d declared := by
  obtain ⟨flipped, hsound⟩ := h.sound
  obtain ⟨i, hi⟩ := Array.getElem?_of_mem hd
  obtain ⟨w, hw, hn⟩ := (h.declares_iff_contains hd).mp hn
  obtain ⟨e, hplace, -, hstands⟩ := (hsound.roster.installed i d hi).exists_place hw
  obtain ⟨s, hs, rfl⟩ := hstands n hn
  obtain ⟨declared, hdeclared, -⟩ := hsound.exists_declared hi hplace hs
  have hvalid := FrameSettings.validate_eliciting s
  have hsuits := DenoiserSettings.suits_eliciting e.stage s d.variant
  have hset : p.setFrameSettings (.eliciting s) = .ok { p with settings := .eliciting s } := by
    rw [Planner.setFrameSettings, hvalid]
    rfl
  obtain ⟨q, hconfigure, hreachable, hsettings, hd'⟩ :=
    (h.setFrameSettings _ hset).exists_setDenoiserSettings hd hsuits
  have htables : q.tables = p.tables := by
    obtain ⟨-, -, -, -, -, -, -, rfl⟩ := setDenoiserSettings_ok hconfigure
    rfl
  refine ⟨declared, hdeclared, _, _, _, q, hvalid, hsuits, hset, hconfigure,
    fun policy hgrants => ?_⟩
  obtain ⟨frame, hframe⟩ := hreachable.exists_frame hgrants hd'
  rw [← htables] at hdeclared
  have hperformed := hreachable.exists_performed hd' rfl hsettings hplace hs hdeclared hframe
  exact ⟨frame, hframe, hperformed⟩

-- What a frame emits for a denoiser is one of the dispatches that the denoiser declared.
theorem Reachable.existsUnique_declared (h : Reachable denoisers store p)
    (hframe : (p.frame policy identifiers).result = .ok frame) {x : Dispatch}
    (hx : x ∈ frame.dispatches) :
    ∃ d ∈ p.denoisers, d.identifier = x.identifier ∧ ∃! n, d.Declares n ∧
      ∃ declared, p.tables.dispatches[n]? = some declared ∧ p.Performs declared x := by
  obtain ⟨flipped, hsound⟩ := h.sound
  obtain ⟨i, d, -, htag, hshare, hx⟩ := hsound.exists_shares_of_mem hframe hx
  have hi := hshare.denoiser
  have hd := Array.mem_of_getElem? hi
  obtain ⟨n, hn, declared, hdeclared, hissues⟩ :=
    exists_of_mem_right (hsound.issues_share hshare) hx
  rw [hsound.picksOf_eq hi] at hn
  have hn := (h.declares_iff hd).mpr ((hsound.roster.installed i d hi).within_of_mem_picks hn)
  have hperforms := h.performs hdeclared hissues
  refine ⟨d, hd, htag, n, ⟨hn, declared, hdeclared, hperforms⟩, ?_⟩
  rintro m ⟨hm, other, hother, hperforms'⟩
  obtain ⟨w, hw, hm⟩ := (h.declares_iff_contains hd).mp hm
  obtain ⟨w', hw', hn⟩ := (h.declares_iff_contains hd).mp hn
  exact hsound.performs_inj hi hw hw' hm hn hother hdeclared hperforms' hperforms

-- Each pipeline is that of a declared dispatch.
theorem Reachable.exists_of_pipeline (h : Reachable denoisers store p) {k : Nat}
    (hk : k < p.inventory.pipelines.size) :
    ∃ d ∈ p.denoisers, ∃ n declared, d.Declares n ∧ p.tables.dispatches[n]? = some declared ∧
      declared.pipeline = k := by
  obtain ⟨flipped, hsound⟩ := h.sound
  have hget : p.inventory.pipelines[k]? = some p.inventory.pipelines[k] :=
    Array.getElem?_eq_getElem hk
  obtain ⟨m, hm, e, he, s, hs, hpipeline⟩ := h.sparing.asked _ (Array.mem_of_getElem? hget)
  obtain ⟨d, hd, rfl⟩ := List.mem_map.mp hm
  have hd := Array.mem_toList_iff.mp hd
  obtain ⟨i, hi⟩ := Array.getElem?_of_mem hd
  obtain ⟨base, hplace⟩ := ScheduledPass.exists_mem_place d.layout.dispatches.start he
  obtain ⟨declared, hdeclared, -, -, hcompiled⟩ := hsound.exists_declared hi hplace hs
  refine ⟨d, hd, base + s.bits, declared, ?_, hdeclared, ?_⟩
  · exact (h.declares_iff hd).mpr ((hsound.roster.installed i d hi).within_of_place hplace hs)
  · refine h.sparing.pipeline_inj hcompiled hget ?_
    rw [hpipeline]

-- The dispatches in the tables are those that the denoisers declared.
theorem Reachable.lt_size_iff (h : Reachable denoisers store p) :
    n < p.tables.dispatches.size ↔ ∃ d ∈ p.denoisers, d.Declares n := by
  constructor
  · intro hn
    obtain ⟨m, hm, hwithin⟩ := h.lasting.tiled.exists_within (Nat.zero_le n) hn
    obtain ⟨d, hd, rfl⟩ := List.mem_map.mp hm
    have hd := Array.mem_toList_iff.mp hd
    exact ⟨d, hd, (h.declares_iff hd).mpr hwithin⟩
  · rintro ⟨d, hd, hn⟩
    have hmember : d.member ∈ p.members := List.mem_map_of_mem (Array.mem_toList_iff.mpr hd)
    exact (h.lasting.tiled.within_lt hmember ((h.declares_iff hd).mp hn)).2

-- Whatever the denoisers of a planner and whatever has happened to it, no declared dispatch is dead:
-- from there on, valid settings of the frame and of the denoiser have it performed, and with it
-- every pipeline of the inventory is put to use. A frame has nothing but declared dispatches of its
-- denoisers, each of them just one of these, and those of a pass run different shaders.
theorem dispatches_live (h : Reachable denoisers store p) :
    p.roll = denoisers ∧
    (∀ n, n < p.tables.dispatches.size ↔ ∃ d ∈ p.denoisers, d.Declares n) ∧
    (∀ d ∈ p.denoisers, ∀ n, d.Declares n →
      ∃ declared, p.tables.dispatches[n]? = some declared ∧ p.Elicits d declared) ∧
    (∀ k < p.inventory.pipelines.size, ∃ d ∈ p.denoisers, ∃ n declared, d.Declares n ∧
      p.tables.dispatches[n]? = some declared ∧ declared.pipeline = k ∧ p.Elicits d declared) ∧
    (∀ policy identifiers frame, (p.frame policy identifiers).result = .ok frame →
      ∀ x ∈ frame.dispatches, ∃ d ∈ p.denoisers, d.identifier = x.identifier ∧
        ∃! n, d.Declares n ∧
          ∃ declared, p.tables.dispatches[n]? = some declared ∧ p.Performs declared x) ∧
    ∀ d ∈ p.denoisers, (∀ n, d.Declares n ↔ ∃ w ∈ d.layout.passes, w.Contains n) ∧
      ∀ w ∈ d.layout.passes, ∀ m n, w.Contains m → w.Contains n →
        (p.shader? m).isSome ∧ (p.shader? m = p.shader? n → m = n) := by
  refine ⟨h.roll_eq, fun n => h.lt_size_iff, fun d hd n hn => h.elicits hd hn, fun k hk => ?_,
    fun policy identifiers frame hframe x hx => h.existsUnique_declared hframe hx,
    fun d hd => ⟨fun n => h.declares_iff_contains hd, fun w hw m n hm hn => ?_⟩⟩
  · obtain ⟨d, hd, n, declared, hn, hdeclared, hpipeline⟩ := h.exists_of_pipeline hk
    obtain ⟨declared', hdeclared', helicits⟩ := h.elicits hd hn
    obtain rfl := Option.some.inj (hdeclared.symm.trans hdeclared')
    exact ⟨d, hd, n, declared, hn, hdeclared, hpipeline, helicits⟩
  · obtain ⟨flipped, hsound⟩ := h.sound
    obtain ⟨i, hi⟩ := Array.getElem?_of_mem hd
    exact ⟨hsound.isSome_shader? hi hw hm, hsound.shader?_inj hi hw hm hn⟩

-- An A-trous step of a denoiser that was declared behind another.
theorem dispatches_live_atrous :
    ∃ p, Reachable [(⟨4⟩, .reblurDiffuse), (⟨2⟩, .relaxSpecular)] (fun _ _ => none) p ∧
      ∃ d ∈ p.denoisers, d.identifier = ⟨2⟩ ∧ ∃ n declared, d.Declares n ∧
        p.tables.dispatches[n]? = some declared ∧ declared.stage = .atrous ∧
        p.Elicits d declared := by
  have hdeclarable : Declarable [(⟨4⟩, .reblurDiffuse), (⟨2⟩, .relaxSpecular)] :=
    ⟨by decide, by decide +kernel⟩
  obtain ⟨p, hcreate⟩ :=
    exists_create_of_declarable hdeclarable (List.cons_ne_nil _ _) fun _ _ => none
  have hreachable := Reachable.created hcreate
  obtain ⟨d, hd, hid, hvariant, -⟩ :=
    exists_denoiser hcreate (List.mem_cons_of_mem _ (List.mem_singleton_self _))
  obtain ⟨i, hi⟩ := Array.getElem?_of_mem hd
  have hsound := (create_ok hcreate).1
  have hatrous : ∃ e ∈ Variant.relaxSpecular.blueprint.schedule, e.stage = .atrous := by
    decide +kernel
  obtain ⟨e, he, hstage⟩ := hvariant ▸ hatrous
  obtain ⟨base, hplace⟩ := ScheduledPass.exists_mem_place d.layout.dispatches.start he
  have hs := Specialization.select_mem_all e.pass.conditions fun _ => false
  obtain ⟨declared, hdeclared, hdispatch, -⟩ := hsound.exists_declared hi hplace hs
  have hn := (hreachable.declares_iff hd).mpr
    ((hsound.roster.installed i d hi).within_of_place hplace hs)
  obtain ⟨-, -, helicits, -⟩ := dispatches_live hreachable
  obtain ⟨declared', hdeclared', helicited⟩ := helicits d hd _ hn
  obtain rfl := Option.some.inj (hdeclared.symm.trans hdeclared')
  exact ⟨p, hreachable, d, hd, hid, _, declared, hn, hdeclared, hdispatch.trans hstage, helicited⟩

end Planner

end DenoisePlanner
