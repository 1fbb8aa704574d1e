import DenoisePlanner.Proofs.Emission
import DenoisePlanner.Proofs.Identifier
import DenoisePlanner.Proofs.Reachable

namespace DenoisePlanner

-- A dispatch of a frame with its pipeline and its constants themselves in place of their
-- positions, which depend on what else the planner holds.
structure Outline where
  identifier : Identifier
  name : String
  stage : Stage
  pipeline : Option CompiledPipeline
  bytecode : Bytecode
  resources : List BoundResource
  constants : ByteArray
  grid : Extent
  downsample : UInt16
  repeats : UInt16

def Planner.outline (p : Planner) (x : Dispatch) : Outline where
  identifier := x.identifier
  name := x.name
  stage := x.stage
  pipeline := p.inventory.pipelines[x.pipeline]?
  bytecode := x.bytecode
  resources := x.resources
  constants := x.constants
  grid := x.grid
  downsample := x.downsample
  repeats := x.repeats

-- The same of a dispatch that is planned and not yet placed.
def Planner.sketch (p : Planner) (identifier : Identifier) (planned : PlannedDispatch) :
    Outline where
  identifier := identifier
  name := planned.declared.name
  stage := planned.declared.stage
  pipeline := p.inventory.pipelines[planned.declared.pipeline]?
  bytecode := (p.inventory.pipelines[planned.declared.pipeline]?.map (·.bytecode)).getD {}
  resources := planned.resources
  constants := ScratchBuffer.join planned.constants
  grid := planned.grid
  downsample := planned.declared.downsample
  repeats := planned.declared.repeats

namespace Emission

def specialization (em : Emission ScheduledPass) : Specialization :=
  .select em.pass.pass.conditions em.active

def key (em : Emission ScheduledPass) : ShaderKey := em.pass.key em.specialization

def bindings (em : Emission ScheduledPass) : Bindings := em.pass.pass.bindings em.specialization

end Emission

namespace DenoiserState

def sharedBytes (d : DenoiserState) (s : FrameSettings) : ByteArray :=
  (rowBytes (d.shared s).rows).toByteArray

-- The passes that a denoiser runs in a frame.
def emissions (d : DenoiserState) (s : FrameSettings) : List (Emission ScheduledPass) :=
  Emission.all ScheduledPass.stage d.variant.blueprint.schedule (d.switches s)

-- The same with the place of each pass among the dispatches.
def placements (d : DenoiserState) (s : FrameSettings) : List (Emission (Nat × ScheduledPass)) :=
  Emission.all (fun x => x.2.stage)
    (ScheduledPass.place d.layout.dispatches.start d.variant.blueprint.schedule) (d.switches s)

theorem emissions_eq_placements (d : DenoiserState) (s : FrameSettings) :
    d.emissions s = (d.placements s).map (Emission.map Prod.snd) := by
  have hsnd := ScheduledPass.snd_place d.layout.dispatches.start d.variant.blueprint.schedule
  calc d.emissions s
    _ = Emission.all ScheduledPass.stage ((ScheduledPass.place d.layout.dispatches.start
          d.variant.blueprint.schedule).map Prod.snd) (d.switches s) := by
        rw [hsnd, DenoiserState.emissions]
    _ = _ := Emission.all_map ..

-- What becomes of an emission, told from the denoiser and the frame alone.
def outline (d : DenoiserState) (s : FrameSettings) (store : ShaderStore) (flipped : Bool)
    (em : Emission ScheduledPass) : Outline where
  identifier := d.identifier
  name := d.variant.name ++ " - " ++ em.pass.stage.name
  stage := em.pass.stage
  pipeline := some ⟨⟨em.key, em.key.identifier, em.pass.layout em.specialization⟩,
    store.bytecode em.key⟩
  bytecode := store.bytecode em.key
  resources := d.layout.claims.allBound flipped em.bindings
  constants := ScratchBuffer.join (em.pass.pass.data.chunks (d.sharedBytes s) s.frameIndex em.atrous)
  grid := (Planner.extent s em.pass.stage).groups em.pass.pass.downsample em.pass.pass.threads
  downsample := em.pass.pass.downsample
  repeats := em.pass.pass.repeats

end DenoiserState

namespace Planner

variable {p : Planner} {store : ShaderStore} {flipped : Nat → Bool} {i : Nat} {d : DenoiserState}

-- A pipeline is known by its identifier, whichever denoiser declared it first.
theorem Sound.pipeline_eq (h : p.Sound store flipped) {v : Variant} {e : ScheduledPass}
    (he : e ∈ v.blueprint.schedule) {s : Specialization} {position : Nat} {pipeline : Pipeline}
    (hget : p.tables.pipelines.pipelines[position]? = some pipeline)
    (hidentifier : pipeline.identifier = (e.key s).identifier)
    (hlayout : pipeline.layout = e.layout s) :
    p.inventory.pipelines[position]? =
      some ⟨⟨e.key s, (e.key s).identifier, e.layout s⟩, store.bytecode (e.key s)⟩ := by
  obtain ⟨w, e', he', s', -, rfl⟩ := h.roster.pipelines pipeline (Array.mem_of_getElem? hget)
  have hkey : e'.key s' = e.key s := ScheduledPass.key_inj he' he hidentifier
  rw [h.inventory, Array.getElem?_map, hget, Option.map_some]
  simp only at hlayout
  rw [hkey, hlayout]

-- An emission of the recorded schedule is planned as it was declared.
theorem Sound.planDispatch_eq (h : p.Sound store flipped) (hi : p.denoisers[i]? = some d)
    {em : Emission (Nat × ScheduledPass)}
    (hem : em.pass ∈ ScheduledPass.place d.layout.dispatches.start d.variant.blueprint.schedule) :
    ∃ planned, p.planDispatch (d.sharedBytes p.settings)
        (em.map fun x => x.2.declared x.1).selected = some planned ∧
      p.sketch d.identifier planned =
        d.outline p.settings store (flipped i) (em.map Prod.snd) := by
  obtain ⟨⟨base, e⟩, active, atrous⟩ := em
  have hinstalled := h.roster.installed i d hi
  have he : e ∈ d.variant.blueprint.schedule := ScheduledPass.mem_of_mem_place hem
  obtain ⟨position, span, pipeline, hdispatch, hpipeline, hid, hlayout, -, hbindings⟩ :=
    hinstalled.realizes base e hem _ (Specialization.select_mem_all _ active)
  have hpipeline := h.pipeline_eq he hpipeline hid hlayout
  have hresources := Claims.resolve_bindings hinstalled.inPhase hbindings
  have hplan := congrArg (Option.map fun declared : DeclaredDispatch =>
    { declared
      resources := p.tables.resources declared
      constants := declared.data.chunks (d.sharedBytes p.settings) p.settings.frameIndex atrous
      grid := (extent p.settings declared.stage).groups declared.downsample
        declared.threads : PlannedDispatch }) hdispatch
  refine ⟨_, hplan, ?_⟩
  simp only [sketch, ScheduledPass.dispatch, hpipeline, Declarations.resources, hresources]
  rfl

theorem Sound.select_eq (h : p.Sound store flipped) (hi : p.denoisers[i]? = some d) :
    Selected.select d.layout.passes (d.switches p.settings) =
      (d.placements p.settings).map fun em => (em.map fun x => x.2.declared x.1).selected := by
  rw [Emission.select_eq, (h.roster.installed i d hi).passes, ScheduledPass.recorded,
    Emission.all_map, List.map_map]
  rfl

-- What a denoiser plans does not depend on its neighbours.
theorem Sound.map_sketch_plan (h : p.Sound store flipped) (hi : p.denoisers[i]? = some d) :
    (p.plan d).dispatches.map (p.sketch d.identifier) =
      (d.emissions p.settings).map (d.outline p.settings store (flipped i)) := by
  rw [plan]
  dsimp only
  rw [h.select_eq hi, d.emissions_eq_placements, List.filterMap_map, List.map_map]
  exact map_filterMap_eq fun em hem => h.planDispatch_eq hi (Emission.pass_mem_of_mem_all hem)

theorem sketch_congr {p p' : Planner} (h : p'.inventory = p.inventory) : p'.sketch = p.sketch := by
  funext identifier planned
  simp only [sketch, h]

-- A dispatch whose constants are stored is as it was planned.
theorem map_outline_zipWith {identifier : Identifier} {planned : List PlannedDispatch}
    {places : List Span} (h : p.scratch.Stores places (planned.map (·.constants))) :
    (List.zipWith (p.dispatch identifier) planned places).map p.outline =
      planned.map (p.sketch identifier) := by
  have hread := h.read
  rw [List.map_map] at hread
  clear h
  induction planned generalizing places with
  | nil => rfl
  | cons x xs ih =>
    cases places with
    | nil => cases hread
    | cons place places =>
      obtain ⟨hplace, hrest⟩ := List.cons.inj hread
      rw [List.zipWith_cons_cons, List.map_cons, List.map_cons, ih hrest]
      simp only [outline, dispatch, sketch, hplace]
      rfl

-- Denoisers together with their positions.
def Members (p : Planner) (members : List (Nat × DenoiserState)) : Prop :=
  (∀ m ∈ members, p.denoisers[m.1]? = some m.2) ∧ (members.map Prod.fst).Nodup

-- What a run leaves behind that planned for some denoisers and failed for none. The phases
-- before the run decide about its dispatches.
structure Ran (p p' : Planner) (store : ShaderStore) (flipped : Nat → Bool)
    (members : List (Nat × DenoiserState)) (plans : List PlacedPlan) : Prop where
  sound : ∃ flipped', p'.Sound store flipped' ∧
    (∀ m ∈ members, flipped' m.1 = (flipped m.1 != m.2.moves p.settings)) ∧
    ∀ j ∉ members.map Prod.fst, flipped' j = flipped j
  moved : ∀ m ∈ members, p'.denoisers[m.1]? = some (m.2.next p.settings)
  others : ∀ j ∉ members.map Prod.fst, p'.denoisers[j]? = p.denoisers[j]?
  settings : p'.settings = p.settings
  inventory : p'.inventory = p.inventory
  scratch : p.scratch.Keeps p'.scratch
  dispatches : (p'.frameOf plans).dispatches.map p'.outline = members.flatMap fun m =>
    (m.2.emissions p.settings).map (m.2.outline p.settings store (flipped m.1))

theorem Ran.nil (h : p.Sound store flipped) (hvalid : p.scratch.Valid) :
    Ran p p store flipped [] [] where
  sound := ⟨flipped, h, by simp, by simp⟩
  moved := by simp
  others := by simp
  settings := rfl
  inventory := rfl
  scratch := .refl hvalid
  dispatches := rfl

theorem runDenoiser_ok {policy : MemoryPolicy} {placed : PlacedPlan} (h : p.Sound store flipped)
    (hvalid : p.scratch.Valid) (hi : p.denoisers[i]? = some d)
    (hrun : (p.runDenoiser policy i d).result = .ok placed) :
    p.Moved (p.runDenoiser policy i d).planner store flipped i d ∧
      p.scratch.Keeps (p.runDenoiser policy i d).planner.scratch ∧
      placed.plan = p.plan d ∧
      (p.runDenoiser policy i d).planner.scratch.Stores placed.places
        ((p.plan d).dispatches.map (·.constants)) := by
  unfold runDenoiser at hrun ⊢
  dsimp only at hrun ⊢
  split at hrun
  · cases hrun
  rename_i places hplaces
  cases hrun
  obtain ⟨hkeeps, hstores⟩ := ScratchBuffer.pushAll_ok hvalid hplaces
  have hmoved := (h.withScratch (p.scratch.pushAll policy
    ((p.plan d).dispatches.map (·.constants))).buffer).advance hi
  dsimp only
  rw [scratch_advance]
  exact ⟨⟨hmoved.sound, hmoved.denoisers, hmoved.settings, hmoved.inventory⟩, hkeeps, rfl, hstores⟩

-- Denoisers with different identifiers stand at different positions.
theorem Members.of_identifiers {members : List (Nat × DenoiserState)}
    (h : ∀ m ∈ members, p.denoisers[m.1]? = some m.2)
    (hnodup : (members.map (·.2.identifier)).Nodup) : p.Members members := by
  refine ⟨h, List.Nodup.map_on (fun m hm m' hm' heq => ?_) (List.Nodup.of_map _ hnodup)⟩
  exact Prod.ext heq (Option.some.inj ((h m hm).symm.trans (heq ▸ h m' hm')))

theorem Members.tail {m : Nat × DenoiserState} {ms : List (Nat × DenoiserState)}
    (h : p.Members (m :: ms)) :
    m.1 ∉ ms.map Prod.fst ∧ p.Members ms :=
  ⟨(List.nodup_cons.mp h.2).1, fun x hx => h.1 x (List.mem_cons_of_mem _ hx),
    (List.nodup_cons.mp h.2).2⟩

theorem Members.take {members : List (Nat × DenoiserState)} (h : p.Members members) (n : Nat) :
    p.Members (members.take n) := by
  refine ⟨fun x hx => h.1 x (List.mem_of_mem_take hx), ?_⟩
  rw [List.map_take]
  exact h.2.sublist (List.take_sublist n _)

-- When the first of them has moved on, the others are where they were.
theorem Members.moved {p₁ : Planner} {m : Nat × DenoiserState} {ms : List (Nat × DenoiserState)}
    (h : p.Members (m :: ms)) (hmoved : p.Moved p₁ store flipped m.1 m.2) : p₁.Members ms := by
  obtain ⟨hfresh, htail⟩ := h.tail
  refine ⟨fun x hx => ?_, htail.2⟩
  rw [hmoved.denoisers, if_neg]
  · exact htail.1 x hx
  · exact fun heq => hfresh (heq ▸ List.mem_map_of_mem hx)

-- One denoiser, and then the run of the others.
theorem Ran.cons {p₁ p' : Planner} {m : Nat × DenoiserState} {ms : List (Nat × DenoiserState)}
    {placed : PlacedPlan} {plans : List PlacedPlan} {flipped₁ : Nat → Bool}
    (h : p.Sound store flipped) (hm : p.denoisers[m.1]? = some m.2)
    (hfresh : m.1 ∉ ms.map Prod.fst) (hmoved : p.Moved p₁ store flipped m.1 m.2)
    (hflipped : flipped₁ = fun j => if j = m.1 then flipped j != m.2.moves p.settings else flipped j)
    (hkeeps : p.scratch.Keeps p₁.scratch) (hplan : placed.plan = p.plan m.2)
    (hstores : p₁.scratch.Stores placed.places ((p.plan m.2).dispatches.map (·.constants)))
    (hrest : Ran p₁ p' store flipped₁ ms plans) :
    Ran p p' store flipped (m :: ms) (placed :: plans) := by
  have hne (x : Nat × DenoiserState) (hx : x ∈ ms) : x.1 ≠ m.1 :=
    fun heq => hfresh (heq ▸ List.mem_map_of_mem hx)
  have hsettings : p'.settings = p.settings := hrest.settings.trans hmoved.settings
  have hinventory : p'.inventory = p.inventory := hrest.inventory.trans hmoved.inventory
  refine ⟨?_, ?_, ?_, hsettings, hinventory, hkeeps.trans hrest.scratch, ?_⟩
  · obtain ⟨flipped', hsound, hin, hout⟩ := hrest.sound
    refine ⟨flipped', hsound, ?_, ?_⟩
    · intro x hx
      rcases List.mem_cons.mp hx with rfl | hx
      · rw [hout _ hfresh, hflipped]
        exact if_pos rfl
      · rw [hin x hx, hflipped, hmoved.settings]
        simp only [if_neg (hne x hx)]
    · intro j hj
      rw [List.map_cons, List.mem_cons, not_or] at hj
      rw [hout j hj.2, hflipped]
      simp only [if_neg hj.1]
  · intro x hx
    rcases List.mem_cons.mp hx with rfl | hx
    · rw [hrest.others _ hfresh, hmoved.denoisers, if_pos rfl]
    · rw [hrest.moved x hx, hmoved.settings]
  · intro j hj
    rw [List.map_cons, List.mem_cons, not_or] at hj
    rw [hrest.others j hj.2, hmoved.denoisers, if_neg hj.1]
  · have hfirst : (List.zipWith (p'.dispatch placed.plan.identifier) placed.plan.dispatches
        placed.places).map p'.outline =
        (m.2.emissions p.settings).map (m.2.outline p.settings store (flipped m.1)) := by
      rw [hplan, map_outline_zipWith (hstores.keeps hrest.scratch), sketch_congr hinventory]
      exact h.map_sketch_plan hm
    have hothers := hrest.dispatches
    simp only [frameOf, hmoved.settings] at hothers ⊢
    rw [List.flatMap_cons, List.map_append, hfirst, hothers, List.flatMap_cons]
    congr 1
    refine List.flatMap_congr fun x hx => ?_
    rw [hflipped]
    simp only [if_neg (hne x hx)]

theorem runAll_ok {policy : MemoryPolicy} {members : List (Nat × DenoiserState)}
    {plans : List PlacedPlan} (h : p.Sound store flipped) (hvalid : p.scratch.Valid)
    (hmembers : p.Members members)
    (hrun : (p.runAll policy (members.map Prod.fst)).result = .ok plans) :
    Ran p (p.runAll policy (members.map Prod.fst)).planner store flipped members plans := by
  induction members generalizing p flipped plans with
  | nil =>
    cases hrun
    exact .nil h hvalid
  | cons m ms ih =>
    have hm := hmembers.1 m List.mem_cons_self
    obtain ⟨hfresh, -⟩ := hmembers.tail
    rw [List.map_cons] at hrun ⊢
    obtain ⟨placed, rest, hfirst, hrest, rfl⟩ := exists_of_runAll_cons hm hrun
    obtain ⟨hmoved, hkeeps, hplan, hstores⟩ := runDenoiser_ok h hvalid hm hfirst
    rw [runAll_cons_of_ok hm hfirst]
    exact .cons h hm hfresh hmoved rfl hkeeps hplan hstores
      (ih hmoved.sound hkeeps.valid (hmembers.moved hmoved) hrest)

-- The identifiers of a frame name different denoisers.
theorem positions_ok {seen positions : List Nat} {identifiers : List Identifier}
    (h : p.positions seen identifiers = .ok positions) :
    ∃ members, p.Members members ∧ positions = members.map Prod.fst ∧
      identifiers = members.map (·.2.identifier) ∧ ∀ i ∈ positions, i ∉ seen := by
  induction identifiers generalizing seen positions with
  | nil =>
    cases h
    exact ⟨[], ⟨by simp, by simp⟩, rfl, rfl, by simp⟩
  | cons identifier rest ih =>
    unfold Planner.positions at h
    split at h
    · cases h
    rename_i i hi
    split at h
    · cases h
    rename_i hunseen
    cases hrest : p.positions (i :: seen) rest with
    | error e => simp [hrest, Except.map] at h
    | ok others =>
      simp only [hrest, Except.map, Except.ok.injEq] at h
      subst h
      obtain ⟨d, hd, rfl⟩ := position?_eq_some hi
      obtain ⟨members, hmembers, rfl, rfl, hothers⟩ := ih hrest
      refine ⟨(i, d) :: members, ⟨?_, ?_⟩, rfl, rfl, ?_⟩
      · intro m hm
        rcases List.mem_cons.mp hm with rfl | hm
        · exact hd
        · exact hmembers.1 m hm
      · rw [List.map_cons, List.nodup_cons]
        exact ⟨fun hmem => hothers i hmem List.mem_cons_self, hmembers.2⟩
      · intro j hj
        rcases List.mem_cons.mp hj with rfl | hj
        · simpa using hunseen
        · exact fun hmem => hothers j hj (List.mem_cons_of_mem _ hmem)

-- The dispatches of a frame are those of its denoisers, each as it would be alone.
theorem frame_ok {policy : MemoryPolicy} {identifiers : List Identifier} {frame : Frame}
    (h : p.Sound store flipped) (hframe : (p.frame policy identifiers).result = .ok frame) :
    ∃ members plans, p.Members members ∧ identifiers = members.map (·.2.identifier) ∧
      Ran { p with scratch := p.scratch.clear } (p.frame policy identifiers).planner store flipped
        members plans ∧
      frame = (p.frame policy identifiers).planner.frameOf plans := by
  unfold Planner.frame at hframe ⊢
  split at hframe
  · cases hframe
  rename_i positions hpositions
  obtain ⟨members, hmembers, rfl, hidentifiers, -⟩ := positions_ok hpositions
  dsimp only at hframe ⊢
  cases hrun : ({ p with scratch := p.scratch.clear }.runAll policy
      (members.map Prod.fst)).result with
  | error e => simp [hrun, Except.map] at hframe
  | ok plans =>
    simp only [hrun, Except.map, Except.ok.injEq] at hframe
    refine ⟨members, plans, hmembers, hidentifiers, ?_, hframe.symm⟩
    exact runAll_ok (h.withScratch _) (Nat.zero_le _) hmembers hrun

end Planner

end DenoisePlanner
