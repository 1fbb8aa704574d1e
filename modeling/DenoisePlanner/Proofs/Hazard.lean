import DenoisePlanner.Proofs.Coverage
import DenoisePlanner.Proofs.Room
import DenoisePlanner.Proofs.Share

namespace DenoisePlanner

-- What the host provides is in no pool.
def Reference.isProper : Reference → Bool
  | .host kind => !kind.isPool
  | _ => true

namespace Bindings

-- Nothing is read and written at once, and nothing is written twice.
structure HazardFree (flipped : Bool) (b : Bindings) : Prop where
  proper : ∀ r ∈ b.inputs ++ b.outputs, r.isProper = true
  apart : ∀ r ∈ b.inputs, ∀ w ∈ b.outputs, r.location flipped ≠ w.location flipped
  once : (b.outputs.map (·.location flipped)).Nodup

instance (flipped : Bool) (b : Bindings) : Decidable (b.HazardFree flipped) :=
  decidable_of_iff ((∀ r ∈ b.inputs ++ b.outputs, r.isProper = true) ∧
      (∀ r ∈ b.inputs, ∀ w ∈ b.outputs, r.location flipped ≠ w.location flipped) ∧
      (b.outputs.map (·.location flipped)).Nodup)
    ⟨fun h => ⟨h.1, h.2.1, h.2.2⟩, fun h => ⟨h.proper, h.apart, h.once⟩⟩

end Bindings

-- Every specialisation of every pass is free of hazards, in both phases of its pairs.
theorem Variant.hazardFree (v : Variant) (flipped : Bool) : ∀ e ∈ v.blueprint.schedule,
    ∀ s ∈ Specialization.all e.pass.conditions, (e.pass.bindings s).HazardFree flipped := by
  cases v <;> cases flipped <;> decide +kernel

namespace Claims

variable {claims : Claims} {swaps : SwapTable} {flipped : Bool} {access : Access} {r : Reference}
  {binding : Binding}

-- A transient texture is bound by its own slot alone.
theorem transient?_of_binding? (h : claims.binding? swaps access r = some binding)
    (hproper : r.isProper = true) {i : Nat} (hi : claims.texture flipped r = (.transientPool, i)) :
    r.transient?.isSome := by
  have hslot : (claims.place (r.location flipped)).1 = .transientPool := congrArg Prod.fst hi
  cases r with
  | host kind =>
    cases hslot
    cases hproper
  | pooled s =>
    cases s with
    | permanent j => cases hslot
    | transient j => rfl
  | swapping current other =>
    cases current with
    | transient j => simp [binding?] at h
    | permanent j =>
      cases other with
      | transient k => simp [binding?] at h
      | permanent k => cases flipped <;> cases hslot

end Claims

namespace Installed

variable {tables : Declarations} {v : Variant} {layout : DenoiserLayout} {flipped : Bool}
  {em : Emission ScheduledPass} {r : Reference}

-- All references of an emission have been bound.
theorem exists_binding (h : Installed tables v layout flipped)
    (hem : em.pass ∈ v.blueprint.schedule) (hr : r ∈ em.bindings.inputs ++ em.bindings.outputs) :
    ∃ access binding, layout.claims.binding? tables.swaps access r = some binding := by
  obtain ⟨base, he⟩ := ScheduledPass.exists_mem_place layout.dispatches.start hem
  obtain ⟨_, span, _, _, _, _, _, _, hbindings⟩ :=
    h.realizes base em.pass he em.specialization (Specialization.select_mem_all _ em.active)
  have hbound (access : Access)
      (hmem : layout.claims.binding? tables.swaps access r ∈
        layout.claims.bindings tables.swaps em.bindings) :
      ∃ binding, layout.claims.binding? tables.swaps access r = some binding := by
    have hmem : _ ∈ (span.slice tables.bindings).map some := hbindings ▸ hmem
    obtain ⟨binding, -, hbinding⟩ := List.mem_map.mp hmem
    exact ⟨binding, hbinding.symm⟩
  rcases List.mem_append.mp hr with hr | hr
  · exact ⟨.read, hbound _ (List.mem_append_left _ (List.mem_map_of_mem hr))⟩
  · exact ⟨.write, hbound _ (List.mem_append_right _ (List.mem_map_of_mem hr))⟩

theorem hazardFree_bindings (hem : em.pass ∈ v.blueprint.schedule) :
    em.bindings.HazardFree flipped :=
  v.hazardFree flipped em.pass hem em.specialization (Specialization.select_mem_all _ em.active)

theorem holds (h : Installed tables v layout flipped) (hem : em.pass ∈ v.blueprint.schedule)
    (hr : r ∈ em.bindings.inputs ++ em.bindings.outputs) :
    layout.claims.Holds (r.location flipped) := by
  obtain ⟨access, binding, hbinding⟩ := h.exists_binding hem hr
  have hfree : em.bindings.HazardFree flipped := hazardFree_bindings hem
  refine Claims.holds_of_binding? hbinding fun kind hkind => ?_
  simpa [hkind, Reference.isProper] using hfree.proper r hr

-- Different locations of a denoiser are different textures.
theorem location_of_texture_eq (h : Installed tables v layout flipped)
    (hem : em.pass ∈ v.blueprint.schedule) (hr : r ∈ em.bindings.inputs ++ em.bindings.outputs)
    {em' : Emission ScheduledPass} (hem' : em'.pass ∈ v.blueprint.schedule) {r' : Reference}
    (hr' : r' ∈ em'.bindings.inputs ++ em'.bindings.outputs)
    (heq : layout.claims.texture flipped r = layout.claims.texture flipped r') :
    r.location flipped = r'.location flipped :=
  Claims.place_inj h.nodup (h.holds hem hr) (h.holds hem' hr') heq

end Installed

namespace Dispatch

-- No texture is bound for reading and for writing, and none twice for writing.
structure HazardFree (x : Dispatch) : Prop where
  apart : ∀ texture ∈ x.reads, texture ∉ x.writes
  once : x.writes.Nodup

end Dispatch

-- Each denoiser has its dispatches in one place, in the order of the identifiers; no dispatch is
-- at odds with itself; and a transient texture is read only after its denoiser has written it.
structure Frame.HazardFree (frame : Frame) (identifiers : List Identifier) : Prop where
  distinct : identifiers.Nodup
  ordered : frame.dispatches = identifiers.flatMap frame.share
  dispatches : ∀ x ∈ frame.dispatches, x.HazardFree
  covered : ∀ pre x post, frame.dispatches = pre ++ x :: post → ∀ i,
    (.transientPool, i) ∈ x.reads →
      ∃ y ∈ pre, y.identifier = x.identifier ∧ (.transientPool, i) ∈ y.writes

namespace Planner

variable {p : Planner} {store : ShaderStore} {flipped : Nat → Bool} {frame : Frame} {i : Nat}
  {d : DenoiserState} {x : Dispatch}

theorem reads_of_outline_eq {s : FrameSettings} {flipped : Bool} {em : Emission ScheduledPass}
    (h : p.outline x = d.outline s store flipped em) :
    x.reads = em.bindings.inputs.map (d.layout.claims.texture flipped) := by
  have hresources : x.resources = d.layout.claims.allBound flipped em.bindings :=
    congrArg Outline.resources h
  rw [Dispatch.reads, hresources, Claims.reached_allBound_read]

theorem writes_of_outline_eq {s : FrameSettings} {flipped : Bool} {em : Emission ScheduledPass}
    (h : p.outline x = d.outline s store flipped em) :
    x.writes = em.bindings.outputs.map (d.layout.claims.texture flipped) := by
  have hresources : x.resources = d.layout.claims.allBound flipped em.bindings :=
    congrArg Outline.resources h
  rw [Dispatch.writes, hresources, Claims.reached_allBound_write]

theorem hazardFree_of_outline_eq (h : p.Sound store flipped) (hi : p.denoisers[i]? = some d)
    {em : Emission ScheduledPass} (hem : em ∈ d.emissions p.settings)
    (hx : p.outline x = d.outline p.settings store (flipped i) em) : x.HazardFree := by
  have hinstalled := h.roster.installed i d hi
  have hpass := Emission.pass_mem_of_mem_all hem
  have hfree : em.bindings.HazardFree (flipped i) := Installed.hazardFree_bindings hpass
  constructor
  · intro texture hread hwrite
    rw [reads_of_outline_eq hx] at hread
    rw [writes_of_outline_eq hx] at hwrite
    obtain ⟨r, hr, rfl⟩ := List.mem_map.mp hread
    obtain ⟨w, hw, heq⟩ := List.mem_map.mp hwrite
    exact hfree.apart r hr w hw (hinstalled.location_of_texture_eq hpass
      (List.mem_append_left _ hr) hpass (List.mem_append_right _ hw) heq.symm)
  · rw [writes_of_outline_eq hx]
    have hnodup := hfree.once
    refine List.Nodup.map_on (fun r hr w hw heq => ?_) (List.Nodup.of_map _ hnodup)
    exact List.inj_on_of_nodup_map hnodup hr hw (hinstalled.location_of_texture_eq hpass
      (List.mem_append_right _ hr) hpass (List.mem_append_right _ hw) heq)

-- Within the share of a denoiser, a transient texture is written before it is read.
theorem Shares.exists_writer (h : p.Sound store flipped) (hshares : p.Shares store flipped frame i d)
    {pre post : List Dispatch} (hsplit : frame.share d.identifier = pre ++ x :: post) {n : Nat}
    (hn : (.transientPool, n) ∈ x.reads) : ∃ y ∈ pre, (.transientPool, n) ∈ y.writes := by
  have hinstalled := h.roster.installed i d hshares.denoiser
  have houtlines := hshares.outlines
  rw [hsplit, List.map_append, List.map_cons] at houtlines
  obtain ⟨before, rest, hemissions, hbefore, hrest⟩ := List.map_eq_append_iff.mp houtlines.symm
  obtain ⟨em, after, rfl, hx, -⟩ := List.map_eq_cons_iff.mp hrest
  have hem : em ∈ d.emissions p.settings := by simp [hemissions]
  have hpass := Emission.pass_mem_of_mem_all hem
  rw [reads_of_outline_eq hx.symm] at hn
  obtain ⟨r, hr, htexture⟩ := List.mem_map.mp hn
  have hr' := List.mem_append_left em.bindings.outputs hr
  obtain ⟨access, binding, hbinding⟩ := hinstalled.exists_binding hpass hr'
  have hfree : em.bindings.HazardFree (flipped i) := Installed.hazardFree_bindings hpass
  have htransient := Claims.transient?_of_binding? hbinding (hfree.proper r hr') htexture
  have hbindings : (d.emissions p.settings).map Emission.bindings =
      before.map Emission.bindings ++ em.bindings :: after.map Emission.bindings := by
    rw [hemissions, List.map_append, List.map_cons]
  rcases (d.covered p.settings).exists_writer hbindings hr htransient with hnone | ⟨c, hc, hwrites⟩
  · cases hnone
  · obtain ⟨em', hem', rfl⟩ := List.mem_map.mp hc
    have hoverlap : d.outline p.settings store (flipped i) em' ∈ pre.map p.outline :=
      hbefore ▸ List.mem_map_of_mem hem'
    obtain ⟨y, hy, hyem⟩ := List.mem_map.mp hoverlap
    refine ⟨y, hy, ?_⟩
    rw [writes_of_outline_eq hyem, ← htexture]
    exact List.mem_map_of_mem hwrites

theorem Sound.hazardFree {policy : MemoryPolicy} {identifiers : List Identifier}
    (h : p.Sound store flipped) (hframe : (p.frame policy identifiers).result = .ok frame) :
    frame.HazardFree identifiers := by
  obtain ⟨hdistinct, hordered, -⟩ := h.frame_shares hframe
  refine ⟨hdistinct, hordered, fun x hx => ?_, fun pre x post hsplit n hn => ?_⟩
  · obtain ⟨i, d, -, -, hd, hx⟩ := h.exists_shares_of_mem hframe hx
    have hmem : p.outline x ∈ (frame.share d.identifier).map p.outline := List.mem_map_of_mem hx
    rw [hd.outlines] at hmem
    obtain ⟨em, hem, heq⟩ := List.mem_map.mp hmem
    exact hazardFree_of_outline_eq h hd.denoiser hem heq.symm
  · have hx : x ∈ frame.dispatches := by simp [hsplit]
    obtain ⟨i, d, -, hid, hd, -⟩ := h.exists_shares_of_mem hframe hx
    have hshare : frame.share d.identifier =
        pre.filter (·.identifier = d.identifier) ++
          x :: post.filter (·.identifier = d.identifier) := by
      rw [Frame.share, hsplit, List.filter_append, List.filter_cons_of_pos (by simp [hid])]
    obtain ⟨y, hy, hwrites⟩ := hd.exists_writer h hshare hn
    obtain ⟨hy, htag⟩ := List.mem_filter.mp hy
    exact ⟨y, hy, by simpa [hid] using htag, hwrites⟩

-- No frame of any planner, whatever was asked of it before, has a hazard.
theorem Reachable.frame_hazardFree {denoisers : List (Identifier × Variant)} {policy : MemoryPolicy}
    {identifiers : List Identifier} (h : Reachable denoisers store p)
    (hframe : (p.frame policy identifiers).result = .ok frame) : frame.HazardFree identifiers := by
  obtain ⟨flipped, hsound⟩ := h.sound
  exact hsound.hazardFree hframe

theorem Reachable.frame_hazardFree_shadowAndReference :
    ∃ p frame, Reachable shadowAndReference (fun _ _ => none) p ∧
      (p.frame (.atMost none) [⟨3⟩, ⟨7⟩]).result = .ok frame ∧ frame.HazardFree [⟨3⟩, ⟨7⟩] := by
  obtain ⟨p, frame, hcreate, hframe⟩ := exists_frame_shadowAndReference
  exact ⟨p, frame, .created hcreate, hframe, frame_hazardFree (.created hcreate) hframe⟩

end Planner

end DenoisePlanner
