import DenoisePlanner.Proofs.Outline

namespace DenoisePlanner

namespace BoundResource

-- The texture itself, however it is reached.
def texture (r : BoundResource) : ResourceKind × Nat := (r.kind, r.index)

-- The textures that are bound with a given access, in their order.
def reached (access : Access) (resources : List BoundResource) : List (ResourceKind × Nat) :=
  (resources.filter (·.access = access)).map texture

end BoundResource

namespace Dispatch

def reads (x : Dispatch) : List (ResourceKind × Nat) := BoundResource.reached .read x.resources

def writes (x : Dispatch) : List (ResourceKind × Nat) := BoundResource.reached .write x.resources

end Dispatch

-- What one denoiser contributes to a frame.
def Frame.share (frame : Frame) (identifier : Identifier) : List Dispatch :=
  frame.dispatches.filter (·.identifier = identifier)

namespace Claims

variable (claims : Claims) (flipped : Bool)

-- The texture that a reference leads to.
def texture (r : Reference) : ResourceKind × Nat := claims.place (r.location flipped)

theorem reached_map_bound_self (access : Access) (refs : List Reference) :
    BoundResource.reached access (refs.map (claims.bound flipped access)) =
      refs.map (claims.texture flipped) := by
  induction refs with
  | nil => rfl
  | cons r rs ih =>
    simp only [BoundResource.reached, List.map_cons] at ih ⊢
    rw [List.filter_cons_of_pos (by simp [bound]), List.map_cons, ih]
    rfl

theorem reached_map_bound_of_ne {access other : Access} (hne : other ≠ access)
    (refs : List Reference) :
    BoundResource.reached access (refs.map (claims.bound flipped other)) = [] := by
  rw [BoundResource.reached, List.filter_eq_nil_iff.mpr, List.map_nil]
  intro x hx
  obtain ⟨r, -, rfl⟩ := List.mem_map.mp hx
  exact mt of_decide_eq_true hne

theorem reached_allBound_read (b : Bindings) :
    BoundResource.reached .read (claims.allBound flipped b) =
      b.inputs.map (claims.texture flipped) := by
  have happend := List.filter_append (p := (·.access = .read))
    (b.inputs.map (claims.bound flipped .read)) (b.outputs.map (claims.bound flipped .write))
  rw [allBound, BoundResource.reached, happend, List.map_append]
  exact (congrArg₂ _ (claims.reached_map_bound_self flipped .read b.inputs)
    (claims.reached_map_bound_of_ne flipped (by decide) b.outputs)).trans (List.append_nil _)

theorem reached_allBound_write (b : Bindings) :
    BoundResource.reached .write (claims.allBound flipped b) =
      b.outputs.map (claims.texture flipped) := by
  have happend := List.filter_append (p := (·.access = .write))
    (b.inputs.map (claims.bound flipped .read)) (b.outputs.map (claims.bound flipped .write))
  rw [allBound, BoundResource.reached, happend, List.map_append]
  exact congrArg₂ _ (claims.reached_map_bound_of_ne flipped (by decide) b.inputs)
    (claims.reached_map_bound_self flipped .write b.outputs)

end Claims

namespace Planner

variable {p : Planner} {store : ShaderStore} {flipped : Nat → Bool}

-- What a denoiser contributes to a frame is what it emits.
structure Shares (p : Planner) (store : ShaderStore) (flipped : Nat → Bool) (frame : Frame)
    (i : Nat) (d : DenoiserState) : Prop where
  denoiser : p.denoisers[i]? = some d
  outlines : (frame.share d.identifier).map p.outline =
    (d.emissions p.settings).map (d.outline p.settings store (flipped i))

theorem outline_congr {p p' : Planner} (h : p'.inventory = p.inventory) :
    p'.outline = p.outline := by
  funext x
  simp only [outline, h]

theorem Members.identifiers_nodup {members : List (Nat × DenoiserState)} (h : p.Sound store flipped)
    (hmembers : p.Members members) : (members.map (·.2.identifier)).Nodup := by
  refine List.Nodup.map_on (fun m hm m' hm' heq => ?_) (List.Nodup.of_map Prod.fst hmembers.2)
  refine List.inj_on_of_nodup_map hmembers.2 hm hm' ?_
  exact h.roster.distinct m.1 m'.1 m.2 m'.2 (hmembers.1 m hm) (hmembers.1 m' hm') heq

-- A frame consists of the shares of its denoisers, in the order in which they were asked for.
theorem Sound.frame_shares {policy : MemoryPolicy} {identifiers : List Identifier} {frame : Frame}
    (h : p.Sound store flipped) (hframe : (p.frame policy identifiers).result = .ok frame) :
    identifiers.Nodup ∧ frame.dispatches = identifiers.flatMap frame.share ∧
      ∀ identifier ∈ identifiers, ∃ i d, d.identifier = identifier ∧
        p.Shares store flipped frame i d := by
  obtain ⟨members, plans, hmembers, rfl, hran, hplans⟩ := frame_ok h hframe
  have hnodup := hmembers.identifiers_nodup h
  have hdispatches := hran.dispatches
  rw [← hplans, outline_congr hran.inventory] at hdispatches
  have htag : ∀ m ∈ members, ∀ x : Dispatch,
      p.outline x ∈ (m.2.emissions p.settings).map (m.2.outline p.settings store (flipped m.1)) →
        x.identifier = m.2.identifier := by
    intro m _ x hx
    obtain ⟨em, -, heq⟩ := List.mem_map.mp hx
    exact (congrArg Outline.identifier heq).symm
  obtain ⟨hordered, hshares⟩ := eq_flatMap_filter htag hnodup hdispatches
  refine ⟨hnodup, hordered, fun identifier hmem => ?_⟩
  obtain ⟨m, hm, rfl⟩ := List.mem_map.mp hmem
  exact ⟨m.1, m.2, rfl, hmembers.1 m hm, hshares m hm⟩

-- So each of its dispatches is in the share of a denoiser that was asked for.
theorem Sound.exists_shares_of_mem {policy : MemoryPolicy} {identifiers : List Identifier}
    {frame : Frame} (h : p.Sound store flipped)
    (hframe : (p.frame policy identifiers).result = .ok frame) {x : Dispatch}
    (hx : x ∈ frame.dispatches) : ∃ i d, d.identifier ∈ identifiers ∧
      d.identifier = x.identifier ∧ p.Shares store flipped frame i d ∧
      x ∈ frame.share d.identifier := by
  obtain ⟨-, hordered, hshares⟩ := h.frame_shares hframe
  rw [hordered] at hx
  obtain ⟨identifier, hidentifier, hx⟩ := List.mem_flatMap.mp hx
  obtain ⟨i, d, rfl, hshare⟩ := hshares identifier hidentifier
  have htag : x.identifier = d.identifier := of_decide_eq_true (List.mem_filter.mp hx).2
  exact ⟨i, d, hidentifier, htag.symm, hshare, hx⟩

end Planner

end DenoisePlanner
