import DenoisePlanner.Proofs.Room

namespace DenoisePlanner

-- The scratch memory could not grow.
def Failure.IsOutOfMemory (failure : Failure) : Prop := ∃ size, failure = .outOfMemory size

namespace ScratchBuffer

variable {b : ScratchBuffer} {policy : MemoryPolicy} {failure : Failure}

theorem grownCapacity_error {required : Nat} (h : grownCapacity required = .error failure) :
    failure.IsOutOfMemory := by
  unfold grownCapacity at h
  dsimp only at h
  split at h
  · cases h
    exact ⟨_, rfl⟩
  · split at h
    · cases h
      exact ⟨_, rfl⟩
    · cases h

theorem reserve_error {required : Nat} (h : (b.reserve policy required).result = .error failure) :
    failure.IsOutOfMemory := by
  unfold reserve at h
  split at h
  · cases h
  · split at h
    · rename_i e hgrown
      cases h
      exact grownCapacity_error hgrown
    · split at h
      · cases h
      · cases h
        exact ⟨_, rfl⟩

theorem push_error {chunks : List ByteArray} (h : (b.push policy chunks).result = .error failure) :
    failure.IsOutOfMemory := by
  unfold push at h
  dsimp only at h
  split at h
  · cases h
  · split at h
    · rename_i e hroom
      cases h
      exact reserve_error hroom
    · cases h

theorem pushAll_error {blocks : List (List ByteArray)}
    (h : (b.pushAll policy blocks).result = .error failure) : failure.IsOutOfMemory := by
  induction blocks generalizing b with
  | nil => cases h
  | cons block blocks ih =>
    cases hfirst : (b.push policy block).result with
    | error e =>
      rw [pushAll_cons_of_error hfirst] at h
      cases h
      exact push_error hfirst
    | ok place =>
      rw [pushAll_cons_of_ok hfirst] at h
      exact ih (map_eq_error_iff.mp h)

end ScratchBuffer

namespace Planner

variable {p : Planner} {policy : MemoryPolicy} {i : Nat} {d : DenoiserState}
  {identifiers : List Identifier} {failure : Failure}

theorem runDenoiser_error (h : (p.runDenoiser policy i d).result = .error failure) :
    failure.IsOutOfMemory := by
  unfold runDenoiser at h
  dsimp only at h
  split at h
  · rename_i e hplaces
    cases h
    exact ScratchBuffer.pushAll_error hplaces
  · cases h

theorem runAll_error {positions : List Nat}
    (h : (p.runAll policy positions).result = .error failure) : failure.IsOutOfMemory := by
  induction positions generalizing p with
  | nil => cases h
  | cons i rest ih =>
    cases hi : p.denoisers[i]? with
    | none =>
      rw [runAll_cons_of_none hi] at h
      exact ih h
    | some d =>
      cases hfirst : (p.runDenoiser policy i d).result with
      | error e =>
        rw [runAll_cons_of_error hi hfirst] at h
        cases h
        exact runDenoiser_error hfirst
      | ok placed =>
        rw [runAll_cons_of_ok hi hfirst] at h
        exact ih (map_eq_error_iff.mp h)

-- A frame is refused for want of memory, or for its identifiers before anything is done.
theorem frame_error (h : (p.frame policy identifiers).result = .error failure) :
    failure.IsOutOfMemory ∨ (p.frame policy identifiers).planner = p := by
  unfold Planner.frame at h ⊢
  split at h
  · exact .inr rfl
  · rename_i positions hpositions
    dsimp only at h
    exact .inl (runAll_error (map_eq_error_iff.mp h))

end Planner

end DenoisePlanner
