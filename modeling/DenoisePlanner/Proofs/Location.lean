import DenoisePlanner.Proofs.Declared
import Mathlib.Data.List.Nodup

namespace DenoisePlanner

-- Where a reference leads within its denoiser: to a texture of the host, or to a slot.
inductive Location where
  | host (kind : ResourceKind)
  | slot (slot : Slot)
  deriving DecidableEq

-- The two slots of a swapping pair trade places in every other frame.
def Reference.location (flipped : Bool) : Reference → Location
  | .host kind => .host kind
  | .pooled slot => .slot slot
  | .swapping current other => .slot (if flipped then other else current)

namespace Claims

def place (claims : Claims) : Location → ResourceKind × Nat
  | .host kind => (kind, 0)
  | .slot (.permanent i) => (.permanentPool, claims.base + i)
  | .slot (.transient i) => (.transientPool, claims.transient[i]?.getD 0)

-- The location is a texture of the host, or a slot that has been claimed.
def Holds (claims : Claims) : Location → Prop
  | .host kind => kind.isPool = false
  | .slot (.permanent i) => i < claims.permanentCount
  | .slot (.transient i) => i < claims.transient.size

-- Different locations are different textures, as no slot was claimed twice.
theorem place_inj {claims : Claims} (hnodup : claims.transient.toList.Nodup) {x y : Location}
    (hx : claims.Holds x) (hy : claims.Holds y) (h : claims.place x = claims.place y) : x = y := by
  cases x with
  | host k =>
    cases y with
    | host k' => simpa [place] using h
    | slot s =>
      -- a host's texture is in no pool
      cases s with
      | permanent i => cases (Prod.mk.inj h).1 ▸ hx
      | transient i => cases (Prod.mk.inj h).1 ▸ hx
  | slot s =>
    cases y with
    | host k' =>
      cases s with
      | permanent i => cases (Prod.mk.inj h).1 ▸ hy
      | transient i => cases (Prod.mk.inj h).1 ▸ hy
    | slot s' =>
      cases s with
      | permanent i =>
        cases s' with
        | permanent j => simpa [place] using h
        | transient j => simp [place] at h
      | transient i =>
        cases s' with
        | permanent j => simp [place] at h
        | transient j =>
          have hi : i < claims.transient.size := hx
          have hj : j < claims.transient.size := hy
          simp only [place, Prod.mk.injEq, true_and, Array.getElem?_eq_getElem hi,
            Array.getElem?_eq_getElem hj, Option.getD_some] at h
          have hget : claims.transient.toList[i] = claims.transient.toList[j] := h
          rw [hnodup.getElem_inj_iff.mp hget]

-- What a reference is bound to, given whether the pairs of its denoiser have traded places.
def bound (claims : Claims) (flipped : Bool) (access : Access) (r : Reference) : BoundResource :=
  let (kind, index) := claims.place (r.location flipped)
  ⟨kind, index, access⟩

-- Inputs come before outputs.
def allBound (claims : Claims) (flipped : Bool) (b : Bindings) : List BoundResource :=
  b.inputs.map (claims.bound flipped .read) ++ b.outputs.map (claims.bound flipped .write)

-- All pairs between textures of one denoiser are in the same phase.
def InPhase (claims : Claims) (swaps : SwapTable) (flipped : Bool) : Prop :=
  ∀ pair ∈ swaps.pairs, claims.Owns pair.first → pair.swapped = flipped

end Claims

theorem SwapTable.find?_eq_some {t : SwapTable} {a b entry : Nat}
    (h : t.find? a b = some entry) :
    ∃ pair, t.pairs[entry]? = some pair ∧
      ((pair.first = a ∧ pair.second = b) ∨ (pair.first = b ∧ pair.second = a)) := by
  obtain ⟨hlt, hjoins, -⟩ := Array.findIdx?_eq_some_iff_getElem.mp h
  refine ⟨t.pairs[entry], Array.getElem?_eq_getElem hlt, ?_⟩
  simpa [SwapPair.joins] using hjoins

-- The side of a pair that is bound in the current phase.
theorem SwapPair.resolve_eq {pair : SwapPair} {a b : Nat}
    (h : (pair.first = a ∧ pair.second = b) ∨ (pair.first = b ∧ pair.second = a)) :
    pair.resolve a = if pair.swapped then b else a := by
  unfold resolve
  rcases h with ⟨rfl, rfl⟩ | ⟨rfl, rfl⟩
  · simp
  · by_cases he : pair.second = pair.first <;> simp [he]

namespace Claims

variable {claims : Claims} {swaps : SwapTable} {flipped : Bool} {access : Access} {r : Reference}
  {binding : Binding}

theorem place_of_resolve_ok {s : Slot} {resolved : ResourceKind × Nat}
    (h : claims.resolve s = .ok resolved) : claims.place (.slot s) = resolved := by
  cases s with
  | permanent i =>
    obtain ⟨-, hkind, hindex⟩ := resolve_permanent_ok h
    rw [place, ← hkind, ← hindex]
  | transient i =>
    simp only [resolve] at h
    split at h
    · rename_i index hindex
      cases h
      simp [place, hindex]
    · cases h

theorem holds_of_resolve_ok {s : Slot} {resolved : ResourceKind × Nat}
    (h : claims.resolve s = .ok resolved) : claims.Holds (.slot s) := by
  cases s with
  | permanent i => exact (resolve_permanent_ok h).1
  | transient i =>
    simp only [resolve] at h
    split at h
    · rename_i index hindex
      exact (Array.getElem?_eq_some_iff.mp hindex).1
    · cases h

-- The current roles lead a binding to the texture where its reference is.
theorem resolve_binding (hphase : claims.InPhase swaps flipped)
    (h : claims.binding? swaps access r = some binding) :
    binding.resolve swaps = claims.bound flipped access r := by
  cases r with
  | host kind =>
    cases h
    rfl
  | pooled s =>
    simp only [binding?] at h
    split at h
    · rename_i kind index hs
      cases h
      simp [bound, Reference.location, place_of_resolve_ok hs, Binding.resolve]
    · cases h
  | swapping current other =>
    cases current with
    | transient i => simp [binding?] at h
    | permanent i =>
      cases other with
      | transient j => simp [binding?] at h
      | permanent j =>
        simp only [binding?] at h
        split at h
        · rename_i hij
          obtain ⟨entry, hentry, rfl⟩ := Option.map_eq_some_iff.mp h
          obtain ⟨pair, hpair, hsides⟩ := SwapTable.find?_eq_some hentry
          have howns : claims.Owns pair.first := by
            rcases hsides with ⟨hfirst, -⟩ | ⟨hfirst, -⟩
            · exact hfirst ▸ owns_base_add hij.1
            · exact hfirst ▸ owns_base_add hij.2
          have hswapped := hphase pair (Array.mem_of_getElem? hpair) howns
          simp only [Binding.resolve, SwapTable.resolve, hpair, SwapPair.resolve_eq hsides,
            hswapped, bound, Reference.location]
          cases flipped <;> rfl
        · cases h

-- A reference that could be bound leads to a texture of its denoiser or of the host.
theorem holds_of_binding? (h : claims.binding? swaps access r = some binding)
    (hhost : ∀ kind, r = .host kind → kind.isPool = false) : claims.Holds (r.location flipped) := by
  cases r with
  | host kind => exact hhost kind rfl
  | pooled s =>
    simp only [binding?] at h
    split at h
    · exact holds_of_resolve_ok ‹_›
    · cases h
  | swapping current other =>
    cases current with
    | transient i => simp [binding?] at h
    | permanent i =>
      cases other with
      | transient j => simp [binding?] at h
      | permanent j =>
        simp only [binding?] at h
        split at h
        · rename_i hij
          cases flipped
          · exact hij.1
          · exact hij.2
        · cases h

theorem resolve_bindings {b : Bindings} {bs : List Binding}
    (hphase : claims.InPhase swaps flipped) (h : bs.map some = claims.bindings swaps b) :
    bs.map (Binding.resolve swaps) = claims.allBound flipped b := by
  have hside {access : Access} {refs : List Reference} {bs : List Binding}
      (h : bs.map some = refs.map (claims.binding? swaps access)) :
      bs.map (Binding.resolve swaps) = refs.map (claims.bound flipped access) := by
    induction refs generalizing bs with
    | nil => simpa using h
    | cons r refs ih =>
      cases bs with
      | nil => cases h
      | cons b bs =>
        simp only [List.map_cons, List.cons.injEq] at h ⊢
        exact ⟨resolve_binding hphase h.1.symm, ih h.2⟩
  obtain ⟨xs, ys, rfl, hx, hy⟩ := List.map_eq_append_iff.mp h
  rw [List.map_append, hside hx, hside hy]
  rfl

end Claims

end DenoisePlanner
