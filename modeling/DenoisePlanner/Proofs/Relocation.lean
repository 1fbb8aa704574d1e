import DenoisePlanner.Proofs.Alone
import DenoisePlanner.Proofs.Hazard

namespace DenoisePlanner

-- Where the pooled textures of one planner are found in another. No two become one.
structure Relocation where
  offset : Nat
  rename : Nat → Nat
  rename_injective : Function.Injective rename

namespace Relocation

-- What the host provides stays what it is.
def resource (m : Relocation) (r : BoundResource) : BoundResource :=
  match r.kind with
  | .permanentPool => { r with index := r.index + m.offset }
  | .transientPool => { r with index := m.rename r.index }
  | _ => r

def outline (m : Relocation) (x : Outline) : Outline :=
  { x with resources := x.resources.map m.resource }

end Relocation

namespace Claims

-- No transient texture of a denoiser lies beyond this position.
def last (claims : Claims) : Nat := claims.transient.toList.max?.getD 0

-- The positions that the slots of a denoiser stand for. Numbers that are no slots lead beyond all
-- of them.
def rename (claims : Claims) (i : Nat) : Nat :=
  claims.transient[i]?.getD (claims.last + i + 1)

theorem rename_of_lt {claims : Claims} {i : Nat} (hi : i < claims.transient.size) :
    claims.rename i = claims.transient[i] := by
  simp [rename, hi]

theorem rename_of_le {claims : Claims} {i : Nat} (hi : claims.transient.size ≤ i) :
    claims.rename i = claims.last + i + 1 := by
  simp [rename, Nat.not_lt_of_le hi]

theorem rename_injective {claims : Claims} (hnodup : claims.transient.toList.Nodup) :
    Function.Injective claims.rename := by
  have hslot {i : Nat} (hi : i < claims.transient.size) :
      claims.rename i ≤ claims.last := by
    rw [rename_of_lt hi]
    exact List.le_max?_getD_of_mem (Array.getElem_mem_toList hi)
  intro i j heq
  by_cases hi : i < claims.transient.size <;> by_cases hj : j < claims.transient.size
  · rw [rename_of_lt hi, rename_of_lt hj] at heq
    have hget : claims.transient.toList[i] = claims.transient.toList[j] := heq
    exact hnodup.getElem_inj_iff.mp hget
  · have := hslot hi
    have := rename_of_le (Nat.le_of_not_lt hj)
    omega
  · have := hslot hj
    have := rename_of_le (Nat.le_of_not_lt hi)
    omega
  · have := rename_of_le (Nat.le_of_not_lt hi)
    have := rename_of_le (Nat.le_of_not_lt hj)
    omega

def relocation (claims : Claims) (hnodup : claims.transient.toList.Nodup) : Relocation where
  offset := claims.base
  rename := claims.rename
  rename_injective := rename_injective hnodup

variable {claims : Claims} {b : Blueprint} {flipped : Bool}

-- A denoiser finds each of its textures where it was, but for the relocation.
theorem relocation_bound (hnodup : claims.transient.toList.Nodup)
    (hcount : claims.transient.size = b.transient.length) {r : Reference}
    (hr : claims.Holds (r.location flipped)) (access : Access) :
    (claims.relocation hnodup).resource (b.claims.bound flipped access r) =
      claims.bound flipped access r := by
  unfold bound
  generalize r.location flipped = location at hr ⊢
  cases location with
  | host kind =>
    have hkind : kind.isPool = false := hr
    cases kind with
    | input kind => rfl
    | output kind => rfl
    | transientPool => cases hkind
    | permanentPool => cases hkind
  | slot s =>
    cases s with
    | permanent i =>
      simp only [place, Blueprint.claims, Relocation.resource, relocation, Nat.zero_add]
      rw [Nat.add_comm]
    | transient i =>
      have hi : i < claims.transient.size := hr
      have hrange : (Array.range b.transient.length)[i]?.getD 0 = i := by simp [← hcount, hi]
      simp only [place, Blueprint.claims, Relocation.resource, relocation, hrange, rename_of_lt hi]
      simp [hi]

theorem map_relocation_allBound (hnodup : claims.transient.toList.Nodup)
    (hcount : claims.transient.size = b.transient.length) {bindings : Bindings}
    (hholds : ∀ r ∈ bindings.inputs ++ bindings.outputs, claims.Holds (r.location flipped)) :
    (b.claims.allBound flipped bindings).map (claims.relocation hnodup).resource =
      claims.allBound flipped bindings := by
  unfold allBound
  rw [List.map_append, List.map_map, List.map_map]
  congr 1
  · exact List.map_congr_left fun r hr =>
      relocation_bound hnodup hcount (hholds r (List.mem_append_left _ hr)) .read
  · exact List.map_congr_left fun r hr =>
      relocation_bound hnodup hcount (hholds r (List.mem_append_right _ hr)) .write

end Claims

-- Two denoisers with a common history, one of them alone, emit the same up to relocation.
theorem DenoiserState.map_relocation_outline {tables : Declarations} {e : DenoiserState}
    {layout : DenoiserLayout} {flipped : Bool} (h : Installed tables e.variant layout flipped)
    (halone : e.layout.claims = e.variant.blueprint.claims) (s : FrameSettings)
    (store : ShaderStore) :
    ((e.emissions s).map (e.outline s store flipped)).map
        (layout.claims.relocation h.nodup).outline =
      (({ e with layout } : DenoiserState).emissions s).map
        (({ e with layout } : DenoiserState).outline s store flipped) := by
  rw [List.map_map]
  refine List.map_congr_left fun em hem => ?_
  have hholds : ∀ r ∈ em.bindings.inputs ++ em.bindings.outputs,
      layout.claims.Holds (r.location flipped) :=
    fun r hr => h.holds (Emission.pass_mem_of_mem_all hem) hr
  have hresources := Claims.map_relocation_allBound h.nodup h.transientCount hholds
  simp only [Function.comp_apply, Relocation.outline, outline, halone, hresources]
  rfl

end DenoisePlanner
