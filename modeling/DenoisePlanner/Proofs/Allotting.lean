import DenoisePlanner.Proofs.Growth
import DenoisePlanner.Pipeline.Blueprint

namespace DenoisePlanner

namespace Allotting

open Declaring

variable {s s' : Allotment} {texture : Texture} {slot : Slot}

theorem addPermanent_ok (h : addPermanent texture s = .ok slot s') :
    slot = .permanent s.claims.permanentCount ∧ s.pools.permanent.size < Pools.capacity ∧
      s' = ⟨{ s.pools with permanent := s.pools.permanent.push texture },
        { s.claims with permanentCount := s.claims.permanentCount + 1 }⟩ := by
  simp only [addPermanent, bind_eq_ok_iff, get_eq_ok_iff, guard_eq_ok_iff, modifyGet_eq_ok_iff,
    Prod.mk.injEq] at h
  obtain ⟨_, _, ⟨rfl, rfl⟩, hroom, rfl, rfl⟩ := h
  exact ⟨rfl, Nat.lt_of_not_le hroom, rfl⟩

theorem claimTransient_ok {i : Nat} (h : claimTransient i s = .ok slot s') :
    slot = .transient s.claims.transient.size ∧
      s' = ⟨s.pools, { s.claims with transient := s.claims.transient.push i }⟩ := by
  simp only [claimTransient, modifyGet_eq_ok_iff, Prod.mk.injEq] at h
  exact ⟨h.1.symm, h.2.symm⟩

theorem lt_of_reusable {pools : Pools} {claims : Claims} {i : Nat}
    (h : pools.reusable claims texture i = true) :
    i < pools.transient.size ∧ i ∉ claims.transient := by
  simp only [Pools.reusable, Bool.and_eq_true, beq_iff_eq, Bool.not_eq_true'] at h
  exact ⟨(Array.getElem?_eq_some_iff.mp h.1).1, by simpa using h.2⟩

-- A texture is either found in the pool or added to it.
theorem addTransient_cases (h : addTransient texture s = .ok slot s') :
    slot = .transient s.claims.transient.size ∧
      ((∃ i, s.pools.firstReusable s.claims texture = some i ∧
        s' = ⟨s.pools, { s.claims with transient := s.claims.transient.push i }⟩) ∨
      s.pools.firstReusable s.claims texture = none ∧
        s.pools.transient.size < Pools.capacity ∧
        s' = ⟨{ s.pools with transient := s.pools.transient.push texture },
          { s.claims with transient := s.claims.transient.push s.pools.transient.size }⟩) := by
  simp only [addTransient, bind_eq_ok_iff, get_eq_ok_iff] at h
  obtain ⟨_, _, ⟨rfl, rfl⟩, h⟩ := h
  cases hreuse : s.pools.firstReusable s.claims texture with
  | some i =>
    simp only [hreuse] at h
    obtain ⟨hslot, hs'⟩ := claimTransient_ok h
    exact ⟨hslot, .inl ⟨i, rfl, hs'⟩⟩
  | none =>
    simp only [hreuse, guard_eq_ok_iff, bind_eq_ok_iff, modify_eq_ok_iff] at h
    obtain ⟨hroom, _, _, rfl, hclaim⟩ := h
    obtain ⟨hslot, hs'⟩ := claimTransient_ok hclaim
    exact ⟨hslot, .inr ⟨rfl, Nat.lt_of_not_le hroom, hs'⟩⟩

-- A texture that was claimed before is not claimed again: it is no candidate, and a texture
-- beyond the end of the pool is new.
theorem addTransient_ok (hclaims : ∀ i ∈ s.claims.transient, i < s.pools.transient.size)
    (h : addTransient texture s = .ok slot s') :
    ∃ i transient, s' = ⟨{ s.pools with transient := transient },
        { s.claims with transient := s.claims.transient.push i }⟩ ∧
      i ∉ s.claims.transient ∧ i < transient.size ∧ s.pools.transient.size ≤ transient.size := by
  obtain ⟨-, ⟨i, hreuse, rfl⟩ | ⟨-, -, rfl⟩⟩ := addTransient_cases h
  · obtain ⟨hlt, hfresh⟩ := lt_of_reusable (List.find?_some hreuse)
    exact ⟨i, s.pools.transient, rfl, hfresh, hlt, Nat.le_refl _⟩
  · refine ⟨s.pools.transient.size, s.pools.transient.push texture, rfl, ?_, by simp, by simp⟩
    intro hmem
    exact Nat.lt_irrefl _ (hclaims _ hmem)

end Allotting

namespace Declaring

variable {d d' : Draft}

theorem onPools_ok {α : Type} {x : Allotting α} {a : α} (h : onPools x d = .ok a d') :
    ∃ s, x ⟨d.tables.pools, d.denoiser.claims⟩ = .ok a s ∧
      d' = ⟨{ d.tables with pools := s.pools }, { d.denoiser with claims := s.claims }⟩ := by
  unfold onPools at h
  dsimp only at h
  split at h
  · rename_i s hx
    cases h
    exact ⟨s, hx, rfl⟩
  · cases h

-- A draft that has been allotted textures.
def withPools (d : Draft) (pools : Pools) (claims : Claims) : Draft where
  tables := { d.tables with pools := pools }
  denoiser := { d.denoiser with claims := claims }

theorem onPools_eq_ok {α : Type} {x : Allotting α} {a : α} {pools : Pools} {claims : Claims}
    (h : x ⟨d.tables.pools, d.denoiser.claims⟩ = .ok a ⟨pools, claims⟩) :
    onPools x d = .ok a (withPools d pools claims) := by
  simp only [onPools, h, withPools]

theorem forM_addPermanent_ok {textures : List Texture}
    (hroom : d.tables.pools.permanent.size ≤ Pools.capacity)
    (h : textures.forM (fun t => discard (addPermanent t)) d = .ok ⟨⟩ d') :
    d' = withPools d
        { d.tables.pools with permanent := d.tables.pools.permanent ++ textures.toArray }
        { d.denoiser.claims with
          permanentCount := d.denoiser.claims.permanentCount + textures.length } ∧
      d.tables.pools.permanent.size + textures.length ≤ Pools.capacity := by
  refine forM_ok (P := fun done d₁ => d₁ = withPools d
      { d.tables.pools with permanent := d.tables.pools.permanent ++ done.toArray }
      { d.denoiser.claims with
        permanentCount := d.denoiser.claims.permanentCount + done.length } ∧
    d.tables.pools.permanent.size + done.length ≤ Pools.capacity) ?_
    ⟨by simp [withPools], by simpa using hroom⟩ h
  rintro done texture _ d₂ ⟨rfl, -⟩ hadd
  obtain ⟨slot, hadd⟩ := discard_eq_ok_iff.mp hadd
  obtain ⟨s, hs, rfl⟩ := onPools_ok hadd
  obtain ⟨-, hroom', rfl⟩ := Allotting.addPermanent_ok hs
  simp only [withPools, Array.size_append, List.size_toArray] at hroom' ⊢
  refine ⟨?_, by simp only [List.length_append, List.length_singleton]; omega⟩
  simp [Nat.add_assoc]

-- The claims of a denoiser that has asked for transient textures: as many as it asked for, no
-- two of them the same.
structure Granted (d d' : Draft) (textures : List Texture) : Prop where
  eq : ∃ transient claimed, d' = withPools d
    { d.tables.pools with transient := transient } { d.denoiser.claims with transient := claimed }
  size : d'.denoiser.claims.transient.size = d.denoiser.claims.transient.size + textures.length
  nodup : d'.denoiser.claims.transient.toList.Nodup
  lt : ∀ i ∈ d'.denoiser.claims.transient, i < d'.tables.pools.transient.size

theorem forM_addTransient_ok {textures : List Texture}
    (hnodup : d.denoiser.claims.transient.toList.Nodup)
    (hlt : ∀ i ∈ d.denoiser.claims.transient, i < d.tables.pools.transient.size)
    (h : textures.forM (fun t => discard (addTransient t)) d = .ok ⟨⟩ d') :
    Granted d d' textures := by
  refine forM_ok (P := fun done d₁ => Granted d d₁ done) ?_
    ⟨⟨d.tables.pools.transient, d.denoiser.claims.transient, rfl⟩, rfl, hnodup, hlt⟩ h
  rintro done texture d₁ d₂ hd hadd
  obtain ⟨slot, hadd⟩ := discard_eq_ok_iff.mp hadd
  obtain ⟨s, hs, rfl⟩ := onPools_ok hadd
  obtain ⟨i, transient, rfl, hfresh, hi, hle⟩ := Allotting.addTransient_ok hd.lt hs
  obtain ⟨transient₁, claimed₁, heq⟩ := hd.eq
  refine ⟨⟨transient, d₁.denoiser.claims.transient.push i, ?_⟩, ?_, ?_, ?_⟩
  · rw [heq]
    rfl
  · simp [hd.size, Nat.add_assoc]
  · rw [Array.toList_push, List.nodup_append]
    refine ⟨hd.nodup, by simp, fun x hx y hy hxy => ?_⟩
    rw [List.mem_singleton.mp hy] at hxy
    exact hfresh (hxy ▸ Array.mem_def.mpr hx)
  · intro j hj
    rcases Array.mem_push.mp hj with hj | rfl
    · exact Nat.lt_of_lt_of_le (hd.lt j hj) hle
    · exact hi

end Declaring

end DenoisePlanner
