import DenoisePlanner.Shader.Key

namespace DenoisePlanner

namespace Define

variable {a b c : Define}

theorem le_iff : a.le b = true ↔ a.name < b.name ∨ a.name = b.name ∧ a.value ≤ b.value := by
  simp [le]

theorem le_trans (hab : a.le b = true) (hbc : b.le c = true) : a.le c = true := by
  rw [le_iff] at hab hbc ⊢
  rcases hab with hab | ⟨hab, hvalue⟩
  · rcases hbc with hbc | ⟨hbc, -⟩
    · exact .inl (String.lt_trans hab hbc)
    · exact .inl (hbc ▸ hab)
  · rcases hbc with hbc | ⟨hbc, hvalue'⟩
    · exact .inl (hab ▸ hbc)
    · exact .inr ⟨hab.trans hbc, String.le_trans hvalue hvalue'⟩

theorem le_total (a b : Define) : (a.le b || b.le a) = true := by
  rw [Bool.or_eq_true, le_iff, le_iff]
  by_cases hab : a.name < b.name
  · exact .inl (.inl hab)
  by_cases hba : b.name < a.name
  · exact .inr (.inl hba)
  have hname : a.name = b.name :=
    String.le_antisymm (String.not_lt.mp hba) (String.not_lt.mp hab)
  rcases String.le_total a.value b.value with hvalue | hvalue
  · exact .inl (.inr ⟨hname, hvalue⟩)
  · exact .inr (.inr ⟨hname.symm, hvalue⟩)

-- Names alone would not do: defines that share a name still differ in their values.
theorem le_antisymm (hab : a.le b = true) (hba : b.le a = true) : a = b := by
  rw [le_iff] at hab hba
  rcases hab with hab | ⟨hname, hvalue⟩
  · rcases hba with hba | ⟨hba, -⟩
    · exact absurd (String.lt_trans hab hba) (String.lt_irrefl a.name)
    · exact absurd (hba ▸ hab) (String.lt_irrefl a.name)
  · rcases hba with hba | ⟨-, hvalue'⟩
    · exact absurd (hname ▸ hba) (String.lt_irrefl a.name)
    · obtain ⟨name, value⟩ := a
      obtain rfl : name = b.name := hname
      obtain rfl : value = b.value := String.le_antisymm hvalue hvalue'
      rfl

-- Sorted defines are told apart by what they hold alone.
theorem eq_of_perm {xs ys : List Define} (hx : xs.Pairwise fun a b => a.le b = true)
    (hy : ys.Pairwise fun a b => a.le b = true) (h : xs.Perm ys) : xs = ys :=
  h.eq_of_pairwise (fun _ _ _ _ hab hba => le_antisymm hab hba) hx hy

end Define

namespace ShaderKey

-- The same shader under the same defines, each as often, in whatever order.
structure Alike (a b : ShaderKey) : Prop where
  name : a.name = b.name
  defines : a.defines.Perm b.defines

instance (a b : ShaderKey) : Decidable (a.Alike b) :=
  decidable_of_iff (a.name = b.name ∧ a.defines.Perm b.defines)
    ⟨fun ⟨hname, hdefines⟩ => ⟨hname, hdefines⟩, fun ⟨hname, hdefines⟩ => ⟨hname, hdefines⟩⟩

variable {a b : ShaderKey}

theorem pairwise_canonical (key : ShaderKey) :
    key.canonical.defines.Pairwise fun a b => a.le b = true := by
  rw [canonical]
  exact List.pairwise_mergeSort (fun a b c => @Define.le_trans a b c) Define.le_total key.defines

theorem perm_canonical (key : ShaderKey) : key.canonical.defines.Perm key.defines :=
  List.mergeSort_perm key.defines Define.le

-- The order of the defines is all that the canonical form forgets.
theorem canonical_eq_iff : a.canonical = b.canonical ↔ a.Alike b := by
  constructor
  · intro h
    have hname : a.canonical.name = b.canonical.name := by rw [h]
    have hdefines : a.canonical.defines = b.canonical.defines := by rw [h]
    exact ⟨hname, a.perm_canonical.symm.trans (hdefines ▸ b.perm_canonical)⟩
  · intro h
    have hperm : a.canonical.defines.Perm b.canonical.defines :=
      a.perm_canonical.trans (h.defines.trans b.perm_canonical.symm)
    have hdefines : a.canonical.defines = b.canonical.defines :=
      Define.eq_of_perm a.pairwise_canonical b.pairwise_canonical hperm
    calc a.canonical
      _ = ⟨a.name, a.canonical.defines⟩ := rfl
      _ = b.canonical := by rw [h.name, hdefines, canonical]

theorem canonical_canonical (key : ShaderKey) : key.canonical.canonical = key.canonical :=
  canonical_eq_iff.mpr ⟨rfl, key.perm_canonical⟩

end ShaderKey

end DenoisePlanner
