import DenoisePlanner.Pipeline.Specialization

namespace DenoisePlanner.Specialization

@[simp] theorem conditions_select (conditions : List Condition) (active : Condition → Bool) :
    (select conditions active).conditions = conditions := rfl

@[simp] theorem bits_select (conditions : List Condition) (active : Condition → Bool) :
    (select conditions active).bits = bitsOf active conditions := rfl

theorem testBit_bitsOf (active : Condition → Bool) (conditions : List Condition) (i : Nat) :
    (bitsOf active conditions).testBit i = conditions[i]?.any active := by
  induction conditions generalizing i with
  | nil => simp [bitsOf]
  | cons c cs ih =>
    have hc := Bool.toNat_le (active c)
    cases i with
    | zero => cases h : active c <;> simp [bitsOf, h]
    | succ i =>
      have hhalf : ((active c).toNat + 2 * bitsOf active cs) / 2 = bitsOf active cs := by omega
      rw [bitsOf, Nat.testBit_succ, hhalf, ih, List.getElem?_cons_succ]

-- A repeated condition is no exception: all of its places carry the same bit.
theorem has_select (conditions : List Condition) (active : Condition → Bool) (c : Condition) :
    (select conditions active).has c = (decide (c ∈ conditions) && active c) := by
  unfold has
  simp only [conditions_select, bits_select]
  split
  · rename_i i hi
    obtain ⟨hlt, hc, -⟩ := List.idxOf?_eq_some_iff.mp hi
    have hmem : c ∈ conditions := hc ▸ List.getElem_mem hlt
    simp [testBit_bitsOf, hlt, hc, hmem]
  · rename_i hnone
    have hmem : c ∉ conditions := by simpa [List.idxOf?_eq_none_iff] using hnone
    simp [hmem]

theorem defines_select (conditions : List Condition) (active : Condition → Bool) :
    (select conditions active).defines = conditions.map fun c => .flag c.define (active c) := by
  refine List.map_congr_left fun c hc => ?_
  have hc : c ∈ conditions := hc
  rw [has_select, decide_eq_true hc, Bool.true_and]

theorem length_all (conditions : List Condition) : (all conditions).length = count conditions := by
  simp [all]

theorem getElem?_all (conditions : List Condition) (bits : Nat) (h : bits < count conditions) :
    (all conditions)[bits]? = some ⟨conditions, bits⟩ := by
  simp [all, h]

theorem mem_all_iff (conditions : List Condition) (s : Specialization) :
    s ∈ all conditions ↔ s.conditions = conditions ∧ s.bits < count conditions := by
  simp only [all, List.mem_map, List.mem_range]
  constructor
  · rintro ⟨bits, h, rfl⟩
    exact ⟨rfl, h⟩
  · rintro ⟨rfl, h⟩
    exact ⟨s.bits, h, rfl⟩

theorem select_mem_all (conditions : List Condition) (active : Condition → Bool) :
    select conditions active ∈ all conditions :=
  (mem_all_iff _ _).mpr ⟨rfl, bitsOf_lt_count active conditions⟩

theorem bitsOf_const_false (conditions : List Condition) :
    bitsOf (fun _ => false) conditions = 0 := by
  induction conditions with
  | nil => rfl
  | cons c cs ih => simp [bitsOf, ih]

-- Without repetitions a condition has a bit to itself.
theorem has_getElem {s : Specialization} (hnodup : s.conditions.Nodup) {i : Nat}
    (hi : i < s.conditions.length) : s.has s.conditions[i] = s.bits.testBit i := by
  have hidx : s.conditions.idxOf? s.conditions[i] = some i := by
    refine List.idxOf?_eq_some_iff.mpr ⟨hi, rfl, fun j hj => ?_⟩
    exact List.pairwise_iff_getElem.mp hnodup j i (Nat.lt_trans hj hi) hi hj
  simp only [has, hidx]

-- The defines then tell the specialisations of a pass apart.
theorem defines_inj {conditions : List Condition} (hnodup : conditions.Nodup)
    {s s' : Specialization} (hs : s ∈ all conditions) (hs' : s' ∈ all conditions)
    (h : s.defines = s'.defines) : s = s' := by
  obtain ⟨rfl, hbits⟩ := (mem_all_iff _ _).mp hs
  obtain ⟨hconditions, hbits'⟩ := (mem_all_iff _ _).mp hs'
  have hhas : ∀ c ∈ s.conditions, s.has c = s'.has c := by
    intro c hc
    rw [defines, defines, hconditions] at h
    have hflag := congrArg Define.value (List.map_inj_left.mp h c hc)
    cases hv : s.has c <;> cases hv' : s'.has c <;> simp_all [Define.flag]
  have hsame : s.bits = s'.bits := by
    refine Nat.eq_of_testBit_eq fun i => ?_
    by_cases hi : i < s.conditions.length
    · have hi' : i < s'.conditions.length := hconditions ▸ hi
      have hc : s'.conditions[i] = s.conditions[i] := by simp only [hconditions]
      rw [← has_getElem hnodup hi, ← has_getElem (hconditions ▸ hnodup) hi', hc]
      exact hhas _ (List.getElem_mem hi)
    · have hle : count s.conditions ≤ 2 ^ i := Nat.pow_le_pow_right (by decide) (by omega)
      rw [Nat.testBit_lt_two_pow (Nat.lt_of_lt_of_le hbits hle),
        Nat.testBit_lt_two_pow (Nat.lt_of_lt_of_le hbits' hle)]
  obtain ⟨conditions, bits⟩ := s
  obtain ⟨conditions', bits'⟩ := s'
  simp_all

-- What holds as a specialisation says selects it.
theorem select_eq {conditions : List Condition} (hnodup : conditions.Nodup) {s : Specialization}
    (hs : s ∈ all conditions) {active : Condition → Bool}
    (hactive : ∀ c ∈ conditions, active c = s.has c) : select conditions active = s := by
  refine defines_inj hnodup (select_mem_all conditions active) hs ?_
  obtain ⟨rfl, -⟩ := (mem_all_iff _ _).mp hs
  rw [defines_select, defines]
  exact List.map_congr_left fun c hc => by rw [hactive c hc]

end DenoisePlanner.Specialization
