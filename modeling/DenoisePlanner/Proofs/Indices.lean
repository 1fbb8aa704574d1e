import DenoisePlanner.Proofs.Specialization
import Mathlib.Algebra.BigOperators.Fin
import Mathlib.Data.Nat.Bitwise

namespace DenoisePlanner.Specialization

variable {conditions : List Condition}

-- Indices kept in sixteen bits, by arithmetic that stops where a bit would not fit.
namespace Word

def bit? (i : Nat) : Option UInt16 := if i < 16 then some (1 <<< UInt16.ofNat i) else none

def all? (conditions : List Condition) : Option (List UInt16) := do
  let count ← bit? conditions.length
  return (List.range count.toNat).map UInt16.ofNat

-- Adds the bits of the given places.
def join? (bits : UInt16) (places : List (Condition × Nat)) : Option UInt16 :=
  places.foldlM (fun bits place => (bits ||| ·) <$> bit? place.2) bits

def select? (conditions : List Condition) (active : Condition → Bool) : Option UInt16 :=
  join? 0 (conditions.zipIdx.filter fun place => active place.1)

def has? (conditions : List Condition) (bits : UInt16) (c : Condition) : Option Bool :=
  match conditions.idxOf? c with
  | some i => (fun bit => bits &&& bit != 0) <$> bit? i
  | none => some false

theorem exists_bit {i : Nat} (hi : i < 16) : ∃ bit, bit? i = some bit ∧ bit.toNat = 2 ^ i := by
  have hlt : 2 ^ i < 2 ^ 16 := Nat.pow_lt_pow_right (by decide) hi
  have hplace : (UInt16.ofNat i).toNat = i :=
    UInt16.toNat_ofNat_of_lt' (Nat.lt_trans hi (by decide))
  refine ⟨1 <<< UInt16.ofNat i, if_pos hi, ?_⟩
  rw [UInt16.toNat_shiftLeft, hplace, Nat.mod_eq_of_lt hi, UInt16.toNat_one, Nat.one_shiftLeft,
    Nat.mod_eq_of_lt hlt]

theorem exists_join {places : List (Condition × Nat)} (hplaces : ∀ place ∈ places, place.2 < 16)
    (bits : UInt16) : ∃ joined, join? bits places = some joined ∧ ∀ i,
      joined.toNat.testBit i = (bits.toNat.testBit i || places.any fun place => place.2 == i) := by
  induction places generalizing bits with
  | nil => exact ⟨bits, rfl, by simp⟩
  | cons place places ih =>
    obtain ⟨hplace, hplaces⟩ := List.forall_mem_cons.mp hplaces
    obtain ⟨bit, hbit, hweight⟩ := exists_bit hplace
    obtain ⟨joined, hjoined, htest⟩ := ih hplaces (bits ||| bit)
    refine ⟨joined, ?_, fun i => ?_⟩
    · rw [join?, List.foldlM_cons, hbit]
      exact hjoined
    · rw [htest, UInt16.toNat_or, hweight, Nat.testBit_or, Nat.testBit_two_pow, List.any_cons,
        Bool.or_assoc]
      rfl

theorem any_filter_zipIdx (conditions : List Condition) (active : Condition → Bool) (i : Nat) :
    ((conditions.zipIdx.filter fun place => active place.1).any fun place => place.2 == i) =
      conditions[i]?.any active := by
  rw [Bool.eq_iff_iff, List.any_eq_true, Option.any_eq_true]
  constructor
  · rintro ⟨⟨c, j⟩, hmem, hj⟩
    obtain ⟨hmem, hactive⟩ := List.mem_filter.mp hmem
    obtain rfl : j = i := by simpa using hj
    exact ⟨c, List.mem_zipIdx_iff_getElem?.mp hmem, hactive⟩
  · rintro ⟨c, hc, hactive⟩
    exact ⟨(c, i), List.mem_filter.mpr ⟨List.mem_zipIdx_iff_getElem?.mpr hc, hactive⟩, by simp⟩

-- The words compute the indices, and no step leaves them.
structure Fits (conditions : List Condition) : Prop where
  all : ∃ words, all? conditions = some words ∧
    words.map UInt16.toNat = (Specialization.all conditions).map bits
  select : ∀ active, ∃ bits, select? conditions active = some bits ∧
    bits.toNat = (Specialization.select conditions active).bits
  has : ∀ bits c, has? conditions bits c = some (has ⟨conditions, bits.toNat⟩ c)

theorem exists_all (hlength : conditions.length ≤ 15) : ∃ words, all? conditions = some words ∧
    words.map UInt16.toNat = (Specialization.all conditions).map bits := by
  obtain ⟨count, hcount, hsize⟩ := exists_bit (Nat.lt_succ_of_le hlength)
  refine ⟨(List.range count.toNat).map UInt16.ofNat, by simp [all?, hcount], ?_⟩
  have hsame : count.toNat = Specialization.count conditions := hsize
  rw [Specialization.all, List.map_map, List.map_map, ← hsame]
  refine List.map_congr_left fun i hi => UInt16.toNat_ofNat_of_lt' ?_
  exact Nat.lt_trans (List.mem_range.mp hi) count.toNat_lt

theorem exists_select (hlength : conditions.length ≤ 16) (active : Condition → Bool) :
    ∃ bits, select? conditions active = some bits ∧
      bits.toNat = (Specialization.select conditions active).bits := by
  have hplaces : ∀ place ∈ conditions.zipIdx.filter fun place => active place.1, place.2 < 16 := by
    intro place hplace
    have hplace := List.snd_lt_of_mem_zipIdx (List.mem_filter.mp hplace).1
    omega
  obtain ⟨bits, hbits, htest⟩ := exists_join hplaces 0
  refine ⟨bits, hbits, Nat.eq_of_testBit_eq fun i => ?_⟩
  rw [htest, any_filter_zipIdx, bits_select, testBit_bitsOf]
  simp

theorem and_bit_ne_zero {bits bit : UInt16} {i : Nat} (hbit : bit.toNat = 2 ^ i) :
    (bits &&& bit != 0) = bits.toNat.testBit i := by
  have hzero : bits &&& bit = 0 ↔ (bits.toNat.testBit i).toNat * 2 ^ i = 0 := by
    rw [← UInt16.toNat_inj, UInt16.toNat_and, hbit, Nat.and_two_pow, UInt16.toNat_zero]
  rw [bne, Bool.eq_iff_iff, Bool.not_eq_true', beq_eq_false_iff_ne, ne_eq, hzero]
  cases bits.toNat.testBit i <;> simp

theorem has?_eq (hlength : conditions.length ≤ 16) (bits : UInt16) (c : Condition) :
    has? conditions bits c = some (has ⟨conditions, bits.toNat⟩ c) := by
  unfold has? has
  cases hi : conditions.idxOf? c with
  | none => rfl
  | some i =>
    obtain ⟨hlt, -⟩ := List.idxOf?_eq_some_iff.mp hi
    obtain ⟨bit, hbit, hweight⟩ := exists_bit (Nat.lt_of_lt_of_le hlt hlength)
    simp only [hbit, Option.map_eq_map, Option.map_some, and_bit_ne_zero hweight]

-- The count is what breaks first: that of sixteen conditions is one more than a word can say.
theorem fits_iff : Fits conditions ↔ conditions.length ≤ 15 := by
  constructor
  · intro h
    obtain ⟨words, hwords, -⟩ := h.all
    by_contra hlength
    have hnone : bit? conditions.length = none := if_neg (by omega)
    rw [all?, hnone] at hwords
    cases hwords
  · intro hlength
    exact {
      all := exists_all hlength
      select := exists_select (Nat.le_succ_of_le hlength)
      has := has?_eq (Nat.le_succ_of_le hlength) }

end Word

-- A position counts with its weight.
theorem bitsOf_eq_sum (active : Condition → Bool) (conditions : List Condition) :
    bitsOf active conditions =
      ∑ i : Fin conditions.length with active conditions[i] = true, 2 ^ (i : Nat) := by
  rw [Finset.sum_filter]
  induction conditions with
  | nil => rfl
  | cons c cs ih =>
    have htail : ∀ i : Fin cs.length, (if active cs[i] = true then 2 ^ (i.succ : Nat) else 0) =
        2 * if active cs[i] = true then 2 ^ (i : Nat) else 0 := by
      intro i
      rw [mul_ite, Nat.mul_zero, Fin.val_succ, Nat.pow_succ, Nat.mul_comm]
    calc bitsOf active (c :: cs)
      _ = (active c).toNat + 2 * ∑ i : Fin cs.length,
            if active cs[i] = true then 2 ^ (i : Nat) else 0 := by rw [bitsOf, ih]
      _ = (if active c = true then 2 ^ 0 else 0) + ∑ i : Fin cs.length,
            if active cs[i] = true then 2 ^ (i.succ : Nat) else 0 := by
          rw [Finset.mul_sum, Finset.sum_congr rfl fun i _ => htail i]
          cases active c <;> rfl
      _ = _ := (Fin.sum_univ_succ (n := cs.length) fun i =>
          if active (c :: cs)[i] = true then 2 ^ (i : Nat) else 0).symm

-- Of a condition that occurs again the later place is never read.
theorem has_of_repeated {i j : Nat} (hij : i < j) (hj : j < conditions.length)
    (hsame : conditions[i] = conditions[j]) (c : Condition) :
    has ⟨conditions, 2 ^ j⟩ c = false := by
  unfold has
  cases hk : conditions.idxOf? c with
  | none => rfl
  | some k =>
    obtain ⟨hlt, rfl, hfirst⟩ := List.idxOf?_eq_some_iff.mp hk
    have hne : j ≠ k := by
      rintro rfl
      exact hfirst i hij hsame
    simp [hne]

-- What the enumeration lists, and where.
structure Enumerated (conditions : List Condition) : Prop where
  length : (all conditions).length = 2 ^ conditions.length
  getElem? : ∀ i < 2 ^ conditions.length, (all conditions)[i]? = some ⟨conditions, i⟩

-- What the specialisation for given truth values says, and where it is listed.
structure Selects (conditions : List Condition) (active : Condition → Bool)
    (s : Specialization) : Prop where
  bits_lt : s.bits < 2 ^ conditions.length
  getElem? : (all conditions)[s.bits]? = some s
  has_iff : ∀ c, s.has c = true ↔ c ∈ conditions ∧ active c = true
  defines : s.defines = conditions.map fun c => ⟨c.define, if active c then "1" else "0"⟩

-- Every specialisation is known by what it has, by its number and by its defines.
structure Recoverable (conditions : List Condition) : Prop where
  select_has : ∀ s ∈ all conditions, select conditions s.has = s
  bits : ∀ s ∈ all conditions,
    s.bits = ∑ i : Fin conditions.length with s.has conditions[i] = true, 2 ^ (i : Nat)
  defines_inj : ∀ s ∈ all conditions, ∀ s' ∈ all conditions, s.defines = s'.defines → s = s'

theorem enumerated (conditions : List Condition) : Enumerated conditions where
  length := length_all conditions
  getElem? := getElem?_all conditions

theorem selects (conditions : List Condition) (active : Condition → Bool) :
    Selects conditions active (select conditions active) where
  bits_lt := bitsOf_lt_count active conditions
  getElem? := getElem?_all conditions _ (bitsOf_lt_count active conditions)
  has_iff c := by rw [has_select, Bool.and_eq_true, decide_eq_true_eq]
  defines := defines_select conditions active

theorem recoverable (hnodup : conditions.Nodup) : Recoverable conditions where
  select_has s hs := select_eq hnodup hs fun _ _ => rfl
  bits s hs := by
    have hselect : select conditions s.has = s := select_eq hnodup hs fun _ _ => rfl
    rw [← bitsOf_eq_sum, ← bits_select, hselect]
  defines_inj _ hs _ hs' := defines_inj hnodup hs hs'

-- The unread place of a repeated condition tells specialisations apart that nothing else does.
theorem Recoverable.nodup (h : Recoverable conditions) : conditions.Nodup := by
  refine List.pairwise_iff_getElem.mpr fun i j hi hj hij hsame => ?_
  have hlt : 2 ^ j < count conditions := Nat.pow_lt_pow_right (by decide) hj
  have hunread : has ⟨conditions, 2 ^ j⟩ = fun _ => false :=
    funext (has_of_repeated hij hj hsame)
  have hselect := h.select_has ⟨conditions, 2 ^ j⟩ ((mem_all_iff _ _).mpr ⟨rfl, hlt⟩)
  rw [hunread, select, bitsOf_const_false] at hselect
  have hzero : 0 = 2 ^ j := congrArg Specialization.bits hselect
  have := Nat.two_pow_pos j
  omega

-- Bit by bit arithmetic, enumeration and look-up are one numbering; it can be read back as long
-- as no condition occurs twice.
theorem numbering (conditions : List Condition) (hlength : conditions.length ≤ 15) :
    Word.Fits conditions ∧ Enumerated conditions ∧
      (∀ active, Selects conditions active (select conditions active)) ∧
      (Recoverable conditions ↔ conditions.Nodup) :=
  ⟨Word.fits_iff.mpr hlength, enumerated conditions, selects conditions,
    ⟨Recoverable.nodup, recoverable⟩⟩

theorem numbering_three :
    let conditions : List Condition := [.afterPrePass, .confidence, .disocclusionMix]
    let s : Specialization := ⟨conditions, 6⟩
    conditions.length ≤ 15 ∧ conditions.Nodup ∧ (all conditions).length = 2 ^ 3 ∧
      s ∈ all conditions ∧ select conditions s.has = s ∧
      Word.select? conditions s.has = some 6 ∧
      s.defines = [⟨"AFTER_PRE_PASS", "0"⟩, ⟨"CONFIDENCE_INPUTS", "1"⟩,
        ⟨"DISOCCLUSION_THRESHOLD_MIX", "1"⟩] := by
  intro conditions s
  have hlength : conditions.length ≤ 15 := by decide
  have hnodup : conditions.Nodup := by decide
  have hmem : s ∈ all conditions := by decide
  obtain ⟨hwords, hlisted, hselects, hrecoverable⟩ := numbering conditions hlength
  have hselect : select conditions s.has = s := (hrecoverable.mpr hnodup).select_has s hmem
  refine ⟨hlength, hnodup, hlisted.length, hmem, hselect, ?_, ?_⟩
  · obtain ⟨bits, hbits, hsame⟩ := hwords.select s.has
    rw [hbits, show bits = 6 from UInt16.toNat_inj.mp (hsame.trans (by rw [hselect]; rfl))]
  · rw [← hselect, (hselects s.has).defines]
    decide

end DenoisePlanner.Specialization
