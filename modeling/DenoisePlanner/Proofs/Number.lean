import DenoisePlanner.Frame.Settings

namespace DenoisePlanner

-- The word holds a number, and neither a NaN nor an infinity: its exponent is not all ones.
def isNumber (word : UInt32) : Bool := (word >>> 23) % 256 != 255

section Unpacked

open Float.Model (Format UnpackedFloat)
open Float.Model.UnpackedFloat (unpackExponent unpackMantissa)

theorem isFinite_unpack (b : BitVec Format.binary32.numBits) :
    (UnpackedFloat.unpack Format.binary32 b).isFinite = true ↔ unpackExponent b ≠ -1#8 := by
  unfold UnpackedFloat.unpack
  dsimp only
  by_cases hexponent : unpackExponent b = -1#8
  · rw [if_pos hexponent]
    refine iff_of_false ?_ (not_not_intro hexponent)
    split <;> exact Bool.false_ne_true
  · rw [if_neg hexponent]
    refine iff_of_true ?_ hexponent
    by_cases hzero : unpackExponent b = 0#8
    · rw [if_pos hzero]
      by_cases hmantissa : unpackMantissa b = 0#_
      · rw [dif_pos hmantissa]
        rfl
      · rw [dif_neg hmantissa]
        rfl
    · rw [if_neg hzero]
      rfl

theorem isNumber_iff (word : UInt32) :
    isNumber word = true ↔ @unpackExponent Format.binary32 word.toBitVec ≠ -1#8 := by
  have htoNat : (@unpackExponent Format.binary32 word.toBitVec).toNat =
      word.toNat / 2 ^ 23 % 256 := by
    simp [unpackExponent, Nat.shiftRight_eq_div_pow]
  have hword : ((word >>> 23) % 256).toNat = word.toNat / 2 ^ 23 % 256 := by
    simp [UInt32.toNat_shiftRight, Nat.shiftRight_eq_div_pow]
  rw [isNumber, bne_iff_ne, ne_eq, ne_eq, ← UInt32.toNat_inj, ← BitVec.toNat_inj, htoNat, hword]
  rfl

-- The lane of a float tells whether it is finite,
theorem isNumber_toBits (x : Float32) : isNumber x.toBits = x.isFinite := by
  rw [Bool.eq_iff_iff, isNumber_iff, ← isFinite_unpack]
  rfl

-- The exponent of a finite float fits its field and leaves all ones to the others.
theorem exponent_of_unpack {b : BitVec Format.binary32.numBits} {sign : UnpackedFloat.Sign}
    {mantissa : Nat} {exponent : Int} {hpos : 0 < mantissa}
    (h : UnpackedFloat.unpack Format.binary32 b = .finite sign mantissa exponent hpos) :
    (exponent + 127 + 23).toNat < 255 := by
  have hexponent : unpackExponent b ≠ -1#8 := (isFinite_unpack b).mp (by rw [h]; rfl)
  have hne : (unpackExponent b).toNat ≠ 255 := fun heq => hexponent (BitVec.toNat_inj.mp heq)
  have hlt : (unpackExponent b).toNat < 256 := (unpackExponent b).isLt
  have hbias : Format.binary32.exponentBias = 127 := rfl
  unfold UnpackedFloat.unpack at h
  dsimp only at h
  rw [if_neg hexponent] at h
  by_cases hzero : unpackExponent b = 0#8
  · rw [if_pos hzero] at h
    have hexp : (unpackExponent b).toNat = 0 := congrArg BitVec.toNat hzero
    by_cases hmantissa : unpackMantissa b = 0#_
    · rw [dif_pos hmantissa] at h
      cases h
    · rw [dif_neg hmantissa] at h
      cases h
      rw [hexp]
      decide
  · rw [if_neg hzero] at h
    cases h
    omega

-- What is packed again after it was unpacked is as finite as it was.
theorem isFinite_unpack_pack (b : BitVec Format.binary32.numBits) :
    (UnpackedFloat.unpack Format.binary32
      (UnpackedFloat.pack Format.binary32 (UnpackedFloat.unpack Format.binary32 b))).isFinite =
      (UnpackedFloat.unpack Format.binary32 b).isFinite := by
  cases hunpack : UnpackedFloat.unpack Format.binary32 b with
  | notANumber => decide
  | infinity sign => cases sign <;> decide
  | zero sign => cases sign <;> decide
  | finite sign mantissa exponent hpos =>
    have hlt := exponent_of_unpack hunpack
    rw [Bool.eq_iff_iff, isFinite_unpack]
    refine iff_of_true ?_ rfl
    unfold UnpackedFloat.pack
    dsimp only
    split
    · next hlarge =>
      have hlarge : 2 ^ 8 ≤ (exponent + 127 + 23).toNat + 1 := hlarge
      omega
    · split
      · rw [UnpackedFloat.unpackExponent_packComponents, ne_eq, ← BitVec.toNat_inj,
          BitVec.toNat_ofNat]
        have hbiased : (exponent + 127 + 23).toNat % 2 ^ 8 ≠ 255 := by omega
        exact hbiased
      · rw [UnpackedFloat.unpackExponent_packComponents]
        decide

-- and so does any pattern of bits that is read as a float.
theorem isFinite_ofBits (word : UInt32) : (Float32.ofBits word).isFinite = isNumber word := by
  rw [Bool.eq_iff_iff, isNumber_iff, ← isFinite_unpack, ← isFinite_unpack_pack]
  rfl

-- No infinity is between finite floats, and a NaN compares with nothing.
theorem isFinite_of_le {a x b : UnpackedFloat} (ha : a.isFinite = true) (hb : b.isFinite = true)
    (hax : a.le x = true) (hxb : x.le b = true) : x.isFinite = true := by
  cases x with
  | notANumber => cases a <;> cases hax
  | infinity sign =>
    cases sign with
    | positive => cases b <;> first | cases hxb | cases hb
    | negative => cases a <;> first | cases hax | cases ha
  | zero sign => rfl
  | finite sign mantissa exponent hpos => rfl

end Unpacked

theorem isFinite_of_isFraction {x : Float32} (h : isFraction x = true) : x.isFinite = true := by
  obtain ⟨hzero, hone⟩ := Bool.and_eq_true_iff.mp h
  have hzero : (0 : Float32).toModel ≤ x.toModel := of_decide_eq_true (of_decide_eq_true hzero)
  have hone : x.toModel ≤ (1 : Float32).toModel := of_decide_eq_true (of_decide_eq_true hone)
  have hfinite : (0 : Float32).toModel.unpack.isFinite = true ∧
      (1 : Float32).toModel.unpack.isFinite = true := by
    decide +kernel
  exact isFinite_of_le hfinite.1 hfinite.2 hzero hone

theorem isFinite_of_isNonNegative {x : Float32} (h : isNonNegative x = true) :
    x.isFinite = true :=
  (Bool.and_eq_true_iff.mp h).1

end DenoisePlanner
