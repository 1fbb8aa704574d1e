import DenoisePlanner.Shader.Key

namespace DenoisePlanner

-- A condition of the frame that a pass can be specialised on.
inductive Condition where
  | prePass
  | hitDist5x5
  | afterHitDistReconstruction
  | afterPrePass
  | confidence
  | disocclusionMix
  | temporalStabilization
  | afterAntiFirefly
  | fromPong
  deriving DecidableEq, Inhabited

namespace Condition

def all : List Condition :=
  [.prePass, .hitDist5x5, .afterHitDistReconstruction, .afterPrePass, .confidence,
    .disocclusionMix, .temporalStabilization, .afterAntiFirefly, .fromPong]

def name : Condition → String
  | .prePass => "PrePass"
  | .hitDist5x5 => "HitDist5x5"
  | .afterHitDistReconstruction => "AfterHitDistReconstruction"
  | .afterPrePass => "AfterPrePass"
  | .confidence => "Confidence"
  | .disocclusionMix => "DisocclusionMix"
  | .temporalStabilization => "TemporalStabilization"
  | .afterAntiFirefly => "AfterAntiFirefly"
  | .fromPong => "FromPong"

def define : Condition → String
  | .prePass => "PRE_PASS"
  | .hitDist5x5 => "HIT_DIST_5X5"
  | .afterHitDistReconstruction => "AFTER_HIT_DIST_RECONSTRUCTION"
  | .afterPrePass => "AFTER_PRE_PASS"
  | .confidence => "CONFIDENCE_INPUTS"
  | .disocclusionMix => "DISOCCLUSION_THRESHOLD_MIX"
  | .temporalStabilization => "TEMPORAL_STABILIZATION"
  | .afterAntiFirefly => "AFTER_ANTI_FIREFLY"
  | .fromPong => "FROM_PONG"

end Condition

-- An assignment of truth values to the conditions of a pass: condition `i` is bit `i`.
structure Specialization where
  conditions : List Condition
  bits : Nat
  deriving DecidableEq, Inhabited

namespace Specialization

def count (conditions : List Condition) : Nat := Nat.pow 2 conditions.length

-- Every specialisation, in the order of its bits.
def all (conditions : List Condition) : List Specialization :=
  (List.range (count conditions)).map fun bits => ⟨conditions, bits⟩

def bitsOf (active : Condition → Bool) : List Condition → Nat
  | [] => 0
  | c :: cs => (active c).toNat + 2 * bitsOf active cs

def select (conditions : List Condition) (active : Condition → Bool) : Specialization :=
  ⟨conditions, bitsOf active conditions⟩

-- A condition that the pass was not declared with never holds; of a repeated one the
-- first place counts.
def has (s : Specialization) (c : Condition) : Bool :=
  match s.conditions.idxOf? c with
  | some i => s.bits.testBit i
  | none => false

def defines (s : Specialization) : List Define :=
  s.conditions.map fun c => .flag c.define (s.has c)

theorem bitsOf_lt_count (active : Condition → Bool) (conditions : List Condition) :
    bitsOf active conditions < count conditions := by
  induction conditions with
  | nil => simp [bitsOf, count]
  | cons c cs ih =>
    have := Bool.toNat_le (active c)
    simp only [bitsOf, count, List.length_cons, Nat.pow_eq, Nat.pow_succ] at ih ⊢
    omega

end Specialization

end DenoisePlanner
