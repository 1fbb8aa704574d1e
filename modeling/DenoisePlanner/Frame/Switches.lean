import DenoisePlanner.Frame.Settings
import DenoisePlanner.Pipeline.Specialization
import DenoisePlanner.Pipeline.Stage

namespace DenoisePlanner

-- Which optional stages of a denoiser run in a frame, and which conditions hold in it.
structure Switches where
  clear : Bool := false
  hitDistReconstruction : Bool := false
  hitDist5x5 : Bool := false
  prePass : Bool := false
  confidence : Bool := false
  disocclusionMix : Bool := false
  temporalStabilization : Bool := false
  antiFirefly : Bool := false
  atrousRequest : UInt32 := 0
  splitScreen : Float32 := 0
  validation : Bool := false
  deriving Inhabited

namespace Switches

def ofSettings (s : FrameSettings) : Switches where
  confidence := s.historyConfidence
  disocclusionMix := s.disocclusionMix
  splitScreen := s.splitScreen
  validation := s.validation

-- The inputs fill the whole screen, so nothing has to be denoised.
def isPassthrough (s : Switches) : Bool := decide (1 ≤ s.splitScreen)

def isEnabled (s : Switches) : Stage → Bool
  | .clear => s.clear
  | .hitDistReconstruction => s.hitDistReconstruction
  | .prePass => s.prePass
  | .antiFirefly => s.antiFirefly
  | .temporalStabilization => s.temporalStabilization
  | .splitScreen => decide (0 < s.splitScreen)
  | .validation => s.validation
  | _ => true

-- Which of the two buffers an A-trous step reads is the step's affair, not the frame's.
def holds (s : Switches) : Condition → Bool
  | .prePass => s.prePass
  | .hitDist5x5 => s.hitDist5x5
  | .afterHitDistReconstruction => s.hitDistReconstruction
  | .afterPrePass => s.prePass || s.hitDistReconstruction
  | .confidence => s.confidence
  | .disocclusionMix => s.disocclusionMix
  | .temporalStabilization => s.temporalStabilization
  | .afterAntiFirefly => s.antiFirefly
  | .fromPong => false

-- At least the first and the last step run, and at most eight in all.
def atrousCount (s : Switches) : Nat := max 2 (min s.atrousRequest.toNat 8)

theorem two_le_atrousCount (s : Switches) : 2 ≤ s.atrousCount := by
  simp only [atrousCount]; omega

theorem atrousCount_le (s : Switches) : s.atrousCount ≤ 8 := by
  simp only [atrousCount]; omega

end Switches

end DenoisePlanner
