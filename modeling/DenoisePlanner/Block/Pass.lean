import DenoisePlanner.Block.Row

namespace DenoisePlanner

-- In radians, to the five decimals that the shaders know.
def goldenAngle : Float32 := 2.39996

-- The rotation of a blur kernel as a 2x2 matrix by rows. It advances by the golden angle every
-- frame, and by half of it from one phase to the next.
def blurRotation (frameIndex phase : UInt32) : Row :=
  let angle := (frameIndex.toFloat32 + phase.toFloat32 * 0.5) * goldenAngle
  let sin := angle.sin
  let cos := angle.cos
  .floats cos sin (-sin) cos

-- One step of the A-trous filter.
structure AtrousIteration where
  index : UInt32
  isLast : Bool
  deriving DecidableEq, Inhabited

namespace AtrousIteration

-- The distance in pixels between the samples, doubled by every step.
def stepSize (i : AtrousIteration) : UInt32 := 1 <<< i.index

def row (i : AtrousIteration) : Row := ⟨i.stepSize, i.index, flagWord i.isLast, 0⟩

end AtrousIteration

end DenoisePlanner
