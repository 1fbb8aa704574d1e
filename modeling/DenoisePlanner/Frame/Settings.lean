import DenoisePlanner.Extent
import DenoisePlanner.Failure
import DenoisePlanner.Geometry

namespace DenoisePlanner

-- What happens to the accumulated history in a frame.
inductive Accumulation where
  | proceed
  | restart
  | clearAndRestart
  deriving DecidableEq, Inhabited

namespace Accumulation

def all : List Accumulation := [.proceed, .restart, .clearAndRestart]

def name : Accumulation → String
  | .proceed => "Continue"
  | .restart => "Restart"
  | .clearAndRestart => "ClearAndRestart"

end Accumulation

-- The settings of a frame that all denoisers share.
structure FrameSettings where
  viewToClip : Mat4 := .identity
  viewToClipPrev : Mat4 := .identity
  worldToView : Mat4 := .identity
  worldToViewPrev : Mat4 := .identity
  worldPrevToWorld : Mat4 := .identity
  motionScale : Vec3 := ⟨1, 1, 0⟩
  jitter : Vec2 := .zero
  jitterPrev : Vec2 := .zero
  resourceSize : Extent := .zero
  resourceSizePrev : Extent := .zero
  rectSize : Extent := .zero
  rectSizePrev : Extent := .zero
  rectOrigin : Extent := .zero
  denoisingRange : Float32 := 500000
  disocclusionThreshold : Float32 := 0.01
  disocclusionThresholdAlternate : Float32 := 0.05
  -- The part of the screen, from the left, that shows the noisy input; all of it from one on.
  splitScreen : Float32 := 0
  debug : Float32 := 0
  frameIndex : UInt32 := 0
  accumulation : Accumulation := .proceed
  motionInWorldSpace : Bool := false
  historyConfidence : Bool := false
  disocclusionMix : Bool := false
  validation : Bool := false
  deriving Inhabited

def isNonNegative (x : Float32) : Bool := x.isFinite && decide (0 ≤ x)

def isPositive (x : Float32) : Bool := isNonNegative x && decide (0 < x)

-- Between zero and one, ends included.
def isFraction (x : Float32) : Bool := decide (0 ≤ x) && decide (x ≤ 1)

namespace FrameSettings

-- The longest side of a resource.
def maxSide : UInt32 := 65535

def matrices (s : FrameSettings) : List Mat4 :=
  [s.viewToClip, s.viewToClipPrev, s.worldToView, s.worldToViewPrev, s.worldPrevToWorld]

-- The subtraction is reached only where the rect is no larger than the resource.
def rectFits (s : FrameSettings) : Bool :=
  s.rectSize.fits s.resourceSize && s.rectOrigin.fits (s.resourceSize.sub s.rectSize)

def rules (s : FrameSettings) : List Rule :=
  [⟨s.resourceSize.fits ⟨maxSide, maxSide⟩ && s.resourceSizePrev.fits ⟨maxSide, maxSide⟩,
      .resourceTooLarge⟩,
    ⟨s.rectFits, .rectOutsideResource⟩,
    ⟨s.rectSizePrev.fits s.resourceSizePrev, .previousRectOutsideResource⟩,
    ⟨s.denoisingRange.isFinite && decide (0 < s.denoisingRange), .denoisingRange⟩,
    ⟨isPositive s.disocclusionThreshold && isPositive s.disocclusionThresholdAlternate,
      .disocclusionThreshold⟩,
    ⟨isNonNegative s.splitScreen, .splitScreen⟩,
    ⟨s.matrices.all Mat4.isFinite && s.motionScale.isFinite && s.jitter.isFinite &&
        s.jitterPrev.isFinite, .transformNotFinite⟩,
    -- A NaN determinant differs from zero, and passes.
    ⟨s.viewToClip.determinant != 0 && s.viewToClipPrev.determinant != 0, .projectionSingular⟩]

def validate (s : FrameSettings) : Except Failure Unit := Rule.check s.rules

end FrameSettings

end DenoisePlanner
