import DenoisePlanner.Block.Row
import DenoisePlanner.Frame.Settings

namespace DenoisePlanner

-- How far a denoiser's history reaches in the current frame.
structure History where
  isReset : Bool := false
  accumulated : UInt32 := 0
  deriving DecidableEq, Inhabited

-- The constants that every pass of every denoiser begins with.
structure FrameConstants where
  viewToClip : Mat4
  worldToView : Mat4
  worldToViewPrev : Mat4
  worldToClip : Mat4
  worldToClipPrev : Mat4
  worldPrevToWorld : Mat4
  frustum : Row
  frustumPrev : Row
  cameraDelta : Row
  motionScale : Row
  resourceSize : Row
  rectSize : Row
  rectPrev : Row
  resolutionScale : Row
  jitter : Row
  thresholds : Row
  frame : Row
  deriving Inhabited

namespace FrameConstants

def motionInWorldSpaceBit : UInt32 := 1
def historyConfidenceBit : UInt32 := 2
def disocclusionMixBit : UInt32 := 4
def validationBit : UInt32 := 8

def disocclusionThreshold (c : FrameConstants) : UInt32 := c.thresholds.x
def disocclusionThresholdAlternate (c : FrameConstants) : UInt32 := c.thresholds.y
def frameIndex (c : FrameConstants) : UInt32 := c.frame.x
def accumulated (c : FrameConstants) : UInt32 := c.frame.y
def isHistoryReset (c : FrameConstants) : Bool := isSet c.frame.z
def features (c : FrameConstants) : UInt32 := c.frame.w

def matrices (c : FrameConstants) : List Mat4 :=
  [c.viewToClip, c.worldToView, c.worldToViewPrev, c.worldToClip, c.worldToClipPrev,
    c.worldPrevToWorld]

-- The rows in the order of the block.
def rows (c : FrameConstants) : List Row :=
  c.matrices.flatMap (fun m => m.columns.map Row.ofVec) ++
    [c.frustum, c.frustumPrev, c.cameraDelta, c.motionScale, c.resourceSize, c.rectSize,
      c.rectPrev, c.resolutionScale, c.jitter, c.thresholds, c.frame]

def rowCount : Nat := 35

theorem length_rows (c : FrameConstants) : c.rows.length = rowCount := rfl

-- The distance between one and the next float.
def epsilon : Float32 := .ofBits 0x34000000

-- A corner of the view volume, scaled to depth one; a corner at depth zero stays as it is.
def corner (clipToView : Mat4) (x y : Float32) : Vec2 :=
  let p := clipToView.projectPoint ⟨x, y, 0.5⟩
  let depth := p.z.abs
  if epsilon < depth then ⟨p.x / depth, p.y / depth⟩ else ⟨p.x, p.y⟩

-- The upper left corner of the view volume at depth one, and the way to the lower right one.
def frustumOf (viewToClip : Mat4) : Row :=
  let clipToView := viewToClip.inverse
  let topLeft := corner clipToView (-1) 1
  let size := (corner clipToView 1 (-1)).sub topLeft
  .floats topLeft.x topLeft.y size.x size.y

-- Zero has no inverse, and is given zero.
def inverse (x : Float32) : Float32 := if 0 < x then 1 / x else 0

def sizeAndInverse (e : Extent) : Row :=
  let x := e.x.toFloat32
  let y := e.y.toFloat32
  .floats x y (inverse x) (inverse y)

def ratio (a b : UInt32) : Float32 := a.toFloat32 * inverse b.toFloat32

-- How far the camera moved since the previous frame, in the current world space.
def cameraDeltaOf (s : FrameSettings) : Row :=
  let position := s.worldToView.inverse.w.truncate
  let positionPrev := s.worldPrevToWorld.transformPoint s.worldToViewPrev.inverse.w.truncate
  .ofVec ((position.sub positionPrev).extend 0)

def jitterDelta (s : FrameSettings) : Float32 := (s.jitter.sub s.jitterPrev).length

-- Disocclusion is judged more leniently the fewer lines there are and the more they jitter.
def thresholdBonus (s : FrameSettings) : Float32 :=
  if 0 < s.rectSize.y then (1 + jitterDelta s) / s.rectSize.y.toFloat32 else 0

def featuresOf (s : FrameSettings) : UInt32 :=
  (if s.motionInWorldSpace then motionInWorldSpaceBit else 0) |||
    (if s.historyConfidence then historyConfidenceBit else 0) |||
    (if s.disocclusionMix then disocclusionMixBit else 0) |||
    (if s.validation then validationBit else 0)

-- Defined for all settings, valid or not.
def ofSettings (s : FrameSettings) (history : History) : FrameConstants where
  viewToClip := s.viewToClip
  worldToView := s.worldToView
  worldToViewPrev := s.worldToViewPrev
  worldToClip := s.viewToClip.mul s.worldToView
  worldToClipPrev := s.viewToClipPrev.mul s.worldToViewPrev
  worldPrevToWorld := s.worldPrevToWorld
  frustum := frustumOf s.viewToClip
  frustumPrev := frustumOf s.viewToClipPrev
  cameraDelta := cameraDeltaOf s
  motionScale := ⟨s.motionScale.x.toBits, s.motionScale.y.toBits, s.motionScale.z.toBits,
    flagWord s.motionInWorldSpace⟩
  resourceSize := sizeAndInverse s.resourceSize
  rectSize := sizeAndInverse s.rectSize
  rectPrev := .floats s.rectSizePrev.x.toFloat32 s.rectSizePrev.y.toFloat32
    s.rectOrigin.x.toFloat32 s.rectOrigin.y.toFloat32
  resolutionScale := .floats (ratio s.rectSize.x s.resourceSize.x)
    (ratio s.rectSize.y s.resourceSize.y) (ratio s.rectSizePrev.x s.resourceSizePrev.x)
    (ratio s.rectSizePrev.y s.resourceSizePrev.y)
  jitter := .floats s.jitter.x s.jitter.y (jitterDelta s) s.debug
  thresholds := .floats (s.disocclusionThreshold + thresholdBonus s)
    (s.disocclusionThresholdAlternate + thresholdBonus s) s.denoisingRange s.splitScreen
  frame := ⟨s.frameIndex, history.accumulated, flagWord history.isReset, featuresOf s⟩

theorem accumulated_ofSettings (s : FrameSettings) (history : History) :
    (ofSettings s history).accumulated = history.accumulated := rfl

theorem isHistoryReset_ofSettings (s : FrameSettings) (history : History) :
    (ofSettings s history).isHistoryReset = history.isReset := isSet_flagWord history.isReset

end FrameConstants

end DenoisePlanner
