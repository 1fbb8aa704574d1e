import DenoisePlanner.Frame.Constants
import DenoisePlanner.Frame.Switches
import DenoisePlanner.Pipeline.Blueprint
import DenoisePlanner.Technique.Channel

namespace DenoisePlanner

-- Hit distances are divided by (a + depth * b) * lerp(1, c, exp2(d * roughness^2)).
structure HitDistanceScale where
  a : Float32 := 3
  b : Float32 := 0.1
  c : Float32 := 20
  d : Float32 := -25
  deriving BEq, Inhabited

structure Antilag where
  luminanceSigmaScale : Float32 := 4
  hitDistanceSigmaScale : Float32 := 3
  luminancePower : Float32 := 1
  hitDistancePower : Float32 := 1
  deriving BEq, Inhabited

structure ReblurSettings where
  hitDistance : HitDistanceScale := {}
  antilag : Antilag := {}
  maxAccumulated : UInt32 := 30
  maxFastAccumulated : UInt32 := 6
  historyFixFrames : UInt32 := 3
  diffusePrePassRadius : Float32 := 30
  specularPrePassRadius : Float32 := 50
  minBlurRadius : Float32 := 1
  maxBlurRadius : Float32 := 30
  lobeAngleFraction : Float32 := 0.15
  roughnessFraction : Float32 := 0.15
  planeDistanceSensitivity : Float32 := 0.005
  responsiveRoughnessThreshold : Float32 := 0
  stabilizationStrength : Float32 := 1
  checkerboard : Checkerboard := .off
  reconstruction : Reconstruction := .off
  deriving BEq, Inhabited

namespace ReblurSettings

def rules (s : ReblurSettings) : List Rule :=
  [⟨[s.hitDistance.a, s.hitDistance.b, s.hitDistance.c, s.hitDistance.d].all Float32.isFinite,
      .hitDistanceNotFinite⟩,
    ⟨[s.diffusePrePassRadius, s.specularPrePassRadius, s.minBlurRadius,
        s.maxBlurRadius].all isNonNegative, .blurRadius⟩,
    ⟨decide (s.minBlurRadius ≤ s.maxBlurRadius), .blurRadiiReversed⟩,
    ⟨[s.lobeAngleFraction, s.roughnessFraction, s.responsiveRoughnessThreshold,
        s.stabilizationStrength].all isFraction, .fraction⟩,
    ⟨isNonNegative s.planeDistanceSensitivity, .planeSensitivity⟩]

end ReblurSettings

structure ReblurConstants where
  accumulation : Row
  hitDistance : Row
  blur : Row
  lobe : Row
  antilag : Row
  checkerboard : Row
  deriving DecidableEq, Inhabited

namespace ReblurConstants

def rows (c : ReblurConstants) : List Row :=
  [c.accumulation, c.hitDistance, c.blur, c.lobe, c.antilag, c.checkerboard]

def limit (c : ReblurConstants) : HistoryLimit := ⟨c.accumulation.x, c.accumulation.y⟩

end ReblurConstants

namespace Reblur

-- The longest history, in frames.
def maxHistory : UInt32 := 63

-- An occlusion signal has no stabilized history to work on.
def switches (s : ReblurSettings) (signals : Signals) (frame : Switches) : Switches :=
  { frame with
    hitDistReconstruction := reconstructs s.reconstruction s.checkerboard
    hitDist5x5 := s.reconstruction == .area5x5
    prePass := blursBefore signals s.diffusePrePassRadius s.specularPrePassRadius
    temporalStabilization := !signals.occlusion && decide (0 < s.stabilizationStrength) }

def constants (s : ReblurSettings) (switches : Switches) (frame : FrameConstants) :
    ReblurConstants :=
  let limit := HistoryLimit.of frame.isHistoryReset maxHistory s.maxAccumulated s.maxFastAccumulated
  let (diffuse, specular) := s.checkerboard.channels
  { accumulation :=
      ⟨limit.main, limit.fast, s.historyFixFrames, s.stabilizationStrength.toBits⟩
    hitDistance := .floats s.hitDistance.a s.hitDistance.b s.hitDistance.c s.hitDistance.d
    blur := .floats s.minBlurRadius s.maxBlurRadius s.diffusePrePassRadius s.specularPrePassRadius
    lobe := .floats s.lobeAngleFraction s.roughnessFraction s.planeDistanceSensitivity
      s.responsiveRoughnessThreshold
    antilag := .floats s.antilag.luminanceSigmaScale s.antilag.hitDistanceSigmaScale
      s.antilag.luminancePower s.antilag.hitDistancePower
    checkerboard :=
      ⟨diffuse, specular, flagWord switches.temporalStabilization,
        flagWord switches.hitDistReconstruction⟩ }

def prevViewZ : Reference := .pooled (.permanent 0)
def prevNormalRoughness : Reference := .pooled (.permanent 1)
def prevInternalData : Reference := .pooled (.permanent 2)
def tiles : Reference := .pooled (.transient 0)
def data1 : Reference := .pooled (.transient 1)
def data2 : Reference := .pooled (.transient 2)

-- The textures of one signal.
structure SignalTextures where
  input : Reference
  output : Reference
  confidence : Reference
  history : Reference
  fastHistory : Reference
  -- The two sides of the stabilized history, which occlusion does without.
  stabilized : Option (Slot × Slot)
  tmp1 : Reference
  tmp2 : Reference
  fastHistoryTmp : Reference

namespace SignalTextures

def of (occlusion : Bool) (channel : Channel) (position : Nat) : SignalTextures :=
  let permanent := 3 + position * if occlusion then 2 else 4
  let transient := 3 + position * 3
  { input := .input (if occlusion then channel.hitDistance else channel.radiance)
    output := .output (if occlusion then channel.hitDistanceOutput else channel.radianceOutput)
    confidence := .input channel.confidence
    history := .pooled (.permanent permanent)
    fastHistory := .pooled (.permanent (permanent + 1))
    stabilized :=
      if occlusion then none else some (.permanent (permanent + 2), .permanent (permanent + 3))
    tmp1 := .pooled (.transient transient)
    tmp2 := .pooled (.transient (transient + 1))
    fastHistoryTmp := .pooled (.transient (transient + 2)) }

-- The stabilized history of the previous frame.
def stabilizedPrev (t : SignalTextures) : List Reference :=
  (t.stabilized.map fun (ping, pong) => .swapping ping pong).toList

-- The stabilized history of the current frame.
def stabilizedNow (t : SignalTextures) : List Reference :=
  (t.stabilized.map fun (ping, pong) => .swapping pong ping).toList

-- What temporal accumulation takes for the history of the signal.
def accumulated (t : SignalTextures) (stabilization : Bool) : List Reference :=
  match t.stabilized with
  | some (ping, pong) => if stabilization then [.swapping ping pong] else [t.history]
  | none => [t.history]

end SignalTextures

def textures (signals : Signals) : List SignalTextures :=
  signals.channels.mapIdx fun position channel => .of signals.occlusion channel position

def signalTexture (signals : Signals) : Texture :=
  .of (if signals.occlusion then .r16Sfloat else .rgba16Sfloat)

def classifyTiles : Pass where
  stage := .classifyTiles
  shader := "REBLUR_ClassifyTiles"
  downsample := 16
  bindings := fun _ => ⟨[.input .viewZ], [tiles]⟩

-- Each signal moves between its two temporary textures. Where a later stage is optional, a
-- condition of the pass tells which of the two the next stage to run will read.
def hitDistReconstruction (signals : List SignalTextures) : Pass where
  stage := .hitDistReconstruction
  shader := "REBLUR_HitDistReconstruction"
  conditions := [.prePass, .hitDist5x5]
  bindings := fun s =>
    ⟨[tiles, .input .normalRoughness, .input .viewZ] ++ signals.map (·.input),
      signals.map fun t => if s.has .prePass then t.tmp1 else t.tmp2⟩

def prePass (signals : List SignalTextures) : Pass where
  stage := .prePass
  shader := "REBLUR_PrePass"
  conditions := [.afterHitDistReconstruction]
  data := .blur 0
  bindings := fun s =>
    ⟨[tiles, .input .normalRoughness, .input .viewZ] ++
        signals.map fun t => if s.has .afterHitDistReconstruction then t.tmp1 else t.input,
      signals.map (·.tmp2)⟩

def temporalAccumulation (stabilizes : Bool) (signals : List SignalTextures) : Pass where
  stage := .temporalAccumulation
  shader := "REBLUR_TemporalAccumulation"
  conditions := [.afterPrePass, .confidence, .disocclusionMix] ++
    if stabilizes then [.temporalStabilization] else []
  bindings := fun s =>
    ⟨[tiles, .input .normalRoughness, .input .viewZ, .input .motion, prevViewZ,
        prevNormalRoughness, prevInternalData] ++
        (if s.has .disocclusionMix then [.input .disocclusionMix] else []) ++
        signals.flatMap fun t =>
          (if s.has .confidence then [t.confidence] else []) ++
            [if s.has .afterPrePass then t.tmp2 else t.input] ++
            t.accumulated (s.has .temporalStabilization) ++ [t.fastHistory],
      signals.flatMap (fun t => [t.tmp1, t.fastHistoryTmp]) ++ [data1, data2]⟩

def historyFix (signals : List SignalTextures) : Pass where
  stage := .historyFix
  shader := "REBLUR_HistoryFix"
  bindings := fun _ =>
    ⟨[tiles, .input .normalRoughness, data1, .input .viewZ] ++
        signals.flatMap fun t => [t.tmp1, t.fastHistoryTmp],
      signals.flatMap fun t => [t.tmp2, t.fastHistory]⟩

def blur (signals : List SignalTextures) : Pass where
  stage := .blur
  shader := "REBLUR_Blur"
  data := .blur 1
  bindings := fun _ =>
    ⟨[tiles, .input .normalRoughness, data1, .input .viewZ] ++ signals.map (·.tmp2),
      signals.map (·.tmp1) ++ [prevViewZ]⟩

def postBlur (stabilizes : Bool) (signals : List SignalTextures) : Pass where
  stage := .postBlur
  shader := "REBLUR_PostBlur"
  conditions := if stabilizes then [.temporalStabilization] else []
  data := .blur 2
  bindings := fun s =>
    ⟨[tiles, .input .normalRoughness, data1, data2, .input .viewZ] ++ signals.map (·.tmp1),
      [prevNormalRoughness, prevInternalData] ++
        signals.flatMap fun t =>
          t.history :: if s.has .temporalStabilization then [] else [t.output]⟩

def temporalStabilization (signals : List SignalTextures) : Pass where
  stage := .temporalStabilization
  shader := "REBLUR_TemporalStabilization"
  bindings := fun _ =>
    ⟨[tiles, .input .normalRoughness, .input .viewZ, .input .motion, data1, data2] ++
        signals.flatMap fun t => t.history :: t.stabilizedPrev,
      signals.flatMap fun t => t.output :: t.stabilizedNow⟩

def splitScreen (signals : List SignalTextures) : Pass where
  stage := .splitScreen
  shader := "REBLUR_SplitScreen"
  bindings := fun _ => ⟨.input .viewZ :: signals.map (·.input), signals.map (·.output)⟩

def validation (signals : List SignalTextures) : Pass where
  stage := .validation
  shader := "REBLUR_Validation"
  bindings := fun _ =>
    ⟨[.input .normalRoughness, .input .viewZ, .input .motion, data1, data2] ++
        signals.map (·.input),
      [.output .validation]⟩

def passes (stabilizes : Bool) (signals : List SignalTextures) : List Pass :=
  [classifyTiles, hitDistReconstruction signals, prePass signals,
    temporalAccumulation stabilizes signals, historyFix signals, blur signals,
    postBlur stabilizes signals] ++
  (if stabilizes then [temporalStabilization signals] else []) ++
  [splitScreen signals, validation signals]

def blueprint (signals : Signals) : Blueprint :=
  let signal := signalTexture signals
  let fast := Texture.of .r16Sfloat
  { defines :=
      [.flag "REBLUR_DIFFUSE" signals.diffuse, .flag "REBLUR_SPECULAR" signals.specular,
        .flag "REBLUR_OCCLUSION" signals.occlusion]
    permanent := [.of .r32Sfloat, .of .rgba8Unorm, .of .r16Uint] ++
      signals.channels.flatMap fun _ =>
        [signal, fast] ++ if signals.occlusion then [] else [signal, signal]
    transient := [⟨.r8Unorm, 16⟩, .of .rg16Sfloat, .of .r32Uint] ++
      signals.channels.flatMap fun _ => [signal, signal, fast]
    passes := passes (!signals.occlusion) (textures signals) }

end Reblur

end DenoisePlanner
