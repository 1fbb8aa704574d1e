import DenoisePlanner.Frame.Constants
import DenoisePlanner.Frame.Switches
import DenoisePlanner.Pipeline.Blueprint
import DenoisePlanner.Technique.Channel

namespace DenoisePlanner

structure RelaxSettings where
  diffusePrePassRadius : Float32 := 0
  specularPrePassRadius : Float32 := 50
  diffuseMaxAccumulated : UInt32 := 30
  specularMaxAccumulated : UInt32 := 30
  diffuseMaxFastAccumulated : UInt32 := 6
  specularMaxFastAccumulated : UInt32 := 6
  historyFixFrames : UInt32 := 3
  historyFixNormalPower : Float32 := 8
  colorBoxSigmaScale : Float32 := 2
  spatialVarianceThreshold : UInt32 := 3
  atrousIterations : UInt32 := 5
  diffusePhiLuminance : Float32 := 2
  specularPhiLuminance : Float32 := 1
  diffuseMinLuminanceWeight : Float32 := 0
  specularMinLuminanceWeight : Float32 := 0
  lobeAngleFraction : Float32 := 0.5
  roughnessFraction : Float32 := 0.15
  depthThreshold : Float32 := 0.003
  specularVarianceBoost : Float32 := 0
  specularLobeAngleSlack : Float32 := 0.15
  confidenceRelaxation : Float32 := 0
  checkerboard : Checkerboard := .off
  reconstruction : Reconstruction := .off
  antiFirefly : Bool := false
  roughnessEdgeStopping : Bool := true
  deriving BEq, Inhabited

namespace RelaxSettings

def rules (s : RelaxSettings) : List Rule :=
  [⟨[s.diffusePrePassRadius, s.specularPrePassRadius].all isNonNegative, .blurRadius⟩,
    ⟨[s.lobeAngleFraction, s.roughnessFraction, s.diffuseMinLuminanceWeight,
        s.specularMinLuminanceWeight].all isFraction, .fraction⟩,
    ⟨[s.historyFixNormalPower, s.colorBoxSigmaScale, s.diffusePhiLuminance,
        s.specularPhiLuminance, s.depthThreshold, s.specularVarianceBoost,
        s.specularLobeAngleSlack, s.confidenceRelaxation].all isNonNegative, .weight⟩]

end RelaxSettings

structure RelaxConstants where
  accumulation : Row
  history : Row
  luminance : Row
  edgeStopping : Row
  specular : Row
  checkerboard : Row
  deriving DecidableEq, Inhabited

namespace RelaxConstants

def rows (c : RelaxConstants) : List Row :=
  [c.accumulation, c.history, c.luminance, c.edgeStopping, c.specular, c.checkerboard]

def diffuseLimit (c : RelaxConstants) : HistoryLimit := ⟨c.accumulation.x, c.accumulation.z⟩
def specularLimit (c : RelaxConstants) : HistoryLimit := ⟨c.accumulation.y, c.accumulation.w⟩
def atrousIterations (c : RelaxConstants) : UInt32 := c.history.w

end RelaxConstants

namespace Relax

-- The longest history, in frames.
def maxHistory : UInt32 := 255

def switches (s : RelaxSettings) (signals : Signals) (frame : Switches) : Switches :=
  { frame with
    hitDistReconstruction := reconstructs s.reconstruction s.checkerboard
    hitDist5x5 := s.reconstruction == .area5x5
    prePass := blursBefore signals s.diffusePrePassRadius s.specularPrePassRadius
    antiFirefly := s.antiFirefly
    atrousRequest := s.atrousIterations }

def constants (s : RelaxSettings) (switches : Switches) (frame : FrameConstants) :
    RelaxConstants :=
  let diffuse := HistoryLimit.of frame.isHistoryReset maxHistory s.diffuseMaxAccumulated
    s.diffuseMaxFastAccumulated
  let specular := HistoryLimit.of frame.isHistoryReset maxHistory s.specularMaxAccumulated
    s.specularMaxFastAccumulated
  let (diffuseField, specularField) := s.checkerboard.channels
  { accumulation := ⟨diffuse.main, specular.main, diffuse.fast, specular.fast⟩
    history :=
      ⟨s.historyFixFrames, s.colorBoxSigmaScale.toBits, s.spatialVarianceThreshold,
        .ofNat switches.atrousCount⟩
    luminance := .floats s.diffusePhiLuminance s.specularPhiLuminance s.diffuseMinLuminanceWeight
      s.specularMinLuminanceWeight
    edgeStopping := .floats s.lobeAngleFraction s.roughnessFraction s.depthThreshold
      s.historyFixNormalPower
    specular :=
      ⟨s.specularVarianceBoost.toBits, s.specularLobeAngleSlack.toBits,
        s.confidenceRelaxation.toBits, flagWord s.roughnessEdgeStopping⟩
    checkerboard :=
      ⟨diffuseField, specularField, s.diffusePrePassRadius.toBits,
        s.specularPrePassRadius.toBits⟩ }

def historyLength : Reference := .swapping (.permanent 0) (.permanent 1)
def historyLengthPrev : Reference := .swapping (.permanent 1) (.permanent 0)
def normalRoughnessPrev : Reference := .pooled (.permanent 2)
def viewZPrev : Reference := .pooled (.permanent 3)
def tiles : Reference := .pooled (.transient 0)

-- The textures of one signal.
structure SignalTextures where
  input : Reference
  output : Reference
  confidence : Reference
  illuminationPrev : Reference
  responsivePrev : Reference
  ping : Reference
  pong : Reference
  tmp : Reference

def SignalTextures.of (channel : Channel) (position : Nat) : SignalTextures :=
  let permanent := 4 + position * 2
  let transient := 1 + position * 3
  { input := .input channel.radiance
    output := .output channel.radianceOutput
    confidence := .input channel.confidence
    illuminationPrev := .pooled (.permanent permanent)
    responsivePrev := .pooled (.permanent (permanent + 1))
    ping := .pooled (.transient transient)
    pong := .pooled (.transient (transient + 1))
    tmp := .pooled (.transient (transient + 2)) }

def textures (signals : Signals) : List SignalTextures :=
  signals.channels.mapIdx fun position channel => .of channel position

-- What every A-trous step reads beside the signals.
def guides : List Reference :=
  [tiles, .input .normalRoughness, .input .viewZ, historyLength]

def classifyTiles : Pass where
  stage := .classifyTiles
  shader := "RELAX_ClassifyTiles"
  downsample := 16
  bindings := fun _ => ⟨[.input .viewZ], [tiles]⟩

def hitDistReconstruction (signals : List SignalTextures) : Pass where
  stage := .hitDistReconstruction
  shader := "RELAX_HitDistReconstruction"
  conditions := [.prePass, .hitDist5x5]
  bindings := fun s =>
    ⟨[tiles, .input .normalRoughness, .input .viewZ] ++ signals.map (·.input),
      signals.map fun t => if s.has .prePass then t.tmp else t.ping⟩

def prePass (signals : List SignalTextures) : Pass where
  stage := .prePass
  shader := "RELAX_PrePass"
  conditions := [.afterHitDistReconstruction]
  data := .blur 0
  bindings := fun s =>
    ⟨[tiles, .input .normalRoughness, .input .viewZ] ++
        signals.map fun t => if s.has .afterHitDistReconstruction then t.tmp else t.input,
      signals.map (·.ping)⟩

def temporalAccumulation (signals : List SignalTextures) : Pass where
  stage := .temporalAccumulation
  shader := "RELAX_TemporalAccumulation"
  conditions := [.afterPrePass, .confidence, .disocclusionMix]
  bindings := fun s =>
    ⟨[tiles, .input .normalRoughness, .input .viewZ, .input .motion, normalRoughnessPrev,
        viewZPrev, historyLengthPrev] ++
        (if s.has .disocclusionMix then [.input .disocclusionMix] else []) ++
        signals.flatMap fun t =>
          (if s.has .confidence then [t.confidence] else []) ++
            [if s.has .afterPrePass then t.ping else t.input, t.illuminationPrev,
              t.responsivePrev],
      signals.flatMap (fun t => [t.tmp, t.pong]) ++ [historyLength]⟩

def historyFix (signals : List SignalTextures) : Pass where
  stage := .historyFix
  shader := "RELAX_HistoryFix"
  bindings := fun _ => ⟨guides ++ signals.map (·.tmp), signals.map (·.ping)⟩

def historyClamping (signals : List SignalTextures) : Pass where
  stage := .historyClamping
  shader := "RELAX_HistoryClamping"
  bindings := fun _ =>
    ⟨[tiles, historyLength] ++ signals.flatMap fun t => [t.ping, t.pong],
      signals.flatMap fun t => [t.tmp, t.responsivePrev]⟩

def copy (signals : List SignalTextures) : Pass where
  stage := .copy
  shader := "RELAX_Copy"
  bindings := fun _ =>
    ⟨[.input .normalRoughness, .input .viewZ] ++ signals.map (·.tmp),
      [normalRoughnessPrev, viewZPrev] ++ signals.map (·.illuminationPrev)⟩

def antiFirefly (signals : List SignalTextures) : Pass where
  stage := .antiFirefly
  shader := "RELAX_AntiFirefly"
  bindings := fun _ =>
    ⟨[tiles, .input .normalRoughness, .input .viewZ] ++ signals.map (·.tmp),
      signals.map (·.ping)⟩

-- The A-trous steps alternate between the ping and pong textures of each signal.
def atrousFirst (signals : List SignalTextures) : Pass where
  stage := .atrousFirst
  shader := "RELAX_AtrousSmem"
  conditions := [.afterAntiFirefly]
  data := .atrous
  bindings := fun s =>
    ⟨guides ++ signals.map fun t => if s.has .afterAntiFirefly then t.ping else t.tmp,
      signals.map (·.pong)⟩

-- All steps but the first and the last.
def atrous (signals : List SignalTextures) : Pass where
  stage := .atrous
  shader := "RELAX_Atrous"
  conditions := [.fromPong]
  repeats := 6
  data := .atrous
  bindings := fun s =>
    ⟨guides ++ signals.map fun t => if s.has .fromPong then t.pong else t.ping,
      signals.map fun t => if s.has .fromPong then t.ping else t.pong⟩

def atrousLast (signals : List SignalTextures) : Pass where
  stage := .atrousLast
  shader := "RELAX_Atrous"
  conditions := [.fromPong]
  data := .atrous
  bindings := fun s =>
    ⟨guides ++ signals.map fun t => if s.has .fromPong then t.pong else t.ping,
      signals.map (·.output)⟩

def splitScreen (signals : List SignalTextures) : Pass where
  stage := .splitScreen
  shader := "RELAX_SplitScreen"
  bindings := fun _ => ⟨.input .viewZ :: signals.map (·.input), signals.map (·.output)⟩

def validation (signals : List SignalTextures) : Pass where
  stage := .validation
  shader := "RELAX_Validation"
  bindings := fun _ =>
    ⟨[.input .normalRoughness, .input .viewZ, .input .motion, historyLength] ++
        signals.map (·.input),
      [.output .validation]⟩

def passes (signals : List SignalTextures) : List Pass :=
  [classifyTiles, hitDistReconstruction signals, prePass signals, temporalAccumulation signals,
    historyFix signals, historyClamping signals, copy signals, antiFirefly signals,
    atrousFirst signals, atrous signals, atrousLast signals, splitScreen signals,
    validation signals]

def blueprint (signals : Signals) : Blueprint :=
  let rgba := Texture.of .rgba16Sfloat
  { defines := [.flag "RELAX_DIFFUSE" signals.diffuse, .flag "RELAX_SPECULAR" signals.specular]
    permanent := [.of .r8Unorm, .of .r8Unorm, .of .rgba8Unorm, .of .r32Sfloat] ++
      signals.channels.flatMap fun _ => [rgba, rgba]
    transient := ⟨.r8Unorm, 16⟩ :: signals.channels.flatMap fun _ => [rgba, rgba, rgba]
    passes := passes (textures signals) }

end Relax

end DenoisePlanner
