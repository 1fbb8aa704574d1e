import DenoisePlanner.Frame.Constants
import DenoisePlanner.Frame.Switches
import DenoisePlanner.Pipeline.Blueprint

namespace DenoisePlanner

structure SigmaSettings where
  -- Towards the main light in world space; zero for local lights.
  lightDirection : Vec3 := .zero
  planeDistanceSensitivity : Float32 := 0.005
  blurRadiusScale : Float32 := 2
  maxStabilized : UInt32 := 5
  deriving BEq, Inhabited

namespace SigmaSettings

def rules (s : SigmaSettings) : List Rule :=
  [⟨s.lightDirection.isFinite, .lightNotFinite⟩,
    ⟨isNonNegative s.planeDistanceSensitivity && isNonNegative s.blurRadiusScale, .shadowScale⟩]

end SigmaSettings

structure SigmaConstants where
  light : Row
  stabilization : Row
  deriving DecidableEq, Inhabited

namespace SigmaConstants

def rows (c : SigmaConstants) : List Row := [c.light, c.stabilization]

def maxStabilized (c : SigmaConstants) : UInt32 := c.stabilization.x

end SigmaConstants

namespace Sigma

-- The longest history, in frames.
def maxHistory : UInt32 := 7

def switches (s : SigmaSettings) (frame : Switches) : Switches :=
  { frame with temporalStabilization := decide (0 < s.maxStabilized) }

def constants (s : SigmaSettings) (signals : Signals) (frame : FrameConstants) : SigmaConstants :=
  let maxStabilized := if frame.isHistoryReset then 0 else min s.maxStabilized maxHistory
  { light := .ofVec (s.lightDirection.extend s.planeDistanceSensitivity)
    stabilization :=
      ⟨maxStabilized, s.blurRadiusScale.toBits, flagWord signals.translucency, 0⟩ }

def history : Reference := .swapping (.permanent 0) (.permanent 1)
def historyPrev : Reference := .swapping (.permanent 1) (.permanent 0)
def tiles : Reference := .pooled (.transient 0)
def smoothTiles : Reference := .pooled (.transient 1)
def data1 : Reference := .pooled (.transient 2)
def temp1 : Reference := .pooled (.transient 3)
def temp2 : Reference := .pooled (.transient 4)

def inputs (translucency : Bool) : List Reference :=
  .input .penumbra :: if translucency then [.input .translucency] else []

def classifyTiles (translucency : Bool) : Pass where
  stage := .classifyTiles
  shader := "SIGMA_ClassifyTiles"
  downsample := 16
  bindings := fun _ => ⟨inputs translucency, [tiles]⟩

def smoothing : Pass where
  stage := .smoothTiles
  shader := "SIGMA_SmoothTiles"
  downsample := 16
  threads := ⟨16, 16⟩
  bindings := fun _ => ⟨[tiles], [smoothTiles]⟩

def blur (translucency : Bool) : Pass where
  stage := .blur
  shader := "SIGMA_Blur"
  data := .blur 0
  bindings := fun _ =>
    ⟨[.input .normalRoughness] ++ inputs translucency ++ [smoothTiles], [data1, temp1]⟩

-- Without stabilization the second blur fills the host's output itself.
def postBlur : Pass where
  stage := .postBlur
  shader := "SIGMA_PostBlur"
  conditions := [.temporalStabilization]
  data := .blur 1
  bindings := fun s =>
    ⟨[.input .normalRoughness, data1, temp1, smoothTiles],
      [if s.has .temporalStabilization then temp2 else .output .shadowTranslucency]⟩

def temporalStabilization : Pass where
  stage := .temporalStabilization
  shader := "SIGMA_TemporalStabilization"
  bindings := fun _ =>
    ⟨[.input .motion, data1, temp2, historyPrev, smoothTiles],
      [.output .shadowTranslucency, history]⟩

def splitScreen (translucency : Bool) : Pass where
  stage := .splitScreen
  shader := "SIGMA_SplitScreen"
  bindings := fun _ => ⟨inputs translucency, [.output .shadowTranslucency]⟩

def passes (translucency : Bool) : List Pass :=
  [classifyTiles translucency, smoothing, blur translucency, postBlur, temporalStabilization,
    splitScreen translucency]

def blueprint (signals : Signals) : Blueprint :=
  let shadow := Texture.of (if signals.translucency then .rgba8Unorm else .r8Unorm)
  { defines := [.flag "SIGMA_TRANSLUCENCY" signals.translucency]
    permanent := [shadow, shadow]
    transient := [⟨.rg16Sfloat, 16⟩, ⟨.rg16Sfloat, 16⟩, .of .rg16Sfloat, shadow, shadow]
    passes := passes signals.translucency }

end Sigma

end DenoisePlanner
