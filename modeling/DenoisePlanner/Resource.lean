namespace DenoisePlanner

-- The textures a host provides.
inductive HostInput where
  | motion
  | normalRoughness
  | viewZ
  | diffuseRadiance
  | specularRadiance
  | diffuseHitDistance
  | specularHitDistance
  | diffuseConfidence
  | specularConfidence
  | disocclusionMix
  | penumbra
  | translucency
  | signal
  deriving DecidableEq, Inhabited

namespace HostInput

def all : List HostInput :=
  [.motion, .normalRoughness, .viewZ, .diffuseRadiance, .specularRadiance, .diffuseHitDistance,
    .specularHitDistance, .diffuseConfidence, .specularConfidence, .disocclusionMix, .penumbra,
    .translucency, .signal]

def name : HostInput → String
  | .motion => "InMv"
  | .normalRoughness => "InNormalRoughness"
  | .viewZ => "InViewZ"
  | .diffuseRadiance => "InDiffRadianceHitDist"
  | .specularRadiance => "InSpecRadianceHitDist"
  | .diffuseHitDistance => "InDiffHitDist"
  | .specularHitDistance => "InSpecHitDist"
  | .diffuseConfidence => "InDiffConfidence"
  | .specularConfidence => "InSpecConfidence"
  | .disocclusionMix => "InDisocclusionThresholdMix"
  | .penumbra => "InPenumbra"
  | .translucency => "InTranslucency"
  | .signal => "InSignal"

end HostInput

-- The textures a host wants filled.
inductive HostOutput where
  | diffuseRadiance
  | specularRadiance
  | diffuseHitDistance
  | specularHitDistance
  | shadowTranslucency
  | signal
  | validation
  deriving DecidableEq, Inhabited

namespace HostOutput

def all : List HostOutput :=
  [.diffuseRadiance, .specularRadiance, .diffuseHitDistance, .specularHitDistance,
    .shadowTranslucency, .signal, .validation]

def name : HostOutput → String
  | .diffuseRadiance => "OutDiffRadianceHitDist"
  | .specularRadiance => "OutSpecRadianceHitDist"
  | .diffuseHitDistance => "OutDiffHitDist"
  | .specularHitDistance => "OutSpecHitDist"
  | .shadowTranslucency => "OutShadowTranslucency"
  | .signal => "OutSignal"
  | .validation => "OutValidation"

end HostOutput

inductive ResourceKind where
  | input (kind : HostInput)
  | output (kind : HostOutput)
  | transientPool
  | permanentPool
  deriving DecidableEq, Inhabited

namespace ResourceKind

def all : List ResourceKind :=
  HostInput.all.map .input ++ HostOutput.all.map .output ++ [.transientPool, .permanentPool]

def name : ResourceKind → String
  | .input kind => kind.name
  | .output kind => kind.name
  | .transientPool => "TransientPool"
  | .permanentPool => "PermanentPool"

def isInput : ResourceKind → Bool
  | .input _ => true
  | _ => false

def isOutput : ResourceKind → Bool
  | .output _ => true
  | _ => false

def isPool : ResourceKind → Bool
  | .transientPool | .permanentPool => true
  | _ => false

end ResourceKind

-- How a shader reaches a bound texture: sampled, or stored to.
inductive Access where
  | read
  | write
  deriving DecidableEq, Inhabited

def Access.name : Access → String
  | .read => "Texture"
  | .write => "StorageTexture"

-- A texture bound to a dispatch. The index is a position in a pool, and zero for the
-- host's own textures.
structure BoundResource where
  kind : ResourceKind
  index : Nat
  access : Access
  deriving DecidableEq, Inhabited

inductive Sampler where
  | nearestClamp
  | linearClamp
  deriving DecidableEq

namespace Sampler

def all : List Sampler := [.nearestClamp, .linearClamp]

def name : Sampler → String
  | .nearestClamp => "NearestClamp"
  | .linearClamp => "LinearClamp"

end Sampler

end DenoisePlanner
