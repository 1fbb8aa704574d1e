import DenoisePlanner.Resource
import DenoisePlanner.Variant

namespace DenoisePlanner

-- The two signals that light is split into.
inductive Channel where
  | diffuse
  | specular
  deriving DecidableEq, Inhabited

def Signals.channels (s : Signals) : List Channel :=
  (if s.diffuse then [.diffuse] else []) ++ if s.specular then [.specular] else []

namespace Channel

def radiance : Channel → HostInput
  | .diffuse => .diffuseRadiance
  | .specular => .specularRadiance

def radianceOutput : Channel → HostOutput
  | .diffuse => .diffuseRadiance
  | .specular => .specularRadiance

def hitDistance : Channel → HostInput
  | .diffuse => .diffuseHitDistance
  | .specular => .specularHitDistance

def hitDistanceOutput : Channel → HostOutput
  | .diffuse => .diffuseHitDistance
  | .specular => .specularHitDistance

def confidence : Channel → HostInput
  | .diffuse => .diffuseConfidence
  | .specular => .specularConfidence

end Channel

-- Which pixels of a signal carry data.
inductive Checkerboard where
  | off | black | white
  deriving DecidableEq, Inhabited

namespace Checkerboard

def all : List Checkerboard := [.off, .black, .white]

def name : Checkerboard → String
  | .off => "Off"
  | .black => "Black"
  | .white => "White"

-- The fields that the diffuse and the specular signal are rendered to; two stands for both.
def channels : Checkerboard → UInt32 × UInt32
  | .off => (2, 2)
  | .black => (0, 1)
  | .white => (1, 0)

end Checkerboard

-- The neighbourhood from which missing hit distances are reconstructed.
inductive Reconstruction where
  | off | area3x3 | area5x5
  deriving DecidableEq, Inhabited

namespace Reconstruction

def all : List Reconstruction := [.off, .area3x3, .area5x5]

def name : Reconstruction → String
  | .off => "Off"
  | .area3x3 => "Area3x3"
  | .area5x5 => "Area5x5"

end Reconstruction

-- A checkerboarded signal has its holes elsewhere and is not reconstructed.
def reconstructs (mode : Reconstruction) (checkerboard : Checkerboard) : Bool :=
  mode != .off && checkerboard == .off

-- A zero radius for every signal at work leaves the blur out.
def blursBefore (signals : Signals) (diffuseRadius specularRadius : Float32) : Bool :=
  (signals.diffuse && decide (0 < diffuseRadius)) || (signals.specular && decide (0 < specularRadius))

-- A ceiling for the length of the history, and one for the fast history below it.
structure HistoryLimit where
  main : UInt32
  fast : UInt32
  deriving DecidableEq, Inhabited

-- A history that is being reset has no length.
def HistoryLimit.of (isReset : Bool) (ceiling main fast : UInt32) : HistoryLimit :=
  if isReset then ⟨0, 0⟩
  else
    let main := min main ceiling
    ⟨main, min fast main⟩

end DenoisePlanner
