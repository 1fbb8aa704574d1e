import DenoisePlanner.Extent
import DenoisePlanner.Pipeline.Specialization
import DenoisePlanner.Pipeline.Stage
import DenoisePlanner.Texture.Pool

namespace DenoisePlanner

-- What a pass binds: a texture of the host, a pooled texture, or the first of two permanent
-- textures that trade places after every frame.
inductive Reference where
  | host (kind : ResourceKind)
  | pooled (slot : Slot)
  | swapping (current other : Slot)
  deriving DecidableEq, Inhabited

structure Bindings where
  inputs : List Reference
  outputs : List Reference
  deriving DecidableEq, Inhabited

-- The constant data that a dispatch receives.
inductive PassData where
  | none
  | shared
  | blur (phase : UInt32)
  | atrous
  deriving DecidableEq, Inhabited

namespace PassData

def hasShared : PassData → Bool
  | .none => false
  | _ => true

-- The bytes that follow the shared part.
def extraSize : PassData → Nat
  | .none | .shared => 0
  | .blur _ | .atrous => 16

end PassData

-- A pass of a denoiser, bound for each specialisation apart.
structure Pass where
  stage : Stage
  shader : String
  bindings : Specialization → Bindings
  conditions : List Condition := []
  threads : Extent := ⟨8, 8⟩
  downsample : UInt16 := 1
  repeats : UInt16 := 1
  data : PassData := .shared

end DenoisePlanner
