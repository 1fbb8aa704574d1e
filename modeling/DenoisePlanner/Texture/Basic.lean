namespace DenoisePlanner

inductive PixelFormat where
  | r8Unorm
  | r8Uint
  | r16Uint
  | r16Sfloat
  | r32Uint
  | r32Sfloat
  | rg16Sfloat
  | rgba8Unorm
  | rgba16Sfloat
  | rgba32Sfloat
  deriving DecidableEq, Inhabited

namespace PixelFormat

def all : List PixelFormat :=
  [.r8Unorm, .r8Uint, .r16Uint, .r16Sfloat, .r32Uint, .r32Sfloat, .rg16Sfloat, .rgba8Unorm,
    .rgba16Sfloat, .rgba32Sfloat]

def name : PixelFormat → String
  | .r8Unorm => "R8Unorm"
  | .r8Uint => "R8Uint"
  | .r16Uint => "R16Uint"
  | .r16Sfloat => "R16Sfloat"
  | .r32Uint => "R32Uint"
  | .r32Sfloat => "R32Sfloat"
  | .rg16Sfloat => "Rg16Sfloat"
  | .rgba8Unorm => "Rgba8Unorm"
  | .rgba16Sfloat => "Rgba16Sfloat"
  | .rgba32Sfloat => "Rgba32Sfloat"

def isInteger : PixelFormat → Bool
  | .r8Uint | .r16Uint | .r32Uint => true
  | _ => false

end PixelFormat

-- A pooled texture; its size is the resource size divided by `downsample`.
structure Texture where
  format : PixelFormat
  downsample : UInt16 := 1
  deriving DecidableEq, Inhabited

end DenoisePlanner
