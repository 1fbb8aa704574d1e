import DenoisePlanner.Pipeline.Draft

namespace DenoisePlanner

def Reference.input (kind : HostInput) : Reference := .host (.input kind)

def Reference.output (kind : HostOutput) : Reference := .host (.output kind)

def Texture.of (format : PixelFormat) : Texture := { format }

-- All that a denoiser declares. Its textures are numbered in the order of the lists.
structure Blueprint where
  defines : List Define
  permanent : List Texture
  transient : List Texture
  passes : List Pass

def Declaring.declareBlueprint (b : Blueprint) : Declaring Unit := do
  b.permanent.forM fun texture => discard (addPermanent texture)
  b.transient.forM fun texture => discard (addTransient texture)
  declare b.passes

end DenoisePlanner
