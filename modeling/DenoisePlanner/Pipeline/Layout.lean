import DenoisePlanner.Extent

namespace DenoisePlanner

-- What a pipeline expects to be bound: sampled textures, then storage textures.
structure PipelineLayout where
  threads : Extent
  textures : Nat
  storageTextures : Nat
  hasConstants : Bool
  deriving DecidableEq, Inhabited

def PipelineLayout.text (l : PipelineLayout) : String :=
  s!"{l.textures} texture(s), {l.storageTextures} storage texture(s), " ++
    s!"{l.threads.x}x{l.threads.y} threads" ++ if l.hasConstants then ", constant data" else ""

end DenoisePlanner
