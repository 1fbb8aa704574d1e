import DenoisePlanner.Pipeline.Declaration

namespace DenoisePlanner

-- Consecutive bindings of one kind.
structure ResourceRange where
  access : Access
  count : Nat
  deriving DecidableEq, Inhabited

def PipelineLayout.ranges (l : PipelineLayout) : List ResourceRange :=
  [⟨.read, l.textures⟩, ⟨.write, l.storageTextures⟩].filter (0 < ·.count)

structure CompiledPipeline where
  pipeline : Pipeline
  bytecode : Bytecode
  deriving Inhabited

-- How many descriptors suffice for one frame, each dispatch counted as often as it can repeat.
structure DescriptorBudget where
  sets : Nat := 0
  constantBuffers : Nat := 0
  samplers : Nat := 0
  textures : Nat := 0
  storageTextures : Nat := 0
  deriving DecidableEq, Inhabited

namespace DescriptorBudget

def add (a b : DescriptorBudget) : DescriptorBudget where
  sets := a.sets + b.sets
  constantBuffers := a.constantBuffers + b.constantBuffers
  samplers := a.samplers + b.samplers
  textures := a.textures + b.textures
  storageTextures := a.storageTextures + b.storageTextures

def ofDispatch (layout : PipelineLayout) (dispatch : DeclaredDispatch) : DescriptorBudget :=
  let times := dispatch.repeats.toNat
  { sets := times
    constantBuffers := if 0 < dispatch.constantsSize then times else 0
    samplers := times * Sampler.all.length
    textures := times * layout.textures
    storageTextures := times * layout.storageTextures }

end DescriptorBudget

-- All that a host has to create before it dispatches anything.
structure Inventory where
  pipelines : Array CompiledPipeline
  permanent : Array Texture
  transient : Array Texture
  samplers : List Sampler
  maxConstantsSize : Nat
  budget : DescriptorBudget
  deriving Inhabited

namespace Declarations

def layoutOf (tables : Declarations) (dispatch : DeclaredDispatch) : PipelineLayout :=
  match tables.pipelines.pipelines[dispatch.pipeline]? with
  | some pipeline => pipeline.layout
  | none => default

def budget (tables : Declarations) : DescriptorBudget :=
  tables.dispatches.foldl
    (fun total dispatch => total.add (.ofDispatch (tables.layoutOf dispatch) dispatch)) {}

def maxConstantsSize (tables : Declarations) : Nat :=
  tables.dispatches.foldl (fun size dispatch => max size dispatch.constantsSize) 0

def inventory (tables : Declarations) (store : ShaderStore) : Inventory where
  pipelines := tables.pipelines.pipelines.map fun p => ⟨p, store.bytecode p.key⟩
  permanent := tables.pools.permanent
  transient := tables.pools.transient
  samplers := Sampler.all
  maxConstantsSize := tables.maxConstantsSize
  budget := tables.budget

end Declarations

end DenoisePlanner
