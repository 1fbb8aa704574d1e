import DenoisePlanner.Log
import DenoisePlanner.Pipeline.Pass
import DenoisePlanner.Pipeline.Table
import DenoisePlanner.Texture.SwapTable

namespace DenoisePlanner

-- A texture bound to a declared dispatch. Which of two swapping textures it is depends on
-- the roles of the moment.
inductive Binding where
  | fixed (resource : BoundResource)
  | swapping (entry index : Nat) (access : Access)
  deriving DecidableEq, Inhabited

def Binding.resolve (swaps : SwapTable) : Binding → BoundResource
  | .fixed resource => resource
  | .swapping entry index access => ⟨.permanentPool, swaps.resolve entry index, access⟩

-- One specialisation of one pass.
structure DeclaredDispatch where
  name : String
  stage : Stage
  pipeline : Nat
  bindings : Span
  data : PassData
  constantsSize : Nat
  threads : Extent
  downsample : UInt16
  repeats : UInt16
  deriving DecidableEq, Inhabited

-- A pass, whose specialisations occupy the dispatches from `base` on.
structure DeclaredPass where
  stage : Stage
  conditions : List Condition
  base : Nat
  deriving DecidableEq, Inhabited

def DeclaredPass.dispatch (pass : DeclaredPass) (s : Specialization) : Nat := pass.base + s.bits

-- Everything that the denoisers of a planner have declared.
structure Declarations where
  pools : Pools := {}
  swaps : SwapTable := {}
  bindings : Array Binding := #[]
  dispatches : Array DeclaredDispatch := #[]
  pipelines : PipelineTable := .empty
  journal : Array LogEvent := #[]

namespace Declarations

instance : Inhabited Declarations := ⟨{}⟩

-- What a dispatch binds under the current roles.
def resources (tables : Declarations) (dispatch : DeclaredDispatch) : List BoundResource :=
  (dispatch.bindings.slice tables.bindings).map (Binding.resolve tables.swaps)

-- The pipeline of a shader. Identifiers decide which shaders are the same, and a shader is
-- bound alike wherever it is used.
def addPipeline (key : ShaderKey) (layout : PipelineLayout) : EStateM Failure Declarations Nat :=
  fun tables =>
    let identifier := key.identifier
    match h : tables.pipelines.find? identifier with
    | some i =>
      let expected := tables.pipelines.pipelines[i].layout
      if expected = layout then .ok i tables
      else .error (.mismatchedBindings identifier expected layout) tables
    | none =>
      let position := tables.pipelines.size
      if PipelineTable.capacity ≤ position then .error .tooManyPipelines tables
      else .ok position
        { tables with
          pipelines := tables.pipelines.push ⟨key, identifier, layout⟩ h
          journal := tables.journal.push (.pipelineDeclared position identifier) }

-- Appends a dispatch with its bindings.
def addDispatch (bindings : Array Binding) (dispatch : Span → DeclaredDispatch) :
    EStateM Failure Declarations Nat :=
  modifyGet fun tables =>
    let position := tables.dispatches.size
    let start := tables.bindings.size
    (position,
      { tables with
        bindings := tables.bindings ++ bindings
        dispatches := tables.dispatches.push (dispatch ⟨start, start + bindings.size⟩) })

end Declarations

end DenoisePlanner
