import DenoisePlanner.Pipeline.Declaration

namespace DenoisePlanner

structure DispatchArgs where
  threads : Extent := ⟨8, 8⟩
  downsample : UInt16 := 1
  repeats : UInt16 := 1
  data : PassData := .shared
  deriving DecidableEq, Inhabited

-- A pass that still collects its bindings.
structure OpenPass where
  stage : Stage
  inputs : Array Binding := #[]
  outputs : Array Binding := #[]
  deriving DecidableEq, Inhabited

-- A denoiser in the course of its declaration.
structure OpenDenoiser where
  name : String
  defines : List Define
  sharedSize : Nat
  claims : Claims
  passes : Array DeclaredPass := #[]
  pending : Option OpenPass := none
  dispatchStart : Nat
  swapStart : Nat
  deriving Inhabited

-- The common tables together with the denoiser that extends them.
structure Draft where
  tables : Declarations
  denoiser : OpenDenoiser
  deriving Inhabited

-- What a denoiser has declared.
structure DenoiserLayout where
  passes : List DeclaredPass
  dispatches : Span
  swaps : Span
  claims : Claims
  deriving Inhabited

-- A step that fails keeps what it did before it failed.
abbrev Declaring := EStateM Failure Draft

def Declarations.draft (tables : Declarations) (name : String) (defines : List Define)
    (sharedSize : Nat) : Draft where
  tables := tables
  denoiser :=
    { name, defines, sharedSize
      claims := tables.pools.claims
      dispatchStart := tables.dispatches.size
      swapStart := tables.swaps.size }

namespace Declaring

def onTables (x : EStateM Failure Declarations α) : Declaring α := fun ⟨tables, denoiser⟩ =>
  match x tables with
  | .ok a tables => .ok a ⟨tables, denoiser⟩
  | .error e tables => .error e ⟨tables, denoiser⟩

def onPools (x : Allotting α) : Declaring α := fun ⟨tables, denoiser⟩ =>
  match x ⟨tables.pools, denoiser.claims⟩ with
  | .ok a s => .ok a ⟨{ tables with pools := s.pools }, { denoiser with claims := s.claims }⟩
  | .error e s => .error e ⟨{ tables with pools := s.pools }, { denoiser with claims := s.claims }⟩

def addPermanent (texture : Texture) : Declaring Slot := onPools (Allotting.addPermanent texture)

def addTransient (texture : Texture) : Declaring Slot := onPools (Allotting.addTransient texture)

def resolve (slot : Slot) : Declaring (ResourceKind × Nat) := do
  match (← get).denoiser.claims.resolve slot with
  | .ok resolved => pure resolved
  | .error e => throw e

def registerSwap (a b : Nat) : Declaring Nat := do
  match (← get).tables.swaps.register a b with
  | .ok (entry, swaps) =>
    modify fun d => { d with tables := { d.tables with swaps := swaps } }
    pure entry
  | .error e => throw e

def bind (access : Access) : Reference → Declaring Binding
  | .host kind => pure (.fixed ⟨kind, 0, access⟩)
  | .pooled slot => do
    let (kind, index) ← resolve slot
    pure (.fixed ⟨kind, index, access⟩)
  | .swapping (.permanent current) (.permanent other) => do
    let (_, a) ← resolve (.permanent current)
    let (_, b) ← resolve (.permanent other)
    let entry ← registerSwap a b
    pure (.swapping entry a access)
  | .swapping _ _ => throw .invalidSwap

-- Opens a pass; its bindings follow, then its dispatch.
def openPass (stage : Stage) : Declaring Unit := do
  if (← get).denoiser.pending.isSome then throw (.invalidArgument .passStillOpen)
  modify fun d => { d with denoiser := { d.denoiser with pending := some { stage } } }

def modifyPass (f : OpenPass → OpenPass) : Declaring Unit := do
  match (← get).denoiser.pending with
  | some pass =>
    modify fun d => { d with denoiser := { d.denoiser with pending := some (f pass) } }
  | none => throw (.invalidArgument .bindingOutsidePass)

def admissible (access : Access) : Reference → Bool
  | .host kind => match access with
    | .read => kind.isInput
    | .write => kind.isOutput
  | _ => true

-- The roles of a swapping pair are registered even where no pass is open to bind it.
def addInput (reference : Reference) : Declaring Unit := do
  if !admissible .read reference then throw (.invalidArgument .inputKind)
  let binding ← bind .read reference
  modifyPass fun pass => { pass with inputs := pass.inputs.push binding }

def addOutput (reference : Reference) : Declaring Unit := do
  if !admissible .write reference then throw (.invalidArgument .outputKind)
  let binding ← bind .write reference
  modifyPass fun pass => { pass with outputs := pass.outputs.push binding }

-- The open pass is used up, whether its dispatch is accepted or not.
def takePass : Declaring OpenPass := do
  match (← get).denoiser.pending with
  | some pass =>
    modify fun d => { d with denoiser := { d.denoiser with pending := none } }
    pure pass
  | none => throw (.invalidArgument .dispatchOutsidePass)

-- Closes the open pass and gives the position of its dispatch.
def addDispatch (shader : String) (defines : List Define) (args : DispatchArgs) :
    Declaring Nat := do
  let pass ← takePass
  if args.downsample == 0 || args.repeats == 0 then throw (.invalidArgument .emptyDispatch)
  let pipeline ← onTables (Declarations.addPipeline ⟨shader, defines⟩
    { threads := args.threads
      textures := pass.inputs.size
      storageTextures := pass.outputs.size
      hasConstants := args.data.hasShared })
  let { name, sharedSize, .. } := (← get).denoiser
  onTables (Declarations.addDispatch (pass.inputs ++ pass.outputs) fun bindings =>
    { name := name ++ " - " ++ pass.stage.name
      stage := pass.stage
      pipeline, bindings
      data := args.data
      constantsSize := if args.data.hasShared then sharedSize + args.data.extraSize else 0
      threads := args.threads
      downsample := args.downsample
      repeats := args.repeats })

def recordPass (pass : DeclaredPass) : Declaring Unit :=
  modify fun d => { d with denoiser := { d.denoiser with passes := d.denoiser.passes.push pass } }

def note (event : LogEvent) : Declaring Unit :=
  modify fun d => { d with tables := { d.tables with journal := d.tables.journal.push event } }

-- A permanent texture is cleared by a dispatch of its own.
def declareClear (slot : Slot) : Declaring Unit := do
  let d ← get
  match d.tables.pools.texture? d.denoiser.claims slot with
  | none => throw (.invalidArgument .unknownPermanentSlot)
  | some texture =>
    openPass .clear
    addOutput (.pooled slot)
    let shader := if texture.format.isInteger then "Clear_ui" else "Clear_f"
    let base ← addDispatch shader [] { downsample := texture.downsample, data := .none }
    recordPass ⟨.clear, [], base⟩

def declareSpecialization (pass : Pass) (s : Specialization) : Declaring Unit := do
  let bindings := pass.bindings s
  openPass pass.stage
  bindings.inputs.forM addInput
  bindings.outputs.forM addOutput
  let defines := (← get).denoiser.defines ++ s.defines
  discard <| addDispatch pass.shader defines
    { threads := pass.threads
      downsample := pass.downsample
      repeats := pass.repeats
      data := pass.data }

-- All specialisations of a pass, of which the first becomes dispatch `base`.
def declareFrom (base : Nat) (pass : Pass) : Declaring Unit := do
  (Specialization.all pass.conditions).forM (declareSpecialization pass)
  note (.passDeclared (← get).denoiser.name pass.stage (Specialization.count pass.conditions))
  recordPass ⟨pass.stage, pass.conditions, base⟩

def declarePass (pass : Pass) : Declaring Unit := do
  declareFrom (← get).tables.dispatches.size pass

-- Clears of all permanent textures so far, then every specialisation of every pass.
def declare (passes : List Pass) : Declaring Unit := do
  (← get).denoiser.claims.permanentSlots.forM declareClear
  passes.forM declarePass

end Declaring

def Draft.finish (d : Draft) : Except Failure DenoiserLayout :=
  if d.denoiser.pending.isSome then .error (.invalidArgument .lastPassOpen)
  else .ok
    { passes := d.denoiser.passes.toList
      dispatches := ⟨d.denoiser.dispatchStart, d.tables.dispatches.size⟩
      swaps := ⟨d.denoiser.swapStart, d.tables.swaps.size⟩
      claims := d.denoiser.claims }

end DenoisePlanner
