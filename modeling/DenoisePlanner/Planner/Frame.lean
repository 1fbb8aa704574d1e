import DenoisePlanner.Planner.Plan

namespace DenoisePlanner

-- A dispatch as the host records it.
structure Dispatch where
  identifier : Identifier
  name : String
  stage : Stage
  pipeline : Nat
  bytecode : Bytecode
  resources : List BoundResource
  -- Where the constants lie in the scratch buffer, and what they are.
  place : Span
  constants : ByteArray
  grid : Extent
  downsample : UInt16
  repeats : UInt16
  deriving Inhabited

-- The dispatches of a frame, with the constants that each denoiser's dispatches share.
structure Frame where
  dispatches : List Dispatch
  shared : List (Identifier × SharedConstants)
  deriving Inhabited

-- A denoiser's plan with the places of its constants.
structure PlacedPlan where
  plan : DenoiserPlan
  places : List Span
  deriving Inhabited

-- What came of planning for some denoisers. A failure keeps the effects before it.
structure Run (α : Type) where
  planner : Planner
  calls : List MemoryCall
  log : List LogEvent
  result : Except Failure α

namespace Planner

-- Moves one denoiser on; a frame that only showed inputs leaves it where it was.
def advance (p : Planner) (i : Nat) (d : DenoiserState) (plan : DenoiserPlan) : Planner :=
  if plan.switches.isPassthrough then p
  else
    { p with
      tables :=
        { p.tables with
          swaps := (p.tables.swaps.exchange? d.layout.swaps).getD p.tables.swaps }
      denoisers := p.denoisers.setIfInBounds i (d.advance p.settings) }

def resized : MemoryCall → Option LogEvent
  | .allocate block true => some (.scratchResized block.size)
  | .reallocate _ size true => some (.scratchResized size)
  | _ => none

-- The denoiser moves on only when all of its constants found room.
def runDenoiser (p : Planner) (policy : MemoryPolicy) (i : Nat) (d : DenoiserState) :
    Run PlacedPlan :=
  let plan := p.plan d
  let placement := p.scratch.pushAll policy (plan.dispatches.map (·.constants))
  let p := { p with scratch := placement.buffer }
  let log := plan.log ++ placement.calls.filterMap resized
  match placement.result with
  | .error e => ⟨p, placement.calls, log, .error e⟩
  | .ok places => ⟨p.advance i d plan, placement.calls, log, .ok ⟨plan, places⟩⟩

def runAll (p : Planner) (policy : MemoryPolicy) : List Nat → Run (List PlacedPlan)
  | [] => ⟨p, [], [], .ok []⟩
  | i :: rest =>
    match p.denoisers[i]? with
    | none => p.runAll policy rest
    | some d =>
      let first := p.runDenoiser policy i d
      match first.result with
      | .error e => ⟨first.planner, first.calls, first.log, .error e⟩
      | .ok placed =>
        let others := first.planner.runAll policy rest
        ⟨others.planner, first.calls ++ others.calls, first.log ++ others.log,
          others.result.map (placed :: ·)⟩

-- The positions of the denoisers asked for. The first identifier that is unknown or comes
-- again decides the failure.
def positions (p : Planner) (seen : List Nat) : List Identifier → Except Failure (List Nat)
  | [] => .ok []
  | identifier :: rest =>
    match p.position? identifier with
    | none => .error (.unknownIdentifier identifier)
    | some i =>
      if seen.contains i then .error (.duplicateIdentifier identifier)
      else (p.positions (i :: seen) rest).map (i :: ·)

def dispatch (p : Planner) (identifier : Identifier) (planned : PlannedDispatch) (place : Span) :
    Dispatch where
  identifier := identifier
  name := planned.declared.name
  stage := planned.declared.stage
  pipeline := planned.declared.pipeline
  bytecode := (p.inventory.pipelines[planned.declared.pipeline]?.map (·.bytecode)).getD {}
  resources := planned.resources
  place := place
  constants := p.scratch.read place
  grid := planned.grid
  downsample := planned.declared.downsample
  repeats := planned.declared.repeats

def frameOf (p : Planner) (plans : List PlacedPlan) : Frame where
  dispatches := plans.flatMap fun placed =>
    List.zipWith (p.dispatch placed.plan.identifier) placed.plan.dispatches placed.places
  shared := plans.map fun placed => (placed.plan.identifier, placed.plan.shared)

-- The dispatches of the denoisers asked for, in that order. Nothing happens at all unless all
-- identifiers are known and distinct.
def frame (p : Planner) (policy : MemoryPolicy) (identifiers : List Identifier) : Run Frame :=
  match p.positions [] identifiers with
  | .error e => ⟨p, [], [], .error e⟩
  | .ok positions =>
    let run := { p with scratch := p.scratch.clear }.runAll policy positions
    ⟨run.planner, run.calls, run.log, run.result.map run.planner.frameOf⟩

end Planner

end DenoisePlanner
