import DenoisePlanner.Frame.Selection
import DenoisePlanner.Planner.Basic

namespace DenoisePlanner

-- A dispatch of a frame before its constants have a place.
structure PlannedDispatch where
  declared : DeclaredDispatch
  resources : List BoundResource
  constants : List ByteArray
  grid : Extent
  deriving Inhabited

-- What one denoiser does in a frame.
structure DenoiserPlan where
  identifier : Identifier
  history : History
  switches : Switches
  shared : SharedConstants
  dispatches : List PlannedDispatch
  log : List LogEvent
  deriving Inhabited

namespace DenoiserState

-- The history is of no use after a cut, and where the rect changed its size.
def isReset (d : DenoiserState) (s : FrameSettings) : Bool :=
  s.accumulation != .proceed ||
    match d.snapshot with
    | some last => last.rectSize != s.rectSize
    | none => true

-- The textures are of no use on demand, and where the resources changed their size.
def isCleared (d : DenoiserState) (s : FrameSettings) : Bool :=
  s.accumulation == .clearAndRestart ||
    match d.snapshot with
    | some last => last.resourceSize != s.resourceSize
    | none => true

def nextCount (n : UInt32) : UInt32 := if n = 0xffffffff then n else n + 1

-- The count restarts with the history, and stops at the largest number.
def history (d : DenoiserState) (s : FrameSettings) : History where
  isReset := d.isReset s
  accumulated := if d.isReset s then 0 else nextCount d.accumulated

def switches (d : DenoiserState) (s : FrameSettings) : Switches :=
  { d.settings.switches d.variant.signals s with clear := d.isCleared s }

def shared (d : DenoiserState) (s : FrameSettings) : SharedConstants :=
  let frame := FrameConstants.ofSettings s (d.history s)
  ⟨frame, .ofSettings d.settings d.variant.signals (d.switches s) frame⟩

-- The state after a frame that wrote the history.
def advance (d : DenoiserState) (s : FrameSettings) : DenoiserState :=
  { d with
    snapshot := some ⟨s.rectSize, s.resourceSize⟩
    accumulated := (d.history s).accumulated }

end DenoiserState

-- The chunks of a dispatch's constant block: the shared part, then its own.
def PassData.chunks (data : PassData) (shared : ByteArray) (frameIndex : UInt32)
    (atrous : Option AtrousIteration) : List ByteArray :=
  match data with
  | .none => []
  | .shared => [shared]
  | .blur phase => [shared, (blurRotation frameIndex phase).bytes.toByteArray]
  | .atrous => [shared, (atrous.getD ⟨0, false⟩).row.bytes.toByteArray]

namespace Planner

-- Clears reach the whole resource, everything else the rect.
def extent (s : FrameSettings) (stage : Stage) : Extent :=
  if stage = .clear then s.resourceSize else s.rectSize

def planDispatch (p : Planner) (shared : ByteArray) (selected : Selected) :
    Option PlannedDispatch :=
  p.tables.dispatches[selected.dispatch]?.map fun declared =>
    { declared
      resources := p.tables.resources declared
      constants := declared.data.chunks shared p.settings.frameIndex selected.atrous
      grid := (extent p.settings declared.stage).groups declared.downsample declared.threads }

-- Everything about the frame of one denoiser that does not depend on memory.
def plan (p : Planner) (d : DenoiserState) : DenoiserPlan :=
  let s := p.settings
  let history := d.history s
  let switches := d.switches s
  let shared := d.shared s
  let bytes := (rowBytes shared.rows).toByteArray
  { identifier := d.identifier
    history, switches, shared
    dispatches := (Selected.select d.layout.passes switches).filterMap (p.planDispatch bytes)
    log := .historyJudged d.identifier history.isReset switches.clear history.accumulated ::
      Selected.report d.layout.passes switches }

end Planner

end DenoisePlanner
