import DenoisePlanner.Memory.ScratchBuffer
import DenoisePlanner.Planner.Inventory
import DenoisePlanner.Technique.Basic

namespace DenoisePlanner

-- The sizes of the last frame that wrote the history.
structure Snapshot where
  rectSize : Extent
  resourceSize : Extent
  deriving DecidableEq, Inhabited

-- A denoiser with its history: the sizes of its last frame, and the number of frames accumulated
-- since the last reset. Frames that only show inputs do not count.
structure DenoiserState where
  identifier : Identifier
  variant : Variant
  settings : DenoiserSettings
  layout : DenoiserLayout
  snapshot : Option Snapshot := none
  accumulated : UInt32 := 0
  deriving Inhabited

-- Declares all that a variant needs.
def Declarations.addVariant (v : Variant) : EStateM Failure Declarations DenoiserLayout :=
  fun tables =>
    let b := v.blueprint
    match Declaring.declareBlueprint b (tables.draft v.name b.defines v.family.sharedSize) with
    | .error e d => .error e d.tables
    | .ok _ d =>
      match d.finish with
      | .ok layout => .ok layout d.tables
      | .error e => .error e d.tables

-- The denoisers declared so far.
structure Roster where
  tables : Declarations := {}
  denoisers : Array DenoiserState := #[]
  deriving Inhabited

-- Identifiers are checked before anything is declared under them.
def Roster.enlist (identifier : Identifier) (v : Variant) : EStateM Failure Roster Unit :=
  fun ⟨tables, denoisers⟩ =>
    if denoisers.any (·.identifier == identifier) then
      .error (.duplicateIdentifier identifier) ⟨tables, denoisers⟩
    else match Declarations.addVariant v tables with
      | .error e tables => .error e ⟨tables, denoisers⟩
      | .ok layout tables =>
        .ok () ⟨tables, denoisers.push
          { identifier, layout, variant := v, settings := .ofFamily v.family }⟩

def Roster.enlistAll (denoisers : List (Identifier × Variant)) : EStateM Failure Roster Unit :=
  denoisers.forM fun (identifier, v) => enlist identifier v

-- Denoisers with their tables, ready to plan frames.
structure Planner where
  tables : Declarations
  inventory : Inventory
  denoisers : Array DenoiserState
  settings : FrameSettings := {}
  scratch : ScratchBuffer := {}
  deriving Inhabited

-- A new planner, or why there is none, and what there was to tell in either case.
structure Creation where
  log : List LogEvent
  result : Except Failure Planner

namespace Planner

-- Declares the denoisers in the given order and looks their shaders up.
def create (denoisers : List (Identifier × Variant)) (store : ShaderStore) : Creation :=
  if denoisers.isEmpty then { log := [], result := .error .noDenoisers }
  else match Roster.enlistAll denoisers {} with
    | .error e roster => { log := roster.tables.journal.toList, result := .error e }
    | .ok _ ⟨tables, denoisers⟩ =>
      let inventory := tables.inventory store
      let reports := tables.pipelines.pipelines.toList.flatMap fun p => store.report p.key
      { log := tables.journal.toList ++ reports ++
          [.created denoisers.size inventory.pipelines.size inventory.permanent.size
            inventory.transient.size]
        result := .ok { tables, inventory, denoisers } }

def position? (p : Planner) (identifier : Identifier) : Option Nat :=
  p.denoisers.findIdx? (·.identifier == identifier)

-- Settings are taken over as a whole, and only if they are valid.
def setFrameSettings (p : Planner) (settings : FrameSettings) : Except Failure Planner := do
  settings.validate
  pure { p with settings := settings }

-- An unknown denoiser comes before a wrong family, and that before a bad value.
def setDenoiserSettings (p : Planner) (identifier : Identifier) (settings : DenoiserSettings) :
    Except Failure Planner :=
  match p.position? identifier with
  | none => .error (.unknownIdentifier identifier)
  | some i => do
    let expected := (p.denoisers[i]?.map (·.variant.family)).getD settings.family
    if settings.family != expected then
      throw (.invalidSettings identifier expected settings.family)
    settings.validate
    pure { p with denoisers := p.denoisers.modify i fun d => { d with settings := settings } }

-- What is left to do when the planner goes: its memory is given back.
def release (p : Planner) : List MemoryCall × List LogEvent :=
  (p.scratch.release, [.dropped p.denoisers.size])

end Planner

end DenoisePlanner
