import DenoisePlanner.Pipeline.Stage
import DenoisePlanner.Shader.Library
import DenoisePlanner.Variant

namespace DenoisePlanner

inductive LogLevel where
  | trace | debug | info | warn
  deriving DecidableEq

def LogLevel.name : LogLevel → String
  | .trace => "TRACE"
  | .debug => "DEBUG"
  | .info => "INFO"
  | .warn => "WARN"

-- What is worth telling a host that listens.
inductive LogEvent where
  | pipelineDeclared (index : Nat) (identifier : String)
  | passDeclared (denoiser : String) (stage : Stage) (specializations : Nat)
  | formatMissing (shader : String) (format : ShaderFormat)
  | shaderMissing (shader : String)
  | created (denoisers pipelines permanent transient : Nat)
  | dropped (denoisers : Nat)
  | historyJudged (identifier : Identifier) (reset clear : Bool) (accumulated : UInt32)
  | specializationSelected (stage : Stage) (index : Nat)
  | atrousCounted (iterations : Nat)
  | scratchResized (capacity : Nat)
  deriving DecidableEq

namespace LogEvent

def level : LogEvent → LogLevel
  | .pipelineDeclared .. | .passDeclared .. | .formatMissing .. | .scratchResized .. => .debug
  | .shaderMissing .. => .warn
  | .created .. | .dropped .. => .info
  | .historyJudged .. | .specializationSelected .. | .atrousCounted .. => .trace

def message : LogEvent → String
  | .pipelineDeclared index identifier => s!"Declared pipeline #{index}: {identifier}"
  | .passDeclared denoiser stage specializations =>
    s!"Declared pass: {denoiser} - {stage.name} ({specializations} permutation(s))"
  | .formatMissing shader format => s!"Shader `{shader}` is not available as {format.name}"
  | .shaderMissing shader =>
    s!"Shader `{shader}` is not available in any format; its dispatches will carry empty bytecode"
  | .created denoisers pipelines permanent transient =>
    s!"Instance created; denoisers = {denoisers}, pipelines = {pipelines}, " ++
      s!"permanent-pool = {permanent}, transient-pool = {transient}"
  | .dropped denoisers => s!"Instance dropped; denoisers = {denoisers}"
  | .historyJudged identifier reset clear accumulated =>
    s!"{identifier.text}: reset = {reset}, clear = {clear}, accumulated-frames = {accumulated}"
  | .specializationSelected stage index => s!"{stage.name}: permutation #{index}"
  | .atrousCounted iterations => s!"A-trous: {iterations} iteration(s)"
  | .scratchResized capacity => s!"Constant buffer resized: {capacity} bytes"

def text (event : LogEvent) : String := event.level.name ++ " " ++ event.message

end LogEvent

-- What the look-up of one shader has to tell.
def ShaderStore.report (store : ShaderStore) (key : ShaderKey) : List LogEvent :=
  let missing := store.missing key
  missing.map (.formatMissing key.identifier) ++
    if missing.length = ShaderFormat.all.length then [.shaderMissing key.identifier] else []

end DenoisePlanner
