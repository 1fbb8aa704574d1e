import DenoisePlanner.Pipeline.Layout
import DenoisePlanner.Variant

namespace DenoisePlanner

-- What can be wrong with an argument, whether a settings value or a step of a declaration.
inductive ArgumentFault where
  | resourceTooLarge
  | rectOutsideResource
  | previousRectOutsideResource
  | denoisingRange
  | disocclusionThreshold
  | splitScreen
  | transformNotFinite
  | projectionSingular
  | hitDistanceNotFinite
  | blurRadius
  | blurRadiiReversed
  | fraction
  | planeSensitivity
  | weight
  | lightNotFinite
  | shadowScale
  | passStillOpen
  | inputKind
  | outputKind
  | bindingOutsidePass
  | dispatchOutsidePass
  | emptyDispatch
  | lastPassOpen
  | unknownPermanentSlot
  | unknownTransientSlot
  deriving DecidableEq

def ArgumentFault.reason : ArgumentFault → String
  | .resourceTooLarge => "resource size must fit in 16 bits"
  | .rectOutsideResource => "rect must fit within resource"
  | .previousRectOutsideResource => "previous rect must fit within previous resource"
  | .denoisingRange => "denoising range must be positive"
  | .disocclusionThreshold => "disocclusion thresholds must be positive"
  | .splitScreen => "split screen must be non-negative"
  | .transformNotFinite => "matrices and vectors must be finite"
  | .projectionSingular => "projection matrices must be invertible"
  | .hitDistanceNotFinite => "hit distance parameters must be finite"
  | .blurRadius => "blur radii must be non-negative"
  | .blurRadiiReversed => "min blur radius must not exceed max blur radius"
  | .fraction => "fractions must be within [0; 1]"
  | .planeSensitivity => "plane distance sensitivity must be non-negative"
  | .weight => "weights must be non-negative"
  | .lightNotFinite => "light direction must be finite"
  | .shadowScale => "sensitivity and blur scale must be non-negative"
  | .passStillOpen => "previous pass has not been dispatched"
  | .inputKind => "pass inputs must be host inputs or pooled textures"
  | .outputKind => "pass outputs must be host outputs or pooled textures"
  | .bindingOutsidePass => "binding must follow a pass"
  | .dispatchOutsidePass => "dispatch must be preceded by a pass"
  | .emptyDispatch => "downsample factor and repeat count must be positive"
  | .lastPassOpen => "last pass has not been dispatched"
  | .unknownPermanentSlot => "unknown permanent pool slot"
  | .unknownTransientSlot => "unknown transient pool slot"

-- The tables whose positions are 16-bit numbers.
inductive BoundedTable where
  | permanent
  | transient
  | swaps
  deriving DecidableEq

def BoundedTable.name : BoundedTable → String
  | .permanent => "permanent"
  | .transient => "transient"
  | .swaps => "ping-pong"

inductive Failure where
  | noDenoisers
  | duplicateIdentifier (identifier : Identifier)
  | unknownIdentifier (identifier : Identifier)
  | invalidSettings (identifier : Identifier) (expected given : Family)
  | invalidArgument (fault : ArgumentFault)
  | mismatchedBindings (shader : String) (expected given : PipelineLayout)
  | invalidSwap
  | overflow (table : BoundedTable)
  | tooManyPipelines
  | outOfMemory (size : Nat)
  deriving DecidableEq

instance : Inhabited Failure := ⟨.noDenoisers⟩

def Failure.message : Failure → String
  | .noDenoisers => "instance must contain at least one denoiser"
  | .duplicateIdentifier i => s!"denoiser {i.text} is declared more than once"
  | .unknownIdentifier i => s!"unknown denoiser {i.text}"
  | .invalidSettings i expected given =>
    s!"denoiser {i.text} expects {expected.name} settings, got {given.name}"
  | .invalidArgument fault => s!"invalid argument: {fault.reason}"
  | .mismatchedBindings shader expected given =>
    s!"shader `{shader}` is declared with {given.text} bindings, but an earlier " ++
      s!"declaration of the same permutation has {expected.text}"
  | .invalidSwap => "ping-pong pairs must consist of two distinct permanent textures"
  | .overflow table => s!"{table.name} pool exceeds the 16-bit index space"
  | .tooManyPipelines => "too many pipelines for a 16-bit pipeline index"
  | .outOfMemory size => s!"failed to allocate {size} bytes of constant memory"

-- A condition that settings have to meet, and what is reported where they do not.
structure Rule where
  holds : Bool
  fault : ArgumentFault

-- The first broken rule decides.
def Rule.check : List Rule → Except Failure Unit
  | [] => .ok ()
  | rule :: rules => if rule.holds then check rules else .error (.invalidArgument rule.fault)

theorem Rule.check_eq_ok_iff (rules : List Rule) :
    Rule.check rules = .ok () ↔ ∀ rule ∈ rules, rule.holds = true := by
  induction rules with
  | nil => simp [Rule.check]
  | cons rule rules ih => by_cases h : rule.holds <;> simp [Rule.check, h, ih]

end DenoisePlanner
