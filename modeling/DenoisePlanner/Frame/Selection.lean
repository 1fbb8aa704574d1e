import DenoisePlanner.Block.Pass
import DenoisePlanner.Frame.Switches
import DenoisePlanner.Pipeline.Declaration

namespace DenoisePlanner

-- A declared dispatch picked for a frame.
structure Selected where
  dispatch : Nat
  atrous : Option AtrousIteration := none
  deriving DecidableEq, Inhabited

namespace Selected

def pick (pass : DeclaredPass) (active : Condition → Bool) (atrous : Option AtrousIteration) :
    Selected :=
  ⟨pass.dispatch (.select pass.conditions active), atrous⟩

-- The step that follows an odd number of steps reads what they left in the second buffer.
def atrousHolds (switches : Switches) (i : Nat) : Condition → Bool
  | .fromPong => i % 2 == 1
  | c => switches.holds c

-- The first and the last step have passes of their own; the steps between share one.
def atrousPass? (passes : List DeclaredPass) (first : DeclaredPass) (count i : Nat) :
    Option DeclaredPass :=
  if i = 0 then some first
  else passes.find? (·.stage == if i + 1 = count then .atrousLast else .atrous)

def atrousSteps (passes : List DeclaredPass) (first : DeclaredPass) (switches : Switches) :
    List Selected :=
  let count := switches.atrousCount
  (List.range count).filterMap fun i =>
    (atrousPass? passes first count i).map fun pass =>
      pick pass (atrousHolds switches i) (some ⟨.ofNat i, i + 1 == count⟩)

-- What one pass contributes. The A-trous steps all come where the first of them is declared.
def ofPass (passes : List DeclaredPass) (switches : Switches) (pass : DeclaredPass) :
    List Selected :=
  match pass.stage with
  | .atrous | .atrousLast => []
  | .atrousFirst => atrousSteps passes pass switches
  | stage => if switches.isEnabled stage then [pick pass switches.holds none] else []

-- A frame that shows nothing but inputs needs only the pass that copies them.
def passthrough (passes : List DeclaredPass) : List Selected :=
  ((passes.find? (·.stage == .splitScreen)).map fun pass => ⟨pass.base, none⟩).toList

def select (passes : List DeclaredPass) (switches : Switches) : List Selected :=
  if switches.isPassthrough then passthrough passes
  else passes.flatMap (ofPass passes switches)

def reportPass (switches : Switches) (pass : DeclaredPass) : List LogEvent :=
  match pass.stage with
  | .atrous | .atrousLast => []
  | .atrousFirst => [.atrousCounted switches.atrousCount]
  | stage =>
    if switches.isEnabled stage then
      [.specializationSelected stage (Specialization.select pass.conditions switches.holds).bits]
    else []

def report (passes : List DeclaredPass) (switches : Switches) : List LogEvent :=
  if switches.isPassthrough then [] else passes.flatMap (reportPass switches)

end Selected

end DenoisePlanner
