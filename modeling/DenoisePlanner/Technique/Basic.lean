import DenoisePlanner.Technique.Settings

namespace DenoisePlanner

-- The members of a family differ in their signals alone.
def Variant.blueprint (v : Variant) : Blueprint :=
  match v.family with
  | .reblur => Reblur.blueprint v.signals
  | .relax => Relax.blueprint v.signals
  | .sigma => Sigma.blueprint v.signals
  | .reference => Averaging.blueprint

-- Which stages and conditions the settings ask for, clears apart.
def DenoiserSettings.switches (settings : DenoiserSettings) (signals : Signals)
    (frame : FrameSettings) : Switches :=
  let common := Switches.ofSettings frame
  match settings with
  | .reblur s => Reblur.switches s signals common
  | .relax s => Relax.switches s signals common
  | .sigma s => Sigma.switches s common
  | .reference _ => common

-- The part of a denoiser's constants that its settings fill.
inductive FamilyConstants where
  | reblur (constants : ReblurConstants)
  | relax (constants : RelaxConstants)
  | sigma (constants : SigmaConstants)
  | reference (constants : ReferenceConstants)
  deriving Inhabited

namespace FamilyConstants

def rows : FamilyConstants → List Row
  | .reblur c => c.rows
  | .relax c => c.rows
  | .sigma c => c.rows
  | .reference c => c.rows

def ofSettings (settings : DenoiserSettings) (signals : Signals) (switches : Switches)
    (frame : FrameConstants) : FamilyConstants :=
  match settings with
  | .reblur s => .reblur (Reblur.constants s switches frame)
  | .relax s => .relax (Relax.constants s switches frame)
  | .sigma s => .sigma (Sigma.constants s signals frame)
  | .reference s => .reference (Averaging.constants s frame)

end FamilyConstants

-- The constants that all passes of a denoiser share within a frame.
structure SharedConstants where
  frame : FrameConstants
  family : FamilyConstants
  deriving Inhabited

def SharedConstants.rows (c : SharedConstants) : List Row := c.frame.rows ++ c.family.rows

def Family.rowCount : Family → Nat
  | .reblur | .relax => 6
  | .sigma => 2
  | .reference => 1

-- In bytes.
def Family.sharedSize (family : Family) : Nat := 16 * (FrameConstants.rowCount + family.rowCount)

theorem FamilyConstants.length_rows_ofSettings (settings : DenoiserSettings) (signals : Signals)
    (switches : Switches) (frame : FrameConstants) :
    (ofSettings settings signals switches frame).rows.length = settings.family.rowCount := by
  cases settings <;> rfl

end DenoisePlanner
