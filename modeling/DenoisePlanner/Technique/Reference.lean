import DenoisePlanner.Frame.Constants
import DenoisePlanner.Pipeline.Blueprint

namespace DenoisePlanner

structure ReferenceSettings where
  maxAccumulated : UInt32 := 1024
  deriving BEq, Inhabited

structure ReferenceConstants where
  accumulation : Row
  deriving DecidableEq, Inhabited

namespace ReferenceConstants

def rows (c : ReferenceConstants) : List Row := [c.accumulation]

def maxAccumulated (c : ReferenceConstants) : UInt32 := c.accumulation.x
def weight (c : ReferenceConstants) : UInt32 := c.accumulation.y

end ReferenceConstants

-- Plain averaging of all frames since the last reset.
namespace Averaging

def maxHistory : UInt32 := 4095

-- The current frame weighs as much as each of the frames before it.
def constants (s : ReferenceSettings) (frame : FrameConstants) : ReferenceConstants :=
  let maxAccumulated := min s.maxAccumulated maxHistory
  let accumulated := min frame.accumulated maxAccumulated
  ⟨⟨maxAccumulated, (1 / (1 + accumulated.toFloat32) : Float32).toBits, 0, 0⟩⟩

def history : Reference := .swapping (.permanent 0) (.permanent 1)
def historyPrev : Reference := .swapping (.permanent 1) (.permanent 0)

def temporalAccumulation : Pass where
  stage := .temporalAccumulation
  shader := "REFERENCE_TemporalAccumulation"
  bindings := fun _ => ⟨[.input .signal, historyPrev], [history]⟩

def copy : Pass where
  stage := .copy
  shader := "REFERENCE_Copy"
  bindings := fun _ => ⟨[history], [.output .signal]⟩

def splitScreen : Pass where
  stage := .splitScreen
  shader := "REFERENCE_SplitScreen"
  bindings := fun _ => ⟨[.input .signal], [.output .signal]⟩

def passes : List Pass := [temporalAccumulation, copy, splitScreen]

def blueprint : Blueprint where
  defines := []
  permanent := [.of .rgba32Sfloat, .of .rgba32Sfloat]
  transient := []
  passes := passes

end Averaging

end DenoisePlanner
