namespace DenoisePlanner

-- A logical step of a denoiser's pipeline.
inductive Stage where
  | clear
  | classifyTiles
  | smoothTiles
  | hitDistReconstruction
  | prePass
  | temporalAccumulation
  | historyFix
  | blur
  | postBlur
  | historyClamping
  | copy
  | antiFirefly
  | atrousFirst
  | atrous
  | atrousLast
  | temporalStabilization
  | splitScreen
  | validation
  deriving DecidableEq, Inhabited

namespace Stage

def all : List Stage :=
  [.clear, .classifyTiles, .smoothTiles, .hitDistReconstruction, .prePass, .temporalAccumulation,
    .historyFix, .blur, .postBlur, .historyClamping, .copy, .antiFirefly, .atrousFirst, .atrous,
    .atrousLast, .temporalStabilization, .splitScreen, .validation]

def name : Stage → String
  | .clear => "Clear"
  | .classifyTiles => "ClassifyTiles"
  | .smoothTiles => "SmoothTiles"
  | .hitDistReconstruction => "HitDistReconstruction"
  | .prePass => "PrePass"
  | .temporalAccumulation => "TemporalAccumulation"
  | .historyFix => "HistoryFix"
  | .blur => "Blur"
  | .postBlur => "PostBlur"
  | .historyClamping => "HistoryClamping"
  | .copy => "Copy"
  | .antiFirefly => "AntiFirefly"
  | .atrousFirst => "AtrousFirst"
  | .atrous => "Atrous"
  | .atrousLast => "AtrousLast"
  | .temporalStabilization => "TemporalStabilization"
  | .splitScreen => "SplitScreen"
  | .validation => "Validation"

def isAtrous : Stage → Bool
  | .atrousFirst | .atrous | .atrousLast => true
  | _ => false

end Stage

end DenoisePlanner
