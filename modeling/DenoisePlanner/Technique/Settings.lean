import DenoisePlanner.Technique.Reblur
import DenoisePlanner.Technique.Reference
import DenoisePlanner.Technique.Relax
import DenoisePlanner.Technique.Sigma
import DenoisePlanner.Text.Decimal

namespace DenoisePlanner

-- The settings of one denoiser.
inductive DenoiserSettings where
  | reblur (settings : ReblurSettings)
  | relax (settings : RelaxSettings)
  | sigma (settings : SigmaSettings)
  | reference (settings : ReferenceSettings)
  deriving BEq, Inhabited

namespace DenoiserSettings

def ofFamily : Family → DenoiserSettings
  | .reblur => .reblur {}
  | .relax => .relax {}
  | .sigma => .sigma {}
  | .reference => .reference {}

def family : DenoiserSettings → Family
  | .reblur _ => .reblur
  | .relax _ => .relax
  | .sigma _ => .sigma
  | .reference _ => .reference

theorem family_ofFamily (family : Family) : (ofFamily family).family = family := by
  cases family <;> rfl

def rules : DenoiserSettings → List Rule
  | .reblur s => s.rules
  | .relax s => s.rules
  | .sigma s => s.rules
  | .reference _ => []

def validate (s : DenoiserSettings) : Except Failure Unit := Rule.check s.rules

end DenoiserSettings

def HitDistanceScale.text (s : HitDistanceScale) : String :=
  recordText "HitDistanceParameters"
    [("a", decimalText s.a), ("b", decimalText s.b), ("c", decimalText s.c),
      ("d", decimalText s.d)]

def Antilag.text (s : Antilag) : String :=
  recordText "AntilagSettings"
    [("luminance_sigma_scale", decimalText s.luminanceSigmaScale),
      ("hit_distance_sigma_scale", decimalText s.hitDistanceSigmaScale),
      ("luminance_antilag_power", decimalText s.luminancePower),
      ("hit_distance_antilag_power", decimalText s.hitDistancePower)]

def ReblurSettings.text (s : ReblurSettings) : String :=
  recordText "ReblurSettings"
    [("hit_distance_parameters", s.hitDistance.text),
      ("antilag_settings", s.antilag.text),
      ("max_accumulated_frame_num", toString s.maxAccumulated),
      ("max_fast_accumulated_frame_num", toString s.maxFastAccumulated),
      ("history_fix_frame_num", toString s.historyFixFrames),
      ("diffuse_prepass_blur_radius", decimalText s.diffusePrePassRadius),
      ("specular_prepass_blur_radius", decimalText s.specularPrePassRadius),
      ("min_blur_radius", decimalText s.minBlurRadius),
      ("max_blur_radius", decimalText s.maxBlurRadius),
      ("lobe_angle_fraction", decimalText s.lobeAngleFraction),
      ("roughness_fraction", decimalText s.roughnessFraction),
      ("plane_distance_sensitivity", decimalText s.planeDistanceSensitivity),
      ("responsive_accumulation_roughness_threshold",
        decimalText s.responsiveRoughnessThreshold),
      ("stabilization_strength", decimalText s.stabilizationStrength),
      ("checkerboard_mode", s.checkerboard.name),
      ("hit_distance_reconstruction_mode", s.reconstruction.name)]

def RelaxSettings.text (s : RelaxSettings) : String :=
  recordText "RelaxSettings"
    [("diffuse_prepass_blur_radius", decimalText s.diffusePrePassRadius),
      ("specular_prepass_blur_radius", decimalText s.specularPrePassRadius),
      ("diffuse_max_accumulated_frame_num", toString s.diffuseMaxAccumulated),
      ("specular_max_accumulated_frame_num", toString s.specularMaxAccumulated),
      ("diffuse_max_fast_accumulated_frame_num", toString s.diffuseMaxFastAccumulated),
      ("specular_max_fast_accumulated_frame_num", toString s.specularMaxFastAccumulated),
      ("history_fix_frame_num", toString s.historyFixFrames),
      ("history_fix_edge_stopping_normal_power", decimalText s.historyFixNormalPower),
      ("history_clamping_color_box_sigma_scale", decimalText s.colorBoxSigmaScale),
      ("spatial_variance_estimation_history_threshold", toString s.spatialVarianceThreshold),
      ("atrous_iteration_num", toString s.atrousIterations),
      ("diffuse_phi_luminance", decimalText s.diffusePhiLuminance),
      ("specular_phi_luminance", decimalText s.specularPhiLuminance),
      ("diffuse_min_luminance_weight", decimalText s.diffuseMinLuminanceWeight),
      ("specular_min_luminance_weight", decimalText s.specularMinLuminanceWeight),
      ("lobe_angle_fraction", decimalText s.lobeAngleFraction),
      ("roughness_fraction", decimalText s.roughnessFraction),
      ("depth_threshold", decimalText s.depthThreshold),
      ("specular_variance_boost", decimalText s.specularVarianceBoost),
      ("specular_lobe_angle_slack", decimalText s.specularLobeAngleSlack),
      ("confidence_driven_relaxation_multiplier", decimalText s.confidenceRelaxation),
      ("checkerboard_mode", s.checkerboard.name),
      ("hit_distance_reconstruction_mode", s.reconstruction.name),
      ("enable_anti_firefly", toString s.antiFirefly),
      ("enable_roughness_edge_stopping", toString s.roughnessEdgeStopping)]

def Vec3.text (v : Vec3) : String :=
  "Vec3(" ++ ", ".intercalate ([v.x, v.y, v.z].map decimalText) ++ ")"

def SigmaSettings.text (s : SigmaSettings) : String :=
  recordText "SigmaSettings"
    [("light_direction", s.lightDirection.text),
      ("plane_distance_sensitivity", decimalText s.planeDistanceSensitivity),
      ("blur_radius_scale", decimalText s.blurRadiusScale),
      ("max_stabilized_frame_num", toString s.maxStabilized)]

def ReferenceSettings.text (s : ReferenceSettings) : String :=
  recordText "ReferenceSettings" [("max_accumulated_frame_num", toString s.maxAccumulated)]

-- All settings by their names, for finite values.
def DenoiserSettings.text : DenoiserSettings → String
  | .reblur s => "Reblur(" ++ s.text ++ ")"
  | .relax s => "Relax(" ++ s.text ++ ")"
  | .sigma s => "Sigma(" ++ s.text ++ ")"
  | .reference s => "Reference(" ++ s.text ++ ")"

end DenoisePlanner
