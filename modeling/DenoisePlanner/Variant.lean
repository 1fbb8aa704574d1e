namespace DenoisePlanner

-- The host's own number for a denoiser.
structure Identifier where
  value : UInt32
  deriving DecidableEq, Inhabited

def Identifier.text (i : Identifier) : String := s!"Identifier({i.value})"

inductive Family where
  | reblur | relax | sigma | reference
  deriving DecidableEq, Inhabited

namespace Family

def all : List Family := [.reblur, .relax, .sigma, .reference]

def name : Family → String
  | .reblur => "Reblur"
  | .relax => "Relax"
  | .sigma => "Sigma"
  | .reference => "Reference"

end Family

-- What a denoiser works on. An occlusion signal is a hit distance alone; a translucent
-- shadow has a second channel.
structure Signals where
  diffuse : Bool
  specular : Bool
  occlusion : Bool
  translucency : Bool
  deriving DecidableEq, Inhabited

inductive Variant where
  | reblurDiffuse
  | reblurDiffuseOcclusion
  | reblurSpecular
  | reblurSpecularOcclusion
  | reblurDiffuseSpecular
  | reblurDiffuseSpecularOcclusion
  | relaxDiffuse
  | relaxSpecular
  | relaxDiffuseSpecular
  | sigmaShadow
  | sigmaShadowTranslucency
  | reference
  deriving DecidableEq, Inhabited

namespace Variant

def all : List Variant :=
  [.reblurDiffuse, .reblurDiffuseOcclusion, .reblurSpecular, .reblurSpecularOcclusion,
    .reblurDiffuseSpecular, .reblurDiffuseSpecularOcclusion, .relaxDiffuse, .relaxSpecular,
    .relaxDiffuseSpecular, .sigmaShadow, .sigmaShadowTranslucency, .reference]

theorem mem_all (v : Variant) : v ∈ all := by cases v <;> decide

def name : Variant → String
  | .reblurDiffuse => "ReblurDiffuse"
  | .reblurDiffuseOcclusion => "ReblurDiffuseOcclusion"
  | .reblurSpecular => "ReblurSpecular"
  | .reblurSpecularOcclusion => "ReblurSpecularOcclusion"
  | .reblurDiffuseSpecular => "ReblurDiffuseSpecular"
  | .reblurDiffuseSpecularOcclusion => "ReblurDiffuseSpecularOcclusion"
  | .relaxDiffuse => "RelaxDiffuse"
  | .relaxSpecular => "RelaxSpecular"
  | .relaxDiffuseSpecular => "RelaxDiffuseSpecular"
  | .sigmaShadow => "SigmaShadow"
  | .sigmaShadowTranslucency => "SigmaShadowTranslucency"
  | .reference => "Reference"

def family : Variant → Family
  | .reblurDiffuse | .reblurDiffuseOcclusion | .reblurSpecular | .reblurSpecularOcclusion
  | .reblurDiffuseSpecular | .reblurDiffuseSpecularOcclusion => .reblur
  | .relaxDiffuse | .relaxSpecular | .relaxDiffuseSpecular => .relax
  | .sigmaShadow | .sigmaShadowTranslucency => .sigma
  | .reference => .reference

def signals : Variant → Signals
  | .reblurDiffuse => ⟨true, false, false, false⟩
  | .reblurDiffuseOcclusion => ⟨true, false, true, false⟩
  | .reblurSpecular => ⟨false, true, false, false⟩
  | .reblurSpecularOcclusion => ⟨false, true, true, false⟩
  | .reblurDiffuseSpecular => ⟨true, true, false, false⟩
  | .reblurDiffuseSpecularOcclusion => ⟨true, true, true, false⟩
  | .relaxDiffuse => ⟨true, false, false, false⟩
  | .relaxSpecular => ⟨false, true, false, false⟩
  | .relaxDiffuseSpecular => ⟨true, true, false, false⟩
  | .sigmaShadow => ⟨false, false, false, false⟩
  | .sigmaShadowTranslucency => ⟨false, false, false, true⟩
  | .reference => ⟨false, false, false, false⟩

end Variant

end DenoisePlanner
