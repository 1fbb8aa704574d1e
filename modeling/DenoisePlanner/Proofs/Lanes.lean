import DenoisePlanner.Proofs.Coherence
import DenoisePlanner.Proofs.Number
import DenoisePlanner.Proofs.Rejection
import DenoisePlanner.Proofs.Restart

namespace DenoisePlanner

def Antilag.floats (s : Antilag) : List Float32 :=
  [s.luminanceSigmaScale, s.hitDistanceSigmaScale, s.luminancePower, s.hitDistancePower]

-- All floats of the settings, in the order in which the constants take them up.
def ReblurSettings.floats (s : ReblurSettings) : List Float32 :=
  [s.stabilizationStrength, s.hitDistance.a, s.hitDistance.b, s.hitDistance.c, s.hitDistance.d,
    s.minBlurRadius, s.maxBlurRadius, s.diffusePrePassRadius, s.specularPrePassRadius,
    s.lobeAngleFraction, s.roughnessFraction, s.planeDistanceSensitivity,
    s.responsiveRoughnessThreshold] ++ s.antilag.floats

def RelaxSettings.floats (s : RelaxSettings) : List Float32 :=
  [s.colorBoxSigmaScale, s.diffusePhiLuminance, s.specularPhiLuminance,
    s.diffuseMinLuminanceWeight, s.specularMinLuminanceWeight, s.lobeAngleFraction,
    s.roughnessFraction, s.depthThreshold, s.historyFixNormalPower, s.specularVarianceBoost,
    s.specularLobeAngleSlack, s.confidenceRelaxation, s.diffusePrePassRadius,
    s.specularPrePassRadius]

def SigmaSettings.floats (s : SigmaSettings) : List Float32 :=
  [s.lightDirection.x, s.lightDirection.y, s.lightDirection.z, s.planeDistanceSensitivity,
    s.blurRadiusScale]

def AllFinite (floats : List Float32) : Prop := ∀ x ∈ floats, x.isFinite = true

theorem allFinite_append {xs ys : List Float32} :
    AllFinite (xs ++ ys) ↔ AllFinite xs ∧ AllFinite ys :=
  List.forall_mem_append

namespace DenoiserSettings

def floats : DenoiserSettings → List Float32
  | .reblur s => s.floats
  | .relax s => s.floats
  | .sigma s => s.floats
  | .reference _ => []

-- The floats that no rule is about.
def unchecked : DenoiserSettings → List Float32
  | .reblur s => s.antilag.floats
  | _ => []

end DenoiserSettings

-- The lanes of the constants that carry a float of the settings.
def FamilyConstants.settingLanes : FamilyConstants → List UInt32
  | .reblur c => c.accumulation.w ::
      (c.hitDistance.words ++ c.blur.words ++ c.lobe.words ++ c.antilag.words)
  | .relax c => c.history.y :: (c.luminance.words ++ c.edgeStopping.words ++
      [c.specular.x, c.specular.y, c.specular.z, c.checkerboard.z, c.checkerboard.w])
  | .sigma c => c.light.words ++ [c.stabilization.y]
  | .reference _ => []

theorem FamilyConstants.settingLanes_ofSettings (settings : DenoiserSettings) (signals : Signals)
    (switches : Switches) (frame : FrameConstants) :
    (ofSettings settings signals switches frame).settingLanes =
      settings.floats.map Float32.toBits := by
  cases settings <;> rfl

section Checked

variable {xs : List Float32}

theorem allFinite_of_fractions (h : xs.all isFraction = true) : AllFinite xs :=
  fun x hx => isFinite_of_isFraction (List.all_eq_true.mp h x hx)

theorem allFinite_of_nonNegative (h : xs.all isNonNegative = true) : AllFinite xs :=
  fun x hx => isFinite_of_isNonNegative (List.all_eq_true.mp h x hx)

end Checked

-- Each float has a rule that it has to meet, those against ghosting apart.
theorem ReblurSettings.allFinite_iff {s : ReblurSettings} (h : Rule.check s.rules = .ok ()) :
    AllFinite s.floats ↔ AllFinite s.antilag.floats := by
  have hrules := (Rule.check_eq_ok_iff s.rules).mp h
  simp only [rules, List.forall_mem_cons] at hrules
  obtain ⟨hdistance, hradii, -, hfractions, hplane, -⟩ := hrules
  have hdistance := List.all_eq_true.mp hdistance
  have hradii := allFinite_of_nonNegative hradii
  have hfractions := allFinite_of_fractions hfractions
  have hplane := isFinite_of_isNonNegative hplane
  simp only [AllFinite, List.forall_mem_cons] at hdistance hradii hfractions
  rw [floats, allFinite_append, and_iff_right_iff_imp]
  intro _
  simp only [AllFinite, List.forall_mem_cons]
  tauto

theorem RelaxSettings.allFinite {s : RelaxSettings} (h : Rule.check s.rules = .ok ()) :
    AllFinite s.floats := by
  have hrules := (Rule.check_eq_ok_iff s.rules).mp h
  simp only [rules, List.forall_mem_cons] at hrules
  obtain ⟨hradii, hfractions, hweights, -⟩ := hrules
  have hradii := allFinite_of_nonNegative hradii
  have hfractions := allFinite_of_fractions hfractions
  have hweights := allFinite_of_nonNegative hweights
  simp only [floats, AllFinite, List.forall_mem_cons] at hradii hfractions hweights ⊢
  tauto

theorem SigmaSettings.allFinite {s : SigmaSettings} (h : Rule.check s.rules = .ok ()) :
    AllFinite s.floats := by
  have hrules := (Rule.check_eq_ok_iff s.rules).mp h
  simp only [rules, List.forall_mem_cons, Vec3.isFinite, Bool.and_eq_true] at hrules
  obtain ⟨hlight, hscales, -⟩ := hrules
  have hplane := isFinite_of_isNonNegative hscales.1
  have hblur := isFinite_of_isNonNegative hscales.2
  simp only [floats, AllFinite, List.forall_mem_cons]
  tauto

theorem DenoiserSettings.allFinite_iff {s : DenoiserSettings} (h : s.validate = .ok ()) :
    AllFinite s.floats ↔ AllFinite s.unchecked := by
  have hnone : AllFinite [] := fun _ hx => absurd hx List.not_mem_nil
  cases s with
  | reblur s => exact ReblurSettings.allFinite_iff h
  | relax s => exact iff_of_true (RelaxSettings.allFinite h) hnone
  | sigma s => exact iff_of_true (SigmaSettings.allFinite h) hnone
  | reference s => exact Iff.rfl

namespace DenoiserState

variable {d : DenoiserState} {s : FrameSettings}

-- The lanes of the constants that carry a setting hold numbers.
def ShowsNumbers (d : DenoiserState) (s : FrameSettings) : Prop :=
  ∀ word ∈ (d.shared s).family.settingLanes, isNumber word = true

theorem showsNumbers_iff : d.ShowsNumbers s ↔ AllFinite d.settings.floats := by
  have hlanes : (d.shared s).family.settingLanes = d.settings.floats.map Float32.toBits :=
    FamilyConstants.settingLanes_ofSettings ..
  rw [ShowsNumbers, hlanes, List.forall_mem_map]
  exact forall₂_congr fun x _ => by rw [isNumber_toBits]

end DenoiserState

namespace Planner

variable {p p' : Planner} {store : ShaderStore} {denoisers : List (Identifier × Variant)}
  {d : DenoiserState} {policy : MemoryPolicy} {identifiers : List Identifier} {frame : Frame}

theorem exists_configured {identifier : Identifier} {s : DenoiserSettings}
    (hset : p.setDenoiserSettings identifier s = .ok p') :
    ∃ d ∈ p.denoisers, d.identifier = identifier ∧ { d with settings := s } ∈ p'.denoisers := by
  obtain ⟨i, d, -, hi, hid, -, -, rfl⟩ := setDenoiserSettings_ok hset
  refine ⟨d, Array.mem_of_getElem? hi, hid, Array.mem_of_getElem? (i := i) ?_⟩
  rw [Array.getElem?_modify, if_pos rfl, hi]
  rfl

-- Settings that suit are accepted.
theorem Reachable.exists_setDenoiserSettings (h : Reachable denoisers store p)
    (hd : d ∈ p.denoisers) {s : DenoiserSettings} (hsuits : s.Suits d.variant) :
    ∃ p', p.setDenoiserSettings d.identifier s = .ok p' ∧ Reachable denoisers store p' ∧
      p'.settings = p.settings ∧ { d with settings := s } ∈ p'.denoisers := by
  obtain ⟨flipped, hsound⟩ := h.sound
  obtain ⟨i, hi⟩ := Array.getElem?_of_mem hd
  obtain ⟨p', hset, hsettings, hdenoisers⟩ :=
    hsound.exists_setDenoiserSettings hi hsuits.1 hsuits.2
  refine ⟨p', hset, h.setDenoiserSettings _ _ hset, hsettings, Array.mem_of_getElem? (i := i) ?_⟩
  rw [hdenoisers, Array.getElem?_modify, if_pos rfl, hi]
  rfl

theorem Reachable.carries (h : Reachable denoisers store p)
    (hframe : (p.frame policy identifiers).result = .ok frame) (hd : d ∈ p.denoisers)
    (hasked : d.identifier ∈ identifiers) :
    ∀ x ∈ frame.share d.identifier, x.stage ≠ .clear → x.Carries (d.shared p.settings) := by
  intro x hx hstage
  obtain ⟨standing, htakes⟩ := h.exists_takes hframe hd hasked
  obtain ⟨em, hem, hx⟩ := htakes.exists_emission hx
  exact DenoiserState.carries_of_outline_eq hem hstage (htakes.outline_eq hx)

end Planner

-- Settings are accepted with nothing but finite floats, those against ghosting apart, and these
-- alone decide whether the constants that the dispatches carry have a NaN or an infinity for a
-- setting.
theorem allFinite_iff_unchecked {denoisers : List (Identifier × Variant)} {store : ShaderStore}
    {p : Planner} (h : Planner.Reachable denoisers store p) :
    (∀ word, (Float32.ofBits word).isFinite = isNumber word) ∧
    (∀ s : DenoiserSettings, s.validate = .ok () →
      (AllFinite s.floats ↔ AllFinite s.unchecked)) ∧
    (∀ identifier s p', p.setDenoiserSettings identifier s = .ok p' → s.validate = .ok () ∧
      ∃ d ∈ p.denoisers, d.identifier = identifier ∧ { d with settings := s } ∈ p'.denoisers) ∧
    ∀ d ∈ p.denoisers,
      (∀ s, d.ShowsNumbers s ↔ AllFinite d.settings.unchecked) ∧
      ∀ policy identifiers frame, (p.frame policy identifiers).result = .ok frame →
        d.identifier ∈ identifiers → ∀ x ∈ frame.share d.identifier, x.stage ≠ .clear →
          x.Carries (d.shared p.settings) := by
  refine ⟨isFinite_ofBits, fun s => DenoiserSettings.allFinite_iff,
    fun identifier s p' hset => ⟨?_, Planner.exists_configured hset⟩,
    fun d hd => ⟨fun s => ?_, fun policy identifiers frame hframe hasked =>
      h.carries hframe hd hasked⟩⟩
  · obtain ⟨-, -, -, -, -, -, hvalid, -⟩ := Planner.setDenoiserSettings_ok hset
    exact hvalid
  · rw [DenoiserState.showsNumbers_iff]
    exact DenoiserSettings.allFinite_iff (h.configured.denoisers d hd).2

-- The default settings but for one that no rule is about.
def ghosted : ReblurSettings := { antilag := { luminanceSigmaScale := .ofBits 0x7fc00000 } }

namespace Planner

theorem exists_frame_ghosted : ∃ p p' frame, ∃ d ∈ p'.denoisers, ∃ x ∈ frame.share d.identifier,
    Reachable [(⟨0⟩, .reblurDiffuse)] (fun _ _ => none) p ∧
      p.setDenoiserSettings ⟨0⟩ (.reblur ghosted) = .ok p' ∧
      (p'.frame (.atMost none) [⟨0⟩]).result = .ok frame ∧ d.identifier ∈ [(⟨0⟩ : Identifier)] ∧
      d.settings = .reblur ghosted ∧ x.stage ≠ .clear := by
  have hdeclarable : Declarable [(⟨0⟩, .reblurDiffuse)] := ⟨by decide, by decide +kernel⟩
  obtain ⟨p, hcreate⟩ :=
    exists_create_of_declarable hdeclarable (List.cons_ne_nil _ _) fun _ _ => none
  have hreachable := Reachable.created hcreate
  obtain ⟨d, hd, hid, hvariant, -⟩ := exists_denoiser hcreate (List.mem_singleton_self _)
  have hsuits : (DenoiserSettings.reblur ghosted).Suits d.variant := by
    rw [hvariant]
    exact ⟨rfl, by decide +kernel⟩
  obtain ⟨p', hset, hreachable', hsettings, hd'⟩ :=
    hreachable.exists_setDenoiserSettings hd hsuits
  obtain ⟨frame, hframe⟩ := hreachable'.exists_frame .unlimited hd'
  have hasked : d.identifier ∈ [d.identifier] := List.mem_singleton_self _
  obtain ⟨standing, htakes⟩ := hreachable'.exists_takes hframe hd' hasked
  have hmoves : DenoiserState.moves { d with settings := .reblur ghosted } p'.settings = true := by
    rw [DenoiserState.moves_eq, hsettings, (create_ok hcreate).2.2.2]
    decide +kernel
  have hpass : Reblur.classifyTiles ∈ d.variant.blueprint.passes := by
    rw [hvariant]
    exact List.mem_cons_self
  obtain ⟨x, hx, hem⟩ := htakes.exists_dispatch
    (DenoiserState.mem_emissions_of_enabled hmoves hpass rfl rfl)
  have hstage : x.stage ≠ .clear := by
    rw [htakes.stage_eq hem]
    exact Stage.noConfusion
  rw [hid] at hset hframe
  exact ⟨p, p', frame, _, hd', x, hx, hreachable, hset, hframe, hid ▸ List.mem_singleton_self _,
    rfl, hstage⟩

-- So a NaN comes to lie in the constants of a dispatch.
theorem exists_nan_lane : ∃ p p' frame, ∃ x ∈ Frame.dispatches frame, ∃ c,
    Reachable [(⟨0⟩, .reblurDiffuse)] (fun _ _ => none) p ∧
      (DenoiserSettings.reblur ghosted).validate = .ok () ∧
      ghosted.antilag.luminanceSigmaScale.isFinite = false ∧
      p.setDenoiserSettings ⟨0⟩ (.reblur ghosted) = .ok p' ∧
      (p'.frame (.atMost none) [⟨0⟩]).result = .ok frame ∧ x.Carries c ∧
      ∃ word ∈ c.family.settingLanes, isNumber word = false := by
  obtain ⟨p, p', frame, d, hd, x, hx, hreachable, hset, hframe, hasked, hsettings, hstage⟩ :=
    exists_frame_ghosted
  have hreachable' := hreachable.setDenoiserSettings _ _ hset
  have hlane : ghosted.antilag.luminanceSigmaScale.toBits ∈
      (d.shared p'.settings).family.settingLanes := by
    have hlanes : (d.shared p'.settings).family.settingLanes =
        d.settings.floats.map Float32.toBits :=
      FamilyConstants.settingLanes_ofSettings ..
    rw [hlanes, hsettings]
    simp [DenoiserSettings.floats, ReblurSettings.floats, Antilag.floats]
  refine ⟨p, p', frame, x, List.mem_of_mem_filter hx, d.shared p'.settings, hreachable,
    by decide +kernel, by decide +kernel, hset, hframe,
    hreachable'.carries hframe hd hasked x hx hstage, _, hlane, by decide +kernel⟩

-- Settings of another family are finite without more, and the constants show the NaN as such.
theorem allFinite_iff_unchecked_ghosted :
    (Float32.ofBits 0xff800000).isFinite = false ∧
    AllFinite (DenoiserSettings.relax {}).floats ∧
    ∃ p' frame, ∃ d ∈ Planner.denoisers p', ∃ x ∈ Frame.share frame d.identifier,
      Reachable [(⟨0⟩, .reblurDiffuse)] (fun _ _ => none) p' ∧
      (p'.frame (.atMost none) [⟨0⟩]).result = .ok frame ∧
      ¬d.ShowsNumbers p'.settings ∧ x.Carries (d.shared p'.settings) := by
  have hvalid : (DenoiserSettings.relax {}).validate = .ok () := by decide +kernel
  have hnone : AllFinite (DenoiserSettings.relax {}).unchecked :=
    fun _ hx => absurd hx List.not_mem_nil
  obtain ⟨p, p', frame, d, hd, x, hx, hreachable, hset, hframe, hasked, hghosted, hstage⟩ :=
    exists_frame_ghosted
  have hreachable' := hreachable.setDenoiserSettings _ _ hset
  obtain ⟨hbits, hsettings, -, hdenoisers⟩ := allFinite_iff_unchecked hreachable'
  obtain ⟨hlanes, hcarries⟩ := hdenoisers d hd
  refine ⟨(hbits _).trans (by decide), (hsettings _ hvalid).mpr hnone, p', frame, d, hd, x, hx,
    hreachable', hframe, fun hshows => ?_, hcarries _ _ frame hframe hasked x hx hstage⟩
  have hfinite := (hlanes _).mp hshows
  rw [hghosted] at hfinite
  have hnan : ghosted.antilag.luminanceSigmaScale.isFinite = false := by decide +kernel
  exact absurd (hfinite _ List.mem_cons_self) (by rw [hnan]; decide)

end Planner

end DenoisePlanner
