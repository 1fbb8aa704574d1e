import DenoisePlanner.Proofs.Rejection
import DenoisePlanner.Proofs.Service

namespace DenoisePlanner

open Emission

-- A stage that runs under a condition only.
def Stage.onlyIf (stage : Stage) (p : Prop) [Decidable p] : List Stage := if p then [stage] else []

-- One of the signals at work has a radius that it is to be blurred by.
def Signals.Blurs (signals : Signals) (diffuseRadius specularRadius : Float32) : Prop :=
  (signals.diffuse = true ∧ 0 < diffuseRadius) ∨ (signals.specular = true ∧ 0 < specularRadius)

instance (signals : Signals) (diffuseRadius specularRadius : Float32) :
    Decidable (signals.Blurs diffuseRadius specularRadius) :=
  inferInstanceAs (Decidable (_ ∨ _))

-- The stages of the families that denoise, each list in the order in which it runs.
def ReblurSettings.stages (s : ReblurSettings) (signals : Signals) : List Stage :=
  [.classifyTiles] ++
    Stage.hitDistReconstruction.onlyIf (s.reconstruction ≠ .off ∧ s.checkerboard = .off) ++
    Stage.prePass.onlyIf (signals.Blurs s.diffusePrePassRadius s.specularPrePassRadius) ++
    [.temporalAccumulation, .historyFix, .blur, .postBlur] ++
    Stage.temporalStabilization.onlyIf (signals.occlusion = false ∧ 0 < s.stabilizationStrength)

def RelaxSettings.stages (s : RelaxSettings) (signals : Signals) : List Stage :=
  [.classifyTiles] ++
    Stage.hitDistReconstruction.onlyIf (s.reconstruction ≠ .off ∧ s.checkerboard = .off) ++
    Stage.prePass.onlyIf (signals.Blurs s.diffusePrePassRadius s.specularPrePassRadius) ++
    [.temporalAccumulation, .historyFix, .historyClamping, .copy] ++
    Stage.antiFirefly.onlyIf (s.antiFirefly = true) ++
    [.atrousFirst] ++ List.replicate (max 2 (min s.atrousIterations.toNat 8) - 2) .atrous ++
    [.atrousLast]

def SigmaSettings.stages (s : SigmaSettings) : List Stage :=
  [.classifyTiles, .smoothTiles, .blur, .postBlur] ++
    Stage.temporalStabilization.onlyIf (0 < s.maxStabilized)

def DenoiserSettings.stages (signals : Signals) : DenoiserSettings → List Stage
  | .reblur s => s.stages signals
  | .relax s => s.stages signals
  | .sigma s => s.stages
  | .reference _ => [.temporalAccumulation, .copy]

-- What a frame runs of a denoiser, given the settings of the frames before it that denoised.
def DenoiserState.stages (d : DenoiserState) (s : FrameSettings) (past : List FrameSettings) :
    List Stage :=
  if 1 ≤ s.splitScreen then [.splitScreen]
  else
    List.replicate (if s.Clears past then d.layout.claims.permanentCount else 0) .clear ++
      d.settings.stages d.variant.signals ++
      Stage.splitScreen.onlyIf (0 < s.splitScreen) ++
      Stage.validation.onlyIf (d.settings.family ∈ [.reblur, .relax] ∧ s.validation = true)

section

variable {switches : Switches}

theorem Stage.replicate_eq_onlyIf {b : Bool} {p : Prop} [Decidable p] (h : b = true ↔ p)
    (stage : Stage) : List.replicate b.toNat stage = stage.onlyIf p := by
  unfold onlyIf
  cases b with
  | false => rw [if_neg (mt h.mpr Bool.false_ne_true), Bool.toNat_false, List.replicate_zero]
  | true => rw [if_pos (h.mp rfl), Bool.toNat_true, List.replicate_one]

theorem map_stage_clears {passes : List Pass} (hclear : ∀ pass ∈ passes, pass.stage = .clear) :
    (clears switches passes).map (·.pass.stage) =
      List.replicate (if switches.clear then passes.length else 0) .clear := by
  unfold clears
  cases hcleared : switches.clear with
  | false => simp [gated]
  | true =>
    refine List.eq_replicate_iff.mpr ⟨by simp [gated], fun stage hstage => ?_⟩
    obtain ⟨em, hem, rfl⟩ := List.mem_map.mp hstage
    obtain ⟨pass, hpass, hgated⟩ := List.mem_flatMap.mp hem
    obtain ⟨-, rfl⟩ := mem_gated hgated
    exact hclear pass hpass

theorem reconstructs_iff {mode : Reconstruction} {checkerboard : Checkerboard} :
    reconstructs mode checkerboard = true ↔ mode ≠ .off ∧ checkerboard = .off := by
  simp [reconstructs]

theorem blursBefore_iff {signals : Signals} {diffuseRadius specularRadius : Float32} :
    blursBefore signals diffuseRadius specularRadius = true ↔
      signals.Blurs diffuseRadius specularRadius := by
  simp [blursBefore, Signals.Blurs]

end

-- A family without a stage for the validation leaves it out.
theorem DenoiserSettings.map_stage_all {settings : DenoiserSettings} {v : Variant}
    (hfamily : settings.family = v.family) {s : FrameSettings} {switches : Switches} {clear : Bool}
    (hswitches : switches = { settings.switches v.signals s with clear })
    (h : switches.isPassthrough = false) :
    (Emission.all Pass.stage v.blueprint.passes switches).map (·.pass.stage) =
      settings.stages v.signals ++ Stage.splitScreen.onlyIf (0 < s.splitScreen) ++
        Stage.validation.onlyIf (settings.family ∈ [.reblur, .relax] ∧ s.validation = true) := by
  have hsplitScreen : decide (0 < switches.splitScreen) = true ↔ 0 < s.splitScreen := by
    rw [hswitches]
    cases settings <;> exact decide_eq_true_iff
  have hvalidation : switches.validation = s.validation := by
    rw [hswitches]
    cases settings <;> rfl
  unfold Variant.blueprint
  rw [← hfamily]
  cases settings with
  | reblur r =>
    have hreconstructs : switches.hitDistReconstruction = true ↔
        r.reconstruction ≠ .off ∧ r.checkerboard = .off := by
      rw [hswitches]
      exact reconstructs_iff
    have hblurs : switches.prePass = true ↔
        v.signals.Blurs r.diffusePrePassRadius r.specularPrePassRadius := by
      rw [hswitches]
      exact blursBefore_iff
    have hstabilizes : (!v.signals.occlusion && switches.temporalStabilization) = true ↔
        v.signals.occlusion = false ∧ 0 < r.stabilizationStrength := by
      rw [hswitches]
      simp [DenoiserSettings.switches, Reblur.switches]
    have hvalidates : switches.validation = true ↔
        (reblur r).family ∈ [.reblur, .relax] ∧ s.validation = true := by
      simp [hvalidation, family]
    refine (Reblur.map_stage_all _ _ h).trans ?_
    rw [Stage.replicate_eq_onlyIf hreconstructs, Stage.replicate_eq_onlyIf hblurs,
      Stage.replicate_eq_onlyIf hstabilizes, Stage.replicate_eq_onlyIf hsplitScreen,
      Stage.replicate_eq_onlyIf hvalidates]
    rfl
  | relax r =>
    have hreconstructs : switches.hitDistReconstruction = true ↔
        r.reconstruction ≠ .off ∧ r.checkerboard = .off := by
      rw [hswitches]
      exact reconstructs_iff
    have hblurs : switches.prePass = true ↔
        v.signals.Blurs r.diffusePrePassRadius r.specularPrePassRadius := by
      rw [hswitches]
      exact blursBefore_iff
    have hfireflies : switches.antiFirefly = true ↔ r.antiFirefly = true := by
      rw [hswitches]
      rfl
    have hsteps : switches.atrousCount = max 2 (min r.atrousIterations.toNat 8) := by
      rw [hswitches]
      rfl
    have hvalidates : switches.validation = true ↔
        (relax r).family ∈ [.reblur, .relax] ∧ s.validation = true := by
      simp [hvalidation, family]
    refine (Relax.map_stage_all _ h).trans ?_
    rw [Stage.replicate_eq_onlyIf hreconstructs, Stage.replicate_eq_onlyIf hblurs,
      Stage.replicate_eq_onlyIf hfireflies, hsteps, Stage.replicate_eq_onlyIf hsplitScreen,
      Stage.replicate_eq_onlyIf hvalidates]
    rfl
  | sigma r =>
    have hstabilizes : switches.temporalStabilization = true ↔ 0 < r.maxStabilized := by
      rw [hswitches]
      exact decide_eq_true_iff
    refine (Sigma.map_stage_all _ h).trans ?_
    rw [Stage.replicate_eq_onlyIf hstabilizes, Stage.replicate_eq_onlyIf hsplitScreen]
    exact (List.append_nil _).symm
  | reference r =>
    refine (Averaging.map_stage_all h).trans ?_
    rw [Stage.replicate_eq_onlyIf hsplitScreen]
    exact (List.append_nil _).symm

-- A radius of negative zero is none.
example : DenoiserSettings.stages Variant.reblurDiffuse.signals
    (.reblur { diffusePrePassRadius := -0 }) =
      [.classifyTiles, .temporalAccumulation, .historyFix, .blur, .postBlur,
        .temporalStabilization] := by
  decide +kernel

namespace DenoiserState

variable {d : DenoiserState} {s : FrameSettings} {past : List FrameSettings}

-- Which frames denoised before matters to the clears alone.
theorem map_stage_emissions (hsuits : d.settings.Suits d.variant)
    (hpast : d.snapshot = past.getLast?.map FrameSettings.snapshot)
    (hcount : d.layout.claims.permanentCount = d.variant.blueprint.permanent.length) :
    (d.emissions s).map (·.pass.stage) = d.stages s past := by
  unfold stages
  split
  · rename_i hpassthrough
    obtain ⟨em, hemissions, hstage, -⟩ :=
      exists_emissions_eq_singleton (d := d) (moves_eq_false_iff.mpr hpassthrough)
    rw [hemissions, List.map_singleton, hstage]
  · rename_i hdenoises
    have h : (d.switches s).isPassthrough = false := by
      have hmoves : d.moves s ≠ false := mt moves_eq_false_iff.mp hdenoises
      simpa [moves] using hmoves
    have hswitches : d.switches s =
        { d.settings.switches d.variant.signals s with clear := d.isCleared s } := rfl
    have hclear : (if (d.switches s).clear then d.variant.blueprint.clearing.length else 0) =
        if s.Clears past then d.layout.claims.permanentCount else 0 := by
      rw [hcount]
      refine if_congr (d.isCleared_iff hpast s) ?_ rfl
      simp [Blueprint.clearing]
    have hstages : (d.emissions s).map (·.pass.stage) =
        ((d.emissions s).map (Emission.map ScheduledPass.pass)).map (·.pass.stage) := by
      rw [List.map_map]
      rfl
    rw [hstages, d.emissions_of_denoises s h, List.map_append,
      map_stage_clears (fun _ => Blueprint.stage_of_mem_clearing), hclear,
      DenoiserSettings.map_stage_all hsuits.1 hswitches h, List.append_assoc, List.append_assoc,
      List.append_assoc]

end DenoiserState

namespace Planner

variable {p q : Planner} {store : ShaderStore} {denoisers : List (Identifier × Variant)}
  {policy : MemoryPolicy} {identifiers : List Identifier} {frame : Frame} {d : DenoiserState}

-- What a frame brings for a denoiser are the stages of its pipeline that its settings ask for, in
-- their order and nothing else. What the run before it has to say is whether to clear first.
theorem stages_of_run (hcreate : (create denoisers store).result = .ok p) {requests : List Request}
    (hq : q = requests.foldl Planner.after p)
    (hframe : (q.frame policy identifiers).result = .ok frame) (hd : d ∈ q.denoisers)
    (hasked : d.identifier ∈ identifiers) :
    (frame.share d.identifier).map Dispatch.stage =
      d.stages q.settings (p.denoised d.identifier requests) := by
  have hreachable : Reachable denoisers store q := hq ▸ .foldl_after (.created hcreate) requests
  obtain ⟨standing, htakes⟩ := hreachable.exists_takes hframe hd hasked
  obtain ⟨tables, hinstalled⟩ := htakes.installed
  have hstages : (frame.share d.identifier).map Dispatch.stage =
      (d.emissions q.settings).map (·.pass.stage) := by
    have houtlines := congrArg (List.map Outline.stage) htakes.outlines
    rw [List.map_map, List.map_map] at houtlines
    exact houtlines
  rw [hstages]
  apply DenoiserState.map_stage_emissions
  · exact hreachable.configured.denoisers d hd
  · rw [hq] at hd
    exact snapshot_of_create hcreate hd
  · exact hinstalled.permanentCount

-- The third frame of plain averaging.
theorem exists_stages_of_run : ∃ p q frame, ∃ d ∈ q.denoisers,
    (create shadowAndReference fun _ _ => none).result = .ok p ∧
      q = averaging.foldl Planner.after p ∧
      (q.frame (.atMost none) [d.identifier]).result = .ok frame ∧
      d.identifier ∈ [d.identifier] ∧ (frame.share d.identifier).map Dispatch.stage =
        d.stages q.settings (p.denoised d.identifier averaging) := by
  obtain ⟨p, -, hcreate, -⟩ := exists_frame_shadowAndReference
  obtain ⟨d, hd, hid, -⟩ := exists_denoiser hcreate (List.mem_cons_of_mem _ (List.mem_cons_self ..))
  obtain ⟨i, h⟩ := stands_of_create hcreate hd
  have hsolo : ∀ request ∈ averaging, request.Solo d.identifier := by
    simp [averaging, Request.Solo, MemoryPolicy.Grants.unlimited, hid]
  obtain ⟨standing, h', -⟩ := h.reached hsolo
  have hmem := Array.mem_of_getElem? h'.member
  have hreachable := Reachable.foldl_after (.created hcreate) averaging
  obtain ⟨frame, hframe⟩ := hreachable.exists_frame .unlimited hmem
  exact ⟨p, _, frame, _, hmem, hcreate, rfl, hframe, List.mem_singleton_self _,
    stages_of_run hcreate rfl hframe hmem (List.mem_singleton_self _)⟩

end Planner

end DenoisePlanner
