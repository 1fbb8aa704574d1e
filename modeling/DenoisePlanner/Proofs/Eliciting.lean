import DenoisePlanner.Proofs.Emitted
import DenoisePlanner.Proofs.Multiplicity
import DenoisePlanner.Proofs.Rejection

namespace DenoisePlanner

namespace Emission

variable {α : Type} {stage : α → Stage} {passes : List α} {switches : Switches} {pass : α}

-- A pass that runs for an A-trous step is the one that is found for it.
theorem mem_atrousSteps {first : α} {step : AtrousIteration}
    (hpass : pass ∈ passes)
    (hsingle : passes.Pairwise fun x y => (stage x).isAtrous = true → stage y ≠ stage x)
    (hfirst : step.index = 0 → pass = first)
    (hruns : Selected.Runs switches (stage pass) (some step)) :
    ⟨pass, Selected.assignment switches (some step), some step⟩ ∈
      atrousSteps stage passes switches first := by
  obtain ⟨hlt, hlast, hstage⟩ := hruns
  have hzero : step.index.toNat = 0 ↔ step.index = 0 := by
    rw [← UInt32.toNat_inj]
    rfl
  refine List.mem_filterMap.mpr ⟨step.index.toNat, List.mem_range.mpr hlt, ?_⟩
  have hfound : atrousPass? stage passes first switches.atrousCount step.index.toNat =
      some pass := by
    unfold atrousPass?
    split
    · next hindex => rw [hfirst (hzero.mp hindex)]
    · next hindex =>
      rw [if_neg (mt hzero.mpr hindex), hlast] at hstage
      simp only [beq_iff_eq] at hstage
      have hatrous : (stage pass).isAtrous = true := by
        rw [hstage]
        split <;> rfl
      rw [← hstage]
      refine find?_eq_some_of_pairwise (hsingle.imp fun {x y} hne hx => ?_) hpass (by simp)
      rw [beq_iff_eq] at hx
      exact beq_eq_false_iff_ne.mpr (hx ▸ hne (hx ▸ hatrous))
  rw [hfound, ← hlast]
  simp [Selected.assignment]

-- Every pass of the table that runs is emitted, under the truth values of the frame.
theorem mem_all_of_runs {atrous : Option AtrousIteration}
    (hpassthrough : switches.isPassthrough = false) (hpass : pass ∈ passes)
    (hsingle : passes.Pairwise fun x y => (stage x).isAtrous = true → stage y ≠ stage x)
    (hbegins : (stage pass).isAtrous = true → ∃ first ∈ passes, stage first = .atrousFirst)
    (hruns : Selected.Runs switches (stage pass) atrous) :
    ⟨pass, Selected.assignment switches atrous, atrous⟩ ∈ all stage passes switches := by
  simp only [all, hpassthrough, Bool.false_eq_true, if_false]
  cases atrous with
  | none =>
    refine List.mem_flatMap.mpr ⟨pass, hpass, ?_⟩
    rw [ofPass_of_enabled hruns.1 hruns.2]
    exact List.mem_singleton_self _
  | some step =>
    have hstage := hruns.2.2
    have hof {first : α} (hfirst : stage first = .atrousFirst) :
        ofPass stage passes switches first = atrousSteps stage passes switches first := by
      unfold ofPass
      rw [hfirst]
    by_cases hindex : step.index = 0
    · rw [if_pos hindex] at hstage
      refine List.mem_flatMap.mpr ⟨pass, hpass, ?_⟩
      rw [hof hstage]
      exact mem_atrousSteps hpass hsingle (fun _ => rfl) hruns
    · have hatrous : (stage pass).isAtrous = true := by
        rw [hstage, if_neg hindex]
        split <;> rfl
      obtain ⟨first, hmem, hfirst⟩ := hbegins hatrous
      refine List.mem_flatMap.mpr ⟨first, hmem, ?_⟩
      rw [hof hfirst]
      exact mem_atrousSteps hpass hsingle (fun h => absurd h hindex) hruns

end Emission

namespace Specialization

-- The A-trous step that stands for a specialisation of a pass. Odd steps read what was left in the
-- second buffer.
def step? (s : Specialization) : Stage → Option AtrousIteration
  | .atrousFirst => some ⟨0, false⟩
  | .atrous => some ⟨if s.has .fromPong then 1 else 2, false⟩
  | .atrousLast => some ⟨if s.has .fromPong then 1 else 2, true⟩
  | _ => none

-- As many A-trous steps as it takes for that one to come, in its place.
def atrousRequest (s : Specialization) (stage : Stage) : UInt32 :=
  match s.step? stage with
  | some step => if step.isLast then step.index + 1 else step.index + 2
  | none => 2

-- The blur before accumulation comes where it is the stage itself, or is said to have come.
def prePassRadius (s : Specialization) (stage : Stage) : Float32 :=
  if stage = .prePass || s.has .prePass || s.has .afterPrePass then 1 else 0

def reconstruction (s : Specialization) (stage : Stage) : Reconstruction :=
  if stage = .hitDistReconstruction || s.has .afterHitDistReconstruction then
    if s.has .hitDist5x5 then .area5x5 else .area3x3
  else .off

end Specialization

-- Settings of a frame that agree with a specialisation, and do everything that is optional.
def FrameSettings.eliciting (s : Specialization) : FrameSettings where
  splitScreen := 0.5
  accumulation := .clearAndRestart
  historyConfidence := s.has .confidence
  disocclusionMix := s.has .disocclusionMix
  validation := true

section Eliciting

variable (stage : Stage) (s : Specialization)

-- Settings of a denoiser under which a stage runs as the specialisation says.
def ReblurSettings.eliciting : ReblurSettings where
  diffusePrePassRadius := s.prePassRadius stage
  specularPrePassRadius := s.prePassRadius stage
  reconstruction := s.reconstruction stage
  stabilizationStrength :=
    if stage = .temporalStabilization || s.has .temporalStabilization then 1 else 0

def RelaxSettings.eliciting : RelaxSettings where
  diffusePrePassRadius := s.prePassRadius stage
  specularPrePassRadius := s.prePassRadius stage
  reconstruction := s.reconstruction stage
  antiFirefly := stage = .antiFirefly || s.has .afterAntiFirefly
  atrousIterations := s.atrousRequest stage

def SigmaSettings.eliciting : SigmaSettings where
  maxStabilized := if stage = .temporalStabilization || s.has .temporalStabilization then 1 else 0

def DenoiserSettings.eliciting : Family → DenoiserSettings
  | .reblur => .reblur (.eliciting stage s)
  | .relax => .relax (.eliciting stage s)
  | .sigma => .sigma (.eliciting stage s)
  | .reference => .reference {}

theorem FrameSettings.validate_eliciting : (eliciting s).validate = .ok () := by
  unfold eliciting
  generalize s.has .confidence = confidence
  generalize s.has .disocclusionMix = mix
  cases confidence <;> cases mix <;> decide +kernel

theorem ReblurSettings.check_eliciting : Rule.check (eliciting stage s).rules = .ok () := by
  unfold eliciting Specialization.prePassRadius
  generalize (decide (stage = .prePass) || s.has .prePass || s.has .afterPrePass) = blurs
  generalize (decide (stage = .temporalStabilization) || s.has .temporalStabilization) = stabilizes
  generalize s.reconstruction stage = reconstruction
  cases blurs <;> cases stabilizes <;> cases reconstruction <;> decide +kernel

theorem RelaxSettings.check_eliciting : Rule.check (eliciting stage s).rules = .ok () := by
  -- the rules are about no other setting that differs from its default
  simp only [eliciting, rules, Specialization.prePassRadius]
  split <;> decide +kernel

theorem SigmaSettings.check_eliciting : Rule.check (eliciting stage s).rules = .ok () := by
  simp only [eliciting, rules]
  decide +kernel

theorem DenoiserSettings.suits_eliciting (v : Variant) : (eliciting stage s v.family).Suits v := by
  cases hfamily : v.family with
  | reblur => exact ⟨hfamily.symm, ReblurSettings.check_eliciting stage s⟩
  | relax => exact ⟨hfamily.symm, RelaxSettings.check_eliciting stage s⟩
  | sigma => exact ⟨hfamily.symm, SigmaSettings.check_eliciting stage s⟩
  | reference => exact ⟨hfamily.symm, rfl⟩

end Eliciting

namespace Selected

instance (switches : Switches) (stage : Stage) :
    (step : Option AtrousIteration) → Decidable (Runs switches stage step)
  | none => inferInstanceAs (Decidable (_ ∧ _))
  | some _ => inferInstanceAs (Decidable (_ ∧ _ ∧ _))

end Selected

namespace Variant

-- A schedule with an A-trous step has the first of them.
theorem exists_atrousFirst (v : Variant) : ∀ e ∈ v.blueprint.schedule, e.stage.isAtrous = true →
    ∃ first ∈ v.blueprint.schedule, first.stage = .atrousFirst := by
  cases v <;> decide +kernel

theorem nodup_conditions (v : Variant) : ∀ e ∈ v.blueprint.schedule, e.pass.conditions.Nodup := by
  cases v <;> decide +kernel

-- The switches of a frame with such settings.
def eliciting (v : Variant) (stage : Stage) (s : Specialization) : Switches :=
  { (DenoiserSettings.eliciting stage s v.family).switches v.signals (.eliciting s) with
    clear := true }

-- Whichever specialisation it is, the stage runs, and under the conditions that it says.
theorem elicits (v : Variant) : ∀ e ∈ v.blueprint.schedule,
    ∀ s ∈ Specialization.all e.pass.conditions,
      Selected.Runs (v.eliciting e.stage s) e.stage (s.step? e.stage) ∧
        ∀ c ∈ e.pass.conditions,
          Selected.assignment (v.eliciting e.stage s) (s.step? e.stage) c = s.has c := by
  cases v <;> decide +kernel

end Variant

end DenoisePlanner
