import DenoisePlanner.Proofs.Reset

namespace DenoisePlanner

-- The defines that announce stages of the frame, and the stages of which any suffices.
def announced : List (String × List Stage) :=
  [("AFTER_PRE_PASS", [.hitDistReconstruction, .prePass]),
    ("AFTER_HIT_DIST_RECONSTRUCTION", [.hitDistReconstruction]),
    ("PRE_PASS", [.prePass]),
    ("TEMPORAL_STABILIZATION", [.temporalStabilization]),
    ("AFTER_ANTI_FIREFLY", [.antiFirefly])]

-- The defines that announce optional inputs, with the bit that announces them as well.
def offered : List (String × UInt32 × List HostInput) :=
  [("CONFIDENCE_INPUTS", FrameConstants.historyConfidenceBit,
      [.diffuseConfidence, .specularConfidence]),
    ("DISOCCLUSION_THRESHOLD_MIX", FrameConstants.disocclusionMixBit, [.disocclusionMix])]

-- A shader, what is bound for it and the constants that it gets tell the same of a frame.
structure Dispatch.Agrees (x : Dispatch) (key : ShaderKey) (c : SharedConstants)
    (emitted : Stage → Prop) : Prop where
  stages : ∀ define ∈ key.defines, ∀ stages, (define.name, stages) ∈ announced →
    (define.value = "1" ↔ ∃ stage ∈ stages, emitted stage)
  features : ∀ define ∈ key.defines, ∀ bit inputs, (define.name, bit, inputs) ∈ offered →
    (define.value = "1" ↔ c.frame.features &&& bit ≠ 0)
  inputs : ∀ name bit inputs, (name, bit, inputs) ∈ offered →
    (⟨name, "1"⟩ ∈ key.defines ↔ ∃ kind ∈ inputs, (.input kind, 0) ∈ x.reads)

namespace Condition

theorem define_inj {c c' : Condition} (h : c.define = c'.define) : c = c' := by
  revert h
  cases c <;> cases c' <;> decide

-- The stages that make the condition hold.
def stages : Condition → List Stage
  | .prePass => [.prePass]
  | .afterHitDistReconstruction => [.hitDistReconstruction]
  | .afterPrePass => [.hitDistReconstruction, .prePass]
  | .temporalStabilization => [.temporalStabilization]
  | .afterAntiFirefly => [.antiFirefly]
  | .hitDist5x5 | .confidence | .disocclusionMix | .fromPong => []

theorem of_mem_announced {name : String} {stages : List Stage} (h : (name, stages) ∈ announced) :
    ∃ c : Condition, name = c.define ∧ stages = c.stages ∧ stages ≠ [] := by
  have hall : ∀ entry ∈ announced, ∃ c ∈ all, entry.1 = c.define ∧ entry.2 = c.stages ∧
      entry.2 ≠ [] := by
    decide
  obtain ⟨c, -, hc⟩ := hall _ h
  exact ⟨c, hc⟩

theorem isAtrous_of_mem_stages {c : Condition} {stage : Stage} (h : stage ∈ c.stages) :
    stage.isAtrous = false ∧ stage ≠ .clear := by
  revert h
  cases c <;> cases stage <;> decide

theorem holds_iff_enabled {c : Condition} (hc : c.stages ≠ []) (switches : Switches) :
    switches.holds c = true ↔ ∃ stage ∈ c.stages, switches.isEnabled stage = true := by
  cases c <;>
    simp [stages, Switches.holds, Switches.isEnabled, or_comm] at hc ⊢

theorem ne_fromPong_of_stages {c : Condition} (hc : c.stages ≠ []) : c ≠ .fromPong := by
  rintro rfl
  exact hc rfl

end Condition

-- Which of two buffers a step reads is the only condition that is not the frame's.
theorem Selected.assignment_eq_holds (switches : Switches) (atrous : Option AtrousIteration)
    {c : Condition} (hc : c ≠ .fromPong) : assignment switches atrous c = switches.holds c := by
  cases atrous with
  | none => rfl
  | some step =>
    cases c with
    | fromPong => exact absurd rfl hc
    | _ => rfl

namespace Variant

-- Where a pass looks out for a stage, the denoiser has a pass of that stage.
theorem exists_stage (v : Variant) : ∀ pass ∈ v.blueprint.passes, ∀ c ∈ pass.conditions,
    ∀ stage ∈ c.stages, ∃ pass' ∈ v.blueprint.passes, pass'.stage = stage := by
  cases v <;> decide +kernel

-- What a denoiser defines for all of its shaders is no condition.
theorem defines_apart (v : Variant) : ∀ define ∈ v.blueprint.defines, ∀ c : Condition,
    define.name ≠ c.define := by
  have hall : ∀ v ∈ all, ∀ define ∈ v.blueprint.defines, ∀ c ∈ Condition.all,
      define.name ≠ c.define := by
    decide +kernel
  exact fun define hdefine c => hall v v.mem_all define hdefine c (by cases c <;> decide)

-- An optional input is bound where its condition holds, and nowhere else.
theorem offered_bound (v : Variant) : ∀ entry ∈ offered, ∃ c ∈ Condition.all,
    c.define = entry.1 ∧ ∀ e ∈ v.blueprint.schedule,
      ∀ s ∈ Specialization.all e.pass.conditions,
        (s.has c = true ↔ ∃ kind ∈ entry.2.2, Reference.input kind ∈ (e.pass.bindings s).inputs) := by
  cases v <;> decide +kernel

end Variant

theorem Define.value_flag_eq_one_iff (name : String) (enabled : Bool) :
    (flag name enabled).value = "1" ↔ enabled = true := by
  cases enabled <;> simp [flag]

-- The constants say whether the host offers an optional input.
theorem FrameConstants.features_confidence_iff (s : FrameSettings) :
    featuresOf s &&& historyConfidenceBit ≠ 0 ↔ s.historyConfidence = true := by
  unfold featuresOf
  cases s.motionInWorldSpace <;> cases s.historyConfidence <;> cases s.disocclusionMix <;>
    cases s.validation <;> decide

theorem FrameConstants.features_mix_iff (s : FrameSettings) :
    featuresOf s &&& disocclusionMixBit ≠ 0 ↔ s.disocclusionMix = true := by
  unfold featuresOf
  cases s.motionInWorldSpace <;> cases s.historyConfidence <;> cases s.disocclusionMix <;>
    cases s.validation <;> decide

namespace DenoiserState

variable {d : DenoiserState} {s : FrameSettings} {em : Emission ScheduledPass} {define : Define}
  {c : Condition}

-- A define that bears the name of a condition tells whether the condition holds.
theorem mem_key_defines (hem : em ∈ d.emissions s) (hdefine : define ∈ em.key.defines)
    (hname : define.name = c.define) :
    c ∈ em.pass.pass.conditions ∧ define = .flag c.define (em.active c) := by
  have hown : ∀ define ∈ em.pass.defines, define.name ≠ c.define := by
    rcases Blueprint.of_mem_schedule (Emission.pass_mem_of_mem_all hem) with
      ⟨slot, texture, hclear⟩ | ⟨hdefines, -⟩
    · rw [hclear]
      exact fun _ h => absurd h List.not_mem_nil
    · rw [hdefines]
      exact fun define h => d.variant.defines_apart define h c
  rcases List.mem_append.mp hdefine with hdefine | hdefine
  · exact absurd hname (hown define hdefine)
  · rw [Emission.specialization, Specialization.defines_select] at hdefine
    obtain ⟨c', hc', rfl⟩ := List.mem_map.mp hdefine
    obtain rfl := Condition.define_inj hname
    exact ⟨hc', rfl⟩

theorem active_eq_holds (h : d.moves s = true) (hem : em ∈ d.emissions s) (hc : c ≠ .fromPong) :
    em.active c = (d.switches s).holds c := by
  have hdenoises : (d.switches s).isPassthrough = false := by simpa [moves] using h
  obtain ⟨-, hactive, -⟩ := Emission.of_mem_all hdenoises hem
  rw [hactive, Selected.assignment_eq_holds _ _ hc]

theorem pass_mem_of_conditions (hem : em ∈ d.emissions s) (hc : c ∈ em.pass.pass.conditions) :
    em.pass.pass ∈ d.variant.blueprint.passes := by
  rcases Blueprint.of_mem_schedule (Emission.pass_mem_of_mem_all hem) with
    ⟨slot, texture, hclear⟩ | ⟨-, hpass⟩
  · rw [hclear] at hc
    exact absurd hc List.not_mem_nil
  · exact hpass

-- The defines announce what is emitted,
theorem value_iff_emitted (h : d.moves s = true) (hem : em ∈ d.emissions s)
    (hdefine : define ∈ em.key.defines) {stages : List Stage}
    (hannounced : (define.name, stages) ∈ announced) :
    define.value = "1" ↔ ∃ stage ∈ stages, ∃ em' ∈ d.emissions s, em'.pass.stage = stage := by
  obtain ⟨c, hname, rfl, hstages⟩ := Condition.of_mem_announced hannounced
  obtain ⟨hc, rfl⟩ := mem_key_defines hem hdefine hname
  have hholds := active_eq_holds h hem (Condition.ne_fromPong_of_stages hstages)
  have hpass := pass_mem_of_conditions hem hc
  rw [Define.value_flag_eq_one_iff, hholds, Condition.holds_iff_enabled hstages]
  refine exists_congr fun stage => and_congr_right fun hstage => ?_
  rw [exists_emission_iff h (Condition.isAtrous_of_mem_stages hstage)]
  exact (and_iff_right (d.variant.exists_stage _ hpass c hc stage hstage)).symm

-- and the conditions that optional inputs are offered under are those of the constants.
theorem exists_offered {name : String} {bit : UInt32} {inputs : List HostInput}
    (hoffered : (name, bit, inputs) ∈ offered) : ∃ c : Condition, name = c.define ∧
      c ≠ .fromPong ∧ ∀ (d : DenoiserState) (s : FrameSettings),
        ((d.switches s).holds c = true ↔ (d.shared s).frame.features &&& bit ≠ 0) := by
  have hswitches (d : DenoiserState) (s : FrameSettings) :
      (d.switches s).confidence = s.historyConfidence ∧
        (d.switches s).disocclusionMix = s.disocclusionMix := by
    unfold switches
    cases d.settings <;> exact ⟨rfl, rfl⟩
  rcases List.mem_pair.mp hoffered with heq | heq <;> obtain ⟨rfl, rfl, rfl⟩ := heq
  · refine ⟨.confidence, rfl, by decide, fun d s => ?_⟩
    have hholds : (d.switches s).holds .confidence = s.historyConfidence := (hswitches d s).1
    rw [hholds]
    exact (FrameConstants.features_confidence_iff s).symm
  · refine ⟨.disocclusionMix, rfl, by decide, fun d s => ?_⟩
    have hholds : (d.switches s).holds .disocclusionMix = s.disocclusionMix := (hswitches d s).2
    rw [hholds]
    exact (FrameConstants.features_mix_iff s).symm

theorem value_iff_features (h : d.moves s = true) (hem : em ∈ d.emissions s)
    (hdefine : define ∈ em.key.defines) {bit : UInt32} {inputs : List HostInput}
    (hoffered : (define.name, bit, inputs) ∈ offered) :
    define.value = "1" ↔ (d.shared s).frame.features &&& bit ≠ 0 := by
  obtain ⟨c, hname, hc, hfeatures⟩ := exists_offered hoffered
  obtain ⟨-, rfl⟩ := mem_key_defines hem hdefine hname
  rw [Define.value_flag_eq_one_iff, active_eq_holds h hem hc, hfeatures]

theorem mem_defines_iff_bound (hem : em ∈ d.emissions s) {name : String} {bit : UInt32}
    {inputs : List HostInput} (hoffered : (name, bit, inputs) ∈ offered) :
    ⟨name, "1"⟩ ∈ em.key.defines ↔
      ∃ kind ∈ inputs, Reference.input kind ∈ em.bindings.inputs := by
  obtain ⟨c, -, rfl, hbound⟩ := d.variant.offered_bound _ hoffered
  have hspecialization := hbound em.pass (Emission.pass_mem_of_mem_all hem) em.specialization
    (Specialization.select_mem_all _ _)
  rw [Emission.bindings, ← hspecialization, Emission.specialization, Specialization.has_select,
    Bool.and_eq_true, decide_eq_true_eq]
  constructor
  · intro hdefine
    obtain ⟨hc, hflag⟩ := mem_key_defines hem hdefine rfl
    exact ⟨hc, (Define.value_flag_eq_one_iff c.define _).mp (congrArg Define.value hflag).symm⟩
  · rintro ⟨hc, hactive⟩
    refine List.mem_append_right _ ?_
    rw [Emission.specialization, Specialization.defines_select]
    exact List.mem_map.mpr ⟨c, hc, by rw [hactive]; rfl⟩

end DenoiserState

theorem Claims.texture_eq_input_iff {claims : Claims} {flipped : Bool} {r : Reference}
    {kind : HostInput} : claims.texture flipped r = (.input kind, 0) ↔ r = .input kind := by
  cases r with
  | host k => simp [texture, Reference.location, place, Reference.input]
  | pooled slot => cases slot <;> simp [texture, Reference.location, place, Reference.input]
  | swapping current other =>
    cases flipped <;> cases current <;> cases other <;>
      simp [texture, Reference.location, place, Reference.input]

-- What the shader, the bindings and the constants of a dispatch tell of the frame.
theorem Planner.Takes.agrees {p : Planner} {store : ShaderStore} {d : DenoiserState}
    {standing : Standing} {t : Turn} (h : p.Takes store d standing t)
    (hdenoises : t.denoises = true) {em : Emission ScheduledPass} {x : Dispatch}
    (hx : t.Emits em x) :
    x.Agrees em.key (t.denoiser.shared t.settings)
      fun stage => ∃ y ∈ t.dispatches, y.stage = stage := by
  have hem : em ∈ t.denoiser.emissions t.settings := (List.of_mem_zip hx).1
  refine ⟨fun define hdefine stages hannounced => ?_, fun define hdefine bit inputs hoffered => ?_,
    fun name bit inputs hoffered => ?_⟩
  · rw [DenoiserState.value_iff_emitted hdenoises hem hdefine hannounced]
    exact exists_congr fun stage => and_congr_right fun _ => h.exists_stage_iff.symm
  · exact DenoiserState.value_iff_features hdenoises hem hdefine hoffered
  · rw [DenoiserState.mem_defines_iff_bound hem hoffered, h.reads_eq hx]
    refine exists_congr fun kind => and_congr_right fun _ => ?_
    simp only [List.mem_map, Claims.texture_eq_input_iff, exists_eq_right]

end DenoisePlanner
