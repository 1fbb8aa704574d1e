import DenoisePlanner.Proofs.Announcement
import DenoisePlanner.Proofs.Creation
import DenoisePlanner.Proofs.Multiplicity
import DenoisePlanner.Proofs.Passthrough

namespace DenoisePlanner

-- A lane is a truth value, and it is true if the proposition is.
def Tells (word : UInt32) (P : Prop) : Prop := ∃ b, word = flagWord b ∧ (b = true ↔ P)

namespace Frame

-- The denoiser dispatches the stage.
def Emits (frame : Frame) (identifier : Identifier) (stage : Stage) : Prop :=
  ∃ x ∈ frame.share identifier, x.stage = stage

-- The A-trous steps of a denoiser in their order.
def steps (frame : Frame) (identifier : Identifier) : List Dispatch :=
  (frame.share identifier).filter (·.stage.isAtrous)

end Frame

-- The dispatch receives the shared constants, and what belongs to step `k` of `count`.
structure Dispatch.IsStep (x : Dispatch) (c : SharedConstants) (count k : Nat) : Prop where
  stage : x.stage = Selected.atrousStage count k
  constants : ∃ row : Row, x.constants = (rowBytes c.rows).toByteArray ++ row.bytes.toByteArray ∧
    row.x.toNat = 2 ^ k ∧ row.y.toNat = k ∧ row.z = flagWord (decide (k + 1 = count)) ∧ row.w = 0

-- The A-trous filter of a frame, with as many steps as asked for within its limits.
structure Frame.Filters (frame : Frame) (identifier : Identifier) (request : UInt32)
    (c : SharedConstants) : Prop where
  count : (frame.steps identifier).length = max 2 (min request.toNat 8)
  constants : ∃ constants, c.family = .relax constants ∧
    constants.atrousIterations.toNat = (frame.steps identifier).length
  steps : ∀ (k : Nat) x, (frame.steps identifier)[k]? = some x →
    x.IsStep c (frame.steps identifier).length k

theorem AtrousIteration.stepSize_toNat {k : Nat} (hk : k < 8) (isLast : Bool) :
    (⟨.ofNat k, isLast⟩ : AtrousIteration).stepSize.toNat = 2 ^ k := by
  have hall : ∀ k ∈ List.range 8,
      (⟨.ofNat k, isLast⟩ : AtrousIteration).stepSize.toNat = 2 ^ k := by
    cases isLast <;> decide
  exact hall k (List.mem_range.mpr hk)

namespace Relax

variable {switches : Switches}

open Emission

theorem stage_step (signals : List SignalTextures) (i : Nat) :
    (step signals switches i).pass.stage = Selected.atrousStage switches.atrousCount i := by
  unfold step Selected.atrousStage
  dsimp only
  split
  · rfl
  · split <;> rfl

-- Nothing but the steps of the filter is of the A-trous stages.
theorem filter_all_passes (signals : List SignalTextures) (h : switches.isPassthrough = false) :
    (Emission.all Pass.stage (passes signals) switches).filter (·.pass.stage.isAtrous) =
      steps signals switches := by
  have hgated (enabled : Bool) (pass : Pass) (hpass : pass.stage.isAtrous = false) :
      (gated switches enabled pass).filter (·.pass.stage.isAtrous) = [] := by
    refine List.filter_eq_nil_iff.mpr fun em hem => ?_
    obtain ⟨-, rfl⟩ := mem_gated hem
    exact Bool.eq_false_iff.mp hpass
  have hsteps : (steps signals switches).filter (·.pass.stage.isAtrous) =
      steps signals switches := by
    refine List.filter_eq_self.mpr fun em hem => ?_
    obtain ⟨i, -, rfl⟩ := List.mem_map.mp hem
    rw [stage_step]
    exact Selected.isAtrous_atrousStage _ _
  rw [all_passes signals h]
  simp only [path, rest, List.filter_append, List.filter_cons, List.filter_nil, hsteps]
  rw [hgated _ _ rfl, hgated _ _ rfl, hgated _ _ rfl, hgated _ _ rfl, hgated _ _ rfl]
  simp [plain, classifyTiles, temporalAccumulation, historyFix, historyClamping, copy,
    Stage.isAtrous]

theorem of_getElem?_steps {signals : List SignalTextures} {k : Nat} {em : Emission Pass}
    (h : (steps signals switches)[k]? = some em) :
    k < switches.atrousCount ∧ em = step signals switches k := by
  rw [steps, List.getElem?_map] at h
  obtain ⟨i, hi, rfl⟩ := Option.map_eq_some_iff.mp h
  obtain ⟨hlt, rfl⟩ := List.getElem?_eq_some_iff.mp hi
  rw [List.length_range] at hlt
  exact ⟨hlt, by rw [List.getElem_range]⟩

theorem data_step (signals : List SignalTextures) (i : Nat) :
    (step signals switches i).pass.data = .atrous := by
  unfold step
  dsimp only
  split
  · rfl
  · split <;> rfl

end Relax

namespace DenoiserState

variable {d : DenoiserState} {s : FrameSettings}

-- The A-trous steps that a denoiser emits.
theorem filter_emissions (hfamily : d.variant.family = .relax) (h : d.moves s = true) :
    ((d.emissions s).filter (·.pass.stage.isAtrous)).map (Emission.map ScheduledPass.pass) =
      Relax.steps (Relax.textures d.variant.signals) (d.switches s) := by
  have hdenoises : (d.switches s).isPassthrough = false := by simpa [moves] using h
  have hfilter := congrArg (List.filter fun em => em.pass.stage.isAtrous)
    (d.emissions_of_denoises s hdenoises)
  have hpasses : d.variant.blueprint.passes = Relax.passes (Relax.textures d.variant.signals) := by
    simp only [Variant.blueprint, hfamily]
    rfl
  have hclears : (Emission.clears (d.switches s) d.variant.blueprint.clearing).filter
      (·.pass.stage.isAtrous) = [] := by
    refine List.filter_eq_nil_iff.mpr fun em hem => ?_
    obtain ⟨pass, hpass, hgated⟩ := List.mem_flatMap.mp hem
    obtain ⟨-, rfl⟩ := Emission.mem_gated hgated
    have hstage : (Emission.plain (d.switches s) pass).pass.stage = .clear :=
      Blueprint.stage_of_mem_clearing hpass
    rw [hstage]
    exact Bool.false_ne_true
  rw [List.filter_append, hclears, List.nil_append, hpasses,
    Relax.filter_all_passes _ hdenoises, List.filter_map] at hfilter
  exact hfilter

theorem exists_constants_relax (hfamily : d.settings.family = d.variant.family)
    (hrelax : d.variant.family = .relax) : ∃ settings c, d.settings = .relax settings ∧
      (d.shared s).family = .relax c ∧
      (d.switches s).atrousCount = max 2 (min settings.atrousIterations.toNat 8) ∧
      c.atrousIterations.toNat = (d.switches s).atrousCount := by
  have hcount := (d.switches s).atrousCount_le
  have hword : (UInt32.ofNat (d.switches s).atrousCount).toNat = (d.switches s).atrousCount := by
    rw [UInt32.toNat_ofNat']
    exact Nat.mod_eq_of_lt (by omega)
  cases hsettings : d.settings with
  | relax settings =>
    refine ⟨settings, Relax.constants settings (d.switches s) (d.shared s).frame, rfl, ?_, ?_, hword⟩
    · simp only [shared, hsettings, FamilyConstants.ofSettings]
    · simp only [switches, hsettings, DenoiserSettings.switches, Relax.switches,
        Switches.atrousCount]
  | _ =>
    rw [← hfamily, hsettings] at hrelax
    cases hrelax

-- The lanes of the constants repeat the switches that the stages depend on.
theorem exists_lanes (hfamily : d.settings.family = d.variant.family)
    (hreblur : d.variant.family = .reblur) : ∃ c, (d.shared s).family = .reblur c ∧
      c.checkerboard.z = flagWord (d.switches s).temporalStabilization ∧
      c.checkerboard.w = flagWord (d.switches s).hitDistReconstruction := by
  rw [← hfamily] at hreblur
  simp only [shared]
  cases hsettings : d.settings with
  | reblur settings => exact ⟨_, rfl, rfl, rfl⟩
  | _ =>
    rw [hsettings] at hreblur
    cases hreblur

-- An occlusion signal has no pass to stabilize it, and its settings ask for none.
theorem exists_stage_reblur (hfamily : d.settings.family = d.variant.family)
    (hreblur : d.variant.family = .reblur) :
    (∃ pass ∈ d.variant.blueprint.passes, pass.stage = .hitDistReconstruction) ∧
      ((d.switches s).temporalStabilization = true →
        ∃ pass ∈ d.variant.blueprint.passes, pass.stage = .temporalStabilization) := by
  have hpasses : ∀ v ∈ Variant.all, v.family = .reblur →
      (∃ pass ∈ v.blueprint.passes, pass.stage = .hitDistReconstruction) ∧
        (v.signals.occlusion = false →
          ∃ pass ∈ v.blueprint.passes, pass.stage = .temporalStabilization) := by
    decide +kernel
  obtain ⟨hreconstruction, hstabilization⟩ :=
    hpasses d.variant d.variant.mem_all hreblur
  refine ⟨hreconstruction, fun hstabilizes => hstabilization ?_⟩
  cases hsettings : d.settings with
  | reblur settings =>
    simp only [switches, hsettings, DenoiserSettings.switches, Reblur.switches,
      Bool.and_eq_true, Bool.not_eq_true'] at hstabilizes
    exact hstabilizes.1
  | _ =>
    rw [← hfamily, hsettings] at hreblur
    cases hreblur

end DenoiserState

-- Constants, defines, bindings and stages of a denoiser's part in a frame tell the same.
structure Frame.Coherent (frame : Frame) (p : Planner) (d : DenoiserState) : Prop where
  filters : d.variant.family = .relax → ∃ settings, d.settings = .relax settings ∧
    frame.Filters d.identifier settings.atrousIterations (d.shared p.settings)
  lanes : d.variant.family = .reblur → ∃ c, (d.shared p.settings).family = .reblur c ∧
    Tells c.checkerboard.z (frame.Emits d.identifier .temporalStabilization) ∧
      Tells c.checkerboard.w (frame.Emits d.identifier .hitDistReconstruction)
  agrees : ∀ x ∈ frame.share d.identifier, ∃ compiled,
    p.inventory.pipelines[x.pipeline]? = some compiled ∧
      x.Agrees compiled.pipeline.key (d.shared p.settings) (frame.Emits d.identifier)
  carries : ∀ x ∈ frame.share d.identifier, x.stage ≠ .clear → x.Carries (d.shared p.settings)

namespace Planner

variable {p : Planner} {store : ShaderStore} {d : DenoiserState} {standing : Standing}
  {frame : Frame}

theorem Takes.map_outline_steps
    (h : p.Takes store d standing ⟨p.settings, d, frame.share d.identifier⟩) :
    (frame.steps d.identifier).map p.outline =
      ((d.emissions p.settings).filter (·.pass.stage.isAtrous)).map
        (d.outline p.settings store standing.flipped) := by
  have houtlines := congrArg (List.filter fun o : Outline => o.stage.isAtrous) h.outlines
  rw [List.filter_map, List.filter_map] at houtlines
  exact houtlines

-- Step `k` of the filter is what the emission for it becomes.
theorem Takes.isStep
    (h : p.Takes store d standing ⟨p.settings, d, frame.share d.identifier⟩)
    (hfamily : d.variant.family = .relax) (hdenoises : d.moves p.settings = true) {k : Nat}
    {x : Dispatch} (hk : (frame.steps d.identifier)[k]? = some x) :
    x.IsStep (d.shared p.settings) (d.switches p.settings).atrousCount k := by
  have hsteps := d.filter_emissions (s := p.settings) hfamily hdenoises
  have hout := congrArg (fun l : List Outline => l[k]?) h.map_outline_steps
  simp only [List.getElem?_map, hk, Option.map_some] at hout
  obtain ⟨em, hem, hx⟩ := Option.map_eq_some_iff.mp hout.symm
  have hemission := congrArg (fun l : List (Emission Pass) => l[k]?) hsteps
  simp only [List.getElem?_map, hem, Option.map_some] at hemission
  obtain ⟨hlt, hstep⟩ := Relax.of_getElem?_steps hemission.symm
  have hpass : em.pass.pass = (Relax.step _ (d.switches p.settings) k).pass :=
    congrArg Emission.pass hstep
  have hatrous : em.atrous = (Relax.step _ (d.switches p.settings) k).atrous :=
    congrArg Emission.atrous hstep
  have hcount := (d.switches p.settings).atrousCount_le
  constructor
  · have hstage : x.stage = em.pass.pass.stage := (congrArg Outline.stage hx).symm
    rw [hstage, hpass, Relax.stage_step]
  · have hconstants : x.constants = ScratchBuffer.join (em.pass.pass.data.chunks
        (d.sharedBytes p.settings) p.settings.frameIndex em.atrous) :=
      (congrArg Outline.constants hx).symm
    rw [hpass, Relax.data_step, hatrous] at hconstants
    refine ⟨(⟨.ofNat k, k + 1 == (d.switches p.settings).atrousCount⟩ : AtrousIteration).row,
      ?_, ?_, ?_, ?_, rfl⟩
    · simpa [PassData.chunks, ScratchBuffer.join, Relax.step, DenoiserState.sharedBytes] using
        hconstants
    · exact AtrousIteration.stepSize_toNat (by omega) _
    · exact (UInt32.toNat_ofNat').trans (Nat.mod_eq_of_lt (by omega))
    · rfl

theorem Takes.filters
    (h : p.Takes store d standing ⟨p.settings, d, frame.share d.identifier⟩)
    (hfamily : d.settings.family = d.variant.family) (hdenoises : d.moves p.settings = true)
    (hrelax : d.variant.family = .relax) : ∃ settings, d.settings = .relax settings ∧
      frame.Filters d.identifier settings.atrousIterations (d.shared p.settings) := by
  obtain ⟨settings, c, hsettings, hc, hcount, hword⟩ :=
    d.exists_constants_relax (s := p.settings) hfamily hrelax
  have hlength : (frame.steps d.identifier).length = (d.switches p.settings).atrousCount := by
    have houtlines := congrArg List.length h.map_outline_steps
    have hsteps := congrArg List.length (d.filter_emissions (s := p.settings) hrelax hdenoises)
    simp only [List.length_map, Relax.steps, List.length_range] at houtlines hsteps
    rw [houtlines, hsteps]
  refine ⟨settings, hsettings, hlength.trans hcount, ⟨c, hc, hword.trans hlength.symm⟩,
    fun k x hk => ?_⟩
  rw [hlength]
  exact h.isStep hrelax hdenoises hk

theorem Takes.emits_iff
    (h : p.Takes store d standing ⟨p.settings, d, frame.share d.identifier⟩)
    (hdenoises : d.moves p.settings = true) {stage : Stage}
    (hstage : stage.isAtrous = false ∧ stage ≠ .clear) :
    frame.Emits d.identifier stage ↔
      (∃ pass ∈ d.variant.blueprint.passes, pass.stage = stage) ∧
        (d.switches p.settings).isEnabled stage = true :=
  h.exists_stage_iff.trans (DenoiserState.exists_emission_iff hdenoises hstage)

theorem Takes.lanes
    (h : p.Takes store d standing ⟨p.settings, d, frame.share d.identifier⟩)
    (hfamily : d.settings.family = d.variant.family) (hdenoises : d.moves p.settings = true)
    (hreblur : d.variant.family = .reblur) : ∃ c, (d.shared p.settings).family = .reblur c ∧
      Tells c.checkerboard.z (frame.Emits d.identifier .temporalStabilization) ∧
        Tells c.checkerboard.w (frame.Emits d.identifier .hitDistReconstruction) := by
  obtain ⟨c, hc, hz, hw⟩ := d.exists_lanes (s := p.settings) hfamily hreblur
  obtain ⟨hreconstruction, hstabilization⟩ := d.exists_stage_reblur (s := p.settings) hfamily hreblur
  refine ⟨c, hc, ⟨_, hz, ?_⟩, ⟨_, hw, ?_⟩⟩
  · rw [h.emits_iff hdenoises ⟨rfl, by decide⟩]
    exact ⟨fun henabled => ⟨hstabilization henabled, henabled⟩, And.right⟩
  · rw [h.emits_iff hdenoises ⟨rfl, by decide⟩]
    exact (and_iff_right hreconstruction).symm

-- All denoisers of a fresh planner can be asked for at once.
theorem exists_frame_of_create {denoisers : List (Identifier × Variant)} {policy : MemoryPolicy}
    (hcreate : (create denoisers store).result = .ok p)
    (hnodup : (denoisers.map Prod.fst).Nodup) (hgrants : policy.Grants) :
    ∃ frame, (p.frame policy (denoisers.map Prod.fst)).result = .ok frame := by
  have hsound := (create_ok hcreate).1
  have hknown : ∀ identifier ∈ denoisers.map Prod.fst,
      ∃ d ∈ p.denoisers, d.identifier = identifier := by
    intro identifier hmem
    obtain ⟨entry, hentry, rfl⟩ := List.mem_map.mp hmem
    obtain ⟨d, hd, hid, -⟩ := exists_denoiser hcreate hentry
    exact ⟨d, hd, hid⟩
  obtain ⟨positions, hpositions⟩ := hsound.exists_positions_of_mem hnodup hknown
  exact hsound.exists_frame hgrants hpositions

-- Whatever settings a frame is made with, all parts of the program draw the same conclusions
-- from them.
theorem Reachable.coherent {denoisers : List (Identifier × Variant)} {policy : MemoryPolicy}
    {identifiers : List Identifier} (h : Reachable denoisers store p)
    (hframe : (p.frame policy identifiers).result = .ok frame) (hd : d ∈ p.denoisers)
    (hasked : d.identifier ∈ identifiers) (hdenoises : d.moves p.settings = true) :
    frame.Coherent p d := by
  obtain ⟨flipped, hsound⟩ := h.sound
  obtain ⟨i, hi⟩ := Array.getElem?_of_mem hd
  have hfamily : d.settings.family = d.variant.family := hsound.roster.family i d hi
  obtain ⟨standing, htakes⟩ := h.exists_takes hframe hd hasked
  refine ⟨htakes.filters hfamily hdenoises, htakes.lanes hfamily hdenoises, fun x hx => ?_,
    fun x hx hstage => ?_⟩
  · obtain ⟨em, hem, hemits⟩ := htakes.exists_emission hx
    have hpipeline := congrArg Outline.pipeline (htakes.outline_eq hemits)
    exact ⟨_, hpipeline, htakes.agrees hdenoises hemits⟩
  · obtain ⟨em, hem, hemits⟩ := htakes.exists_emission hx
    exact DenoiserState.carries_of_outline_eq hem hstage (htakes.outline_eq hemits)

theorem Reachable.coherent_relaxAndReblur : ∃ p frame,
    Reachable [(⟨1⟩, .relaxDiffuse), (⟨2⟩, .reblurDiffuseOcclusion)] (fun _ _ => none) p ∧
      (p.frame (.atMost none) [⟨1⟩, ⟨2⟩]).result = .ok frame ∧
      ∃ d ∈ p.denoisers, ∃ e ∈ p.denoisers,
        d.identifier ∈ [(⟨1⟩ : Identifier), ⟨2⟩] ∧ d.variant = .relaxDiffuse ∧
        d.moves p.settings = true ∧ frame.Coherent p d ∧
        e.identifier ∈ [(⟨1⟩ : Identifier), ⟨2⟩] ∧ e.variant = .reblurDiffuseOcclusion ∧
        e.moves p.settings = true ∧ frame.Coherent p e := by
  have hdeclarable : Declarable [(⟨1⟩, .relaxDiffuse), (⟨2⟩, .reblurDiffuseOcclusion)] :=
    ⟨by decide, by decide +kernel⟩
  obtain ⟨p, hcreate⟩ := exists_create_of_declarable hdeclarable (List.cons_ne_nil _ _) fun _ _ => none
  obtain ⟨frame, hframe⟩ := exists_frame_of_create hcreate hdeclarable.nodup .unlimited
  obtain ⟨d, hd, hid, hrelax, -⟩ := exists_denoiser hcreate List.mem_cons_self
  obtain ⟨e, he, hid', hreblur, -⟩ :=
    exists_denoiser hcreate (List.mem_cons_of_mem _ List.mem_cons_self)
  have hmoves (d : DenoiserState) : d.moves p.settings = true := by
    rw [(create_ok hcreate).2.2.2]
    exact d.moves_default
  have hasked : d.identifier ∈ [(⟨1⟩ : Identifier), ⟨2⟩] := by simp [hid]
  have hasked' : e.identifier ∈ [(⟨1⟩ : Identifier), ⟨2⟩] := by simp [hid']
  have hreachable := Reachable.created hcreate
  exact ⟨p, frame, hreachable, hframe, d, hd, e, he, hasked, hrelax, hmoves d,
    hreachable.coherent hframe hd hasked (hmoves d), hasked', hreblur, hmoves e,
    hreachable.coherent hframe he hasked' (hmoves e)⟩

end Planner

end DenoisePlanner
