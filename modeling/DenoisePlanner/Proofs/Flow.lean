import DenoisePlanner.Proofs.Calls
import DenoisePlanner.Proofs.Hazard
import DenoisePlanner.Proofs.Ways

namespace DenoisePlanner

open Emission

-- The stages that hand a signal on, in their order.
def Family.mainPath : Family → List Stage
  | .reblur => Reblur.mainPath
  | .relax => Relax.mainPath
  | .sigma => Sigma.mainPath
  | .reference => Averaging.mainPath

namespace Variant

-- The ways of the signals of a variant.
def ways (v : Variant) : List Way :=
  match v.family with
  | .reblur => Reblur.ways v.signals
  | .relax => Relax.ways v.signals
  | .sigma => [Sigma.way v.signals.translucency]
  | .reference => [Averaging.way]

-- How often a stage of the main path runs in a frame.
def runs (v : Variant) (switches : Switches) : Stage → Nat
  | .atrous => switches.atrousCount - 2
  | .temporalStabilization => (!v.signals.occlusion && switches.temporalStabilization).toNat
  | stage => (switches.isEnabled stage).toNat

-- The main path of a frame.
def mainStages (v : Variant) (switches : Switches) : List Stage :=
  v.family.mainPath.flatMap fun stage => List.replicate (v.runs switches stage) stage

end Variant

section

variable {switches : Switches}

theorem map_stage_gated (enabled : Bool) (pass : Pass) :
    (gated switches enabled pass).map (·.pass.stage) =
      List.replicate enabled.toNat pass.stage := by
  cases enabled <;> rfl

-- The stages of a frame that denoises, family by family. The clears come before them.
theorem Reblur.map_stage_all (stabilizes : Bool) (signals : List Reblur.SignalTextures)
    (h : switches.isPassthrough = false) :
    (Emission.all Pass.stage (Reblur.passes stabilizes signals) switches).map (·.pass.stage) =
      [Stage.classifyTiles] ++
        List.replicate switches.hitDistReconstruction.toNat Stage.hitDistReconstruction ++
        List.replicate switches.prePass.toNat Stage.prePass ++
        [Stage.temporalAccumulation, Stage.historyFix, Stage.blur, Stage.postBlur] ++
        List.replicate (stabilizes && switches.temporalStabilization).toNat
          Stage.temporalStabilization ++
        List.replicate (decide (0 < switches.splitScreen)).toNat Stage.splitScreen ++
        List.replicate switches.validation.toNat Stage.validation := by
  rw [Reblur.all_passes stabilizes signals h]
  simp only [Reblur.path, Reblur.rest, List.map_append, List.map_cons, List.map_nil,
    map_stage_gated, List.append_assoc, List.cons_append]
  rfl

theorem Reblur.filter_stages (stabilizes : Bool) (signals : List Reblur.SignalTextures)
    (h : switches.isPassthrough = false) :
    ((Emission.all Pass.stage (Reblur.passes stabilizes signals) switches).map
        (·.pass.stage)).filter Reblur.mainPath.contains =
      List.replicate switches.hitDistReconstruction.toNat Stage.hitDistReconstruction ++
        List.replicate switches.prePass.toNat Stage.prePass ++
        [Stage.temporalAccumulation, Stage.historyFix, Stage.blur, Stage.postBlur] ++
        List.replicate (stabilizes && switches.temporalStabilization).toNat
          Stage.temporalStabilization := by
  rw [Reblur.map_stage_all stabilizes signals h]
  simp [Reblur.mainPath]

theorem Relax.map_stage_steps (signals : List Relax.SignalTextures) :
    (Relax.steps signals switches).map (·.pass.stage) =
      .atrousFirst :: (List.replicate (switches.atrousCount - 2) .atrous ++ [.atrousLast]) := by
  have hcount := switches.two_le_atrousCount
  have hmiddle : (List.range' 1 (switches.atrousCount - 2)).map
      (fun i => (Relax.step signals switches i).pass.stage) =
        List.replicate (switches.atrousCount - 2) .atrous := by
    refine List.eq_replicate_iff.mpr ⟨by simp, fun stage hstage => ?_⟩
    obtain ⟨i, hi, rfl⟩ := List.mem_map.mp hstage
    obtain ⟨hlow, hhigh⟩ := List.mem_range'_1.mp hi
    unfold Relax.step
    rw [if_neg (by omega), if_neg (by omega)]
    rfl
  have hlast : (Relax.step signals switches (1 + (switches.atrousCount - 2))).pass.stage =
      .atrousLast := by
    unfold Relax.step
    rw [if_neg (by omega), if_pos (by omega)]
    rfl
  rw [Relax.steps_eq, List.map_cons, List.map_map, List.range'_1_concat, List.map_append,
    List.map_singleton]
  exact congrArg₂ _ rfl (congrArg₂ _ hmiddle (congrArg ([·]) hlast))

theorem Relax.map_stage_all (signals : List Relax.SignalTextures)
    (h : switches.isPassthrough = false) :
    (Emission.all Pass.stage (Relax.passes signals) switches).map (·.pass.stage) =
      [Stage.classifyTiles] ++
        List.replicate switches.hitDistReconstruction.toNat Stage.hitDistReconstruction ++
        List.replicate switches.prePass.toNat Stage.prePass ++
        [Stage.temporalAccumulation, Stage.historyFix, Stage.historyClamping, Stage.copy] ++
        List.replicate switches.antiFirefly.toNat Stage.antiFirefly ++
        [Stage.atrousFirst] ++ List.replicate (switches.atrousCount - 2) Stage.atrous ++
        [Stage.atrousLast] ++
        List.replicate (decide (0 < switches.splitScreen)).toNat Stage.splitScreen ++
        List.replicate switches.validation.toNat Stage.validation := by
  rw [Relax.all_passes signals h]
  simp only [Relax.path, Relax.rest, List.map_append, List.map_cons, List.map_nil,
    map_stage_gated, Relax.map_stage_steps, List.append_assoc, List.cons_append]
  rfl

theorem Relax.filter_stages (signals : List Relax.SignalTextures)
    (h : switches.isPassthrough = false) :
    ((Emission.all Pass.stage (Relax.passes signals) switches).map
        (·.pass.stage)).filter Relax.mainPath.contains =
      List.replicate switches.hitDistReconstruction.toNat Stage.hitDistReconstruction ++
        List.replicate switches.prePass.toNat Stage.prePass ++
        [Stage.temporalAccumulation, Stage.historyFix, Stage.historyClamping] ++
        List.replicate switches.antiFirefly.toNat Stage.antiFirefly ++
        Stage.atrousFirst ::
          (List.replicate (switches.atrousCount - 2) Stage.atrous ++ [Stage.atrousLast]) := by
  rw [Relax.map_stage_all signals h]
  simp [Relax.mainPath]

theorem Sigma.map_stage_all (translucency : Bool) (h : switches.isPassthrough = false) :
    (Emission.all Pass.stage (Sigma.passes translucency) switches).map (·.pass.stage) =
      [Stage.classifyTiles, Stage.smoothTiles, Stage.blur, Stage.postBlur] ++
        List.replicate switches.temporalStabilization.toNat Stage.temporalStabilization ++
        List.replicate (decide (0 < switches.splitScreen)).toNat Stage.splitScreen := by
  rw [Sigma.all_passes translucency h]
  simp only [Sigma.path, List.map_append, List.map_cons, List.map_nil, map_stage_gated,
    List.append_assoc, List.cons_append]
  rfl

theorem Sigma.filter_stages (translucency : Bool) (h : switches.isPassthrough = false) :
    ((Emission.all Pass.stage (Sigma.passes translucency) switches).map
        (·.pass.stage)).filter Sigma.mainPath.contains =
      [.blur, .postBlur] ++
        List.replicate switches.temporalStabilization.toNat .temporalStabilization := by
  rw [Sigma.map_stage_all translucency h]
  simp [Sigma.mainPath]

theorem Averaging.map_stage_all (h : switches.isPassthrough = false) :
    (Emission.all Pass.stage Averaging.passes switches).map (·.pass.stage) =
      [Stage.temporalAccumulation, Stage.copy] ++
        List.replicate (decide (0 < switches.splitScreen)).toNat Stage.splitScreen := by
  rw [Averaging.all_passes h]
  simp only [Averaging.path, List.map_append, List.map_cons, List.map_nil, map_stage_gated]
  rfl

theorem Averaging.filter_stages (h : switches.isPassthrough = false) :
    ((Emission.all Pass.stage Averaging.passes switches).map
        (·.pass.stage)).filter Averaging.mainPath.contains = [.temporalAccumulation, .copy] := by
  rw [Averaging.map_stage_all h]
  simp [Averaging.mainPath]

end

-- The copy fills permanent textures only.
theorem Relax.permanent_of_mem_copy {switches : Switches} {signals : Signals} {r : Reference}
    (hr : r ∈ (plain switches (Relax.copy (Relax.textures signals))).under.outputs) :
    ∃ i, r = .pooled (.permanent i) := by
  rcases List.mem_append.mp hr with hr | hr
  · rcases List.mem_pair.mp hr with rfl | rfl
    · exact ⟨2, rfl⟩
    · exact ⟨3, rfl⟩
  · obtain ⟨t, ht, rfl⟩ := List.mem_map.mp hr
    obtain ⟨i, -, rfl⟩ := List.mem_mapIdx.mp ht
    exact ⟨_, rfl⟩

namespace Variant

variable {τ : Type} {switches : Switches}

-- The stages that run on the main path are those that are enabled.
theorem filter_stages (v : Variant) (h : switches.isPassthrough = false) :
    ((Emission.all Pass.stage v.blueprint.passes switches).map
        (·.pass.stage)).filter v.family.mainPath.contains = v.mainStages switches := by
  cases v with
  | reference => exact Averaging.filter_stages h
  | sigmaShadow | sigmaShadowTranslucency =>
    refine (Sigma.filter_stages _ h).trans ?_
    simp [mainStages, family, Family.mainPath, Sigma.mainPath, runs, Switches.isEnabled, signals]
  | relaxDiffuse | relaxSpecular | relaxDiffuseSpecular =>
    refine (Relax.filter_stages _ h).trans ?_
    simp [mainStages, family, Family.mainPath, Relax.mainPath, runs, Switches.isEnabled]
  | _ =>
    refine (Reblur.filter_stages _ _ h).trans ?_
    simp [mainStages, family, Family.mainPath, Reblur.mainPath, runs, Switches.isEnabled, signals]

-- A frame takes every signal of a variant along its way. What comes before does not touch it.
theorem carries (v : Variant) (h : switches.isPassthrough = false) {w : Way} (hw : w ∈ v.ways)
    {f : Reference → τ}
    (hf : ∀ i j, f (.pooled (.permanent i)) ≠ f (.pooled (.transient j))) :
    ∃ pre ems, Emission.all Pass.stage v.blueprint.passes switches = pre ++ ems ∧
      (∀ em ∈ pre, v.family.mainPath.contains em.pass.stage = false) ∧
      (w.route v.family.mainPath f).Carries (w.inputs.map fun kind => f (.input kind)) ems := by
  cases v with
  | reference =>
    obtain rfl := List.mem_singleton.mp hw
    exact ⟨[], _, Averaging.all_passes h, by simp, Averaging.carries⟩
  | sigmaShadow | sigmaShadowTranslucency =>
    obtain rfl := List.mem_singleton.mp hw
    refine ⟨_, _, (Sigma.all_passes _ h).trans (List.append_assoc ..), ?_, Sigma.carries _⟩
    intro em hem
    rcases List.mem_pair.mp hem with rfl | rfl <;> rfl
  | relaxDiffuse | relaxSpecular | relaxDiffuseSpecular =>
    obtain ⟨t, ht, hserves⟩ := Relax.exists_serves hw
    refine ⟨[plain switches Relax.classifyTiles], _, Relax.all_passes _ h, ?_, ?_⟩
    · intro em hem
      obtain rfl := List.mem_singleton.mp hem
      rfl
    have hinputs := congrArg (List.map f) hserves.inputs
    rw [List.map_map] at hinputs
    refine hinputs ▸ Relax.carries ht hserves fun r hr => ?_
    obtain ⟨i, rfl⟩ := Relax.permanent_of_mem_copy hr
    obtain ⟨j, -, rfl⟩ := List.mem_mapIdx.mp ht
    exact hf i _
  | _ =>
    obtain ⟨t, ht, hserves⟩ := Reblur.exists_serves hw
    refine ⟨[plain switches Reblur.classifyTiles], _, Reblur.all_passes _ _ h, ?_, ?_⟩
    · intro em hem
      obtain rfl := List.mem_singleton.mp hem
      rfl
    have hinputs := congrArg (List.map f) hserves.inputs
    rw [List.map_map] at hinputs
    exact hinputs ▸ Reblur.carries _ ht hserves

end Variant

-- The slots that a blueprint asks for, and whatever the host provides.
def Blueprint.Provides (b : Blueprint) : Location → Prop
  | .host kind => kind.isPool = false
  | .slot (.permanent i) => i < b.permanent.length
  | .slot (.transient i) => i < b.transient.length

instance (b : Blueprint) : DecidablePred b.Provides
  | .host kind => inferInstanceAs (Decidable (kind.isPool = false))
  | .slot (.permanent i) => inferInstanceAs (Decidable (i < b.permanent.length))
  | .slot (.transient i) => inferInstanceAs (Decidable (i < b.transient.length))

theorem Installed.holds_of_provides {tables : Declarations} {v : Variant} {layout : DenoiserLayout}
    {flipped : Bool} (h : Installed tables v layout flipped) {l : Location}
    (hl : v.blueprint.Provides l) : layout.claims.Holds l := by
  match l with
  | .host kind => exact hl
  | .slot (.permanent i) => exact Nat.lt_of_lt_of_eq hl h.permanentCount.symm
  | .slot (.transient i) => exact Nat.lt_of_lt_of_eq hl h.transientCount.symm

-- No texture carries two signals.
theorem Variant.carriers_apart (v : Variant) (flipped : Bool) :
    ((v.ways.flatMap Way.carriers).map (·.location flipped)).Nodup ∧
      ∀ r ∈ v.ways.flatMap Way.carriers, v.blueprint.Provides (r.location flipped) := by
  cases v <;> cases flipped <;> decide

-- The way of a signal through the dispatches of a denoiser.
def DenoiserState.route (d : DenoiserState) (w : Way) (texture : Reference → ResourceKind × Nat) :
    Route Dispatch (ResourceKind × Nat) where
  main x := x.identifier = d.identifier ∧ x.stage ∈ d.variant.family.mainPath
  reads := Dispatch.reads
  writes := Dispatch.writes
  carriers := w.carriers.map texture
  output := (.output w.output, 0)

-- A frame runs the main path of a denoiser, and takes each of its signals from the inputs of the
-- host to the output of the host, in textures that carry no other signal.
structure Frame.Conveys (frame : Frame) (d : DenoiserState) (switches : Switches)
    (texture : Reference → ResourceKind × Nat) : Prop where
  stages : ((frame.share d.identifier).map Dispatch.stage).filter
    d.variant.family.mainPath.contains = d.variant.mainStages switches
  apart : ((d.variant.ways.flatMap Way.carriers).map texture).Nodup
  leads : ∀ w ∈ d.variant.ways, (d.route w texture).Leads
    (w.inputs.map fun kind => (.input kind, 0)) frame.dispatches

-- Before and after the share of a denoiser there is nothing of it.
theorem Frame.exists_split {frame : Frame} {identifiers : List Identifier}
    (hnodup : identifiers.Nodup) (hordered : frame.dispatches = identifiers.flatMap frame.share)
    {identifier : Identifier} (h : identifier ∈ identifiers) :
    ∃ before after, frame.dispatches = before ++ (frame.share identifier ++ after) ∧
      (∀ x ∈ before, x.identifier ≠ identifier) ∧ ∀ x ∈ after, x.identifier ≠ identifier := by
  obtain ⟨xs, ys, rfl⟩ := List.append_of_mem h
  obtain ⟨-, hys, hdisjoint⟩ := List.nodup_append.mp hnodup
  have hshare {others : List Identifier} {x : Dispatch} (hx : x ∈ others.flatMap frame.share) :
      x.identifier ∈ others := by
    obtain ⟨other, hother, hmem⟩ := List.mem_flatMap.mp hx
    have htag : x.identifier = other := by simpa using (List.mem_filter.mp hmem).2
    exact htag ▸ hother
  refine ⟨xs.flatMap frame.share, ys.flatMap frame.share, ?_, fun x hx heq => ?_, fun x hx heq => ?_⟩
  · rwa [List.flatMap_append, List.flatMap_cons] at hordered
  · exact hdisjoint _ (hshare hx) _ List.mem_cons_self heq
  · exact (List.nodup_cons.mp hys).1 (heq ▸ hshare hx)

namespace DenoiserState

variable (d : DenoiserState) (s : FrameSettings)

theorem isPassthrough_switches :
    (d.switches s).isPassthrough = (Switches.ofSettings s).isPassthrough := by
  rw [switches]
  cases d.settings <;> rfl

theorem emissions_of_denoises (h : (d.switches s).isPassthrough = false) :
    (d.emissions s).map (Emission.map ScheduledPass.pass) =
      clears (d.switches s) d.variant.blueprint.clearing ++
        Emission.all Pass.stage d.variant.blueprint.passes (d.switches s) := by
  rw [map_pass_emissions, all_append_of_clear (fun _ => Blueprint.stage_of_mem_clearing) h]

theorem not_mainPath_of_mem_clears {em : Emission Pass}
    (h : em ∈ clears (d.switches s) d.variant.blueprint.clearing) :
    d.variant.family.mainPath.contains em.pass.stage = false := by
  obtain ⟨pass, hpass, hgated⟩ := List.mem_flatMap.mp h
  obtain ⟨-, rfl⟩ := mem_gated hgated
  have hstage : (plain (d.switches s) pass).pass.stage = .clear :=
    Blueprint.stage_of_mem_clearing hpass
  rw [hstage]
  cases d.variant.family <;> rfl

theorem filter_stages (h : (d.switches s).isPassthrough = false) :
    (((d.emissions s).map (Emission.map ScheduledPass.pass)).map (·.pass.stage)).filter
      d.variant.family.mainPath.contains = d.variant.mainStages (d.switches s) := by
  rw [d.emissions_of_denoises s h, List.map_append, List.filter_append,
    List.filter_eq_nil_iff.mpr, List.nil_append, d.variant.filter_stages h]
  intro stage hstage
  obtain ⟨em, hem, rfl⟩ := List.mem_map.mp hstage
  rw [d.not_mainPath_of_mem_clears s hem]
  exact Bool.false_ne_true

theorem carries {τ : Type} (h : (d.switches s).isPassthrough = false) {w : Way}
    (hw : w ∈ d.variant.ways) {f : Reference → τ}
    (hf : ∀ i j, f (.pooled (.permanent i)) ≠ f (.pooled (.transient j))) :
    ∃ pre ems, (d.emissions s).map (Emission.map ScheduledPass.pass) = pre ++ ems ∧
      (∀ em ∈ pre, d.variant.family.mainPath.contains em.pass.stage = false) ∧
      (w.route d.variant.family.mainPath f).Carries (w.inputs.map fun kind => f (.input kind))
        ems := by
  obtain ⟨pre, ems, hall, hpre, hcarries⟩ := d.variant.carries h hw hf
  refine ⟨clears (d.switches s) d.variant.blueprint.clearing ++ pre, ems, ?_, fun em hem => ?_,
    hcarries⟩
  · rw [d.emissions_of_denoises s h, hall, List.append_assoc]
  · rcases List.mem_append.mp hem with hem | hem
    · exact d.not_mainPath_of_mem_clears s hem
    · exact hpre em hem

end DenoiserState

namespace Planner

variable {p : Planner} {store : ShaderStore} {flipped : Nat → Bool} {frame : Frame} {i : Nat}
  {d : DenoiserState}

-- A share has the traffic of the emissions behind it.
theorem Shares.alike (h : p.Shares store flipped frame i d) (w : Way) :
    List.Forall₂ (Route.Alike
        (w.route d.variant.family.mainPath (d.layout.claims.texture (flipped i)))
        (d.route w (d.layout.claims.texture (flipped i))))
      ((d.emissions p.settings).map (Emission.map ScheduledPass.pass))
      (frame.share d.identifier) := by
  rw [List.forall₂_map_left_iff]
  refine forall₂_of_map_eq h.outlines fun em _ x hx => ⟨?_, ?_, ?_⟩
  · have hidentifier : x.identifier = d.identifier := congrArg Outline.identifier hx
    have hstage : x.stage = em.pass.stage := congrArg Outline.stage hx
    simp [Way.route, DenoiserState.route, hidentifier, hstage, Emission.map, ScheduledPass.stage]
  · exact (reads_of_outline_eq hx).symm
  · exact (writes_of_outline_eq hx).symm

theorem Sound.conveys {policy : MemoryPolicy} {identifiers : List Identifier}
    (h : p.Sound store flipped) (hframe : (p.frame policy identifiers).result = .ok frame)
    (hdenoises : (Switches.ofSettings p.settings).isPassthrough = false)
    (hi : p.denoisers[i]? = some d) (hasked : d.identifier ∈ identifiers) :
    frame.Conveys d (d.switches p.settings) (d.layout.claims.texture (flipped i)) := by
  obtain ⟨hdistinct, hordered, hshares⟩ := h.frame_shares hframe
  obtain ⟨j, e, hid, he⟩ := hshares _ hasked
  obtain rfl := h.roster.distinct j i e d he.denoiser hi hid
  obtain rfl : e = d := Option.some.inj (he.denoiser.symm.trans hi)
  rw [← e.isPassthrough_switches] at hdenoises
  have hinstalled := h.roster.installed j e hi
  refine ⟨?_, ?_, fun w hw => ?_⟩
  · have hstages : (frame.share e.identifier).map Dispatch.stage =
        ((e.emissions p.settings).map (Emission.map ScheduledPass.pass)).map (·.pass.stage) := by
      have houtlines := congrArg (List.map Outline.stage) he.outlines
      rw [List.map_map, List.map_map] at houtlines
      rw [List.map_map]
      exact houtlines
    rw [hstages, e.filter_stages p.settings hdenoises]
  · obtain ⟨hnodup, hprovides⟩ := e.variant.carriers_apart (flipped j)
    refine List.Nodup.map_on (fun r hr r' hr' heq => ?_) (List.Nodup.of_map _ hnodup)
    refine List.inj_on_of_nodup_map hnodup hr hr' (Claims.place_inj hinstalled.nodup ?_ ?_ heq)
    · exact hinstalled.holds_of_provides (hprovides r hr)
    · exact hinstalled.holds_of_provides (hprovides r' hr')
  · obtain ⟨before, after, hsplit, hbefore, hafter⟩ :=
      Frame.exists_split hdistinct hordered hasked
    have hapart (m n : Nat) : e.layout.claims.texture (flipped j) (.pooled (.permanent m)) ≠
        e.layout.claims.texture (flipped j) (.pooled (.transient n)) := by
      simp [Claims.texture, Reference.location, Claims.place]
    obtain ⟨pre, ems, hems, hpre, hcarries⟩ := e.carries p.settings hdenoises hw hapart
    rw [hsplit]
    exact hcarries.leads_of_alike rfl rfl (fun em hem => Bool.eq_false_iff.mp (hpre em hem))
      (hems ▸ he.alike w) (fun x hx hmain => hbefore x hx hmain.1)
      fun x hx hmain => hafter x hx hmain.1

-- Whatever was asked of a planner before, and whatever optional stages a frame leaves out, each
-- signal goes from stage to stage without a gap.
theorem Reachable.frame_conveys {denoisers : List (Identifier × Variant)} {policy : MemoryPolicy}
    {identifiers : List Identifier} (h : Reachable denoisers store p)
    (hframe : (p.frame policy identifiers).result = .ok frame)
    (hdenoises : (Switches.ofSettings p.settings).isPassthrough = false) :
    ∀ d ∈ p.denoisers, d.identifier ∈ identifiers →
      ∃ flipped, frame.Conveys d (d.switches p.settings) (d.layout.claims.texture flipped) := by
  intro d hd hasked
  obtain ⟨flipped, hsound⟩ := h.sound
  obtain ⟨i, hi⟩ := Array.getElem?_of_mem hd
  exact ⟨flipped i, hsound.conveys hframe hdenoises hi hasked⟩

-- A shadow that is not stabilized, after an average.
theorem exists_frame_unstabilized : ∃ p frame, ∃ d ∈ p.denoisers,
    Reachable shadowAndReference (fun _ _ => none) p ∧
      (p.frame (.atMost none) [⟨3⟩, ⟨7⟩]).result = .ok frame ∧ p.settings = {} ∧
      d.identifier = ⟨7⟩ ∧ d.variant = .sigmaShadow ∧
      d.settings = .sigma { maxStabilized := 0 } := by
  obtain ⟨p, -, hcreate, -⟩ := exists_frame_shadowAndReference
  obtain ⟨hsound, -, -, hsettings⟩ := create_ok hcreate
  obtain ⟨d, hd, hid, hvariant, -⟩ := exists_denoiser hcreate List.mem_cons_self
  obtain ⟨e, he, hid', -⟩ :=
    exists_denoiser hcreate (List.mem_cons_of_mem _ (List.mem_singleton_self _))
  obtain ⟨i, hi⟩ := Array.getElem?_of_mem hd
  obtain ⟨j, hj⟩ := Array.getElem?_of_mem he
  obtain ⟨q, hset, hsame, hdenoisers⟩ := hsound.exists_setDenoiserSettings hi
    (s := .sigma { maxStabilized := 0 }) (by rw [hvariant]; rfl) (by decide +kernel)
  have hne : i ≠ j := by
    rintro rfl
    obtain rfl := Option.some.inj (hi.symm.trans hj)
    rw [hid] at hid'
    cases hid'
  have hi' : q.denoisers[i]? = some { d with settings := .sigma { maxStabilized := 0 } } := by
    rw [hdenoisers, Array.getElem?_modify, if_pos rfl, hi]
    rfl
  have hj' : q.denoisers[j]? = some e := by
    rw [hdenoisers, Array.getElem?_modify, if_neg hne, hj]
  have hmembers : q.Members [(j, e), (i, { d with settings := .sigma { maxStabilized := 0 } })] :=
    .of_identifiers (by simp [hi', hj']) (by simp [hid, hid'])
  have hsound' := hsound.setDenoiserSettings hset
  obtain ⟨frame, hframe⟩ := hsound'.exists_frame .unlimited (hsound'.positions_eq hmembers)
  simp only [List.map_cons, List.map_nil, hid, hid'] at hframe
  exact ⟨q, frame, _, Array.mem_of_getElem? hi', .setDenoiserSettings _ _ (.created hcreate) hset,
    hframe, hsame.trans hsettings, hid, hvariant, rfl⟩

theorem Reachable.frame_conveys_unstabilized :
    ∃ p frame, Reachable shadowAndReference (fun _ _ => none) p ∧
      (p.frame (.atMost none) [⟨3⟩, ⟨7⟩]).result = .ok frame ∧
      (Switches.ofSettings p.settings).isPassthrough = false ∧
      ((frame.share ⟨7⟩).map Dispatch.stage).filter Family.sigma.mainPath.contains =
        [.blur, .postBlur] ∧
      ∀ d ∈ p.denoisers, d.identifier ∈ [⟨3⟩, ⟨7⟩] →
        ∃ flipped, frame.Conveys d (d.switches p.settings) (d.layout.claims.texture flipped) := by
  obtain ⟨p, frame, d, hd, hreachable, hframe, hsettings, hid, hvariant, hunstabilized⟩ :=
    exists_frame_unstabilized
  have hdenoises : (Switches.ofSettings p.settings).isPassthrough = false := by
    rw [hsettings]
    decide +kernel
  have hconveys := frame_conveys hreachable hframe hdenoises
  obtain ⟨flipped, hstages, -, -⟩ := hconveys d hd (by simp [hid])
  refine ⟨p, frame, hreachable, hframe, hdenoises, ?_, hconveys⟩
  rw [hid, hvariant, DenoiserState.switches, hunstabilized, hsettings] at hstages
  exact hstages

end Planner

end DenoisePlanner
