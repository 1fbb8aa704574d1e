import DenoisePlanner.Proofs.Phase
import DenoisePlanner.Proofs.Scenes

namespace DenoisePlanner

-- The two sides of a pair are different textures of the denoiser.
theorem Variant.swapping_apart (v : Variant) : ∀ e ∈ v.blueprint.schedule,
    ∀ s ∈ Specialization.all e.pass.conditions, ∀ r ∈ (e.pass.bindings s).inputs,
      r.isSwapping = true → r.location false ≠ r.location true ∧
        v.blueprint.Provides (r.location false) ∧ v.blueprint.Provides (r.location true) := by
  cases v <;> decide +kernel

-- Stabilization writes the current side of every pair of which some pass reads the previous one.
theorem Variant.opposite_mem_stabilized (v : Variant) : ∀ e ∈ v.blueprint.schedule,
    ∀ s ∈ Specialization.all e.pass.conditions, ∀ r ∈ (e.pass.bindings s).inputs,
      r.isSwapping = true → ∀ e' ∈ v.blueprint.schedule, e'.stage = .temporalStabilization →
        ∀ s' ∈ Specialization.all e'.pass.conditions, r.opposite ∈ (e'.pass.bindings s').outputs := by
  cases v <;> decide +kernel

namespace Planner

variable {p : Planner} {store : ShaderStore} {d : DenoiserState} {s s' : Standing} {t t' : Turn}
  {em : Emission ScheduledPass} {x y : Dispatch} {r : Reference} {texture : ResourceKind × Nat}

-- Where a pair is read in one turn, its two sides are apart.
theorem Takes.texture_inj (h : p.Takes store d s t) (hx : t.Emits em x)
    (hr : r ∈ em.bindings.inputs) (hswapping : r.isSwapping = true) {f g : Bool} :
    d.layout.claims.texture f r = d.layout.claims.texture g r ↔ f = g := by
  obtain ⟨tables, hinstalled⟩ := h.installed
  obtain ⟨hne, hfirst, hsecond⟩ := d.variant.swapping_apart em.pass (h.pass_mem hx)
    em.specialization (Specialization.select_mem_all _ em.active) r hr hswapping
  refine ⟨fun heq => ?_, congrArg fun f => d.layout.claims.texture f r⟩
  have hprovides (f : Bool) : d.variant.blueprint.Provides (r.location f) := by
    cases f
    · exact hfirst
    · exact hsecond
  have hlocation := Claims.place_inj hinstalled.nodup (hinstalled.holds_of_provides (hprovides f))
    (hinstalled.holds_of_provides (hprovides g)) heq
  cases f <;> cases g <;> simp_all

-- Stabilization runs where the variant has it and the settings ask for it.
theorem Takes.exists_stabilization_iff (h : p.Takes store d s t) :
    (∃ y ∈ t.dispatches, y.stage = .temporalStabilization) ↔ t.denoises = true ∧
      (∃ pass ∈ d.variant.blueprint.passes, pass.stage = .temporalStabilization) ∧
      (t.denoiser.switches t.settings).temporalStabilization = true := by
  have hstage : Stage.temporalStabilization.isAtrous = false ∧
      Stage.temporalStabilization ≠ .clear := ⟨rfl, by decide⟩
  rw [h.exists_stage_iff, ← h.variant]
  constructor
  · intro hemitted
    have hdenoises : t.denoises = true := by
      obtain ⟨em, hem, hem'⟩ := hemitted
      obtain ⟨y, -, hy⟩ := h.exists_dispatch hem
      exact Turn.denoises_of_stage_ne hy (by rw [hem']; decide)
    exact ⟨hdenoises, (DenoiserState.exists_emission_iff hdenoises hstage).mp hemitted⟩
  · rintro ⟨hdenoises, hruns⟩
    exact (DenoiserState.exists_emission_iff hdenoises hstage).mpr hruns

-- What one turn reads of a stabilized pair is what the other wrote to it, or the other side of the
-- pair, as the phases of the two turns have it.
theorem Takes.binds_opposite_iff (h : p.Takes store d s t) (h' : p.Takes store d s' t')
    (hy : y ∈ t.dispatches) (hstage : y.stage = .temporalStabilization)
    (hread : t'.Binds x .read r texture) (hswapping : r.isSwapping = true) :
    t.Binds y .write r.opposite texture ↔ s'.flipped = !s.flipped := by
  obtain ⟨em, hx, rfl, hr⟩ := h'.binds_iff.mp hread
  obtain ⟨em', -, hy⟩ := h.exists_emission hy
  have hopposite {e : Emission ScheduledPass} (he : t.Emits e y) : r.opposite ∈ e.bindings.outputs :=
    d.variant.opposite_mem_stabilized em.pass (h'.pass_mem hx) em.specialization
      (Specialization.select_mem_all _ em.active) r hr hswapping e.pass (h.pass_mem he)
      ((h.stage_eq he).symm.trans hstage) e.specialization (Specialization.select_mem_all _ e.active)
  have hsame := h'.texture_inj (f := !s.flipped) (g := s'.flipped) hx hr hswapping
  rw [h.binds_iff]
  constructor
  · rintro ⟨e, he, heq, -⟩
    rw [Claims.texture_opposite] at heq
    exact (hsame.mp heq).symm
  · intro hphase
    exact ⟨em', hy, (d.layout.claims.texture_opposite ..).trans (hsame.mpr hphase.symm), hopposite hy⟩

-- What a frame reads of a stabilized pair is what an earlier one stabilized if and only if an even
-- number of frames has denoised in between. The last one to have stabilized is no exception.
theorem binds_stabilized_iff {denoisers : List (Identifier × Variant)} {requests : List Request}
    (hcreate : (create denoisers store).result = .ok p) (hlasts : p.Lasts requests)
    (hd : d ∈ p.denoisers) {older between later : List Turn} {now : Turn}
    (hturns : p.turns d.identifier requests = older ++ t :: (between ++ now :: later))
    (hy : y ∈ t.dispatches) (hstage : y.stage = .temporalStabilization)
    (hread : now.Binds x .read r texture) (hswapping : r.isSwapping = true) :
    t.Binds y .write r.opposite texture ↔ Even (between.countP Turn.denoises) := by
  have h := takes_of_turns_eq hcreate hlasts hd hturns
  have hsplit : p.turns d.identifier requests = (older ++ t :: between) ++ now :: later := by
    simpa using hturns
  have h' := takes_of_turns_eq hcreate hlasts hd hsplit
  have hdenoises := (h.exists_stabilization_iff.mp ⟨y, hy, hstage⟩).1
  rw [h.binds_opposite_iff h' hy hstage hread hswapping, List.foldl_append, List.foldl_cons,
    Standing.next_of_denoises _ hdenoises, Standing.flipped_foldl]
  split <;> simp [*]

end Planner

-- Stabilization is switched off for one frame.
def pausing : List Request :=
  [⟨.frame [⟨7⟩], .atMost none⟩,
    ⟨.setDenoiserSettings ⟨7⟩ (.sigma { maxStabilized := 0 }), .atMost none⟩,
    ⟨.frame [⟨7⟩], .atMost none⟩,
    ⟨.setDenoiserSettings ⟨7⟩ (.sigma {}), .atMost none⟩,
    ⟨.frame [⟨7⟩], .atMost none⟩]

namespace Planner

theorem exists_pausing : ∃ p, ∃ d ∈ p.denoisers, ∃ t u now : Turn,
    (create shadowAndReference fun _ _ => none).result = .ok p ∧ p.Lasts pausing ∧
      p.turns d.identifier pausing = [t, u, now] ∧
      (∃ y ∈ t.dispatches, y.stage = .temporalStabilization) ∧
      (∀ z ∈ u.dispatches, z.stage ≠ .temporalStabilization) ∧ u.denoises = true ∧
      ∃ x texture, now.Binds x .read Sigma.historyPrev texture := by
  obtain ⟨p, -, hcreate, -⟩ := exists_frame_shadowAndReference
  obtain ⟨d, hd, hid, hvariant, hsettings, -⟩ := exists_denoiser hcreate (List.mem_cons_self ..)
  obtain ⟨i, h⟩ := stands_of_create hcreate hd
  have hsolo : ∀ request ∈ pausing, request.Solo d.identifier := by
    simp [pausing, Request.Solo, MemoryPolicy.Grants.unlimited, hid]
  obtain ⟨hlasts, hscenes⟩ := h.scenes hsolo
  have hoff : (DenoiserSettings.sigma { maxStabilized := 0 }).validate = .ok () := by decide +kernel
  have hon : (DenoiserSettings.sigma {}).validate = .ok () := by decide +kernel
  have hsettings : (p.turns d.identifier pausing).map (fun t => (t.settings, t.denoiser.settings)) =
      [({}, .sigma {}), ({}, .sigma { maxStabilized := 0 }), ({}, .sigma {})] := by
    have hpairs := congrArg (List.map fun scene => (scene.1, scene.2.settings)) hscenes
    rw [List.map_map, (create_ok hcreate).2.2.2] at hpairs
    refine hpairs.trans ?_
    simp [pausing, DenoiserState.scenes, DenoiserState.after, DenoiserState.next, Call.settings,
      DenoiserState.configure, DenoiserState.advance, DenoiserState.moves_default, hid, hoff, hon,
      hvariant, hsettings, Variant.family, DenoiserSettings.family, DenoiserSettings.ofFamily]
  obtain ⟨t, rest, hturns, ht, hrest⟩ := List.map_eq_cons_iff.mp hsettings
  obtain ⟨u, rest, rfl, hu, hrest⟩ := List.map_eq_cons_iff.mp hrest
  obtain ⟨now, rest, rfl, hnow, hrest⟩ := List.map_eq_cons_iff.mp hrest
  obtain rfl := List.map_eq_nil_iff.mp hrest
  have ht' : p.Takes _ d _ t :=
    takes_of_turns_eq hcreate hlasts hd (show _ = [] ++ t :: [u, now] from hturns)
  have hu' : p.Takes _ d _ u :=
    takes_of_turns_eq hcreate hlasts hd (show _ = [t] ++ u :: [now] from hturns)
  have hnow' : p.Takes _ d _ now :=
    takes_of_turns_eq hcreate hlasts hd (show _ = [t, u] ++ now :: [] from hturns)
  have hdenoises {t : Turn} {s : DenoiserSettings} (h : (t.settings, t.denoiser.settings) = ({}, s)) :
      t.denoises = true := by
    rw [Turn.denoises, (Prod.mk.inj h).1]
    exact t.denoiser.moves_default
  have hswitch {t : Turn} {s : SigmaSettings} (h : (t.settings, t.denoiser.settings) = ({}, .sigma s)) :
      (t.denoiser.switches t.settings).temporalStabilization = decide (0 < s.maxStabilized) := by
    rw [DenoiserState.switches, (Prod.mk.inj h).2]
    rfl
  have hpass : Sigma.temporalStabilization ∈ d.variant.blueprint.passes := by
    rw [hvariant]
    simp [Variant.blueprint, Variant.family, Sigma.blueprint, Sigma.passes]
  refine ⟨p, d, hd, t, u, now, hcreate, hlasts, hturns, ?_, ?_, hdenoises hu, ?_⟩
  · exact ht'.exists_stabilization_iff.mpr ⟨hdenoises ht, ⟨_, hpass, rfl⟩, hswitch ht⟩
  · intro z hz hstage
    have hswitched := (hu'.exists_stabilization_iff.mp ⟨z, hz, hstage⟩).2.2
    rw [hswitch hu] at hswitched
    cases hswitched
  · have hswitched : (now.denoiser.switches now.settings).isEnabled .temporalStabilization = true :=
      hswitch hnow
    obtain ⟨x, -, hx⟩ := hnow'.exists_dispatch
      (DenoiserState.mem_emissions_of_enabled (hdenoises hnow) (hnow'.variant ▸ hpass) rfl hswitched)
    refine ⟨x, _, hnow'.binds_iff.mpr ⟨_, hx, rfl, ?_⟩⟩
    simp [Emission.bindings, Sigma.temporalStabilization]

theorem binds_stabilized_iff_pausing : ∃ p, ∃ d ∈ p.denoisers, ∃ (t u now : Turn) (y x : Dispatch)
    (texture : ResourceKind × Nat),
    (create shadowAndReference fun _ _ => none).result = .ok p ∧ p.Lasts pausing ∧
      p.turns d.identifier pausing = [] ++ t :: ([u] ++ now :: []) ∧
      y ∈ t.dispatches ∧ y.stage = .temporalStabilization ∧
      now.Binds x .read Sigma.historyPrev texture ∧ Sigma.historyPrev.isSwapping = true ∧
      (t.Binds y .write Sigma.historyPrev.opposite texture ↔ Even ([u].countP Turn.denoises)) := by
  obtain ⟨p, d, hd, t, u, now, hcreate, hlasts, hturns, ⟨y, hy, hstage⟩, -, -, x, texture, hread⟩ :=
    exists_pausing
  have hsplit : p.turns d.identifier pausing = [] ++ t :: ([u] ++ now :: []) := hturns
  exact ⟨p, d, hd, t, u, now, y, x, texture, hcreate, hlasts, hsplit, hy, hstage, hread, rfl,
    binds_stabilized_iff hcreate hlasts hd hsplit hy hstage hread rfl⟩

-- After one frame without stabilization, the next reads a texture that was not stabilized.
theorem exists_missed_history : ∃ p, ∃ d ∈ p.denoisers, ∃ (t u now : Turn) (y x : Dispatch)
    (texture : ResourceKind × Nat),
    (create shadowAndReference fun _ _ => none).result = .ok p ∧ p.Lasts pausing ∧
      p.turns d.identifier pausing = [t, u, now] ∧
      y ∈ t.dispatches ∧ y.stage = .temporalStabilization ∧
      (∀ z ∈ u.dispatches, z.stage ≠ .temporalStabilization) ∧
      now.Binds x .read Sigma.historyPrev texture ∧ ¬t.Binds y .write Sigma.history texture := by
  obtain ⟨p, d, hd, t, u, now, hcreate, hlasts, hturns, ⟨y, hy, hstage⟩, hpaused, hdenoises, x,
    texture, hread⟩ := exists_pausing
  have ht : p.Takes _ d _ t :=
    takes_of_turns_eq hcreate hlasts hd (show _ = [] ++ t :: [u, now] from hturns)
  have hnow : p.Takes _ d _ now :=
    takes_of_turns_eq hcreate hlasts hd (show _ = [t, u] ++ now :: [] from hturns)
  have hstabilized := (ht.exists_stabilization_iff.mp ⟨y, hy, hstage⟩).1
  refine ⟨p, d, hd, t, u, now, y, x, texture, hcreate, hlasts, hturns, hy, hstage, hpaused, hread,
    fun hwrite => ?_⟩
  have hphase := (ht.binds_opposite_iff hnow hy hstage hread rfl).mp hwrite
  simp [Standing.next_of_denoises, hstabilized, hdenoises, Standing.fresh] at hphase

end Planner

end DenoisePlanner
