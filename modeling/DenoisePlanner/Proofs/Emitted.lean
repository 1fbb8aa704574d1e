import DenoisePlanner.Proofs.Flow

namespace DenoisePlanner

namespace Emission

variable {α : Type} {stage : α → Stage} {passes : List α} {switches : Switches} {e : Emission α}
  {pass : α}

theorem ofPass_of_clear (h : stage pass = .clear) :
    ofPass stage passes switches pass =
      if switches.clear then [⟨pass, switches.holds, none⟩] else [] := by
  unfold ofPass
  rw [h]
  rfl

-- No pass but a clear comes to a clear.
theorem stage_ne_clear_of_mem_ofPass (hpass : stage pass ≠ .clear)
    (h : e ∈ ofPass stage passes switches pass) : stage e.pass ≠ .clear := by
  unfold ofPass at h
  split at h
  · cases h
  · cases h
  · rename_i hfirst
    obtain ⟨i, -, hsome⟩ := List.mem_filterMap.mp h
    obtain ⟨step, hstep, rfl⟩ := Option.map_eq_some_iff.mp hsome
    unfold atrousPass? at hstep
    split at hstep
    · obtain rfl := Option.some.inj hstep
      exact hpass
    · have hstage : stage step = if i + 1 = switches.atrousCount then .atrousLast else .atrous := by
        simpa using List.find?_some hstep
      rw [hstage]
      split <;> decide
  · split at h
    · exact List.mem_singleton.mp h ▸ hpass
    · cases h

end Emission

-- The stages that no frame leaves out if it denoises.
def Stage.isRegular : Stage → Bool
  | .classifyTiles | .smoothTiles | .temporalAccumulation | .historyFix | .blur | .postBlur
  | .historyClamping | .copy => true
  | _ => false

theorem Switches.isEnabled_of_isRegular (switches : Switches) {stage : Stage}
    (h : stage.isRegular = true) : stage.isAtrous = false ∧ switches.isEnabled stage = true := by
  cases stage <;> first | exact ⟨rfl, rfl⟩ | cases h

theorem Emission.ofPass_of_enabled {α : Type} {stage : α → Stage} {passes : List α}
    {switches : Switches} {pass : α} (hatrous : (stage pass).isAtrous = false)
    (henabled : switches.isEnabled (stage pass) = true) :
    ofPass stage passes switches pass = [⟨pass, switches.holds, none⟩] := by
  unfold ofPass
  split
  · simp_all [Stage.isAtrous]
  · simp_all [Stage.isAtrous]
  · simp_all [Stage.isAtrous]
  · exact if_pos henabled

-- The clears of the permanent textures as they are scheduled.
def Blueprint.wipes (b : Blueprint) : List ScheduledPass :=
  b.permanent.mapIdx fun i texture => .clear (.permanent i) texture

theorem Blueprint.stage_of_mem_wipes {b : Blueprint} {e : ScheduledPass} (he : e ∈ b.wipes) :
    e.stage = .clear := by
  obtain ⟨i, -, rfl⟩ := List.mem_mapIdx.mp he
  rfl

theorem Blueprint.pass_mem_of_mem_schedule {b : Blueprint} {e : ScheduledPass}
    (he : e ∈ b.schedule) (hstage : e.stage ≠ .clear) : e.pass ∈ b.passes := by
  rcases List.mem_append.mp he with he | he
  · exact absurd (stage_of_mem_wipes he) hstage
  · obtain ⟨pass, hpass, rfl⟩ := List.mem_map.mp he
    exact hpass

theorem Variant.stage_ne_clear (v : Variant) : ∀ pass ∈ v.blueprint.passes, pass.stage ≠ .clear := by
  cases v <;> decide

theorem Variant.exists_clear (v : Variant) {e : ScheduledPass} (he : e ∈ v.blueprint.schedule)
    (hstage : e.stage = .clear) : ∃ k texture, e = .clear (.permanent k) texture := by
  rcases List.mem_append.mp he with he | he
  · obtain ⟨k, -, rfl⟩ := List.mem_mapIdx.mp he
    exact ⟨k, _, rfl⟩
  · obtain ⟨pass, hpass, rfl⟩ := List.mem_map.mp he
    exact absurd hstage (v.stage_ne_clear pass hpass)

namespace DenoiserState

variable {d : DenoiserState} {s : FrameSettings}

theorem emissions_eq_flatMap (h : d.moves s = true) :
    d.emissions s = d.variant.blueprint.schedule.flatMap
      (Emission.ofPass ScheduledPass.stage d.variant.blueprint.schedule (d.switches s)) := by
  have hdenoises : (d.switches s).isPassthrough = false := by simpa [moves] using h
  rw [emissions, Emission.all, hdenoises]
  rfl

-- What is enabled is emitted, and only that.
theorem mem_emissions_of_enabled (h : d.moves s = true) {pass : Pass}
    (hpass : pass ∈ d.variant.blueprint.passes) (hatrous : pass.stage.isAtrous = false)
    (henabled : (d.switches s).isEnabled pass.stage = true) :
    ⟨⟨pass, d.variant.blueprint.defines⟩, (d.switches s).holds, none⟩ ∈ d.emissions s := by
  rw [emissions_eq_flatMap h]
  refine List.mem_flatMap.mpr ⟨_, List.mem_append_right _ (List.mem_map_of_mem hpass), ?_⟩
  have hstage : ScheduledPass.stage ⟨pass, d.variant.blueprint.defines⟩ = pass.stage := rfl
  rw [Emission.ofPass_of_enabled (hstage ▸ hatrous) (hstage ▸ henabled)]
  exact List.mem_singleton_self _

theorem isEnabled_of_mem_emissions (h : d.moves s = true) {em : Emission ScheduledPass}
    (hem : em ∈ d.emissions s) (hatrous : em.pass.stage.isAtrous = false) :
    (d.switches s).isEnabled em.pass.stage = true := by
  have hdenoises : (d.switches s).isPassthrough = false := by simpa [moves] using h
  obtain ⟨-, -, hruns⟩ := Emission.of_mem_all hdenoises hem
  cases hstep : em.atrous with
  | none =>
    rw [hstep] at hruns
    exact hruns.2
  | some step =>
    rw [hstep] at hruns
    rw [hruns.2.2] at hatrous
    split at hatrous
    · cases hatrous
    · split at hatrous <;> cases hatrous

-- A stage is emitted if the denoiser has a pass for it and the frame enables it.
theorem exists_emission_iff (h : d.moves s = true) {stage : Stage}
    (hstage : stage.isAtrous = false ∧ stage ≠ .clear) :
    (∃ em ∈ d.emissions s, em.pass.stage = stage) ↔
      (∃ pass ∈ d.variant.blueprint.passes, pass.stage = stage) ∧
        (d.switches s).isEnabled stage = true := by
  constructor
  · rintro ⟨em, hem, rfl⟩
    have hpass := Blueprint.pass_mem_of_mem_schedule (Emission.pass_mem_of_mem_all hem) hstage.2
    exact ⟨⟨em.pass.pass, hpass, rfl⟩, isEnabled_of_mem_emissions h hem hstage.1⟩
  · rintro ⟨⟨pass, hpass, rfl⟩, henabled⟩
    exact ⟨_, mem_emissions_of_enabled h hpass hstage.1 henabled, rfl⟩

-- What is emitted for the clear of one texture.
def wipe (d : DenoiserState) (s : FrameSettings) (k : Nat) (texture : Texture) :
    Emission ScheduledPass :=
  ⟨.clear (.permanent k) texture, (d.switches s).holds, none⟩

-- A frame that denoises begins with the clears, if there are any.
theorem exists_emissions_eq (h : d.moves s = true) :
    ∃ rest, d.emissions s =
        (if d.isCleared s then d.variant.blueprint.permanent.mapIdx (d.wipe s) else []) ++ rest ∧
      ∀ em ∈ rest, em.pass.stage ≠ .clear := by
  have hall := emissions_eq_flatMap h
  rw [Blueprint.schedule, List.flatMap_append] at hall
  refine ⟨_, hall.trans (congrArg (· ++ _) ?_), fun em hem => ?_⟩
  · change d.variant.blueprint.wipes.flatMap _ = _
    rw [List.flatMap_congr fun pass hpass =>
      Emission.ofPass_of_clear (Blueprint.stage_of_mem_wipes hpass)]
    change _ = if (d.switches s).clear then _ else _
    cases (d.switches s).clear with
    | true =>
      refine (List.flatMap_pure_eq_map ..).trans (List.ext_getElem? fun k => ?_)
      rw [Blueprint.wipes, List.getElem?_map, List.getElem?_mapIdx, Option.map_map, if_pos rfl,
        List.getElem?_mapIdx]
      rfl
    | false => simp
  · obtain ⟨pass, hpass, hem⟩ := List.mem_flatMap.mp hem
    obtain ⟨pass', hpass', rfl⟩ := List.mem_map.mp hpass
    have hstage : ScheduledPass.stage ⟨pass', d.variant.blueprint.defines⟩ ≠ .clear :=
      d.variant.stage_ne_clear pass' hpass'
    exact Emission.stage_ne_clear_of_mem_ofPass hstage hem

-- A frame that shows nothing but inputs has no clears.
theorem stage_of_not_moves (h : d.moves s = false) :
    ∀ em ∈ d.emissions s, em.pass.stage = .splitScreen := by
  intro em hem
  have hpassthrough : (d.switches s).isPassthrough = true := by simpa [moves] using h
  rw [emissions, Emission.all, hpassthrough, if_pos rfl] at hem
  obtain ⟨pass, hfind, rfl⟩ := Option.map_eq_some_iff.mp (Option.mem_toList.mp hem)
  simpa using List.find?_some hfind

theorem exists_clear_iff :
    (∃ em ∈ d.emissions s, em.pass.stage = .clear) ↔ d.moves s = true ∧ d.isCleared s = true := by
  cases hmoves : d.moves s with
  | false =>
    refine iff_of_false (fun ⟨em, hem, hstage⟩ => ?_) (by simp)
    rw [stage_of_not_moves hmoves em hem] at hstage
    cases hstage
  | true =>
    obtain ⟨rest, hemissions, hrest⟩ := exists_emissions_eq hmoves
    rw [hemissions]
    cases hcleared : d.isCleared s with
    | false =>
      refine iff_of_false (fun ⟨em, hem, hstage⟩ => ?_) (by simp)
      exact hrest em (by simpa using hem) hstage
    | true =>
      have hfirst := d.variant.permanent_pos
      refine iff_of_true ⟨d.wipe s 0 d.variant.blueprint.permanent[0], ?_, rfl⟩ ⟨rfl, rfl⟩
      exact List.mem_append_left _ (List.mem_mapIdx.mpr ⟨0, hfirst, rfl⟩)

end DenoiserState

end DenoisePlanner
