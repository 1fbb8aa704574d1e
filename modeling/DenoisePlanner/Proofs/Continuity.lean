import DenoisePlanner.Proofs.Phase
import DenoisePlanner.Proofs.Scenes

namespace DenoisePlanner

namespace Pass

-- What a pass does under whatever conditions.
def ignores (pass : Pass) (r : Reference) : Bool :=
  (Specialization.all pass.conditions).all fun s => !(pass.bindings s).inputs.contains r

def fills (pass : Pass) (r : Reference) : Bool :=
  pass.stage.isRegular &&
    (Specialization.all pass.conditions).all fun s => (pass.bindings s).outputs.contains r

-- The texture is filled before anyone reads it.
def introduce (r : Reference) : List Pass → Bool
  | [] => false
  | pass :: passes =>
    pass.ignores r && (pass.fills r || (!pass.stage.isAtrous && introduce r passes))

theorem exists_of_introduce {r : Reference} {passes : List Pass} (h : introduce r passes = true) :
    ∃ pre first post, passes = pre ++ first :: post ∧ first.fills r = true ∧
      first.ignores r = true ∧ ∀ pass ∈ pre, pass.ignores r = true ∧ pass.stage.isAtrous = false := by
  induction passes with
  | nil => cases h
  | cons pass passes ih =>
    simp only [introduce, Bool.and_eq_true, Bool.or_eq_true, Bool.not_eq_true'] at h
    obtain ⟨hignores, hfills | ⟨hatrous, hrest⟩⟩ := h
    · exact ⟨[], pass, passes, rfl, hfills, hignores, by simp⟩
    · obtain ⟨pre, first, post, rfl, hfills, hfirst, hpre⟩ := ih hrest
      refine ⟨pass :: pre, first, post, rfl, hfills, hfirst, fun other hother => ?_⟩
      rcases List.mem_cons.mp hother with rfl | hother
      · exact ⟨hignores, hatrous⟩
      · exact hpre other hother

end Pass

namespace Variant

-- The slots of the stabilized history.
def stabilized (v : Variant) : List Slot :=
  match v.family with
  | .reblur => (Reblur.textures v.signals).flatMap fun t =>
      (t.stabilized.map fun (ping, pong) => [ping, pong]).getD []
  | .sigma => [.permanent 0, .permanent 1]
  | _ => []

-- A permanent texture that is read is stabilized, or every frame fills it: in its other role, for
-- the frame after it, or before anyone reads it.
theorem accounts (v : Variant) (flipped : Bool) : ∀ pass ∈ v.blueprint.passes,
    ∀ s ∈ Specialization.all pass.conditions, ∀ r ∈ (pass.bindings s).inputs,
      ∀ k ∈ (r.location flipped).permanent?, .permanent k ∈ v.stabilized ∨
        (∃ other ∈ v.blueprint.passes, other.fills r.opposite = true) ∨
        Pass.introduce r v.blueprint.passes = true := by
  cases v <;> cases flipped <;> decide +kernel

end Variant

namespace Emission

variable {α : Type} {stage : α → Stage} {passes : List α} {switches : Switches} {e : Emission α}
  {pass : α}

theorem pass_eq_of_mem_ofPass (hatrous : (stage pass).isAtrous = false)
    (h : e ∈ ofPass stage passes switches pass) : e.pass = pass := by
  unfold ofPass at h
  split at h
  · cases h
  · cases h
  · simp_all [Stage.isAtrous]
  · split at h
    · rw [List.mem_singleton.mp h]
    · cases h

variable {em : Emission ScheduledPass} {r : Reference}

theorem not_mem_inputs_of_ignores (h : em.pass.pass.ignores r = true) : r ∉ em.bindings.inputs := by
  have hselect := List.all_eq_true.mp h _ (Specialization.select_mem_all _ em.active)
  simpa [bindings, specialization] using hselect

theorem mem_outputs_of_fills (h : em.pass.pass.fills r = true) : r ∈ em.bindings.outputs := by
  obtain ⟨-, hfills⟩ := Bool.and_eq_true_iff.mp h
  have hselect := List.all_eq_true.mp hfills _ (Specialization.select_mem_all _ em.active)
  simpa [bindings, specialization] using hselect

end Emission

namespace DenoiserState

variable {d : DenoiserState} {s : FrameSettings} {r : Reference}

-- So it is among the emissions of a frame.
theorem exists_opening (h : d.moves s = true)
    (hr : Pass.introduce r d.variant.blueprint.passes = true) :
    ∃ pre first post, d.emissions s = pre ++ first :: post ∧ first.pass.pass.fills r = true ∧
      ∀ em ∈ pre ++ [first], r ∉ em.bindings.inputs := by
  obtain ⟨pre, first, post, hpasses, hfills, hignores, hpre⟩ := Pass.exists_of_introduce hr
  obtain ⟨hatrous, henabled⟩ :=
    (d.switches s).isEnabled_of_isRegular (Bool.and_eq_true_iff.mp hfills).1
  let scheduled (pass : Pass) : ScheduledPass := ⟨pass, d.variant.blueprint.defines⟩
  have hfirst : (Emission.ofPass ScheduledPass.stage d.variant.blueprint.schedule (d.switches s))
      (scheduled first) = [⟨scheduled first, (d.switches s).holds, none⟩] :=
    Emission.ofPass_of_enabled hatrous henabled
  have hschedule : d.variant.blueprint.schedule =
      (d.variant.blueprint.wipes ++ pre.map scheduled) ++ scheduled first :: post.map scheduled := by
    rw [Blueprint.schedule, hpasses]
    simp [Blueprint.wipes, scheduled]
  have hall := emissions_eq_flatMap h
  rw [congrArg (List.flatMap _) hschedule, List.flatMap_append, List.flatMap_cons, hfirst] at hall
  refine ⟨_, _, _, hall, hfills, fun em hem => ?_⟩
  rcases List.mem_append.mp hem with hem | hem
  · obtain ⟨e, he, hem⟩ := List.mem_flatMap.mp hem
    rcases List.mem_append.mp he with he | he
    · obtain ⟨i, hi, rfl⟩ := List.mem_mapIdx.mp he
      have heq : em.pass = .clear (.permanent i) d.variant.blueprint.permanent[i] :=
        Emission.pass_eq_of_mem_ofPass rfl hem
      simp [Emission.bindings, heq, ScheduledPass.clear, Pass.clear]
    · obtain ⟨pass, hpass, rfl⟩ := List.mem_map.mp he
      obtain ⟨hquiet, hstage⟩ := hpre pass hpass
      have heq : em.pass = scheduled pass := Emission.pass_eq_of_mem_ofPass hstage hem
      exact Emission.not_mem_inputs_of_ignores (heq ▸ hquiet)
  · obtain rfl := List.mem_singleton.mp hem
    exact Emission.not_mem_inputs_of_ignores hignores

end DenoiserState

namespace Turn

-- The turns after the last one that denoised only show inputs.
theorem exists_split_of_last? {turns : List Turn} {prev : Turn} (h : last? turns = some prev) :
    ∃ older newer, turns = older ++ prev :: newer ∧ prev.denoises = true ∧
      newer.countP denoises = 0 := by
  induction turns using List.reverseRecOn with
  | nil => cases h
  | append_singleton turns t ih =>
    cases ht : t.denoises with
    | true =>
      have hlast : t = prev := by simpa [last?, ht] using h
      exact ⟨turns, [], hlast ▸ rfl, hlast ▸ ht, rfl⟩
    | false =>
      obtain ⟨older, newer, rfl, hprev, hnewer⟩ := ih (by simpa [last?, ht] using h)
      exact ⟨older, newer ++ [t], by simp, hprev, by simp [hnewer, ht]⟩

end Turn

namespace Planner

variable {p : Planner} {store : ShaderStore} {d : DenoiserState} {s : Standing} {t : Turn}
  {em : Emission ScheduledPass} {x : Dispatch} {r : Reference} {n : Nat}

-- A pass that fills a texture has its dispatch in every turn that denoises.
theorem Takes.exists_filling (h : p.Takes store d s t) (hdenoises : t.denoises = true) {pass : Pass}
    (hpass : pass ∈ d.variant.blueprint.passes) (hfills : pass.fills r = true) :
    ∃ y ∈ t.dispatches, y.stage ≠ .clear ∧
      t.Binds y .write r (d.layout.claims.texture s.flipped r) := by
  have hregular := (Bool.and_eq_true_iff.mp hfills).1
  obtain ⟨hatrous, henabled⟩ :=
    (t.denoiser.switches t.settings).isEnabled_of_isRegular hregular
  obtain ⟨y, hy, hem⟩ := h.exists_dispatch
    (DenoiserState.mem_emissions_of_enabled hdenoises (h.variant ▸ hpass) hatrous henabled)
  refine ⟨y, hy, ?_, h.binds_iff.mpr ⟨_, hem, rfl, Emission.mem_outputs_of_fills hfills⟩⟩
  rw [h.stage_eq hem]
  exact d.variant.stage_ne_clear pass hpass

-- What is filled before anyone reads it has been written when it is read.
theorem Takes.exists_earlier (h : p.Takes store d s t) (hdenoises : t.denoises = true)
    (hr : Pass.introduce r d.variant.blueprint.passes = true)
    {pre post : List (Emission ScheduledPass)} (hsplit : t.emissions = pre ++ em :: post)
    (hread : r ∈ em.bindings.inputs) :
    ∃ first ∈ pre, first.pass.stage ≠ .clear ∧ r ∈ first.bindings.outputs := by
  obtain ⟨as, first, bs, hopening, hfills, hquiet⟩ :=
    DenoiserState.exists_opening hdenoises (h.variant ▸ hr)
  have hregular := (Bool.and_eq_true_iff.mp hfills).1
  refine ⟨first, mem_left_of_split (hsplit.symm.trans hopening) hread hquiet, fun hclear => ?_,
    Emission.mem_outputs_of_fills hfills⟩
  rw [ScheduledPass.stage] at hclear
  rw [hclear] at hregular
  cases hregular

-- A permanent texture that a frame reads before it writes it, the stabilized history apart, is
-- what the frame before it wrote in the opposite role.
theorem exists_continued {denoisers : List (Identifier × Variant)} {requests : List Request}
    (hcreate : (create denoisers store).result = .ok p) (hlasts : p.Lasts requests)
    (hd : d ∈ p.denoisers) {past later : List Turn} {prev now : Turn}
    (hturns : p.turns d.identifier requests = past ++ now :: later)
    (hdenoises : now.denoises = true) (hprev : Turn.last? past = some prev)
    {before after : List Dispatch} (hsplit : now.dispatches = before ++ x :: after)
    (hstage : x.stage ≠ .clear) (hread : (.permanentPool, n) ∈ x.reads)
    (hunwritten : ∀ y ∈ before, y.stage ≠ .clear → (.permanentPool, n) ∉ y.writes)
    (hother : ∀ slot ∈ d.variant.stabilized,
      d.layout.claims.place (.slot slot) ≠ (.permanentPool, n)) :
    ∃ r, now.Binds x .read r (.permanentPool, n) ∧ ∃ y ∈ prev.dispatches, y.stage ≠ .clear ∧
      prev.Binds y .write r.opposite (.permanentPool, n) := by
  have h := takes_of_turns_eq hcreate hlasts hd hturns
  obtain ⟨older, newer, rfl, hprev, hnewer⟩ := Turn.exists_split_of_last? hprev
  have h' : p.Takes store d _ prev := takes_of_turns_eq hcreate hlasts hd
    (show _ = older ++ prev :: (newer ++ now :: later) by simpa using hturns)
  obtain ⟨pre, em, post, hemissions, hx, hbefore⟩ := h.exists_split hsplit
  rw [h.reads_eq hx] at hread
  obtain ⟨r, hr, htexture⟩ := List.mem_map.mp hread
  obtain ⟨k, -, hk, rfl⟩ := h.permanent?_eq hx (List.mem_append_left _ hr) htexture
  refine ⟨r, h.binds_iff.mpr ⟨em, hx, htexture, hr⟩, ?_⟩
  have hpass := Blueprint.pass_mem_of_mem_schedule (h.pass_mem hx) (h.stage_eq hx ▸ hstage)
  rcases d.variant.accounts _ _ hpass _ (Specialization.select_mem_all _ em.active) r hr k hk with
    hstabilized | ⟨pass, hpass, hfills⟩ | hintroduce
  · exact absurd rfl (hother _ hstabilized)
  · obtain ⟨y, hy, hclear, hbinds⟩ := h'.exists_filling hprev hpass hfills
    rw [List.foldl_append, List.foldl_cons, Standing.next_of_denoises _ hprev,
      Standing.flipped_foldl, hnewer, if_pos Even.zero] at htexture
    rw [Claims.texture_opposite, htexture] at hbinds
    exact ⟨y, hy, hclear, hbinds⟩
  · obtain ⟨first, hfirst, hclear, hwrites⟩ := h.exists_earlier hdenoises hintroduce hemissions hr
    obtain ⟨y, hy, hem⟩ := hbefore first hfirst
    refine absurd ?_ (hunwritten y hy (h.stage_eq hem ▸ hclear))
    rw [h.writes_eq hem, ← htexture]
    exact List.mem_map_of_mem hwrites

end Planner

theorem Averaging.historyPrev_apart (flipped : Bool) : ∀ pass ∈ Averaging.passes,
    ∀ s ∈ Specialization.all pass.conditions, ∀ w ∈ (pass.bindings s).outputs,
      w.location flipped ≠ Averaging.historyPrev.location flipped := by
  cases flipped <;> decide

namespace Planner

theorem exists_continued_averaging : ∃ p, ∃ d ∈ p.denoisers, ∃ (prev now : Turn)
    (before after : List Dispatch) (x : Dispatch) (n : Nat),
    (create shadowAndReference fun _ _ => none).result = .ok p ∧ p.Lasts averaging ∧
      p.turns d.identifier averaging = [prev] ++ now :: [] ∧ now.denoises = true ∧
      Turn.last? [prev] = some prev ∧ now.dispatches = before ++ x :: after ∧ x.stage ≠ .clear ∧
      (.permanentPool, n) ∈ x.reads ∧
      (∀ y ∈ before, y.stage ≠ .clear → (.permanentPool, n) ∉ y.writes) ∧
      (∀ slot ∈ d.variant.stabilized, d.layout.claims.place (.slot slot) ≠ (.permanentPool, n)) ∧
      ∃ r, now.Binds x .read r (.permanentPool, n) ∧ ∃ y ∈ prev.dispatches, y.stage ≠ .clear ∧
        prev.Binds y .write r.opposite (.permanentPool, n) := by
  obtain ⟨p, d, hd, prev, now, hcreate, hvariant, hlasts, hturns, hprev, hnow⟩ := exists_averaging
  have hsplit : p.turns d.identifier averaging = [prev] ++ now :: [] := hturns
  have hlast : Turn.last? [prev] = some prev := by simp [Turn.last?, hprev]
  have h := takes_of_turns_eq hcreate hlasts hd hsplit
  have hpasses : d.variant.blueprint.passes = Averaging.passes := by rw [hvariant]; rfl
  obtain ⟨em, x, hx, n, hem, hstage, hr, htexture, hread⟩ := h.exists_average hvariant hnow
  obtain ⟨before, after, hdispatches⟩ := List.append_of_mem hx
  have hunwritten : ∀ y ∈ before, y.stage ≠ .clear → (.permanentPool, n) ∉ y.writes := by
    intro y hy hclear hwrites
    obtain ⟨em', -, hy⟩ := h.exists_emission (hdispatches ▸ List.mem_append_left _ hy)
    rw [h.writes_eq hy, ← htexture] at hwrites
    obtain ⟨w, hw, heq⟩ := List.mem_map.mp hwrites
    obtain ⟨tables, hinstalled⟩ := h.installed
    have hpass' := Blueprint.pass_mem_of_mem_schedule (h.pass_mem hy) (h.stage_eq hy ▸ hclear)
    exact Averaging.historyPrev_apart _ _ (hpasses ▸ hpass') _
      (Specialization.select_mem_all _ em'.active) w hw
      (hinstalled.location_of_texture_eq (h.pass_mem hy) (List.mem_append_right _ hw)
        (h.pass_mem hem) (List.mem_append_left _ hr) heq)
  have hother : ∀ slot ∈ d.variant.stabilized,
      d.layout.claims.place (.slot slot) ≠ (.permanentPool, n) := by
    rw [hvariant]
    simp [Variant.stabilized, Variant.family]
  exact ⟨p, d, hd, prev, now, before, after, x, n, hcreate, hlasts, hsplit, hnow, hlast, hdispatches,
    hstage, hread, hunwritten, hother, exists_continued hcreate hlasts hd hsplit hnow hlast
      hdispatches hstage hread hunwritten hother⟩

end Planner

end DenoisePlanner
