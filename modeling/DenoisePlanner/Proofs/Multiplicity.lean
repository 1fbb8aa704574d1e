import DenoisePlanner.Proofs.Agreement
import DenoisePlanner.Proofs.Calls
import DenoisePlanner.Proofs.Tiling

namespace DenoisePlanner

-- How often a stage can come in a frame. The A-trous steps between the first and the last share
-- a pass, and two specialisations of it.
def Stage.turns : Stage → Nat
  | .atrous => 6
  | _ => 1

theorem Stage.turns_pos (s : Stage) : 1 ≤ s.turns := by cases s <;> decide

namespace DeclaredPass

def width (pass : DeclaredPass) : Nat := Specialization.count pass.conditions

theorem within_dispatch (pass : DeclaredPass) (active : Condition → Bool) :
    Within base width pass (pass.dispatch (.select pass.conditions active)) :=
  pass.contains_dispatch_select active

-- The dispatches of declared passes are stretches.
theorem Tiles.stretches {start stop : Nat} {passes : List DeclaredPass}
    (h : Tiles start passes stop) : DenoisePlanner.Tiles base width start passes stop := by
  induction passes generalizing start with
  | nil => exact h
  | cons pass passes ih => exact ⟨h.1, ih h.2⟩

end DeclaredPass

open DeclaredPass (base width)

namespace Selected

variable {passes : List DeclaredPass} {switches : Switches} {pass z : DeclaredPass}
  {start stop n : Nat}

-- The stage of an A-trous step.
def atrousStage (count i : Nat) : Stage :=
  if i = 0 then .atrousFirst else if i + 1 = count then .atrousLast else .atrous

theorem isAtrous_atrousStage (count i : Nat) : (atrousStage count i).isAtrous = true := by
  unfold atrousStage
  split
  · rfl
  · split <;> rfl

theorem of_atrousPass? {first : DeclaredPass} {count i : Nat} (hfirst : first ∈ passes)
    (hstage : first.stage = .atrousFirst) (h : atrousPass? passes first count i = some z) :
    z ∈ passes ∧ z.stage = atrousStage count i := by
  unfold atrousPass? at h
  unfold atrousStage
  by_cases hi : i = 0
  · rw [if_pos hi] at h ⊢
    obtain rfl := Option.some.inj h
    exact ⟨hfirst, hstage⟩
  · rw [if_neg hi] at h ⊢
    have hz := List.find?_some h
    exact ⟨List.mem_of_find?_eq_some h, by simpa using hz⟩

theorem countP_atrousStage_le {count : Nat} (hcount : count ≤ 8) (stage : Stage) :
    (List.range count).countP (fun i => decide (atrousStage count i = stage)) ≤ stage.turns := by
  have hall : ∀ count ∈ List.range 9, ∀ stage ∈ Stage.all,
      (List.range count).countP (fun i => decide (atrousStage count i = stage)) ≤ stage.turns := by
    decide +kernel
  exact hall count (List.mem_range.mpr (by omega)) stage (by cases stage <;> decide)

-- Each A-trous step picks a dispatch of the pass that has the stage of the step.
theorem count_atrousSteps_le (htiles : Tiles base width start passes stop)
    (hpass : pass ∈ passes) (hstage : pass.stage = .atrousFirst) (hz : z ∈ passes)
    (hn : Within base width z n) :
    ((atrousSteps passes pass switches).map Selected.dispatch).count n ≤ z.stage.turns := by
  refine Nat.le_trans ?_ (countP_atrousStage_le switches.atrousCount_le z.stage)
  unfold atrousSteps
  dsimp only
  rw [List.map_filterMap, List.count_filterMap]
  refine List.countP_mono_left fun i _ hi => ?_
  simp only [Option.map_map, beq_iff_eq, Option.map_eq_some_iff] at hi
  obtain ⟨w, hw, hdispatch⟩ := hi
  obtain ⟨hmem, hstep⟩ := of_atrousPass? hpass hstage hw
  have hwithin := w.within_dispatch (atrousHolds switches i)
  have heq : w.dispatch (.select w.conditions (atrousHolds switches i)) = n := hdispatch
  rw [heq] at hwithin
  obtain rfl := htiles.unique hmem hz hwithin hn
  exact decide_eq_true hstep.symm

-- A pass contributes dispatches of its own, or, if it begins the A-trous filter, of the passes
-- of the filter.
theorem exists_of_mem_ofPass (hpass : pass ∈ passes)
    (h : n ∈ (ofPass passes switches pass).map Selected.dispatch) :
    ∃ w ∈ passes, Within base width w n ∧
      (pass.stage = .atrousFirst ∧ w.stage.isAtrous = true ∨
        w = pass ∧ pass.stage.isAtrous = false) := by
  obtain ⟨selected, hselected, rfl⟩ := List.mem_map.mp h
  unfold ofPass at hselected
  split at hselected
  · cases hselected
  · cases hselected
  · rename_i hstage
    obtain ⟨i, -, hsome⟩ := List.mem_filterMap.mp hselected
    obtain ⟨w, hw, rfl⟩ := Option.map_eq_some_iff.mp hsome
    obtain ⟨hmem, hstep⟩ := of_atrousPass? hpass hstage hw
    refine ⟨w, hmem, w.within_dispatch _, .inl ⟨hstage, ?_⟩⟩
    rw [hstep]
    exact isAtrous_atrousStage _ _
  · rename_i hatrous hlast hfirst
    split at hselected
    · obtain rfl := List.mem_singleton.mp hselected
      refine ⟨pass, hpass, pass.within_dispatch _, .inr ⟨rfl, ?_⟩⟩
      cases hstage : pass.stage <;> simp_all [Stage.isAtrous]
    · cases hselected

theorem count_ofPass_le (htiles : Tiles base width start passes stop)
    (hpass : pass ∈ passes) (hz : z ∈ passes) (hn : Within base width z n) :
    ((ofPass passes switches pass).map Selected.dispatch).count n ≤ z.stage.turns := by
  unfold ofPass
  split
  · exact Nat.zero_le _
  · exact Nat.zero_le _
  · exact count_atrousSteps_le htiles hpass ‹_› hz hn
  · refine Nat.le_trans (Nat.le_trans List.count_le_length ?_) z.stage.turns_pos
    split <;> simp

theorem exists_within_of_mem_select (h : n ∈ (select passes switches).map Selected.dispatch) :
    ∃ w ∈ passes, Within base width w n := by
  unfold select at h
  split at h
  · obtain ⟨selected, hselected, rfl⟩ := List.mem_map.mp h
    obtain ⟨w, hw, rfl⟩ := Option.map_eq_some_iff.mp (Option.mem_toList.mp hselected)
    have hwithin := w.within_dispatch fun _ => false
    simp only [DeclaredPass.dispatch, Specialization.bits_select,
      Specialization.bitsOf_const_false] at hwithin
    exact ⟨w, List.mem_of_find?_eq_some hw, hwithin⟩
  · rw [List.map_flatMap] at h
    obtain ⟨pass, hpass, h⟩ := List.mem_flatMap.mp h
    obtain ⟨w, hw, hwithin, -⟩ := exists_of_mem_ofPass hpass h
    exact ⟨w, hw, hwithin⟩

-- A dispatch is picked no more often than its stage comes.
theorem count_select_le (htiles : Tiles base width start passes stop)
    (hfirst : passes.Pairwise fun x y => x.stage = .atrousFirst → y.stage ≠ .atrousFirst)
    (hz : z ∈ passes) (hn : Within base width z n) :
    ((select passes switches).map Selected.dispatch).count n ≤ z.stage.turns := by
  unfold select
  split
  · refine Nat.le_trans (Nat.le_trans List.count_le_length ?_) z.stage.turns_pos
    rw [List.length_map]
    exact Option.length_toList_le
  · rw [List.map_flatMap]
    refine count_flatMap_le ?_ fun pass hpass => count_ofPass_le htiles hpass hz hn
    refine (htiles.pairwise.and hfirst).imp_of_mem fun {x y} hx hy hxy hnx hny => ?_
    obtain ⟨w, hw, hwithin, hwx⟩ := exists_of_mem_ofPass hx hnx
    obtain ⟨w', hw', hwithin', hwy⟩ := exists_of_mem_ofPass hy hny
    obtain rfl := htiles.unique hw hw' hwithin hwithin'
    rcases hwx with ⟨hxfirst, hatrous⟩ | ⟨rfl, hplain⟩ <;>
      rcases hwy with ⟨hyfirst, hatrous'⟩ | ⟨rfl, hplain'⟩
    · exact hxy.2 hxfirst hyfirst
    · rw [hatrous] at hplain'
      cases hplain'
    · rw [hatrous'] at hplain
      cases hplain
    · exact hxy.1 n hwithin hwithin

end Selected

-- The declared dispatches that the selector picks for a frame of a denoiser.
def DenoiserState.picks (d : DenoiserState) (s : FrameSettings) : List Nat :=
  (Selected.select d.layout.passes (d.switches s)).map Selected.dispatch

namespace Variant

theorem turns_le_repeats (v : Variant) : ∀ e ∈ v.blueprint.schedule,
    e.stage.turns ≤ e.pass.repeats.toNat := by
  cases v <;> decide +kernel

-- Clears alone share a stage, and each of them has a texture of its own.
theorem pairwise_schedule (v : Variant) : v.blueprint.schedule.Pairwise fun x y =>
    x.stage = y.stage →
      x.stage = .clear ∧ (x.pass.bindings default).outputs ≠ (y.pass.bindings default).outputs := by
  cases v <;> decide +kernel

theorem pairwise_place (v : Variant) (start : Nat) :
    (ScheduledPass.place start v.blueprint.schedule).Pairwise fun x y => x.2.stage = y.2.stage →
      x.2.stage = .clear ∧
        (x.2.pass.bindings default).outputs ≠ (y.2.pass.bindings default).outputs := by
  have hpairwise := v.pairwise_schedule
  rwa [← ScheduledPass.snd_place start v.blueprint.schedule, List.pairwise_map] at hpairwise

-- No schedule has two passes for an A-trous step.
theorem single_steps (v : Variant) (start : Nat) :
    (ScheduledPass.place start v.blueprint.schedule).Pairwise fun x y =>
      x.2.stage.isAtrous = true → y.2.stage ≠ x.2.stage := by
  refine (v.pairwise_place start).imp fun {x y} hdistinct hatrous hstage => ?_
  rw [(hdistinct hstage.symm).1] at hatrous
  cases hatrous

end Variant

namespace Installed

variable {tables : Declarations} {d : DenoiserState} {flipped : Bool} {s : FrameSettings} {n : Nat}

theorem tiles_passes (h : Installed tables d.variant d.layout flipped) :
    Tiles base width d.member.firstDispatch d.layout.passes
      (d.member.firstDispatch + d.member.dispatchCount) := by
  rw [h.passes]
  exact (ScheduledPass.tiles_recorded _ _).stretches

theorem within_of_mem_picks (h : Installed tables d.variant d.layout flipped)
    (hn : n ∈ d.picks s) : Within Member.firstDispatch Member.dispatchCount d.member n := by
  obtain ⟨w, hw, hwithin⟩ := Selected.exists_within_of_mem_select hn
  exact h.tiles_passes.within_lt hw hwithin

-- A declared pass is one of the schedule, and its dispatches stand for its specialisations.
theorem exists_place (h : Installed tables d.variant d.layout flipped) {w : DeclaredPass}
    (hw : w ∈ d.layout.passes) :
    ∃ e, (w.base, e) ∈ ScheduledPass.place d.layout.dispatches.start d.variant.blueprint.schedule ∧
      w = e.declared w.base ∧ ∀ n, Within base width w n →
        ∃ s ∈ Specialization.all e.pass.conditions, n = w.base + s.bits := by
  rw [h.passes] at hw
  obtain ⟨⟨first, e⟩, hplace, rfl⟩ := List.mem_map.mp hw
  refine ⟨e, hplace, rfl, fun n hn => ?_⟩
  have hge : first ≤ n := hn.1
  have hlt : n < first + Specialization.count e.pass.conditions := hn.2
  exact ⟨⟨e.pass.conditions, n - first⟩,
    (Specialization.mem_all_iff _ _).mpr ⟨rfl, by dsimp only; omega⟩,
    (Nat.add_sub_cancel' hge).symm⟩

theorem within_of_place (h : Installed tables d.variant d.layout flipped) {base : Nat}
    {e : ScheduledPass} {s : Specialization}
    (hplace : (base, e) ∈ ScheduledPass.place d.layout.dispatches.start d.variant.blueprint.schedule)
    (hs : s ∈ Specialization.all e.pass.conditions) :
    Within Member.firstDispatch Member.dispatchCount d.member (base + s.bits) := by
  have hw : e.declared base ∈ d.layout.passes := by
    rw [h.passes]
    exact List.mem_map_of_mem (f := fun x => x.2.declared x.1) hplace
  have hbits := ((Specialization.mem_all_iff _ _).mp hs).2
  exact h.tiles_passes.within_lt hw
    ⟨Nat.le_add_right _ _, Nat.add_lt_add_left hbits base⟩

-- Every dispatch of a denoiser was built for a specialisation of one of its passes.
theorem exists_realizes (h : Installed tables d.variant d.layout flipped) {w : DeclaredPass}
    (hw : w ∈ d.layout.passes) (hn : Within base width w n) :
    ∃ e ∈ d.variant.blueprint.schedule, ∃ s ∈ Specialization.all e.pass.conditions,
      e.stage = w.stage ∧ tables.Realizes (d.variant.author d.layout.claims) e s n := by
  obtain ⟨e, hplace, hpass, hstands⟩ := h.exists_place hw
  obtain ⟨s, hs, rfl⟩ := hstands n hn
  refine ⟨e, ScheduledPass.mem_of_mem_place hplace, s, hs, ?_, h.realizes _ e hplace s hs⟩
  rw [hpass]
  rfl

-- A dispatch repeats no more often than it says.
theorem count_picks_le (h : Installed tables d.variant d.layout flipped)
    {declared : DeclaredDispatch} (hdeclared : tables.dispatches[n]? = some declared) :
    (d.picks s).count n ≤ declared.repeats.toNat := by
  by_cases hn : n ∈ d.picks s
  · obtain ⟨w, hw, hwithin⟩ := Selected.exists_within_of_mem_select hn
    have hsingle : d.layout.passes.Pairwise fun x y =>
        x.stage = .atrousFirst → y.stage ≠ .atrousFirst := by
      rw [h.passes]
      refine List.pairwise_map.mpr ((d.variant.single_steps _).imp fun {x y} hne hx hy => ?_)
      exact hne (congrArg Stage.isAtrous hx) (hy.trans hx.symm)
    have hcount : (d.picks s).count n ≤ w.stage.turns :=
      Selected.count_select_le h.tiles_passes hsingle hw hwithin
    obtain ⟨e, he, _, -, hstage, position, span, pipeline, hdispatch, -⟩ :=
      h.exists_realizes hw hwithin
    have hturns := d.variant.turns_le_repeats e he
    rw [hstage] at hturns
    obtain rfl := Option.some.inj (hdeclared.symm.trans hdispatch)
    exact Nat.le_trans hcount hturns
  · rw [List.count_eq_zero.mpr hn]
    exact Nat.zero_le _

end Installed

namespace Planner

-- The declared dispatches of a frame of one denoiser, and of the denoisers that a frame is for.
def picksOf (p : Planner) (identifier : Identifier) : List Nat :=
  (((p.position? identifier).bind (p.denoisers[·]?)).map (·.picks p.settings)).getD []

def picks (p : Planner) (identifiers : List Identifier) : List Nat :=
  identifiers.flatMap p.picksOf

variable {p : Planner} {store : ShaderStore} {flipped : Nat → Bool} {n : Nat}

theorem Sound.picksOf_eq (h : p.Sound store flipped) {i : Nat} {d : DenoiserState}
    (hi : p.denoisers[i]? = some d) : p.picksOf d.identifier = d.picks p.settings := by
  simp [picksOf, h.position?_eq hi, hi]

theorem Sound.exists_of_mem_picksOf (h : p.Sound store flipped) {identifier : Identifier}
    (hn : n ∈ p.picksOf identifier) : ∃ m ∈ p.members, m.identifier = identifier ∧
      Within Member.firstDispatch Member.dispatchCount m n := by
  cases hposition : p.position? identifier with
  | none => simp [picksOf, hposition] at hn
  | some i =>
    obtain ⟨d, hi, rfl⟩ := position?_eq_some hposition
    rw [h.picksOf_eq hi] at hn
    refine ⟨d.member, ?_, rfl, (h.roster.installed i d hi).within_of_mem_picks hn⟩
    exact List.mem_map_of_mem (Array.mem_toList_iff.mpr (Array.mem_of_getElem? hi))

-- However many denoisers a frame is for, no dispatch repeats more often than it says.
theorem Sound.count_picks_le (h : p.Sound store flipped) (hlasting : p.Lasting store)
    {identifiers : List Identifier} (hnodup : identifiers.Nodup) {declared : DeclaredDispatch}
    (hdeclared : p.tables.dispatches[n]? = some declared) :
    (p.picks identifiers).count n ≤ declared.repeats.toNat := by
  refine count_flatMap_le ?_ fun identifier _ => ?_
  · refine hnodup.imp fun {x y} hne hx hy => ?_
    obtain ⟨m, hm, rfl, hwithin⟩ := h.exists_of_mem_picksOf hx
    obtain ⟨m', hm', rfl, hwithin'⟩ := h.exists_of_mem_picksOf hy
    exact hne (congrArg Member.identifier (hlasting.tiled.unique hm hm' hwithin hwithin'))
  · cases hposition : p.position? identifier with
    | none => simp [picksOf, hposition]
    | some i =>
      obtain ⟨d, hi, rfl⟩ := position?_eq_some hposition
      rw [h.picksOf_eq hi]
      exact (h.roster.installed i d hi).count_picks_le hdeclared

end Planner

end DenoisePlanner
