import DenoisePlanner.Proofs.Frames

namespace DenoisePlanner

-- The number of a transient texture. Transient textures never swap.
def Reference.transient? : Reference → Option Nat
  | .pooled (.transient i) => some i
  | _ => none

-- What an emission binds.
def Emission.under (em : Emission Pass) : Bindings :=
  em.pass.bindings (.select em.pass.conditions em.active)

namespace Bindings

-- All transient textures that are read have been written.
def Fed (written : List Reference) (b : Bindings) : Prop :=
  ∀ r ∈ b.inputs, r.transient?.isSome → r ∈ written

-- Transient textures are written before they are read.
def Covered (written : List Reference) : List Bindings → Prop
  | [] => True
  | b :: bs => b.Fed written ∧ Covered (b.outputs ++ written) bs

variable {written more : List Reference} {b : Bindings} {bs cs : List Bindings}

theorem Fed.mono (h : b.Fed written) (hsub : written ⊆ more) : b.Fed more :=
  fun r hr ht => hsub (h r hr ht)

-- Where enough is written from the start, the order is of no concern.
theorem covered_of_fed (h : ∀ b ∈ bs, b.Fed written) : Covered written bs := by
  induction bs generalizing written with
  | nil => trivial
  | cons b bs ih =>
    refine ⟨h b List.mem_cons_self, ih fun c hc => ?_⟩
    exact (h c (List.mem_cons_of_mem _ hc)).mono (List.subset_append_right ..)

theorem covered_append (h : Covered written bs)
    (h' : ∀ more, written ⊆ more → (∀ b ∈ bs, b.outputs ⊆ more) → Covered more cs) :
    Covered written (bs ++ cs) := by
  induction bs generalizing written with
  | nil => exact h' written (fun _ => id) (by simp)
  | cons b bs ih =>
    refine ⟨h.1, ih h.2 fun more hsub hmore => h' more ?_ ?_⟩
    · exact fun r hr => hsub (List.mem_append_right _ hr)
    · intro c hc
      rcases List.mem_cons.mp hc with rfl | hc
      · exact fun r hr => hsub (List.mem_append_left _ hr)
      · exact hmore c hc

-- Whoever reads a transient texture finds an earlier writer.
theorem Covered.exists_writer (h : Covered written bs) {pre post : List Bindings}
    (hsplit : bs = pre ++ b :: post) {r : Reference} (hr : r ∈ b.inputs)
    (ht : r.transient?.isSome) : r ∈ written ∨ ∃ c ∈ pre, r ∈ c.outputs := by
  induction pre generalizing written bs with
  | nil =>
    subst hsplit
    exact .inl (h.1 r hr ht)
  | cons c pre ih =>
    subst hsplit
    rcases ih h.2 rfl with hwritten | ⟨c', hc', hwrites⟩
    · rcases List.mem_append.mp hwritten with hwrites | hwritten
      · exact .inr ⟨c, List.mem_cons_self, hwrites⟩
      · exact .inl hwritten
    · exact .inr ⟨c', List.mem_cons_of_mem _ hc', hwrites⟩

end Bindings

open Emission Bindings

variable {switches : Switches} {written : List Reference}

-- Two optional passes, of which the first hands over to the second if that follows. Whichever runs
-- last leaves the same textures written.
theorem covered_handover {first second : Pass} {d e : Bool} {tiles : Reference}
    {cs : List Bindings} (middle ready : List Reference) (htiles : tiles ∈ written)
    (hfirst : ∀ more, tiles ∈ more → (plain switches first).under.Fed more)
    (hsecond : ∀ more, tiles ∈ more → (d = true → middle ⊆ more) →
      (plain switches second).under.Fed more)
    (hmiddle : e = true → middle ⊆ (plain switches first).under.outputs)
    (hlast : e = false → ready ⊆ (plain switches first).under.outputs)
    (hready : ready ⊆ (plain switches second).under.outputs)
    (h : ∀ more, tiles ∈ more → (e = true ∨ d = true → ready ⊆ more) → Covered more cs) :
    Covered written ((gated switches d first ++ gated switches e second).map under ++ cs) := by
  cases d <;> cases e <;>
    simp only [gated, if_true, if_false, Bool.false_eq_true, List.append_nil, List.nil_append,
      List.map_nil, List.map_cons, List.cons_append]
  · exact h written htiles (by simp)
  · refine ⟨hsecond _ htiles (by simp), h _ (List.mem_append_right _ htiles) fun _ => ?_⟩
    exact List.subset_append_of_subset_left _ hready
  · refine ⟨hfirst _ htiles, h _ (List.mem_append_right _ htiles) fun _ => ?_⟩
    exact List.subset_append_of_subset_left _ (hlast rfl)
  · have htiles' := List.mem_append_right (plain switches first).under.outputs htiles
    refine ⟨hfirst _ htiles, hsecond _ htiles' fun _ => ?_,
      h _ (List.mem_append_right _ htiles') fun _ => ?_⟩
    · exact List.subset_append_of_subset_left _ (hmiddle rfl)
    · exact List.subset_append_of_subset_left _ hready

namespace Reblur

-- The textures of a signal outside the transient pool.
structure SignalTextures.Lasting (t : SignalTextures) : Prop where
  input : t.input.transient? = none
  confidence : t.confidence.transient? = none
  history : t.history.transient? = none
  fastHistory : t.fastHistory.transient? = none

theorem lasting_of_mem {signals : Signals} {t : SignalTextures} (h : t ∈ textures signals) :
    t.Lasting := by
  obtain ⟨i, hi, rfl⟩ := List.mem_mapIdx.mp h
  exact ⟨rfl, rfl, rfl, rfl⟩

-- All transient textures of the denoiser have been written.
structure Ready (signals : List SignalTextures) (written : List Reference) : Prop where
  tiles : tiles ∈ written
  data1 : data1 ∈ written
  data2 : data2 ∈ written
  tmp1 : ∀ t ∈ signals, t.tmp1 ∈ written
  tmp2 : ∀ t ∈ signals, t.tmp2 ∈ written
  fastHistoryTmp : ∀ t ∈ signals, t.fastHistoryTmp ∈ written

variable {signals : List SignalTextures}

theorem fed_hitDistReconstruction (hl : ∀ t ∈ signals, t.Lasting) (htiles : tiles ∈ written) :
    (plain switches (hitDistReconstruction signals)).under.Fed written := by
  intro r hr ht
  simp only [under, plain, hitDistReconstruction, List.mem_append, List.mem_map, List.mem_cons]
    at hr
  grind [Reference.transient?, SignalTextures.Lasting, Reference.input]

theorem fed_prePass (hl : ∀ t ∈ signals, t.Lasting) (htiles : tiles ∈ written)
    (htmp1 : switches.hitDistReconstruction = true → ∀ t ∈ signals, t.tmp1 ∈ written) :
    (plain switches (prePass signals)).under.Fed written := by
  intro r hr ht
  simp only [under, plain, prePass, List.mem_append, List.mem_map, List.mem_cons,
    Specialization.has_select] at hr
  grind [Reference.transient?, SignalTextures.Lasting, Reference.input, Switches.holds]

theorem transient?_of_mem_accumulated {t : SignalTextures} (ht : t.Lasting) {stabilization : Bool}
    {r : Reference} (hr : r ∈ t.accumulated stabilization) : r.transient? = none := by
  unfold SignalTextures.accumulated at hr
  grind [Reference.transient?, SignalTextures.Lasting]

theorem transient?_of_mem_stabilizedPrev {t : SignalTextures} {r : Reference}
    (hr : r ∈ t.stabilizedPrev) : r.transient? = none := by
  obtain ⟨pair, -, rfl⟩ := Option.map_eq_some_iff.mp (Option.mem_toList.mp hr)
  rfl

theorem fed_temporalAccumulation (stabilizes : Bool) (hl : ∀ t ∈ signals, t.Lasting)
    (htiles : tiles ∈ written)
    (htmp2 : switches.prePass = true ∨ switches.hitDistReconstruction = true →
      ∀ t ∈ signals, t.tmp2 ∈ written) :
    (plain switches (temporalAccumulation stabilizes signals)).under.Fed written := by
  intro r hr ht
  simp only [under, plain, temporalAccumulation, List.mem_append, List.mem_flatMap, List.mem_cons,
    Specialization.has_select] at hr
  rcases hr with (hr | hr) | ⟨t, hmem, ((hr | hr) | hr) | hr⟩
  · grind [Reference.transient?, Reference.input, prevViewZ, prevNormalRoughness,
      prevInternalData]
  · grind [Reference.transient?, Reference.input]
  · grind [Reference.transient?, SignalTextures.Lasting]
  · grind [Reference.transient?, SignalTextures.Lasting, Switches.holds]
  · simp [transient?_of_mem_accumulated (hl t hmem) hr] at ht
  · grind [Reference.transient?, SignalTextures.Lasting]

theorem fed_historyFix (htiles : tiles ∈ written) (hdata1 : data1 ∈ written)
    (htmp1 : ∀ t ∈ signals, t.tmp1 ∈ written)
    (hfast : ∀ t ∈ signals, t.fastHistoryTmp ∈ written) :
    (plain switches (historyFix signals)).under.Fed written := by
  intro r hr ht
  simp only [under, plain, historyFix, List.mem_append, List.mem_flatMap, List.mem_cons] at hr
  grind [Reference.transient?, Reference.input]

theorem fed_splitScreen (hl : ∀ t ∈ signals, t.Lasting) (s : Specialization) :
    ((splitScreen signals).bindings s).Fed written := by
  intro r hr ht
  simp only [splitScreen, List.mem_map, List.mem_cons] at hr
  grind [Reference.transient?, Reference.input, SignalTextures.Lasting]

-- Once everything has been written, a pass may read what it likes.
theorem Ready.fed (h : Ready signals written) (hl : ∀ t ∈ signals, t.Lasting) {stabilizes : Bool}
    {pass : Pass}
    (hpass : pass ∈ [blur signals, postBlur stabilizes signals, temporalStabilization signals,
      splitScreen signals, validation signals]) :
    (plain switches pass).under.Fed written := by
  intro r hr ht
  have htiles := h.tiles
  have hdata1 := h.data1
  have hdata2 := h.data2
  have htmp1 := h.tmp1
  have htmp2 := h.tmp2
  simp only [List.mem_cons, List.not_mem_nil, or_false] at hpass
  rcases hpass with rfl | rfl | rfl | rfl | rfl
  · simp only [under, plain, blur, List.mem_append, List.mem_map, List.mem_cons] at hr
    grind [Reference.transient?, Reference.input]
  · simp only [under, plain, postBlur, List.mem_append, List.mem_map, List.mem_cons] at hr
    grind [Reference.transient?, Reference.input]
  · simp only [under, plain, temporalStabilization, List.mem_append, List.mem_flatMap,
      List.mem_cons] at hr
    rcases hr with hr | ⟨t, hmem, rfl | hr⟩
    · grind [Reference.transient?, Reference.input]
    · simp [(hl t hmem).history] at ht
    · simp [transient?_of_mem_stabilizedPrev hr] at ht
  · exact fed_splitScreen hl _ r hr ht
  · simp only [under, plain, validation, List.mem_append, List.mem_map, List.mem_cons] at hr
    grind [Reference.transient?, Reference.input, SignalTextures.Lasting]

-- The optional passes before temporal accumulation hand over to one another and to it.
theorem covered_preparation (hl : ∀ t ∈ signals, t.Lasting) (htiles : tiles ∈ written)
    {cs : List Bindings}
    (h : ∀ more, tiles ∈ more → (switches.prePass = true ∨ switches.hitDistReconstruction = true →
      ∀ t ∈ signals, t.tmp2 ∈ more) → Covered more cs) :
    Covered written
      ((gated switches switches.hitDistReconstruction (hitDistReconstruction signals) ++
        gated switches switches.prePass (prePass signals)).map under ++ cs) := by
  have houtputs : (plain switches (hitDistReconstruction signals)).under.outputs =
      signals.map fun t => if switches.prePass then t.tmp1 else t.tmp2 := by
    simp [under, plain, hitDistReconstruction, Specialization.has_select, Switches.holds]
  refine covered_handover (signals.map (·.tmp1)) (signals.map (·.tmp2)) htiles
    (fun more htiles => fed_hitDistReconstruction hl htiles) (fun more htiles hmiddle => ?_)
    (fun he => ?_) (fun he => ?_) (List.Subset.refl _) fun more htiles hready => ?_
  · exact fed_prePass hl htiles fun hd t ht => hmiddle hd (List.mem_map_of_mem ht)
  · simp [houtputs, he]
  · simp [houtputs, he]
  · exact h more htiles fun hrun t ht => hready hrun (List.mem_map_of_mem ht)

theorem covered (stabilizes : Bool) (hl : ∀ t ∈ signals, t.Lasting)
    (h : switches.isPassthrough = false) :
    Covered written ((Emission.all Pass.stage (passes stabilizes signals) switches).map under) := by
  rw [all_passes stabilizes signals h]
  simp only [path, List.map_cons, List.map_append, List.map_nil, List.append_assoc,
    List.cons_append]
  refine ⟨fun r hr ht => ?_, ?_⟩
  · obtain rfl : r = .input .viewZ := List.mem_singleton.mp hr
    cases ht
  rw [← List.append_assoc, ← List.map_append]
  refine covered_preparation hl List.mem_cons_self fun more htiles htmp2 => ?_
  refine ⟨fed_temporalAccumulation stabilizes hl htiles htmp2, fed_historyFix ?_ ?_ ?_ ?_, ?_⟩
  · exact List.mem_append_right _ htiles
  · exact List.mem_append_left _ (List.mem_append_right _ (by simp))
  · exact fun t ht => List.mem_append_left _ (List.mem_append_left _
      (List.mem_flatMap.mpr ⟨t, ht, by simp⟩))
  · exact fun t ht => List.mem_append_left _ (List.mem_append_left _
      (List.mem_flatMap.mpr ⟨t, ht, by simp⟩))
  -- with the fixed history everything is there
  refine covered_of_fed fun b hb => ?_
  have hready : Ready signals ((plain switches (historyFix signals)).under.outputs ++
      ((plain switches (temporalAccumulation stabilizes signals)).under.outputs ++ more)) := by
    constructor <;>
      simp only [under, plain, historyFix, temporalAccumulation, List.mem_append, List.mem_flatMap,
        List.mem_cons] <;> grind
  have hlast : ∃ pass ∈ [blur signals, postBlur stabilizes signals, temporalStabilization signals,
      splitScreen signals, validation signals], b = (plain switches pass).under := by
    simp only [rest, List.map_append, List.mem_cons, List.mem_append, List.mem_map,
      List.not_mem_nil, false_or] at hb
    rcases hb with rfl | rfl | ⟨em, hem, rfl⟩ | ⟨em, hem, rfl⟩ | ⟨em, hem, rfl⟩
    · exact ⟨blur signals, by simp, rfl⟩
    · exact ⟨postBlur stabilizes signals, by simp, rfl⟩
    · obtain ⟨-, rfl⟩ := mem_gated hem
      exact ⟨temporalStabilization signals, by simp, rfl⟩
    · obtain ⟨-, rfl⟩ := mem_gated hem
      exact ⟨splitScreen signals, by simp, rfl⟩
    · obtain ⟨-, rfl⟩ := mem_gated hem
      exact ⟨validation signals, by simp, rfl⟩
  obtain ⟨pass, hpass, rfl⟩ := hlast
  exact hready.fed hl hpass

end Reblur

namespace Relax

-- The textures of a signal outside the transient pool.
structure SignalTextures.Lasting (t : SignalTextures) : Prop where
  input : t.input.transient? = none
  confidence : t.confidence.transient? = none
  illuminationPrev : t.illuminationPrev.transient? = none
  responsivePrev : t.responsivePrev.transient? = none

theorem lasting_of_mem {signals : Signals} {t : SignalTextures} (h : t ∈ textures signals) :
    t.Lasting := by
  obtain ⟨i, hi, rfl⟩ := List.mem_mapIdx.mp h
  exact ⟨rfl, rfl, rfl, rfl⟩

-- All transient textures of the denoiser have been written.
structure Ready (signals : List SignalTextures) (written : List Reference) : Prop where
  tiles : tiles ∈ written
  tmp : ∀ t ∈ signals, t.tmp ∈ written
  ping : ∀ t ∈ signals, t.ping ∈ written
  pong : ∀ t ∈ signals, t.pong ∈ written

variable {signals : List SignalTextures}

theorem fed_hitDistReconstruction (hl : ∀ t ∈ signals, t.Lasting) (htiles : tiles ∈ written) :
    (plain switches (hitDistReconstruction signals)).under.Fed written := by
  intro r hr ht
  simp only [under, plain, hitDistReconstruction, List.mem_append, List.mem_map, List.mem_cons]
    at hr
  grind [Reference.transient?, SignalTextures.Lasting, Reference.input]

theorem fed_prePass (hl : ∀ t ∈ signals, t.Lasting) (htiles : tiles ∈ written)
    (htmp : switches.hitDistReconstruction = true → ∀ t ∈ signals, t.tmp ∈ written) :
    (plain switches (prePass signals)).under.Fed written := by
  intro r hr ht
  simp only [under, plain, prePass, List.mem_append, List.mem_map, List.mem_cons,
    Specialization.has_select] at hr
  grind [Reference.transient?, SignalTextures.Lasting, Reference.input, Switches.holds]

theorem fed_temporalAccumulation (hl : ∀ t ∈ signals, t.Lasting) (htiles : tiles ∈ written)
    (hping : switches.prePass = true ∨ switches.hitDistReconstruction = true →
      ∀ t ∈ signals, t.ping ∈ written) :
    (plain switches (temporalAccumulation signals)).under.Fed written := by
  intro r hr ht
  simp only [under, plain, temporalAccumulation, List.mem_append, List.mem_flatMap, List.mem_cons,
    Specialization.has_select] at hr
  rcases hr with (hr | hr) | ⟨t, hmem, hr | hr⟩
  · grind [Reference.transient?, Reference.input, normalRoughnessPrev, viewZPrev,
      historyLengthPrev]
  · grind [Reference.transient?, Reference.input]
  · grind [Reference.transient?, SignalTextures.Lasting]
  · grind [Reference.transient?, SignalTextures.Lasting, Switches.holds]

theorem fed_historyFix (htiles : tiles ∈ written) (htmp : ∀ t ∈ signals, t.tmp ∈ written) :
    (plain switches (historyFix signals)).under.Fed written := by
  intro r hr ht
  simp only [under, plain, historyFix, guides, List.mem_append, List.mem_map, List.mem_cons] at hr
  grind [Reference.transient?, Reference.input, historyLength]

theorem fed_splitScreen (hl : ∀ t ∈ signals, t.Lasting) (s : Specialization) :
    ((splitScreen signals).bindings s).Fed written := by
  intro r hr ht
  simp only [splitScreen, List.mem_map, List.mem_cons] at hr
  grind [Reference.transient?, Reference.input, SignalTextures.Lasting]

-- Once everything has been written, a pass may read what it likes.
theorem Ready.fed (h : Ready signals written) (hl : ∀ t ∈ signals, t.Lasting) {pass : Pass}
    (hpass : pass ∈ [historyClamping signals, copy signals, antiFirefly signals,
      atrousFirst signals, atrous signals, atrousLast signals, splitScreen signals,
      validation signals]) (active : Condition → Bool) (step : Option AtrousIteration) :
    (Emission.mk pass active step).under.Fed written := by
  intro r hr ht
  have htiles := h.tiles
  have htmp := h.tmp
  have hping := h.ping
  have hpong := h.pong
  simp only [List.mem_cons, List.not_mem_nil, or_false] at hpass
  rcases hpass with rfl | rfl | rfl | rfl | rfl | rfl | rfl | rfl <;>
    simp only [under, historyClamping, copy, antiFirefly, atrousFirst, atrous, atrousLast,
      splitScreen, validation, guides, List.mem_append, List.mem_map, List.mem_flatMap,
      List.mem_cons] at hr <;>
    grind [Reference.transient?, Reference.input, historyLength, SignalTextures.Lasting]

-- The optional passes before temporal accumulation hand over to one another and to it.
theorem covered_preparation (hl : ∀ t ∈ signals, t.Lasting) (htiles : tiles ∈ written)
    {cs : List Bindings}
    (h : ∀ more, tiles ∈ more → (switches.prePass = true ∨ switches.hitDistReconstruction = true →
      ∀ t ∈ signals, t.ping ∈ more) → Covered more cs) :
    Covered written
      ((gated switches switches.hitDistReconstruction (hitDistReconstruction signals) ++
        gated switches switches.prePass (prePass signals)).map under ++ cs) := by
  have houtputs : (plain switches (hitDistReconstruction signals)).under.outputs =
      signals.map fun t => if switches.prePass then t.tmp else t.ping := by
    simp [under, plain, hitDistReconstruction, Specialization.has_select, Switches.holds]
  refine covered_handover (signals.map (·.tmp)) (signals.map (·.ping)) htiles
    (fun more htiles => fed_hitDistReconstruction hl htiles) (fun more htiles hmiddle => ?_)
    (fun he => ?_) (fun he => ?_) (List.Subset.refl _) fun more htiles hready => ?_
  · exact fed_prePass hl htiles fun hd t ht => hmiddle hd (List.mem_map_of_mem ht)
  · simp [houtputs, he]
  · simp [houtputs, he]
  · exact h more htiles fun hrun t ht => hready hrun (List.mem_map_of_mem ht)

theorem covered (hl : ∀ t ∈ signals, t.Lasting) (h : switches.isPassthrough = false) :
    Covered written ((Emission.all Pass.stage (passes signals) switches).map under) := by
  rw [all_passes signals h]
  simp only [path, List.map_cons, List.map_append, List.map_nil, List.append_assoc,
    List.cons_append]
  refine ⟨fun r hr ht => ?_, ?_⟩
  · obtain rfl : r = .input .viewZ := List.mem_singleton.mp hr
    cases ht
  rw [← List.append_assoc, ← List.map_append]
  refine covered_preparation hl List.mem_cons_self fun more htiles hping => ?_
  refine ⟨fed_temporalAccumulation hl htiles hping, fed_historyFix ?_ ?_, ?_⟩
  · exact List.mem_append_right _ htiles
  · exact fun t ht => List.mem_append_left _ (List.mem_append_left _
      (List.mem_flatMap.mpr ⟨t, ht, by simp⟩))
  -- with the fixed history everything is there, whatever the A-trous steps take
  refine covered_of_fed fun b hb => ?_
  have hready : Ready signals ((plain switches (historyFix signals)).under.outputs ++
      ((plain switches (temporalAccumulation signals)).under.outputs ++ more)) := by
    constructor <;>
      simp only [under, plain, historyFix, temporalAccumulation, List.mem_append, List.mem_flatMap,
        List.mem_map, List.mem_cons] <;> grind
  simp only [rest, steps, List.map_append, List.mem_cons, List.mem_append, List.mem_map,
    List.not_mem_nil, false_or] at hb
  rcases hb with rfl | rfl | ⟨em, hem, rfl⟩ | ⟨em, ⟨i, -, rfl⟩, rfl⟩ | ⟨em, hem, rfl⟩ |
    ⟨em, hem, rfl⟩
  · exact hready.fed hl (by simp) _ _
  · exact hready.fed hl (by simp) _ _
  · obtain ⟨-, rfl⟩ := mem_gated hem
    exact hready.fed hl (by simp) _ _
  · refine hready.fed hl ?_ _ _
    split
    · simp
    · split <;> simp
  · obtain ⟨-, rfl⟩ := mem_gated hem
    exact hready.fed hl (by simp) _ _
  · obtain ⟨-, rfl⟩ := mem_gated hem
    exact hready.fed hl (by simp) _ _

end Relax

namespace Sigma

theorem transient?_of_mem_inputs {translucency : Bool} {r : Reference}
    (hr : r ∈ inputs translucency) : r.transient? = none := by
  unfold inputs at hr
  grind [Reference.transient?, Reference.input]

theorem fed_postBlur (hdata1 : data1 ∈ written) (htemp1 : temp1 ∈ written)
    (htiles : smoothTiles ∈ written) : (plain switches postBlur).under.Fed written := by
  intro r hr ht
  simp only [under, plain, postBlur, List.mem_cons] at hr
  grind [Reference.transient?, Reference.input]

theorem fed_temporalStabilization (hdata1 : data1 ∈ written) (htemp2 : temp2 ∈ written)
    (htiles : smoothTiles ∈ written) :
    (plain switches temporalStabilization).under.Fed written := by
  intro r hr ht
  simp only [under, plain, temporalStabilization, List.mem_cons] at hr
  grind [Reference.transient?, Reference.input, historyPrev]

theorem covered (translucency : Bool) (h : switches.isPassthrough = false) :
    Covered written ((Emission.all Pass.stage (passes translucency) switches).map under) := by
  rw [all_passes translucency h]
  simp only [path, List.map_cons, List.map_append, List.cons_append, List.nil_append]
  refine ⟨fun r hr ht => ?_, fun r hr _ => ?_, fun r hr ht => ?_, fed_postBlur ?_ ?_ ?_, ?_⟩
  · simp [transient?_of_mem_inputs hr] at ht
  · obtain rfl : r = tiles := List.mem_singleton.mp hr
    exact List.mem_append_left _ List.mem_cons_self
  · simp only [under, plain, blur, List.mem_append, List.mem_singleton] at hr
    rcases hr with (rfl | hr) | rfl
    · cases ht
    · simp [transient?_of_mem_inputs hr] at ht
    · exact List.mem_append_left _ List.mem_cons_self
  · exact List.mem_append_left _ (by simp [under, plain, blur])
  · exact List.mem_append_left _ (by simp [under, plain, blur])
  · exact List.mem_append_right _ (List.mem_append_left _ List.mem_cons_self)
  refine covered_of_fed fun b hb => ?_
  simp only [List.mem_append, List.mem_map] at hb
  rcases hb with ⟨em, hem, rfl⟩ | ⟨em, hem, rfl⟩
  · obtain ⟨hstabilizes, rfl⟩ := mem_gated hem
    refine fed_temporalStabilization ?_ (List.mem_append_left _ ?_) ?_
    · exact List.mem_append_right _ (List.mem_append_left _ (by simp [under, plain, blur]))
    · simp [under, plain, postBlur, Specialization.has_select, Switches.holds, hstabilizes]
    · exact List.mem_append_right _ (List.mem_append_right _ (List.mem_append_left _
        List.mem_cons_self))
  · obtain ⟨-, rfl⟩ := mem_gated hem
    intro r hr ht
    simp [transient?_of_mem_inputs hr] at ht

end Sigma

namespace Averaging

-- No transient texture is read at all.
theorem covered (h : switches.isPassthrough = false) :
    Covered written ((Emission.all Pass.stage passes switches).map under) := by
  rw [all_passes h]
  refine covered_of_fed fun b hb r hr ht => ?_
  simp only [path, List.map_append, List.map_cons, List.map_nil, List.mem_append, List.mem_cons,
    List.mem_map, List.not_mem_nil, or_false] at hb
  rcases hb with (rfl | rfl) | ⟨em, hem, rfl⟩
  · simp only [under, plain, temporalAccumulation, List.mem_cons] at hr
    grind [Reference.transient?, Reference.input, historyPrev]
  · obtain rfl : r = history := List.mem_singleton.mp hr
    cases ht
  · obtain ⟨-, rfl⟩ := mem_gated hem
    obtain rfl : r = .input .signal := List.mem_singleton.mp hr
    cases ht

end Averaging

namespace Blueprint

-- The clears of the permanent textures.
def clearing (b : Blueprint) : List Pass :=
  b.permanent.mapIdx fun i texture => .clear (.permanent i) texture

theorem stage_of_mem_clearing {b : Blueprint} {pass : Pass} (h : pass ∈ b.clearing) :
    pass.stage = .clear := by
  obtain ⟨i, hi, rfl⟩ := List.mem_mapIdx.mp h
  rfl

theorem inputs_of_mem_clearing {b : Blueprint} {pass : Pass} (h : pass ∈ b.clearing)
    (s : Specialization) : (pass.bindings s).inputs = [] := by
  obtain ⟨i, hi, rfl⟩ := List.mem_mapIdx.mp h
  rfl

theorem map_pass_schedule (b : Blueprint) :
    b.schedule.map ScheduledPass.pass = b.clearing ++ b.passes := by
  rw [schedule, clearing, List.map_append, List.map_map]
  congr 1
  · refine List.ext_getElem? fun i => ?_
    rw [List.getElem?_map, List.getElem?_mapIdx, List.getElem?_mapIdx, Option.map_map]
    rfl
  · exact List.map_id _

end Blueprint

namespace Variant

-- Every variant writes its transient textures before it reads them.
theorem covered (v : Variant) (h : switches.isPassthrough = false) :
    Covered written ((Emission.all Pass.stage v.blueprint.passes switches).map under) := by
  cases v with
  | reference => exact Averaging.covered h
  | sigmaShadow | sigmaShadowTranslucency => exact Sigma.covered _ h
  | relaxDiffuse | relaxSpecular | relaxDiffuseSpecular =>
    exact Relax.covered (fun _ => Relax.lasting_of_mem) h
  | _ => exact Reblur.covered _ (fun _ => Reblur.lasting_of_mem) h

-- The split screen reads nothing but textures of the host.
theorem fed_splitScreen (v : Variant) {pass : Pass}
    (h : v.blueprint.passes.find? (·.stage == .splitScreen) = some pass) (s : Specialization) :
    (pass.bindings s).Fed written := by
  cases v with
  | reference =>
    obtain rfl : Averaging.splitScreen = pass := Option.some.inj h
    intro r hr ht
    obtain rfl : r = .input .signal := List.mem_singleton.mp hr
    cases ht
  | sigmaShadow | sigmaShadowTranslucency =>
    obtain rfl : Sigma.splitScreen _ = pass := Option.some.inj h
    intro r hr ht
    simp [Sigma.transient?_of_mem_inputs hr] at ht
  | relaxDiffuse | relaxSpecular | relaxDiffuseSpecular =>
    obtain rfl : Relax.splitScreen _ = pass := Option.some.inj h
    exact Relax.fed_splitScreen (fun _ => Relax.lasting_of_mem) s
  | _ =>
    obtain rfl : Reblur.splitScreen _ = pass := Option.some.inj h
    exact Reblur.fed_splitScreen (fun _ => Reblur.lasting_of_mem) s

end Variant

namespace DenoiserState

-- The emissions of a frame without the defines of their denoiser.
theorem map_pass_emissions (d : DenoiserState) (s : FrameSettings) :
    (d.emissions s).map (Emission.map ScheduledPass.pass) =
      Emission.all Pass.stage (d.variant.blueprint.clearing ++ d.variant.blueprint.passes)
        (d.switches s) := by
  rw [← Blueprint.map_pass_schedule, Emission.all_map]
  rfl

-- A frame reads no transient texture that it has not written.
theorem covered (d : DenoiserState) (s : FrameSettings) :
    Covered [] ((d.emissions s).map Emission.bindings) := by
  have hbindings : (d.emissions s).map Emission.bindings =
      ((d.emissions s).map (Emission.map ScheduledPass.pass)).map under := by
    rw [List.map_map]
    rfl
  have hclear : ∀ pass ∈ d.variant.blueprint.clearing, pass.stage = .clear :=
    fun _ => Blueprint.stage_of_mem_clearing
  rw [hbindings, d.map_pass_emissions]
  cases hpassthrough : (d.switches s).isPassthrough with
  | true =>
    refine covered_of_fed fun b hb => ?_
    rw [Emission.all, hpassthrough, if_pos rfl, passthrough,
      find?_append_of_clear hclear _ (by decide)] at hb
    obtain ⟨em, hem, rfl⟩ := List.mem_map.mp hb
    obtain ⟨pass, hfind, rfl⟩ := Option.map_eq_some_iff.mp (Option.mem_toList.mp hem)
    exact d.variant.fed_splitScreen hfind _
  | false =>
    rw [all_append_of_clear hclear hpassthrough, List.map_append]
    refine covered_append (covered_of_fed fun b hb r hr => ?_) fun more _ _ =>
      d.variant.covered hpassthrough
    obtain ⟨em, hem, rfl⟩ := List.mem_map.mp hb
    obtain ⟨pass, hpass, hgated⟩ := List.mem_flatMap.mp hem
    obtain ⟨-, rfl⟩ := mem_gated hgated
    simp [under, plain, Blueprint.inputs_of_mem_clearing hpass] at hr

end DenoiserState

end DenoisePlanner
