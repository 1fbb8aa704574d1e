import DenoisePlanner.Proofs.Coverage
import DenoisePlanner.Proofs.Route

namespace DenoisePlanner

-- What a signal is read from, where it is kept on its way, and what it is written to.
structure Way where
  inputs : List HostInput
  carriers : List Reference
  output : HostOutput

-- The way of a signal through some stages, with references led to wherever `f` says.
def Way.route {τ : Type} (w : Way) (stages : List Stage) (f : Reference → τ) :
    Route (Emission Pass) τ where
  main em := stages.contains em.pass.stage = true
  reads em := em.under.inputs.map f
  writes em := em.under.outputs.map f
  carriers := w.carriers.map f
  output := f (.output w.output)

open Emission

variable {τ : Type} {w : Way} {stages : List Stage} {f : Reference → τ} {em : Emission Pass}
  {ems : List (Emission Pass)} {r c : Reference} {switches : Switches}

namespace Way

theorem carries_step (hmain : stages.contains em.pass.stage = true) (hr : r ∈ em.under.inputs)
    (hcarrier : c ∈ w.carriers) (hc : c ∈ em.under.outputs)
    (h : (w.route stages f).Carries [f c] ems) : (w.route stages f).Carries [f r] (em :: ems) :=
  .step hmain (by simpa [route] using ⟨r, hr, rfl⟩) (List.mem_map_of_mem hcarrier)
    (List.mem_map_of_mem hc) h

theorem carries_last (hmain : stages.contains em.pass.stage = true) (hr : r ∈ em.under.inputs)
    (houtput : .output w.output ∈ em.under.outputs)
    (h : ∀ em' ∈ ems, stages.contains em'.pass.stage = false) :
    (w.route stages f).Carries [f r] (em :: ems) :=
  .last hmain (by simpa [route] using ⟨r, hr, rfl⟩) (List.mem_map_of_mem houtput)
    fun em' hem' => by simpa [route] using h em' hem'

-- Two optional passes hand over to one another and to what follows. The first leaves the signal
-- where the second will look for it or, without the second, where that would have left it.
theorem carries_preparation {first second : Pass} {input between result : Reference}
    (hfirst : stages.contains first.stage = true) (hsecond : stages.contains second.stage = true)
    (hbetween : between ∈ w.carriers) (hresult : result ∈ w.carriers)
    (hreads : input ∈ (plain switches first).under.inputs)
    (hwrites : (if switches.prePass then between else result) ∈
      (plain switches first).under.outputs)
    (hreads' : (if switches.hitDistReconstruction then between else input) ∈
      (plain switches second).under.inputs)
    (hwrites' : result ∈ (plain switches second).under.outputs)
    (h : (w.route stages f).Carries
      [f (if switches.prePass || switches.hitDistReconstruction then result else input)] ems) :
    (w.route stages f).Carries [f input]
      (gated switches switches.hitDistReconstruction first ++
        gated switches switches.prePass second ++ ems) := by
  cases hd : switches.hitDistReconstruction <;> cases hp : switches.prePass <;>
    simp only [gated, if_true, if_false, Bool.false_eq_true, List.append_nil, List.nil_append,
      List.cons_append, hd, hp, Bool.or_false, Bool.or_true] at h hwrites hreads' ⊢
  · exact h
  · exact carries_step hsecond hreads' hresult hwrites' h
  · exact carries_step hfirst hreads hresult hwrites h
  · exact carries_step hfirst hreads hbetween hwrites
      (carries_step hsecond hreads' hresult hwrites' h)

end Way

namespace Reblur

def mainPath : List Stage :=
  [.hitDistReconstruction, .prePass, .temporalAccumulation, .historyFix, .blur, .postBlur,
    .temporalStabilization]

def way (signals : Signals) (position : Nat) (channel : Channel) : Way :=
  let t := SignalTextures.of signals.occlusion channel position
  { inputs := [if signals.occlusion then channel.hitDistance else channel.radiance]
    carriers := [t.tmp1, t.tmp2, t.history]
    output := if signals.occlusion then channel.hitDistanceOutput else channel.radianceOutput }

def ways (signals : Signals) : List Way := signals.channels.mapIdx (way signals)

-- A way of one of the signals.
structure Serves (w : Way) (t : SignalTextures) : Prop where
  inputs : w.inputs.map Reference.input = [t.input]
  carriers : w.carriers = [t.tmp1, t.tmp2, t.history]
  output : Reference.output w.output = t.output

theorem exists_serves {signals : Signals} (hw : w ∈ ways signals) :
    ∃ t ∈ textures signals, Serves w t := by
  obtain ⟨i, hi, rfl⟩ := List.mem_mapIdx.mp hw
  exact ⟨_, List.mem_mapIdx.mpr ⟨i, hi, rfl⟩, rfl, rfl, rfl⟩

variable {signals : List SignalTextures} {t : SignalTextures}

theorem not_mainPath_of_mem_rest (hem : em ∈ rest signals switches) :
    mainPath.contains em.pass.stage = false := by
  rcases List.mem_append.mp hem with hem | hem
  · obtain ⟨-, rfl⟩ := mem_gated hem
    rfl
  · obtain ⟨-, rfl⟩ := mem_gated hem
    rfl

-- The last blur fills the output itself unless a stabilization follows.
theorem carries_finish (stabilizes : Bool) (ht : t ∈ signals) (hw : Serves w t) :
    (w.route mainPath f).Carries [f t.tmp1]
      (plain switches (postBlur stabilizes signals) ::
        (gated switches (stabilizes && switches.temporalStabilization)
          (temporalStabilization signals) ++ rest signals switches)) := by
  have hreads : t.tmp1 ∈ (plain switches (postBlur stabilizes signals)).under.inputs :=
    List.mem_append_right _ (List.mem_map_of_mem ht)
  have hhas : (Specialization.select (postBlur stabilizes signals).conditions switches.holds).has
      .temporalStabilization = (stabilizes && switches.temporalStabilization) := by
    cases stabilizes <;> simp [Specialization.has_select, postBlur, Switches.holds]
  cases h : stabilizes && switches.temporalStabilization with
  | true =>
    have hhistory : t.history ∈ (plain switches (postBlur stabilizes signals)).under.outputs :=
      List.mem_append_right _ (List.mem_flatMap.mpr ⟨t, ht, List.mem_cons_self⟩)
    refine Way.carries_step rfl hreads (by simp [hw.carriers]) hhistory
      (Way.carries_last rfl ?_ ?_ ?_)
    · exact List.mem_append_right _ (List.mem_flatMap.mpr ⟨t, ht, List.mem_cons_self⟩)
    · rw [hw.output]
      exact List.mem_flatMap.mpr ⟨t, ht, List.mem_cons_self⟩
    · exact fun em hem => not_mainPath_of_mem_rest hem
  | false =>
    refine Way.carries_last rfl hreads ?_ fun em hem => not_mainPath_of_mem_rest hem
    rw [hw.output]
    refine List.mem_append_right _ (List.mem_flatMap.mpr ⟨t, ht, ?_⟩)
    simp only [plain, hhas, h]
    simp

theorem carries (stabilizes : Bool) (ht : t ∈ signals) (hw : Serves w t) :
    (w.route mainPath f).Carries [f t.input]
      (path stabilizes signals switches ++ rest signals switches) := by
  have htmp1 : t.tmp1 ∈ w.carriers := by simp [hw.carriers]
  have htmp2 : t.tmp2 ∈ w.carriers := by simp [hw.carriers]
  rw [path]
  simp only [List.append_assoc, List.cons_append, List.nil_append]
  rw [← List.append_assoc]
  refine Way.carries_preparation rfl rfl htmp1 htmp2 ?_ ?_ ?_ ?_ ?_
  · exact List.mem_append_right _ (List.mem_map_of_mem ht)
  · refine List.mem_map.mpr ⟨t, ht, ?_⟩
    simp [plain, Specialization.has_select, Switches.holds, hitDistReconstruction]
  · refine List.mem_append_right _ (List.mem_map.mpr ⟨t, ht, ?_⟩)
    simp [plain, Specialization.has_select, Switches.holds, prePass]
  · exact List.mem_map_of_mem ht
  -- accumulation, history fix and blur move the signal from one temporary texture to the other
  refine Way.carries_step rfl ?_ htmp1 ?_ (Way.carries_step rfl ?_ htmp2 ?_
    (Way.carries_step rfl ?_ htmp1 ?_ (carries_finish stabilizes ht hw)))
  · refine List.mem_append_right _ (List.mem_flatMap.mpr ⟨t, ht, ?_⟩)
    simp [plain, Specialization.has_select, Switches.holds, temporalAccumulation]
  · exact List.mem_append_left _ (List.mem_flatMap.mpr ⟨t, ht, by simp⟩)
  · exact List.mem_append_right _ (List.mem_flatMap.mpr ⟨t, ht, by simp⟩)
  · exact List.mem_flatMap.mpr ⟨t, ht, by simp⟩
  · exact List.mem_append_right _ (List.mem_map_of_mem ht)
  · exact List.mem_append_left _ (List.mem_map_of_mem ht)

end Reblur

namespace Relax

def mainPath : List Stage :=
  [.hitDistReconstruction, .prePass, .temporalAccumulation, .historyFix, .historyClamping,
    .antiFirefly, .atrousFirst, .atrous, .atrousLast]

def way (position : Nat) (channel : Channel) : Way :=
  let t := SignalTextures.of channel position
  { inputs := [channel.radiance]
    carriers := [t.ping, t.pong, t.tmp]
    output := channel.radianceOutput }

def ways (signals : Signals) : List Way := signals.channels.mapIdx way

-- A way of one of the signals.
structure Serves (w : Way) (t : SignalTextures) : Prop where
  inputs : w.inputs.map Reference.input = [t.input]
  carriers : w.carriers = [t.ping, t.pong, t.tmp]
  output : Reference.output w.output = t.output

theorem exists_serves {signals : Signals} (hw : w ∈ ways signals) :
    ∃ t ∈ textures signals, Serves w t := by
  obtain ⟨i, hi, rfl⟩ := List.mem_mapIdx.mp hw
  exact ⟨_, List.mem_mapIdx.mpr ⟨i, hi, rfl⟩, rfl, rfl, rfl⟩

variable {signals : List SignalTextures} {t : SignalTextures}

theorem not_mainPath_of_mem_rest (hem : em ∈ rest signals switches) :
    mainPath.contains em.pass.stage = false := by
  rcases List.mem_append.mp hem with hem | hem
  · obtain ⟨-, rfl⟩ := mem_gated hem
    rfl
  · obtain ⟨-, rfl⟩ := mem_gated hem
    rfl

-- Where A-trous step `i` finds the signal, unless it is the first.
def SignalTextures.before (t : SignalTextures) (i : Nat) : Reference :=
  if i % 2 == 1 then t.pong else t.ping

theorem before_mem_carriers (hw : Serves w t) (i : Nat) : t.before i ∈ w.carriers := by
  rw [hw.carriers, SignalTextures.before]
  split <;> simp

theorem has_fromPong (i : Nat) :
    (Specialization.select [.fromPong] (Selected.atrousHolds switches i)).has .fromPong =
      (i % 2 == 1) := by
  simp [Specialization.has_select, Selected.atrousHolds]

theorem before_mem_inputs (ht : t ∈ signals) {i : Nat} (hi : i ≠ 0) :
    t.before i ∈ (step signals switches i).under.inputs := by
  have hpass : (step signals switches i).under.inputs =
      guides ++ signals.map fun t => t.before i := by
    unfold under step
    rw [if_neg hi]
    split <;> simp only [atrousLast, atrous, has_fromPong] <;> rfl
  rw [hpass]
  exact List.mem_append_right _ (List.mem_map_of_mem ht)

theorem before_mem_outputs (ht : t ∈ signals) {i : Nat} (hi : i ≠ 0)
    (hlast : i + 1 ≠ switches.atrousCount) :
    t.before (i + 1) ∈ (step signals switches i).under.outputs := by
  have hpass : (step signals switches i).under.outputs = signals.map fun t => t.before (i + 1) := by
    unfold under step
    rw [if_neg hi, if_neg hlast]
    simp only [atrous, has_fromPong, SignalTextures.before]
    refine List.map_congr_left fun t _ => ?_
    rcases Nat.mod_two_eq_zero_or_one i with h | h <;> simp [Nat.add_mod, h]
  rw [hpass]
  exact List.mem_map_of_mem ht

theorem output_mem_outputs (ht : t ∈ signals) {i : Nat} (hi : i ≠ 0)
    (hlast : i + 1 = switches.atrousCount) :
    t.output ∈ (step signals switches i).under.outputs := by
  unfold under step
  rw [if_neg hi, if_pos hlast]
  exact List.mem_map_of_mem ht

theorem mainPath_step (i : Nat) : mainPath.contains (step signals switches i).pass.stage = true := by
  unfold step
  split
  · rfl
  · split <;> rfl

-- By induction on the steps left: each finds the signal where the one before it left it.
theorem carries_steps (ht : t ∈ signals) (hw : Serves w t) (k : Nat) {i : Nat} (hi : i ≠ 0)
    (hcount : i + k + 1 = switches.atrousCount) :
    (w.route mainPath f).Carries [f (t.before i)]
      ((List.range' i (k + 1)).map (step signals switches) ++ rest signals switches) := by
  induction k generalizing i with
  | zero =>
    refine Way.carries_last (mainPath_step i) (before_mem_inputs ht hi) ?_
      fun em hem => not_mainPath_of_mem_rest hem
    exact hw.output ▸ output_mem_outputs ht hi hcount
  | succ k ih =>
    rw [List.range'_succ, List.map_cons, List.cons_append]
    exact Way.carries_step (mainPath_step i) (before_mem_inputs ht hi)
      (before_mem_carriers hw (i + 1)) (before_mem_outputs ht hi (by omega))
      (ih (Nat.succ_ne_zero i) (by omega))

theorem steps_eq : steps signals switches = step signals switches 0 ::
    (List.range' 1 (switches.atrousCount - 2 + 1)).map (step signals switches) := by
  have hcount : switches.atrousCount = switches.atrousCount - 2 + 1 + 1 := by
    have := switches.two_le_atrousCount
    omega
  rw [steps, List.range_eq_range', hcount, List.range'_succ, List.map_cons]
  rfl

theorem carries (ht : t ∈ signals) (hw : Serves w t)
    (hcopy : ∀ r ∈ (plain switches (copy signals)).under.outputs, f r ≠ f t.tmp) :
    (w.route mainPath f).Carries [f t.input]
      (path signals switches ++ steps signals switches ++ rest signals switches) := by
  have htmp : t.tmp ∈ w.carriers := by simp [hw.carriers]
  have hping : t.ping ∈ w.carriers := by simp [hw.carriers]
  have hcount : 1 + (switches.atrousCount - 2) + 1 = switches.atrousCount := by
    have := switches.two_le_atrousCount
    omega
  rw [path, steps_eq]
  simp only [List.append_assoc, List.cons_append, List.nil_append]
  rw [← List.append_assoc]
  refine Way.carries_preparation rfl rfl htmp hping ?_ ?_ ?_ ?_ ?_
  · exact List.mem_append_right _ (List.mem_map_of_mem ht)
  · refine List.mem_map.mpr ⟨t, ht, ?_⟩
    simp [plain, Specialization.has_select, Switches.holds, hitDistReconstruction]
  · refine List.mem_append_right _ (List.mem_map.mpr ⟨t, ht, ?_⟩)
    simp [plain, Specialization.has_select, Switches.holds, prePass]
  · exact List.mem_map_of_mem ht
  -- accumulation, history fix and clamping, and a copy that leaves the signal where it is
  refine Way.carries_step rfl ?_ htmp ?_ (Way.carries_step rfl ?_ hping ?_
    (Way.carries_step rfl ?_ htmp ?_ (.skip (by simp [Way.route, mainPath, plain, copy]) ?_ ?_)))
  · refine List.mem_append_right _ (List.mem_flatMap.mpr ⟨t, ht, ?_⟩)
    simp [plain, Specialization.has_select, Switches.holds, temporalAccumulation]
  · exact List.mem_append_left _ (List.mem_flatMap.mpr ⟨t, ht, by simp⟩)
  · exact List.mem_append_right _ (List.mem_map_of_mem ht)
  · exact List.mem_map_of_mem ht
  · exact List.mem_append_right _ (List.mem_flatMap.mpr ⟨t, ht, by simp⟩)
  · exact List.mem_flatMap.mpr ⟨t, ht, by simp⟩
  · intro p hp hwrites
    obtain rfl := List.mem_singleton.mp hp
    obtain ⟨r, hr, heq⟩ := List.mem_map.mp hwrites
    exact hcopy r hr heq
  -- the first A-trous step knows whether the firefly filter has moved the signal
  have hfirst : (w.route mainPath f).Carries
      [f (if switches.antiFirefly then t.ping else t.tmp)]
      (step signals switches 0 :: ((List.range' 1 (switches.atrousCount - 2 + 1)).map
        (step signals switches) ++ rest signals switches)) := by
    refine Way.carries_step rfl ?_ (before_mem_carriers hw 1) (List.mem_map_of_mem ht)
      (carries_steps ht hw _ (by decide) hcount)
    refine List.mem_append_right _ (List.mem_map.mpr ⟨t, ht, ?_⟩)
    simp [step, Specialization.has_select, Selected.atrousHolds, Switches.holds, atrousFirst]
  cases hfirefly : switches.antiFirefly with
  | true =>
    rw [hfirefly] at hfirst
    refine Way.carries_step rfl ?_ hping (List.mem_map_of_mem ht) hfirst
    exact List.mem_append_right _ (List.mem_map_of_mem ht)
  | false =>
    rw [hfirefly] at hfirst
    exact hfirst

end Relax

namespace Sigma

def mainPath : List Stage := [.blur, .postBlur, .temporalStabilization]

def way (translucency : Bool) : Way where
  inputs := .penumbra :: if translucency then [.translucency] else []
  carriers := [temp1, temp2]
  output := .shadowTranslucency

theorem carries (translucency : Bool) :
    ((way translucency).route mainPath f).Carries ((inputs translucency).map f)
      (path translucency switches ++
        gated switches (decide (0 < switches.splitScreen)) (splitScreen translucency)) := by
  have hrest (em : Emission Pass)
      (hem : em ∈ gated switches (decide (0 < switches.splitScreen)) (splitScreen translucency)) :
      mainPath.contains em.pass.stage = false := by
    obtain ⟨-, rfl⟩ := mem_gated hem
    rfl
  have hblur : (inputs translucency).map f ⊆
      ((way translucency).route mainPath f).reads (plain switches (blur translucency)) := by
    refine List.map_subset f fun r hr => ?_
    simp [under, plain, blur, hr]
  have hread : temp1 ∈ (plain switches postBlur).under.inputs := by simp [under, plain, postBlur]
  have hwrite : (if switches.temporalStabilization then temp2 else .output .shadowTranslucency) ∈
      (plain switches postBlur).under.outputs := by
    simp [under, plain, postBlur, Specialization.has_select, Switches.holds]
  rw [path]
  refine .step rfl hblur (List.mem_map_of_mem (List.mem_cons_self (a := temp1))) ?_ ?_
  · exact List.mem_map_of_mem (by simp [under, plain, blur])
  cases h : switches.temporalStabilization with
  | true =>
    rw [h] at hwrite
    refine Way.carries_step rfl hread (by simp [way]) hwrite (Way.carries_last rfl ?_ ?_ hrest)
    · simp [under, plain, temporalStabilization]
    · simp [under, plain, temporalStabilization, way]
  | false =>
    rw [h] at hwrite
    exact Way.carries_last rfl hread hwrite hrest

end Sigma

namespace Averaging

def mainPath : List Stage := [.temporalAccumulation, .copy]

def way : Way where
  inputs := [.signal]
  carriers := [history]
  output := .signal

theorem carries : (way.route mainPath f).Carries [f (.input .signal)]
    (path switches ++ gated switches (decide (0 < switches.splitScreen)) splitScreen) := by
  refine Way.carries_step rfl ?_ (List.mem_singleton_self history) ?_
    (Way.carries_last rfl ?_ ?_ fun em hem => ?_)
  · simp [under, plain, temporalAccumulation]
  · simp [under, plain, temporalAccumulation]
  · simp [under, plain, copy]
  · simp [under, plain, copy, way]
  · obtain ⟨-, rfl⟩ := mem_gated hem
    rfl

end Averaging

end DenoisePlanner
