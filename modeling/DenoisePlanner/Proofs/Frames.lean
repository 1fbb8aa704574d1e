import DenoisePlanner.Proofs.Outline

namespace DenoisePlanner

namespace Emission

variable {switches : Switches}

-- A pass under the conditions of the frame.
def plain (switches : Switches) (pass : Pass) : Emission Pass := ⟨pass, switches.holds, none⟩

-- An optional pass.
def gated (switches : Switches) (enabled : Bool) (pass : Pass) : List (Emission Pass) :=
  if enabled then [plain switches pass] else []

def clears (switches : Switches) (passes : List Pass) : List (Emission Pass) :=
  passes.flatMap (gated switches switches.clear)

theorem mem_gated {enabled : Bool} {pass : Pass} {em : Emission Pass}
    (h : em ∈ gated switches enabled pass) : enabled = true ∧ em = plain switches pass := by
  unfold gated at h
  split at h
  · exact ⟨‹_›, List.mem_singleton.mp h⟩
  · cases h

-- A clear is found only by those who look for one.
theorem find?_append_of_clear {clearing : List Pass}
    (hclear : ∀ pass ∈ clearing, pass.stage = .clear) (passes : List Pass) {stage : Stage}
    (hne : stage ≠ .clear) :
    (clearing ++ passes).find? (·.stage == stage) = passes.find? (·.stage == stage) := by
  rw [List.find?_append, List.find?_eq_none.mpr, Option.none_or]
  intro pass hpass
  simpa [hclear pass hpass] using hne.symm

-- Clears come first, and change nothing in what follows.
theorem all_append_of_clear {clearing passes : List Pass}
    (hclear : ∀ pass ∈ clearing, pass.stage = .clear)
    (hpassthrough : switches.isPassthrough = false) :
    all Pass.stage (clearing ++ passes) switches =
      clears switches clearing ++ all Pass.stage passes switches := by
  have hsteps (first : Pass) : atrousSteps Pass.stage (clearing ++ passes) switches first =
      atrousSteps Pass.stage passes switches first := by
    unfold atrousSteps
    congr 1
    funext i
    unfold atrousPass?
    split
    · rfl
    · rw [find?_append_of_clear hclear]
      split <;> decide
  have hof (pass : Pass) : ofPass Pass.stage (clearing ++ passes) switches pass =
      ofPass Pass.stage passes switches pass := by
    unfold ofPass
    split <;> first | rfl | exact hsteps pass
  have hclears : clearing.flatMap (ofPass Pass.stage passes switches) =
      clears switches clearing := by
    refine List.flatMap_congr fun pass hpass => ?_
    unfold ofPass
    rw [hclear pass hpass]
    rfl
  simp only [all, hpassthrough, Bool.false_eq_true, if_false, List.flatMap_append, funext hof,
    hclears]

theorem all_eq_flatMap (passes : List Pass) (hpassthrough : switches.isPassthrough = false) :
    all Pass.stage passes switches = passes.flatMap (ofPass Pass.stage passes switches) := by
  rw [all, hpassthrough]
  rfl

end Emission

open Emission

variable {switches : Switches}

namespace Reblur

-- The main path of a frame.
def path (stabilizes : Bool) (signals : List SignalTextures) (switches : Switches) :
    List (Emission Pass) :=
  gated switches switches.hitDistReconstruction (hitDistReconstruction signals) ++
  gated switches switches.prePass (prePass signals) ++
  [plain switches (temporalAccumulation stabilizes signals),
    plain switches (historyFix signals), plain switches (blur signals),
    plain switches (postBlur stabilizes signals)] ++
  gated switches (stabilizes && switches.temporalStabilization) (temporalStabilization signals)

-- What follows the main path.
def rest (signals : List SignalTextures) (switches : Switches) : List (Emission Pass) :=
  gated switches (decide (0 < switches.splitScreen)) (splitScreen signals) ++
    gated switches switches.validation (validation signals)

theorem all_passes (stabilizes : Bool) (signals : List SignalTextures)
    (h : switches.isPassthrough = false) :
    Emission.all Pass.stage (passes stabilizes signals) switches =
      plain switches classifyTiles :: path stabilizes signals switches ++ rest signals switches := by
  rw [all_eq_flatMap _ h]
  cases stabilizes
  · simp only [passes, path, rest, List.flatMap_append, List.flatMap_cons, List.flatMap_nil,
      Bool.false_eq_true, if_false, Bool.false_and, List.append_nil, List.append_assoc,
      List.cons_append]
    rfl
  · simp only [passes, path, rest, List.flatMap_append, List.flatMap_cons, List.flatMap_nil,
      Bool.true_and, List.append_nil, List.append_assoc, List.cons_append, if_true]
    rfl

end Reblur

namespace Relax

-- A-trous step `i` of a frame.
def step (signals : List SignalTextures) (switches : Switches) (i : Nat) : Emission Pass where
  pass := if i = 0 then atrousFirst signals
    else if i + 1 = switches.atrousCount then atrousLast signals else atrous signals
  active := Selected.atrousHolds switches i
  atrous := some ⟨.ofNat i, i + 1 == switches.atrousCount⟩

-- The main path of a frame up to the A-trous steps; the copy is an aside.
def path (signals : List SignalTextures) (switches : Switches) : List (Emission Pass) :=
  gated switches switches.hitDistReconstruction (hitDistReconstruction signals) ++
  gated switches switches.prePass (prePass signals) ++
  [plain switches (temporalAccumulation signals), plain switches (historyFix signals),
    plain switches (historyClamping signals), plain switches (copy signals)] ++
  gated switches switches.antiFirefly (antiFirefly signals)

def steps (signals : List SignalTextures) (switches : Switches) : List (Emission Pass) :=
  (List.range switches.atrousCount).map (step signals switches)

-- What follows the main path.
def rest (signals : List SignalTextures) (switches : Switches) : List (Emission Pass) :=
  gated switches (decide (0 < switches.splitScreen)) (splitScreen signals) ++
    gated switches switches.validation (validation signals)

theorem atrousSteps_passes (signals : List SignalTextures) :
    atrousSteps Pass.stage (passes signals) switches (atrousFirst signals) =
      steps signals switches := by
  have hlast : (passes signals).find? (·.stage == .atrousLast) = some (atrousLast signals) := rfl
  have hmiddle : (passes signals).find? (·.stage == .atrous) = some (atrous signals) := rfl
  unfold atrousSteps steps
  rw [← List.filterMap_eq_map]
  congr 1
  funext i
  unfold atrousPass?
  simp only [Function.comp_apply, step]
  split
  · rfl
  · split
    · rw [hlast]
      rfl
    · rw [hmiddle]
      rfl

theorem all_passes (signals : List SignalTextures) (h : switches.isPassthrough = false) :
    Emission.all Pass.stage (passes signals) switches =
      plain switches classifyTiles :: path signals switches ++ steps signals switches ++
        rest signals switches := by
  rw [all_eq_flatMap _ h, ← atrousSteps_passes]
  simp only [passes, path, rest, List.flatMap_cons, List.flatMap_nil, List.append_nil,
    List.append_assoc, List.cons_append]
  rfl

end Relax

namespace Sigma

-- The main path of a frame.
def path (translucency : Bool) (switches : Switches) : List (Emission Pass) :=
  [plain switches (blur translucency), plain switches postBlur] ++
    gated switches switches.temporalStabilization temporalStabilization

theorem all_passes (translucency : Bool) (h : switches.isPassthrough = false) :
    Emission.all Pass.stage (passes translucency) switches =
      [plain switches (classifyTiles translucency), plain switches smoothing] ++
        path translucency switches ++
        gated switches (decide (0 < switches.splitScreen)) (splitScreen translucency) := by
  rw [all_eq_flatMap _ h]
  simp only [passes, path, List.flatMap_cons, List.flatMap_nil, List.append_nil,
    List.append_assoc, List.cons_append]
  rfl

end Sigma

namespace Averaging

-- The main path of a frame.
def path (switches : Switches) : List (Emission Pass) :=
  [plain switches temporalAccumulation, plain switches copy]

theorem all_passes (h : switches.isPassthrough = false) :
    Emission.all Pass.stage passes switches =
      path switches ++ gated switches (decide (0 < switches.splitScreen)) splitScreen := by
  rw [all_eq_flatMap _ h]
  simp only [passes, path, List.flatMap_cons, List.flatMap_nil, List.append_nil]
  rfl

end Averaging

end DenoisePlanner
