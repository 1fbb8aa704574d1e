import DenoisePlanner.Frame.Selection
import DenoisePlanner.Proofs.Specialization

namespace DenoisePlanner

-- A pass that contributes a dispatch to a frame, under given conditions.
structure Emission (α : Type) where
  pass : α
  active : Condition → Bool
  atrous : Option AtrousIteration := none

namespace Selected

-- The truth values under which a dispatch is picked, given the A-trous step it stands for.
def assignment (switches : Switches) : Option AtrousIteration → Condition → Bool
  | none => switches.holds
  | some step => atrousHolds switches step.index.toNat

-- The stage runs in a frame: it is enabled, or it is the pass of an A-trous step.
def Runs (switches : Switches) (stage : Stage) : Option AtrousIteration → Prop
  | none => stage.isAtrous = false ∧ switches.isEnabled stage = true
  | some step =>
    step.index.toNat < switches.atrousCount ∧
    step.isLast = (step.index.toNat + 1 == switches.atrousCount) ∧
    stage = if step.index = 0 then .atrousFirst else if step.isLast then .atrousLast else .atrous

end Selected

namespace Emission

variable {α β : Type}

def map (f : α → β) (e : Emission α) : Emission β := ⟨f e.pass, e.active, e.atrous⟩

section

variable (stage : α → Stage) (passes : List α) (switches : Switches)

def atrousPass? (first : α) (count i : Nat) : Option α :=
  if i = 0 then some first
  else passes.find? (stage · == if i + 1 = count then .atrousLast else .atrous)

def atrousSteps (first : α) : List (Emission α) :=
  (List.range switches.atrousCount).filterMap fun i =>
    (atrousPass? stage passes first switches.atrousCount i).map fun pass =>
      ⟨pass, Selected.atrousHolds switches i, some ⟨.ofNat i, i + 1 == switches.atrousCount⟩⟩

def ofPass (pass : α) : List (Emission α) :=
  match stage pass with
  | .atrous | .atrousLast => []
  | .atrousFirst => atrousSteps stage passes switches pass
  | s => if switches.isEnabled s then [⟨pass, switches.holds, none⟩] else []

def passthrough : List (Emission α) :=
  ((passes.find? (stage · == .splitScreen)).map fun pass => ⟨pass, fun _ => false, none⟩).toList

-- What a frame emits of a table of passes, whatever stands for a pass.
def all : List (Emission α) :=
  if switches.isPassthrough then passthrough stage passes
  else passes.flatMap (ofPass stage passes switches)

end

def selected (e : Emission DeclaredPass) : Selected := .pick e.pass e.active e.atrous

theorem selected_passthrough (passes : List DeclaredPass) :
    (passthrough DeclaredPass.stage passes).map selected = Selected.passthrough passes := by
  cases h : passes.find? (·.stage == .splitScreen) <;>
    simp [passthrough, Selected.passthrough, h, selected, Selected.pick, DeclaredPass.dispatch,
      Specialization.bitsOf_const_false]

theorem selected_atrousSteps (passes : List DeclaredPass) (switches : Switches)
    (first : DeclaredPass) :
    (atrousSteps DeclaredPass.stage passes switches first).map selected =
      Selected.atrousSteps passes first switches := by
  rw [atrousSteps, Selected.atrousSteps, List.map_filterMap]
  congr 1
  funext i
  rw [Option.map_map]
  rfl

theorem selected_ofPass (passes : List DeclaredPass) (switches : Switches)
    (pass : DeclaredPass) :
    (ofPass DeclaredPass.stage passes switches pass).map selected =
      Selected.ofPass passes switches pass := by
  unfold ofPass Selected.ofPass
  cases pass.stage with
  | atrous | atrousLast => rfl
  | atrousFirst => exact selected_atrousSteps passes switches pass
  | _ => dsimp only; split <;> rfl

-- The selector picks the dispatches that stand for the emissions.
theorem select_eq (passes : List DeclaredPass) (switches : Switches) :
    Selected.select passes switches = (all DeclaredPass.stage passes switches).map selected := by
  unfold Selected.select all
  split
  · exact (selected_passthrough passes).symm
  · rw [List.map_flatMap]
    congr 1
    funext pass
    exact (selected_ofPass passes switches pass).symm

section

variable {stage : α → Stage} {passes : List α} {switches : Switches} {e : Emission α}

theorem of_mem_atrousSteps {first : α} (hfirst : stage first = .atrousFirst)
    (h : e ∈ atrousSteps stage passes switches first) :
    (e.pass = first ∨ e.pass ∈ passes) ∧ e.active = Selected.assignment switches e.atrous ∧
      Selected.Runs switches (stage e.pass) e.atrous := by
  obtain ⟨i, hi, hsome⟩ := List.mem_filterMap.mp h
  obtain ⟨pass, hpass, rfl⟩ := Option.map_eq_some_iff.mp hsome
  have hcount := switches.atrousCount_le
  have hi : i < switches.atrousCount := List.mem_range.mp hi
  have hindex : (UInt32.ofNat i).toNat = i := by
    rw [UInt32.toNat_ofNat']
    exact Nat.mod_eq_of_lt (by omega)
  have hzero : UInt32.ofNat i = 0 ↔ i = 0 := by
    rw [← UInt32.toNat_inj, hindex]
    rfl
  refine ⟨?_, ?_, ?_, ?_, ?_⟩
  · unfold atrousPass? at hpass
    split at hpass
    · exact .inl (Option.some.inj hpass).symm
    · exact .inr (List.mem_of_find?_eq_some hpass)
  · simp only [Selected.assignment, hindex]
  · simp only [hindex, hi]
  · simp only [hindex]
  · simp only [hzero]
    unfold atrousPass? at hpass
    split at hpass
    · obtain rfl := Option.some.inj hpass
      simpa [‹i = 0›] using hfirst
    · simpa [‹¬i = 0›] using List.find?_some hpass

-- Nothing but passes of the table is emitted.
theorem pass_mem_of_mem_all (h : e ∈ all stage passes switches) : e.pass ∈ passes := by
  unfold all at h
  split at h
  · obtain ⟨pass, hpass, rfl⟩ := Option.map_eq_some_iff.mp (Option.mem_toList.mp h)
    exact List.mem_of_find?_eq_some hpass
  · obtain ⟨pass, hpass, he⟩ := List.mem_flatMap.mp h
    unfold ofPass at he
    split at he
    · cases he
    · cases he
    · rename_i hstage
      exact (of_mem_atrousSteps hstage he).1.elim (fun h => h ▸ hpass) id
    · split at he
      · exact List.mem_singleton.mp he ▸ hpass
      · cases he

-- A frame that denoises emits passes of the table alone, each under the truth values of the
-- frame, and only stages that run.
theorem of_mem_all (hpassthrough : switches.isPassthrough = false)
    (h : e ∈ all stage passes switches) :
    e.pass ∈ passes ∧ e.active = Selected.assignment switches e.atrous ∧
      Selected.Runs switches (stage e.pass) e.atrous := by
  simp only [all, hpassthrough, Bool.false_eq_true, if_false] at h
  obtain ⟨pass, hpass, he⟩ := List.mem_flatMap.mp h
  unfold ofPass at he
  split at he
  · cases he
  · cases he
  · rename_i hstage
    obtain ⟨hmem, hrest⟩ := of_mem_atrousSteps hstage he
    exact ⟨hmem.elim (fun h => h ▸ hpass) id, hrest⟩
  · rename_i hatrous hlast hfirst
    split at he
    · rename_i henabled
      obtain rfl := List.mem_singleton.mp he
      refine ⟨hpass, rfl, ?_, henabled⟩
      cases hstage : stage pass <;> simp_all [Stage.isAtrous]
    · cases he

end

section

variable (stage : β → Stage) (f : α → β) (passes : List α) (switches : Switches)

theorem atrousSteps_map (first : α) :
    atrousSteps stage (passes.map f) switches (f first) =
      (atrousSteps (stage ∘ f) passes switches first).map (map f) := by
  rw [atrousSteps, atrousSteps, List.map_filterMap]
  congr 1
  funext i
  unfold atrousPass?
  split
  · rfl
  · rw [List.find?_map, Option.map_map, Option.map_map]
    rfl

theorem ofPass_map (pass : α) :
    ofPass stage (passes.map f) switches (f pass) =
      (ofPass (stage ∘ f) passes switches pass).map (map f) := by
  unfold ofPass
  simp only [Function.comp_apply]
  split
  · rfl
  · rfl
  · exact atrousSteps_map stage f passes switches pass
  · split <;> rfl

-- Emissions do not look at what stands for a pass, only at its stage.
theorem all_map :
    all stage (passes.map f) switches = (all (stage ∘ f) passes switches).map (map f) := by
  unfold all
  split
  · unfold passthrough
    rw [List.find?_map, Option.map_map, ← Option.toList_map, Option.map_map]
    rfl
  · rw [List.flatMap_map, List.map_flatMap]
    congr 1
    funext pass
    exact ofPass_map stage f passes switches pass

end

end Emission

end DenoisePlanner
