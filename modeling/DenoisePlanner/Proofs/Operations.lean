import DenoisePlanner.Proofs.Delivery

namespace DenoisePlanner

open Declaring

-- What is told of the passes, in the journal and for the selection, is left out.
def Draft.bare (d : Draft) : Draft where
  tables := { d.tables with journal := #[] }
  denoiser := { d.denoiser with passes := #[] }

namespace Draft

variable {d d' : Draft}

theorem eq_of_bare_eq (h : d'.bare = d.bare) :
    d' = ⟨{ d.tables with journal := d'.tables.journal },
      { d.denoiser with passes := d'.denoiser.passes }⟩ := by
  obtain ⟨tables, denoiser⟩ := d
  obtain ⟨tables', denoiser'⟩ := d'
  cases tables
  cases tables'
  cases denoiser
  cases denoiser'
  simpa [bare] using h

end Draft

namespace Declaring

variable {α β : Type} {d d' : Draft}

-- A step's result, and what it leaves behind apart from what is told.
def outcome (x : Declaring α) (d : Draft) : EStateM.Result Failure Draft α :=
  match x d with
  | .ok a d' => .ok a d'.bare
  | .error e d' => .error e d'.bare

-- A step that does not read what is told.
def Oblivious (x : Declaring α) : Prop :=
  ∀ ⦃d d' : Draft⦄, d.bare = d'.bare → outcome x d = outcome x d'

section

variable {x y : Declaring α} {f g : α → Declaring β} {a : α} {failure : Failure} {d₁ : Draft}

theorem outcome_of_ok (h : x d = .ok a d₁) : outcome x d = .ok a d₁.bare := by
  rw [outcome, h]

theorem outcome_of_error (h : x d = .error failure d₁) :
    outcome x d = .error failure d₁.bare := by
  rw [outcome, h]

theorem exists_ok_of_outcome (h : outcome x d = outcome y d') (hx : x d = .ok a d₁) :
    ∃ d₁', y d' = .ok a d₁' ∧ d₁.bare = d₁'.bare := by
  rw [outcome_of_ok hx] at h
  cases hy : y d' with
  | ok b d₁' =>
    rw [outcome_of_ok hy] at h
    obtain ⟨rfl, hbare⟩ := EStateM.Result.ok.inj h
    exact ⟨d₁', rfl, hbare⟩
  | error e d₁' =>
    rw [outcome_of_error hy] at h
    cases h

theorem exists_error_of_outcome (h : outcome x d = outcome y d')
    (hx : x d = .error failure d₁) :
    ∃ d₁', y d' = .error failure d₁' ∧ d₁.bare = d₁'.bare := by
  rw [outcome_of_error hx] at h
  cases hy : y d' with
  | ok b d₁' =>
    rw [outcome_of_ok hy] at h
    cases h
  | error e d₁' =>
    rw [outcome_of_error hy] at h
    obtain ⟨rfl, hbare⟩ := EStateM.Result.error.inj h
    exact ⟨d₁', rfl, hbare⟩

theorem outcome_bind (hxy : outcome x d = outcome y d')
    (hfg : ∀ a d₁ d₁', d₁.bare = d₁'.bare → x d = .ok a d₁ → outcome (f a) d₁ = outcome (g a) d₁') :
    outcome (x >>= f) d = outcome (y >>= g) d' := by
  cases hx : x d with
  | ok a d₁ =>
    obtain ⟨d₁', hy, hbare⟩ := exists_ok_of_outcome hxy hx
    have hrest := hfg a d₁ d₁' hbare hx
    rwa [outcome, outcome, bind_of_ok hx, bind_of_ok hy]
  | error failure d₁ =>
    obtain ⟨d₁', hy, hbare⟩ := exists_error_of_outcome hxy hx
    rw [outcome_of_error (bind_of_error hx), outcome_of_error (bind_of_error hy), hbare]

end

theorem outcome_pure {a : α} (hbare : d.bare = d'.bare) :
    outcome (pure a) d = outcome (pure a) d' := by
  show EStateM.Result.ok _ _ = EStateM.Result.ok _ _
  rw [hbare]

-- A loop does the same as another one if each of its steps does.
theorem outcome_forM {f g : α → Declaring Unit} {P : Draft → Prop} {l : List α}
    (hfg : ∀ a ∈ l, ∀ d₁ d₁', P d₁ → d₁.bare = d₁'.bare → outcome (f a) d₁ = outcome (g a) d₁')
    (hkeep : ∀ a ∈ l, ∀ d₁ d₂, P d₁ → f a d₁ = .ok ⟨⟩ d₂ → P d₂) (hd : P d)
    (hbare : d.bare = d'.bare) : outcome (l.forM f) d = outcome (l.forM g) d' := by
  induction l generalizing d d' with
  | nil => exact outcome_pure hbare
  | cons a l ih =>
    obtain ⟨hfirst, hrest⟩ := List.forall_mem_cons.mp hfg
    obtain ⟨hkept, hlater⟩ := List.forall_mem_cons.mp hkeep
    refine outcome_bind (hfirst d d' hd hbare) fun _ d₁ d₁' hbare₁ hok => ?_
    exact ih hrest hlater (hkept d d₁ hd hok) hbare₁

theorem Oblivious.forM {f : α → Declaring Unit} (hf : ∀ a, Oblivious (f a)) (l : List α) :
    Oblivious (l.forM f) :=
  fun _ _ hbare => outcome_forM (P := fun _ => True) (fun a _ _ _ _ h => hf a h)
    (fun _ _ _ _ _ _ => trivial) trivial hbare

theorem Oblivious.discard {x : Declaring α} (hx : Oblivious x) :
    Oblivious (Functor.discard x) :=
  fun _ _ hbare => outcome_bind (f := fun _ => pure PUnit.unit) (g := fun _ => pure PUnit.unit)
    (hx hbare) fun _ _ _ hbare₁ _ => outcome_pure hbare₁

theorem oblivious_openPass (stage : Stage) : Oblivious (openPass stage) := by
  intro d d' hbare
  rw [Draft.eq_of_bare_eq hbare]
  obtain ⟨tables, denoiser⟩ := d'
  obtain ⟨name, defines, sharedSize, claims, passes, pending, dispatchStart, swapStart⟩ := denoiser
  cases pending <;> rfl

theorem oblivious_connect (access : Access) (e : Failure) (f : Binding → OpenPass → OpenPass)
    (r : Reference) : Oblivious (connect access e f r) := by
  intro d d' hbare
  rw [Draft.eq_of_bare_eq hbare, outcome, outcome, connect_eq, connect_eq]
  obtain ⟨tables, denoiser⟩ := d'
  obtain ⟨name, defines, sharedSize, claims, passes, pending, dispatchStart, swapStart⟩ := denoiser
  by_cases hadmissible : admissible access r
  · simp only [if_pos hadmissible]
    cases claims.attach tables.swaps access r with
    | error e' => rfl
    | ok attached => cases pending <;> rfl
  · simp only [if_neg hadmissible]
    rfl

theorem oblivious_addInput (r : Reference) : Oblivious (addInput r) :=
  oblivious_connect ..

theorem oblivious_addOutput (r : Reference) : Oblivious (addOutput r) :=
  oblivious_connect ..

theorem oblivious_addDispatch (shader : String) (defines : List Define) (args : DispatchArgs) :
    Oblivious (addDispatch shader defines args) := by
  intro d d' hbare
  rw [Draft.eq_of_bare_eq hbare, outcome, outcome, addDispatch_eq, addDispatch_eq]
  obtain ⟨tables, denoiser⟩ := d'
  obtain ⟨name, own, sharedSize, claims, passes, pending, dispatchStart, swapStart⟩ := denoiser
  cases pending with
  | none => rfl
  | some pass =>
    by_cases hempty : (args.downsample == 0 || args.repeats == 0) = true
    · simp only [if_pos hempty]
      rfl
    · simp only [if_neg hempty]
      cases hfind : tables.pipelines.find? (ShaderKey.identifier ⟨shader, defines⟩) with
      | some i =>
        have hfind' : ({ tables with journal := d.tables.journal } : Declarations).pipelines.find?
            (ShaderKey.identifier ⟨shader, defines⟩) = some i := hfind
        rw [Declarations.addPipeline_of_find? hfind, Declarations.addPipeline_of_find? hfind']
        by_cases hlayout : (tables.pipelines.entry i).layout = args.layout pass
        · simp only [if_pos hlayout]
          rfl
        · simp only [if_neg hlayout]
          rfl
      | none =>
        have hfind' : ({ tables with journal := d.tables.journal } : Declarations).pipelines.find?
            (ShaderKey.identifier ⟨shader, defines⟩) = none := hfind
        rw [Declarations.addPipeline_of_new hfind, Declarations.addPipeline_of_new hfind']
        by_cases hfull : PipelineTable.capacity ≤ tables.pipelines.size
        · simp only [if_pos hfull]
          rfl
        · simp only [if_neg hfull]
          rfl

end Declaring

namespace Draft

variable {d d' d'' : Draft} {l : List DispatchOrder}

theorem Delivers.of_bare_eq (h : d.Delivers d' l) (hbare : d''.bare = d'.bare) :
    d.Delivers d'' l := by
  rw [eq_of_bare_eq hbare]
  refine ⟨⟨fun before hbefore hplain => ?_, h.defines⟩, h.pools, h.claims⟩
  exact (h.fulfils before hbefore hplain).congr rfl rfl

theorem flatMap_clears {β : Type} (d : Draft) (slots : List Slot) (f : ScheduledPass → List β) :
    (d.clears slots).flatMap f = slots.flatMap fun slot => (d.clears [slot]).flatMap f := by
  induction slots with
  | nil => rfl
  | cons slot slots ih =>
    have happend : d.clears (slot :: slots) = d.clears [slot] ++ d.clears slots :=
      List.filterMap_append (l := [slot])
    rw [List.flatMap_cons, ← ih, happend, List.flatMap_append]

end Draft

namespace Declaring

variable {d d' : Draft} {l : List DispatchOrder}

theorem Places.of_outcome_eq {α : Type} {x y : Declaring α} (h : Places l y d)
    (hxy : outcome x d = outcome y d) : Places l x d := by
  constructor
  · intro a d₁ hx
    obtain ⟨d₂, hy, hbare⟩ := exists_ok_of_outcome hxy hx
    exact (h.1 a d₂ hy).of_bare_eq hbare
  · intro failure d₁ hx
    obtain ⟨d₂, hy, hbare⟩ := exists_error_of_outcome hxy hx
    obtain ⟨done, hdone, hdelivers⟩ := h.2 failure d₂ hy
    exact ⟨done, hdone, hdelivers.of_bare_eq hbare⟩

theorem outcome_declareSpecialization {e : ScheduledPass}
    (hdefines : d.denoiser.defines = e.defines) (hbare : d.bare = d'.bare) (s : Specialization) :
    outcome (declareSpecialization e.pass s) d =
      outcome ((e.operations s).forM DraftStep.run) d' := by
  rw [forM_operations]
  refine outcome_bind (oblivious_openPass _ hbare) fun _ d₁ d₁' hbare₁ hopen => ?_
  obtain ⟨-, rfl⟩ := openPass_ok hopen
  refine outcome_bind (Oblivious.forM oblivious_addInput _ hbare₁)
    fun _ d₂ d₂' hbare₂ hinputs => ?_
  obtain ⟨swaps₁, inputs, rfl, -, -⟩ := forM_addInput_ok hinputs
  refine outcome_bind (Oblivious.forM oblivious_addOutput _ hbare₂)
    fun _ d₃ d₃' hbare₃ houtputs => ?_
  obtain ⟨swaps₂, outputs, rfl, -, -⟩ := forM_addOutput_ok houtputs
  refine Eq.trans ?_ ((oblivious_addDispatch ..).discard hbare₃)
  rw [← hdefines]
  rfl

theorem outcome_declarePass {e : ScheduledPass} (hdefines : d.denoiser.defines = e.defines)
    (hbare : d.bare = d'.bare) :
    outcome (declarePass e.pass) d = outcome (e.allOperations.forM DraftStep.run) d' := by
  have hloop :
      outcome ((Specialization.all e.pass.conditions).forM (declareSpecialization e.pass)) d =
        outcome (e.allOperations.forM DraftStep.run) d' := by
    rw [ScheduledPass.allOperations, forM_flatMap]
    refine outcome_forM (P := fun d₁ => d₁.denoiser.defines = e.defines) ?_ ?_ hdefines hbare
    · exact fun s _ d₁ d₁' hdefines₁ hbare₁ => outcome_declareSpecialization hdefines₁ hbare₁ s
    · intro s _ d₁ d₂ hdefines₁ hok
      have hplaces := (places_operations e s d₁).of_outcome_eq
        (outcome_declareSpecialization hdefines₁ rfl s)
      exact (hplaces.1 _ d₂ hok).defines.trans hdefines₁
  have hdeclared : outcome (declareFrom d.tables.dispatches.size e.pass) d =
      outcome (e.allOperations.forM DraftStep.run >>= fun _ => pure ⟨⟩) d' :=
    outcome_bind hloop fun _ _ _ hbare₁ _ => outcome_pure hbare₁
  rwa [bind_pure_unit] at hdeclared

theorem forM_clear (slot : Slot) (texture : Texture) :
    (ScheduledPass.clear slot texture).allOperations.forM DraftStep.run = (do
      openPass .clear
      addOutput (.pooled slot)
      discard (addDispatch (Pass.clear slot texture).shader []
        { downsample := texture.downsample, data := .none })) := by
  have hone : (ScheduledPass.clear slot texture).allOperations =
      (ScheduledPass.clear slot texture).operations ⟨[], 0⟩ := List.append_nil _
  have hdefines : Specialization.defines ⟨[], 0⟩ = [] := rfl
  rw [hone, forM_operations]
  simp [ScheduledPass.clear, Pass.clear, ScheduledPass.args, List.forM_eq_forM, hdefines]

theorem outcome_declareClear {slot : Slot} {texture : Texture}
    (htexture : d.tables.pools.texture? d.denoiser.claims slot = some texture)
    (hbare : d.bare = d'.bare) :
    outcome (declareClear slot) d =
      outcome ((ScheduledPass.clear slot texture).allOperations.forM DraftStep.run) d' := by
  have hget : declareClear slot d = (do
      openPass .clear
      addOutput (.pooled slot)
      let base ← addDispatch (Pass.clear slot texture).shader []
        { downsample := texture.downsample, data := .none }
      recordPass ⟨.clear, [], base⟩ : Declaring Unit) d := by
    refine (bind_of_ok rfl).trans ?_
    simp only [htexture]
    rfl
  rw [forM_clear, outcome, hget, ← outcome]
  refine outcome_bind (oblivious_openPass _ hbare) fun _ _ _ hbare₁ _ => ?_
  refine outcome_bind (oblivious_addOutput _ hbare₁) fun _ _ _ hbare₂ _ => ?_
  exact outcome_bind (oblivious_addDispatch _ _ _ hbare₂) fun _ _ _ hbare₃ _ => outcome_pure hbare₃

theorem outcome_declareClears {slots : List Slot}
    (hknown : ∀ slot ∈ slots, (d.tables.pools.texture? d.denoiser.claims slot).isSome)
    (hbare : d.bare = d'.bare) :
    outcome (slots.forM declareClear) d =
      outcome (((d.clears slots).flatMap ScheduledPass.allOperations).forM DraftStep.run) d' := by
  rw [d.flatMap_clears, forM_flatMap]
  refine outcome_forM (P := fun d₁ => d₁.tables.pools = d.tables.pools ∧
    d₁.denoiser.claims = d.denoiser.claims) ?_ ?_ ⟨rfl, rfl⟩ hbare
  · rintro slot hslot d₁ d₁' ⟨hpools, hclaims⟩ hbare₁
    obtain ⟨texture, htexture⟩ := Option.isSome_iff_exists.mp (hknown slot hslot)
    have hone : d.clears [slot] = [.clear slot texture] := by simp [Draft.clears, htexture]
    rw [hone, List.flatMap_singleton]
    exact outcome_declareClear (by rw [hpools, hclaims, htexture]) hbare₁
  · rintro slot hslot d₁ d₂ ⟨hpools, hclaims⟩ hok
    obtain ⟨texture, htexture⟩ := Option.isSome_iff_exists.mp (hknown slot hslot)
    have hplaces := (places_allOperations (.clear slot texture) d₁).of_outcome_eq
      (outcome_declareClear (by rw [hpools, hclaims, htexture]) rfl)
    have hdelivers := hplaces.1 _ d₂ hok
    exact ⟨hdelivers.pools.trans hpools, hdelivers.claims.trans hclaims⟩

-- A table of passes is declared by operations that could be asked for one by one.
theorem outcome_declare (passes : List Pass)
    (hknown : ∀ slot ∈ d.denoiser.claims.permanentSlots,
      (d.tables.pools.texture? d.denoiser.claims slot).isSome) :
    outcome (declare passes) d = outcome ((d.operations passes).forM DraftStep.run) d := by
  have hloop : outcome (declare passes) d =
      outcome (d.denoiser.claims.permanentSlots.forM declareClear >>= fun _ =>
        passes.forM declarePass) d := rfl
  have hoperations : (d.operations passes).forM DraftStep.run = (do
      ((d.clears d.denoiser.claims.permanentSlots).flatMap ScheduledPass.allOperations).forM
        DraftStep.run
      passes.forM fun pass =>
        (ScheduledPass.allOperations ⟨pass, d.denoiser.defines⟩).forM DraftStep.run) := by
    rw [Draft.operations, Draft.schedule, List.flatMap_append, List.flatMap_map,
      List.forM_eq_forM, List.forM_append, ← List.forM_eq_forM, forM_flatMap _ _ passes]
  rw [hloop, hoperations]
  refine outcome_bind (outcome_declareClears hknown rfl) fun _ d₁ d₁' hbare hcleared => ?_
  have hplaces := (places_table (d.clears d.denoiser.claims.permanentSlots) d).of_outcome_eq
    (outcome_declareClears hknown rfl)
  have hdefines := (hplaces.1 _ d₁ hcleared).defines
  refine outcome_forM (P := fun d₁ => d₁.denoiser.defines = d.denoiser.defines) ?_ ?_ hdefines hbare
  · intro pass _ d₂ d₂' hdefines₂ hbare₂
    exact outcome_declarePass (e := ⟨pass, _⟩) hdefines₂ hbare₂
  · intro pass _ d₂ d₃ hdefines₂ hok
    have hplaces := (places_allOperations ⟨pass, d.denoiser.defines⟩ d₂).of_outcome_eq
      (outcome_declarePass (e := ⟨pass, _⟩) hdefines₂ rfl)
    exact (hplaces.1 _ d₃ hok).defines.trans hdefines₂

theorem places_declare (passes : List Pass)
    (hknown : ∀ slot ∈ d.denoiser.claims.permanentSlots,
      (d.tables.pools.texture? d.denoiser.claims slot).isSome) :
    Places ((d.schedule passes).flatMap ScheduledPass.orders) (declare passes) d :=
  (places_table (d.schedule passes) d).of_outcome_eq (outcome_declare passes hknown)

end Declaring

end DenoisePlanner
