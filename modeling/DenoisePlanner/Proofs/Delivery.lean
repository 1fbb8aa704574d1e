import DenoisePlanner.Proofs.Orders
import DenoisePlanner.Proofs.Workshop

namespace DenoisePlanner

open Declaring

-- The operations that declare one specialisation of a pass.
def ScheduledPass.operations (e : ScheduledPass) (s : Specialization) : List DraftStep :=
  .pass e.pass.stage :: ((e.pass.bindings s).inputs.map .input ++
    ((e.pass.bindings s).outputs.map .output ++
      [.dispatch e.pass.shader (e.defines ++ s.defines) e.args]))

def ScheduledPass.allOperations (e : ScheduledPass) : List DraftStep :=
  (Specialization.all e.pass.conditions).flatMap e.operations

-- Those that declare a table of passes, with the clears before it.
def Draft.operations (d : Draft) (passes : List Pass) : List DraftStep :=
  (d.schedule passes).flatMap ScheduledPass.allOperations

-- The dispatches of a pass, one for each specialisation.
def ScheduledPass.orders (e : ScheduledPass) : List DispatchOrder :=
  (Specialization.all e.pass.conditions).map fun s => ⟨e.key s, e.layout s⟩

-- A stretch of a declaration that has added the given dispatches.
structure Draft.Supplies (d d' : Draft) (orders : List DispatchOrder) : Prop where
  fulfils : ∀ before, d.tables.Fulfils before → (∀ order ∈ orders, order.key.Plain) →
    d'.tables.Fulfils (before ++ orders)
  defines : d'.denoiser.defines = d.denoiser.defines

-- It has not asked for textures meanwhile.
structure Draft.Delivers (d d' : Draft) (orders : List DispatchOrder) : Prop
    extends d.Supplies d' orders where
  pools : d'.tables.pools = d.tables.pools
  claims : d'.denoiser.claims = d.denoiser.claims

namespace Draft

variable {d d' d'' : Draft} {l m : List DispatchOrder}

theorem supplies_nil (hpipelines : d'.tables.pipelines = d.tables.pipelines)
    (hdispatches : d'.tables.dispatches = d.tables.dispatches)
    (hdefines : d'.denoiser.defines = d.denoiser.defines) : d.Supplies d' [] where
  fulfils _ h _ := h.append_nil hpipelines hdispatches
  defines := hdefines

theorem Supplies.trans (h : d.Supplies d' l) (h' : d'.Supplies d'' m) :
    d.Supplies d'' (l ++ m) where
  fulfils before hbefore hplain := by
    obtain ⟨hl, hm⟩ := List.forall_mem_append.mp hplain
    rw [← List.append_assoc]
    exact h'.fulfils _ (h.fulfils before hbefore hl) hm
  defines := h'.defines.trans h.defines

theorem Delivers.refl (d : Draft) : d.Delivers d [] :=
  ⟨supplies_nil rfl rfl rfl, rfl, rfl⟩

theorem Delivers.trans (h : d.Delivers d' l) (h' : d'.Delivers d'' m) :
    d.Delivers d'' (l ++ m) :=
  ⟨h.toSupplies.trans h'.toSupplies, h'.pools.trans h.pools, h'.claims.trans h.claims⟩

end Draft

namespace Declaring

variable {α β : Type} {d d' : Draft} {l m : List DispatchOrder}

-- All of the dispatches are declared, or those before a failure.
def Places (orders : List DispatchOrder) (x : Declaring α) (d : Draft) : Prop :=
  (∀ a d', x d = .ok a d' → d.Delivers d' orders) ∧
    ∀ failure d', x d = .error failure d' → ∃ done, done <+: orders ∧ d.Delivers d' done

theorem Places.bind {x : Declaring α} {f : α → Declaring β} (hx : Places l x d)
    (hf : ∀ a d', x d = .ok a d' → Places m (f a) d') : Places (l ++ m) (x >>= f) d := by
  constructor
  · intro b d'' h
    obtain ⟨a, d', hok, hrest⟩ := bind_eq_ok_iff.mp h
    exact (hx.1 a d' hok).trans ((hf a d' hok).1 b d'' hrest)
  · intro failure d'' h
    rcases bind_eq_error_iff.mp h with herror | ⟨a, d', hok, hrest⟩
    · obtain ⟨done, hdone, hdelivers⟩ := hx.2 failure d'' herror
      exact ⟨done, hdone.trans (List.prefix_append l m), hdelivers⟩
    · obtain ⟨done, hdone, hdelivers⟩ := (hf a d' hok).2 failure d'' hrest
      exact ⟨l ++ done, (List.prefix_append_right_inj l).mpr hdone,
        (hx.1 a d' hok).trans hdelivers⟩

-- What declares no dispatch does not count.
theorem Places.after {x : Declaring α} {f : α → Declaring β} (hx : Places [] x d)
    (hf : ∀ a d', x d = .ok a d' → Places m (f a) d') : Places m (x >>= f) d :=
  hx.bind hf

theorem Places.discard {x : Declaring α} (hx : Places l x d) :
    Places l (Functor.discard x) d := by
  constructor
  · intro _ d' h
    obtain ⟨a, hok⟩ := discard_eq_ok_iff.mp h
    exact hx.1 a d' hok
  · intro failure d' h
    exact hx.2 failure d' (discard_eq_error_iff.mp h)

theorem Places.forM {f : α → Declaring Unit} {orders : α → List DispatchOrder}
    (hf : ∀ a d, Places (orders a) (f a) d) (as : List α) (d : Draft) :
    Places (as.flatMap orders) (as.forM f) d := by
  induction as generalizing d with
  | nil =>
    refine ⟨?_, fun failure d' h => by cases h⟩
    rintro _ _ ⟨⟩
    exact .refl d
  | cons a as ih =>
    rw [List.flatMap_cons]
    exact (hf a d).bind fun _ d' _ => ih d'

theorem Places.forM_nil {f : α → Declaring Unit} (hf : ∀ a d, Places [] (f a) d) (as : List α)
    (d : Draft) : Places [] (as.forM f) d := by
  have h := Places.forM hf as d
  rwa [List.flatMap_eq_nil_iff.mpr fun _ _ => rfl] at h

theorem places_nil_of {x : Declaring α} (hok : ∀ a d', x d = .ok a d' → d.Delivers d' [])
    (herror : ∀ failure d', x d = .error failure d' → d.Delivers d' []) : Places [] x d :=
  ⟨hok, fun failure d' h => ⟨[], List.prefix_rfl, herror failure d' h⟩⟩

theorem places_openPass (stage : Stage) (d : Draft) : Places [] (openPass stage) d := by
  apply places_nil_of
  · intro _ d' h
    obtain ⟨-, rfl⟩ := openPass_ok h
    exact ⟨Draft.supplies_nil rfl rfl rfl, rfl, rfl⟩
  · intro failure d' h
    rw [openPass_error h]
    exact .refl d

theorem places_connect (access : Access) (e : Failure) (f : Binding → OpenPass → OpenPass)
    (r : Reference) (d : Draft) : Places [] (connect access e f r) d := by
  have hquiet {swaps : SwapTable} {pending : Option OpenPass} :
      d.Delivers ⟨{ d.tables with swaps := swaps }, { d.denoiser with pending := pending }⟩ [] :=
    ⟨Draft.supplies_nil rfl rfl rfl, rfl, rfl⟩
  apply places_nil_of
  · intro _ d' h
    rw [connect_eq] at h
    split at h
    · split at h
      · cases h
      · split at h
        · cases h
        · cases h
          exact hquiet
    · cases h
  · intro failure d' h
    rcases connect_error h with rfl | ⟨-, swaps, -, rfl⟩
    · exact .refl _
    · exact hquiet

theorem places_addInput (r : Reference) (d : Draft) : Places [] (addInput r) d :=
  places_connect ..

theorem places_addOutput (r : Reference) (d : Draft) : Places [] (addOutput r) d :=
  places_connect ..

theorem places_addDispatch {shader : String} {defines : List Define} {args : DispatchArgs}
    {pass : OpenPass} (hpending : d.denoiser.pending = some pass) :
    Places [⟨⟨shader, defines⟩, args.layout pass⟩] (addDispatch shader defines args) d := by
  constructor
  · intro n d' h
    obtain ⟨closed, position, tables, hclosed, -, -, hadd, hclose⟩ := addDispatch_eq_ok_iff.mp h
    obtain rfl : pass = closed := Option.some.inj (hpending.symm.trans hclosed)
    cases hclose
    obtain ⟨pipelines, journal, -, htables, -⟩ := Declarations.addPipeline_ok hadd
    have hpools : tables.pools = d.tables.pools := by rw [htables]
    refine ⟨⟨fun before hbefore hplain => ?_, rfl⟩, hpools, rfl⟩
    exact hbefore.concat (hplain _ (List.mem_singleton_self _)) hadd rfl
  · intro failure d' h
    rw [addDispatch_error h]
    exact ⟨[], List.nil_prefix, Draft.supplies_nil rfl rfl rfl, rfl, rfl⟩

-- Operations are run one after the other, up to the first failure.
theorem forM_operations (e : ScheduledPass) (s : Specialization) :
    (e.operations s).forM DraftStep.run = (do
      openPass e.pass.stage
      (e.pass.bindings s).inputs.forM addInput
      (e.pass.bindings s).outputs.forM addOutput
      discard (addDispatch e.pass.shader (e.defines ++ s.defines) e.args)) := by
  simp [ScheduledPass.operations, List.forM_eq_forM, DraftStep.run]

theorem forM_flatMap (f : α → List β) (g : β → Declaring Unit) (l : List α) :
    (l.flatMap f).forM g = l.forM fun a => (f a).forM g := by
  induction l with
  | nil => rfl
  | cons a l ih =>
    rw [List.flatMap_cons, List.forM_eq_forM, List.forM_append, ← List.forM_eq_forM, ih]
    rfl

theorem places_operations (e : ScheduledPass) (s : Specialization) (d : Draft) :
    Places [⟨e.key s, e.layout s⟩] ((e.operations s).forM DraftStep.run) d := by
  rw [forM_operations]
  refine (places_openPass _ d).after fun _ d₁ hopen => ?_
  obtain ⟨-, rfl⟩ := openPass_ok hopen
  refine (Places.forM_nil places_addInput _ _).after fun _ d₂ hinputs => ?_
  obtain ⟨swaps₁, inputs, rfl, -, hinputs⟩ := forM_addInput_ok hinputs
  refine (Places.forM_nil places_addOutput _ _).after fun _ d₃ houtputs => ?_
  obtain ⟨swaps₂, outputs, rfl, -, houtputs⟩ := forM_addOutput_ok houtputs
  have hlayout : e.layout s = e.args.layout { stage := e.pass.stage, inputs, outputs } := by
    have hinputs : inputs.size = (e.pass.bindings s).inputs.length := by
      simpa using congrArg List.length hinputs
    have houtputs : outputs.size = (e.pass.bindings s).outputs.length := by
      simpa using congrArg List.length houtputs
    simp [ScheduledPass.layout, DispatchArgs.layout, ScheduledPass.args, hinputs, houtputs]
  rw [hlayout]
  exact (places_addDispatch rfl).discard

theorem places_allOperations (e : ScheduledPass) (d : Draft) :
    Places e.orders (e.allOperations.forM DraftStep.run) d := by
  rw [ScheduledPass.orders, ScheduledPass.allOperations, forM_flatMap, List.map_eq_flatMap]
  exact Places.forM (places_operations e) _ d

theorem places_table (table : List ScheduledPass) (d : Draft) :
    Places (table.flatMap ScheduledPass.orders)
      ((table.flatMap ScheduledPass.allOperations).forM DraftStep.run) d := by
  rw [forM_flatMap]
  exact Places.forM places_allOperations table d

-- The same of an operation that may have asked for textures.
def Yields (orders : List DispatchOrder) (x : Declaring α) (d : Draft) : Prop :=
  (∀ a d', x d = .ok a d' → d.Supplies d' orders) ∧
    ∀ failure d', x d = .error failure d' → ∃ done, done <+: orders ∧ d.Supplies d' done

theorem Places.yields {x : Declaring α} (hx : Places l x d) : Yields l x d := by
  refine ⟨fun a d' h => (hx.1 a d' h).toSupplies, fun failure d' h => ?_⟩
  obtain ⟨done, hdone, hdelivers⟩ := hx.2 failure d' h
  exact ⟨done, hdone, hdelivers.toSupplies⟩

theorem yields_onPools (x : Allotting Slot) (d : Draft) : Yields [] (discard (onPools x)) d := by
  have hsupplies : d.Supplies (d.after (onPools x)) [] := by
    obtain ⟨pools, claims, hafter⟩ := after_onPools x d
    rw [hafter]
    exact Draft.supplies_nil rfl rfl rfl
  constructor
  · intro _ d' h
    obtain ⟨slot, hok⟩ := discard_eq_ok_iff.mp h
    rwa [Draft.after, hok] at hsupplies
  · intro failure d' h
    rw [Draft.after, discard_eq_error_iff.mp h] at hsupplies
    exact ⟨[], List.prefix_rfl, hsupplies⟩

end Declaring

-- The dispatch that an operation declares, if it succeeds.
def DraftStep.orders (d : Draft) : DraftStep → List DispatchOrder
  | .dispatch shader defines args =>
    d.denoiser.pending.toList.map fun pass => ⟨⟨shader, defines⟩, args.layout pass⟩
  | _ => []

theorem DraftStep.yields (step : DraftStep) (d : Draft) : Yields (step.orders d) step.run d := by
  cases step with
  | permanent texture => exact yields_onPools _ d
  | transient texture => exact yields_onPools _ d
  | pass stage => exact (places_openPass stage d).yields
  | input reference => exact (places_addInput reference d).yields
  | output reference => exact (places_addOutput reference d).yields
  | dispatch shader defines args =>
    cases hpending : d.denoiser.pending with
    | some pass =>
      simp only [orders, hpending]
      exact (places_addDispatch hpending).discard.yields
    | none =>
      have hrefused : Places [] (addDispatch shader defines args) d := by
        apply places_nil_of
        · intro n d' h
          rw [addDispatch_eq, hpending] at h
          cases h
        · intro failure d' h
          rw [addDispatch_error h]
          exact ⟨Draft.supplies_nil rfl rfl rfl, rfl, rfl⟩
      simp only [orders, hpending]
      exact hrefused.discard.yields

-- Of the dispatches that an operation is asked for, those that it declares: all, unless it fails.
def Draft.declared (d : Draft) (x : Declaring Unit) (asked : List DispatchOrder) :
    List DispatchOrder :=
  match x d with
  | .ok _ _ => asked
  | .error _ d' => asked.take (d'.tables.dispatches.size - d.tables.dispatches.size)

namespace Declaring.Yields

variable {d : Draft} {x : Declaring Unit} {asked before : List DispatchOrder}

theorem defines (h : Yields asked x d) : (d.after x).denoiser.defines = d.denoiser.defines := by
  rw [Draft.after]
  split
  · exact (h.1 _ _ ‹_›).defines
  · obtain ⟨done, -, hsupplies⟩ := h.2 _ _ ‹_›
    exact hsupplies.defines

theorem fulfils (h : Yields asked x d) (hplain : ∀ order ∈ asked, order.key.Plain)
    (hbefore : d.tables.Fulfils before) :
    (d.after x).tables.Fulfils (before ++ d.declared x asked) := by
  cases hx : x d with
  | ok u d' =>
    rw [Draft.after, Draft.declared, hx]
    exact (h.1 u d' hx).fulfils before hbefore hplain
  | error failure d' =>
    rw [Draft.after, Draft.declared, hx]
    obtain ⟨done, hdone, hsupplies⟩ := h.2 failure d' hx
    have hafter := hsupplies.fulfils before hbefore fun order horder =>
      hplain order (hdone.subset horder)
    have hlength : d'.tables.dispatches.size - d.tables.dispatches.size = done.length := by
      rw [hafter.size, hbefore.size, List.length_append, Nat.add_sub_cancel_left]
    simp only [hlength]
    rwa [← List.prefix_iff_eq_take.mp hdone]

end Declaring.Yields

end DenoisePlanner
