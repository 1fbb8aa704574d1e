import DenoisePlanner.Proofs.Operations

namespace DenoisePlanner

open Declaring

-- The textures behind a denoiser's permanent slots are there to be cleared.
theorem Claims.Within.texture?_isSome {claims : Claims} {pools : Pools}
    (h : claims.Within pools) :
    ∀ slot ∈ claims.permanentSlots, (pools.texture? claims slot).isSome := by
  intro slot hslot
  obtain ⟨i, hi, rfl⟩ := List.mem_map.mp hslot
  have hcount := List.mem_range.mp hi
  have hinside : claims.base + i < pools.permanent.size := by
    have := h.permanent
    omega
  rw [Pools.texture?, resolve_permanent hcount]
  simp only [Array.getElem?_eq_getElem hinside, Option.isSome_some]

-- Names and values of a step's shaders and defines can be told from their separators.
def WorkshopStep.Plain : WorkshopStep → Prop
  | .begin _ defines _ => ∀ d ∈ defines, d.Plain
  | .build (.dispatch shader defines _) => ShaderKey.Plain ⟨shader, defines⟩
  | .declare passes => ∀ pass ∈ passes, ' ' ∉ pass.shader.toList
  | _ => True

namespace WorkshopStep

instance : (step : WorkshopStep) → Decidable step.Plain
  | .begin _ defines _ => inferInstanceAs (Decidable (∀ d ∈ defines, d.Plain))
  | .build (.dispatch shader defines _) =>
    inferInstanceAs (Decidable (ShaderKey.Plain ⟨shader, defines⟩))
  | .declare passes => inferInstanceAs (Decidable (∀ pass ∈ passes, ' ' ∉ pass.shader.toList))
  | .build (.permanent _) => .isTrue trivial
  | .build (.transient _) => .isTrue trivial
  | .build (.pass _) => .isTrue trivial
  | .build (.input _) => .isTrue trivial
  | .build (.output _) => .isTrue trivial
  | .finish => .isTrue trivial
  | .exchange _ => .isTrue trivial

end WorkshopStep

-- Keys of what is asked for can be told apart.
theorem DraftStep.plain_orders {step : DraftStep} {d : Draft}
    (h : (WorkshopStep.build step).Plain) : ∀ order ∈ step.orders d, order.key.Plain := by
  intro order horder
  cases step with
  | dispatch shader defines args =>
    obtain ⟨pass, -, rfl⟩ := List.mem_map.mp horder
    exact h
  | permanent texture => cases horder
  | transient texture => cases horder
  | pass stage => cases horder
  | input reference => cases horder
  | output reference => cases horder

theorem Draft.plain_orders {d : Draft} {passes : List Pass}
    (hdefines : ∀ x ∈ d.denoiser.defines, x.Plain)
    (hpasses : ∀ pass ∈ passes, ' ' ∉ pass.shader.toList) :
    ∀ order ∈ (d.schedule passes).flatMap ScheduledPass.orders, order.key.Plain := by
  intro order horder
  obtain ⟨e, he, horder⟩ := List.mem_flatMap.mp horder
  obtain ⟨s, -, rfl⟩ := List.mem_map.mp horder
  rcases List.mem_append.mp he with he | he
  · obtain ⟨slot, -, hslot⟩ := List.mem_filterMap.mp he
    obtain ⟨texture, -, rfl⟩ := Option.map_eq_some_iff.mp hslot
    exact ScheduledPass.plain_key_of (ScheduledPass.plain_shader_clear slot texture)
      (fun x hx => by cases hx) s
  · obtain ⟨pass, hpass, rfl⟩ := List.mem_map.mp he
    exact ScheduledPass.plain_key_of (hpasses pass hpass) hdefines s

namespace Workshop

variable {w : Workshop} {before : List DispatchOrder} {step : WorkshopStep}

-- The dispatches that a step declares for the current denoiser.
def declared (w : Workshop) : WorkshopStep → List DispatchOrder
  | .build step => w.current.toList.flatMap fun denoiser =>
    let d : Draft := ⟨w.tables, denoiser⟩
    d.declared step.run (step.orders d)
  | .declare passes => w.current.toList.flatMap fun denoiser =>
    let d : Draft := ⟨w.tables, denoiser⟩
    d.declared (Declaring.declare passes) ((d.schedule passes).flatMap ScheduledPass.orders)
  | _ => []

-- All dispatches that are declared in a run.
def orders (w : Workshop) : List WorkshopStep → List DispatchOrder
  | [] => []
  | step :: steps => w.declared step ++ (w.next step).orders steps

-- The defines of the current denoiser can be told apart.
def Plain (w : Workshop) : Prop :=
  ∀ denoiser, w.current = some denoiser → ∀ d ∈ denoiser.defines, d.Plain

theorem orders_append (w : Workshop) (steps more : List WorkshopStep) :
    w.orders (steps ++ more) = w.orders steps ++ (steps.foldl next w).orders more := by
  induction steps generalizing w with
  | nil => rfl
  | cons step steps ih =>
    rw [List.cons_append, orders, ih, orders, List.foldl_cons, List.append_assoc]

theorem Plain.perform (hw : w.Plain) {denoiser : OpenDenoiser}
    (hcurrent : w.current = some denoiser) {x : Declaring Unit} {asked : List DispatchOrder}
    (hasked : ∀ order ∈ asked, order.key.Plain) (hx : Yields asked x ⟨w.tables, denoiser⟩) :
    (w.perform x).Plain ∧ ∀ before, w.tables.Fulfils before →
      (w.perform x).tables.Fulfils (before ++ Draft.declared ⟨w.tables, denoiser⟩ x asked) := by
  rw [Workshop.perform, hcurrent]
  refine ⟨?_, fun before hbefore => hx.fulfils hasked hbefore⟩
  rintro _ ⟨⟩ d hd
  rw [hx.defines] at hd
  exact hw denoiser hcurrent d hd

-- What a step does to the tables.
theorem Plain.next (hw : w.Plain) (hsound : w.Sound) (hstep : step.Plain) :
    (w.next step).Plain ∧ ∀ before, w.tables.Fulfils before →
      (w.next step).tables.Fulfils (before ++ w.declared step) := by
  cases step with
  | begin name defines sharedSize =>
    refine ⟨?_, fun before hbefore => hbefore.append_nil rfl rfl⟩
    rintro _ ⟨⟩
    exact hstep
  | finish =>
    have hfinish : w.finish.tables = w.tables ∧ w.finish.current = none := by
      unfold Workshop.finish
      split <;> exact ⟨rfl, rfl⟩
    refine ⟨fun denoiser hdenoiser => ?_, fun before hbefore => ?_⟩
    · cases hfinish.2.symm.trans hdenoiser
    · exact hbefore.append_nil (congrArg Declarations.pipelines hfinish.1)
        (congrArg Declarations.dispatches hfinish.1)
  | exchange i =>
    rw [Workshop.next]
    split
    · exact ⟨hw, fun before hbefore => hbefore.append_nil rfl rfl⟩
    · exact ⟨hw, fun before hbefore => hbefore.append_nil rfl rfl⟩
  | build step =>
    cases hcurrent : w.current with
    | none =>
      simp only [Workshop.next, Workshop.perform, Workshop.declared, hcurrent]
      exact ⟨hw, fun before hbefore => hbefore.append_nil rfl rfl⟩
    | some denoiser =>
      have hdeclared : w.declared (.build step) =
          Draft.declared ⟨w.tables, denoiser⟩ step.run (step.orders ⟨w.tables, denoiser⟩) := by
        simp [Workshop.declared, hcurrent]
      rw [hdeclared]
      exact hw.perform hcurrent (DraftStep.plain_orders hstep) (step.yields _)
  | declare passes =>
    cases hcurrent : w.current with
    | none =>
      simp only [Workshop.next, Workshop.perform, Workshop.declared, hcurrent]
      exact ⟨hw, fun before hbefore => hbefore.append_nil rfl rfl⟩
    | some denoiser =>
      have hdeclared : w.declared (.declare passes) =
          Draft.declared ⟨w.tables, denoiser⟩ (Declaring.declare passes)
            ((Draft.schedule ⟨w.tables, denoiser⟩ passes).flatMap ScheduledPass.orders) := by
        simp [Workshop.declared, hcurrent]
      have hknown := (hsound.current denoiser hcurrent).within.texture?_isSome
      rw [hdeclared]
      exact hw.perform hcurrent (Draft.plain_orders (hw denoiser hcurrent) hstep)
        (places_declare passes hknown).yields

theorem fulfils_foldl (hw : w.Plain) (hsound : w.Sound) (h : w.tables.Fulfils before)
    {steps : List WorkshopStep} (hsteps : ∀ step ∈ steps, step.Plain) :
    (steps.foldl next w).Plain ∧
      (steps.foldl next w).tables.Fulfils (before ++ w.orders steps) := by
  induction steps generalizing w before with
  | nil =>
    rw [orders, List.append_nil]
    exact ⟨hw, h⟩
  | cons step steps ih =>
    obtain ⟨hstep, hrest⟩ := List.forall_mem_cons.mp hsteps
    rw [orders, ← List.append_assoc]
    obtain ⟨hnext, hfulfils⟩ := hw.next hsound hstep
    exact ih hnext (hsound.next step) (hfulfils before h) hrest

theorem fulfils_of_steps {steps : List WorkshopStep} (hsteps : ∀ step ∈ steps, step.Plain) :
    (steps.foldl next {}).tables.Fulfils (orders {} steps) := by
  have hnew : Plain {} := fun denoiser h => by cases h
  exact (fulfils_foldl hnew .new .empty hsteps).2

end Workshop

namespace Declarations.Fulfils

variable {t : Declarations} {orders : List DispatchOrder}

-- A dispatch is refused for its bindings if its shader is known with others, and only then.
theorem addDispatch_mismatched_iff {d d' : Draft} (h : d.tables.Fulfils orders)
    {pass : OpenPass} (hpending : d.denoiser.pending = some pass) {shader : String}
    {defines : List Define} (hkey : ShaderKey.Plain ⟨shader, defines⟩) {args : DispatchArgs}
    (hpositive : args.downsample ≠ 0 ∧ args.repeats ≠ 0) {identifier : String}
    {expected given : PipelineLayout} :
    Declaring.addDispatch shader defines args d =
        .error (.mismatchedBindings identifier expected given) d' ↔
      (∃ order ∈ orders, order.key = ⟨shader, defines⟩ ∧ order.layout = expected) ∧
        identifier = ShaderKey.identifier ⟨shader, defines⟩ ∧ given = args.layout pass ∧
        expected ≠ given ∧ d' = d.withoutPass := by
  rw [← h.exists_find?_iff hkey, Declaring.addDispatch_of_pending hpending hpositive]
  constructor
  · intro heq
    cases hadd : Declarations.addPipeline ⟨shader, defines⟩ (args.layout pass) d.tables with
    | ok position tables =>
      rw [hadd] at heq
      cases heq
    | error failure tables =>
      rw [hadd] at heq
      cases heq
      obtain ⟨hfind, hidentifier, hgiven, hne, rfl⟩ := addPipeline_mismatched_iff.mp hadd
      exact ⟨hfind, hidentifier, hgiven, hne, rfl⟩
  · rintro ⟨hfind, hidentifier, hgiven, hne, rfl⟩
    rw [addPipeline_mismatched_iff.mpr ⟨hfind, hidentifier, hgiven, hne, rfl⟩]
    rfl

end Declarations.Fulfils

namespace Workshop

-- Each dispatch keeps the shader and the bindings that it was declared with, dispatches of one
-- shader share a pipeline, and pipelines stand in the order in which their shaders came up. A
-- dispatch is refused for its bindings if its shader was declared with others, and only then;
-- tables of passes are declared by the same operations.
theorem orders_kept (steps : List WorkshopStep) (hsteps : ∀ step ∈ steps, step.Plain) :
    let w := steps.foldl next {}
    let declared := orders {} steps
    w.tables.dispatches.size = declared.length ∧
    (∀ more : List WorkshopStep, (∀ step ∈ more, step.Plain) →
      ∀ (n : Nat) order, declared[n]? = some order → (more.foldl next w).tables.Fills n order) ∧
    (∀ (m n : Nat) x y dispatch dispatch', declared[m]? = some x → declared[n]? = some y →
      w.tables.dispatches[m]? = some dispatch → w.tables.dispatches[n]? = some dispatch' →
      (dispatch.pipeline = dispatch'.pipeline ↔ x.key = y.key)) ∧
    w.tables.pipelines.pipelines.toList.map Pipeline.key =
      (declared.map DispatchOrder.key).eraseDups ∧
    (∀ denoiser, w.current = some denoiser →
      (∀ pass shader defines args, denoiser.pending = some pass →
        ShaderKey.Plain ⟨shader, defines⟩ → args.downsample ≠ 0 ∧ args.repeats ≠ 0 →
        ∀ identifier expected given d',
          Declaring.addDispatch shader defines args ⟨w.tables, denoiser⟩ =
              .error (.mismatchedBindings identifier expected given) d' ↔
            (∃ order ∈ declared, order.key = ⟨shader, defines⟩ ∧ order.layout = expected) ∧
              identifier = ShaderKey.identifier ⟨shader, defines⟩ ∧ given = args.layout pass ∧
              expected ≠ given ∧ d' = Draft.withoutPass ⟨w.tables, denoiser⟩) ∧
      ∀ passes, outcome (declare passes) ⟨w.tables, denoiser⟩ =
        outcome ((Draft.operations ⟨w.tables, denoiser⟩ passes).forM DraftStep.run)
          ⟨w.tables, denoiser⟩) ∧
    ∀ (v : Variant) name sharedSize,
      (WorkshopStep.begin name v.blueprint.defines sharedSize).Plain ∧
        (WorkshopStep.declare v.blueprint.passes).Plain := by
  intro w declared
  have hfulfils : w.tables.Fulfils declared := fulfils_of_steps hsteps
  refine ⟨hfulfils.size, ?_, fun m n x y dispatch dispatch' => hfulfils.pipeline_eq_iff,
    hfulfils.keys, fun denoiser hcurrent => ⟨?_, fun passes => ?_⟩,
    fun v _ _ => ⟨v.plain_define, v.plain_shader⟩⟩
  · intro more hmore n order hn
    have hall := fulfils_of_steps (List.forall_mem_append.mpr ⟨hsteps, hmore⟩)
    rw [orders_append, List.foldl_append] at hall
    apply hall.fills n order
    rw [List.getElem?_append_left (List.getElem?_eq_some_iff.mp hn).1, hn]
  · intro pass shader defines args hpending hkey hpositive identifier expected given d'
    exact hfulfils.addDispatch_mismatched_iff hpending hkey hpositive
  · have hsound : w.Sound := Sound.new.foldl steps
    exact outcome_declare passes (hsound.current denoiser hcurrent).within.texture?_isSome

-- Two denoisers share a pipeline, and each is refused the shader with bindings of another kind.
theorem exists_orders_kept :
    ∃ steps : List WorkshopStep, (∀ step ∈ steps, step.Plain) ∧
      let w := steps.foldl next {}
      w.tables.dispatches.toList.map DeclaredDispatch.pipeline = [0, 1, 0] ∧
      w.tables.pipelines.pipelines.toList.map Pipeline.key =
        [⟨"Copy", [⟨"MODE", "1"⟩]⟩, ⟨"Copy", [⟨"MODE", "2"⟩]⟩] ∧
      ∃ denoiser d', w.current = some denoiser ∧
        Declaring.addDispatch "Copy" [⟨"MODE", "1"⟩] {} ⟨w.tables, denoiser⟩ =
          .error (.mismatchedBindings "Copy MODE=1" ⟨⟨8, 8⟩, 1, 1, true⟩ ⟨⟨8, 8⟩, 0, 1, true⟩)
            d' := by
  let steps : List WorkshopStep :=
    [.begin "First" [] 0,
      .build (.pass .copy), .build (.input (.host (.input .signal))),
      .build (.output (.host (.output .signal))), .build (.dispatch "Copy" [⟨"MODE", "1"⟩] {}),
      .build (.pass .copy), .build (.output (.host (.output .signal))),
      .build (.dispatch "Copy" [⟨"MODE", "1"⟩] {}), .finish,
      .begin "Second" [] 0,
      .build (.pass .copy), .build (.output (.host (.output .signal))),
      .build (.dispatch "Copy" [⟨"MODE", "2"⟩] {}),
      .build (.pass .copy), .build (.input (.host (.input .signal))),
      .build (.output (.host (.output .signal))), .build (.dispatch "Copy" [⟨"MODE", "1"⟩] {}),
      .build (.pass .copy), .build (.output (.host (.output .signal)))]
  have hsteps : ∀ step ∈ steps, step.Plain := by decide +kernel
  obtain ⟨-, -, -, hkeys, hcurrent, -⟩ := orders_kept steps hsteps
  refine ⟨steps, hsteps, by decide +kernel, ?_, ?_⟩
  · rw [hkeys]
    decide +kernel
  · have hlayout : (steps.foldl next {}).current.bind (fun denoiser => denoiser.pending.map
        (DispatchArgs.layout {})) = some ⟨⟨8, 8⟩, 0, 1, true⟩ := by decide +kernel
    obtain ⟨denoiser, hdenoiser, hpending⟩ := Option.bind_eq_some_iff.mp hlayout
    obtain ⟨pass, hpass, hgiven⟩ := Option.map_eq_some_iff.mp hpending
    refine ⟨denoiser, _, hdenoiser, ((hcurrent denoiser hdenoiser).1 pass "Copy" _ _ hpass
      (by decide) (by decide) _ _ _ _).mpr ⟨?_, by decide, hgiven.symm, by decide, rfl⟩⟩
    decide +kernel

end Workshop

end DenoisePlanner
