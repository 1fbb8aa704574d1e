import DenoisePlanner.Proofs.Binding

namespace DenoisePlanner

def Draft.withoutPass (d : Draft) : Draft :=
  { d with denoiser := { d.denoiser with pending := none } }

-- What a dispatch expects to be bound, given the pass that it closes.
def DispatchArgs.layout (args : DispatchArgs) (pass : OpenPass) : PipelineLayout where
  threads := args.threads
  textures := pass.inputs.size
  storageTextures := pass.outputs.size
  hasConstants := args.data.hasShared

def OpenPass.dispatch (pass : OpenPass) (denoiser : OpenDenoiser) (args : DispatchArgs)
    (pipeline : Nat) (bindings : Span) : DeclaredDispatch where
  name := denoiser.name ++ " - " ++ pass.stage.name
  stage := pass.stage
  pipeline := pipeline
  bindings := bindings
  data := args.data
  constantsSize :=
    if args.data.hasShared then denoiser.sharedSize + args.data.extraSize else 0
  threads := args.threads
  downsample := args.downsample
  repeats := args.repeats

-- What becomes of a dispatch, given the pass that it closes and what is said of its pipeline.
def OpenPass.close (pass : OpenPass) (args : DispatchArgs) (d : Draft) :
    EStateM.Result Failure Declarations Nat → EStateM.Result Failure Draft Nat
  | .error e tables => .error e ⟨tables, d.withoutPass.denoiser⟩
  | .ok position tables =>
    .ok tables.dispatches.size
      ⟨{ tables with
          bindings := tables.bindings ++ (pass.inputs ++ pass.outputs)
          dispatches := tables.dispatches.push (pass.dispatch d.denoiser args position
            ⟨tables.bindings.size, tables.bindings.size + (pass.inputs ++ pass.outputs).size⟩) },
        d.withoutPass.denoiser⟩

namespace Declaring

variable {d d' : Draft}

theorem takePass_eq (d : Draft) :
    takePass d = match d.denoiser.pending with
      | some pass => .ok pass d.withoutPass
      | none => .error (.invalidArgument .dispatchOutsidePass) d := by
  show (match d.denoiser.pending with
    | some pass => do
      modify fun d => d.withoutPass
      pure pass
    | none => throw (.invalidArgument .dispatchOutsidePass) : Declaring OpenPass) d = _
  cases d.denoiser.pending <;> rfl

theorem addDispatch_eq (shader : String) (defines : List Define) (args : DispatchArgs)
    (d : Draft) :
    addDispatch shader defines args d =
      match d.denoiser.pending with
      | none => .error (.invalidArgument .dispatchOutsidePass) d
      | some pass =>
        if args.downsample == 0 || args.repeats == 0 then
          .error (.invalidArgument .emptyDispatch) d.withoutPass
        else
          pass.close args d
            (Declarations.addPipeline ⟨shader, defines⟩ (args.layout pass) d.tables) := by
  cases hpending : d.denoiser.pending with
  | none =>
    have htake : takePass d = .error (.invalidArgument .dispatchOutsidePass) d := by
      rw [takePass_eq, hpending]
    exact bind_of_error htake
  | some pass =>
    have htake : takePass d = .ok pass d.withoutPass := by rw [takePass_eq, hpending]
    refine (bind_of_ok htake).trans ?_
    by_cases hempty : (args.downsample == 0 || args.repeats == 0) = true
    · simp only [hempty, if_true]
      rfl
    · simp only [hempty]
      cases hadd : Declarations.addPipeline ⟨shader, defines⟩ (args.layout pass) d.tables with
      | error failure tables =>
        have honTables : onTables (Declarations.addPipeline ⟨shader, defines⟩ (args.layout pass))
            d.withoutPass = .error failure ⟨tables, d.withoutPass.denoiser⟩ := by
          rw [onTables, show d.withoutPass.tables = d.tables from rfl, hadd]
        exact bind_of_error honTables
      | ok position tables =>
        have honTables : onTables (Declarations.addPipeline ⟨shader, defines⟩ (args.layout pass))
            d.withoutPass = .ok position ⟨tables, d.withoutPass.denoiser⟩ := by
          rw [onTables, show d.withoutPass.tables = d.tables from rfl, hadd]
        exact bind_of_ok honTables

-- A dispatch closes the open pass, and whether it succeeds is up to its pipeline.
theorem addDispatch_of_pending {shader : String} {defines : List Define} {args : DispatchArgs}
    {pass : OpenPass} (hpending : d.denoiser.pending = some pass)
    (hpositive : args.downsample ≠ 0 ∧ args.repeats ≠ 0) :
    addDispatch shader defines args d =
      pass.close args d
        (Declarations.addPipeline ⟨shader, defines⟩ (args.layout pass) d.tables) := by
  have hnonempty : ¬(args.downsample == 0 || args.repeats == 0) = true := by
    simp [hpositive.1, hpositive.2]
  rw [addDispatch_eq, hpending]
  exact if_neg hnonempty

theorem addDispatch_eq_ok_iff {shader : String} {defines : List Define} {args : DispatchArgs}
    {n : Nat} : addDispatch shader defines args d = .ok n d' ↔
      ∃ pass position tables, d.denoiser.pending = some pass ∧
        args.downsample ≠ 0 ∧ args.repeats ≠ 0 ∧
        Declarations.addPipeline ⟨shader, defines⟩ (args.layout pass) d.tables =
          .ok position tables ∧
        pass.close args d (.ok position tables) = .ok n d' := by
  constructor
  · intro h
    rw [addDispatch_eq] at h
    cases hpending : d.denoiser.pending with
    | none =>
      rw [hpending] at h
      cases h
    | some pass =>
      simp only [hpending] at h
      split at h
      · cases h
      · rename_i hpositive
        simp only [Bool.or_eq_true, beq_iff_eq, not_or] at hpositive
        cases hadd : Declarations.addPipeline ⟨shader, defines⟩ (args.layout pass) d.tables with
        | error e tables =>
          rw [hadd] at h
          cases h
        | ok position tables =>
          rw [hadd] at h
          exact ⟨pass, position, tables, rfl, hpositive.1, hpositive.2, hadd, h⟩
  · rintro ⟨pass, position, tables, hpending, hdownsample, hrepeats, hadd, hclose⟩
    rw [addDispatch_of_pending hpending ⟨hdownsample, hrepeats⟩, hadd, hclose]

end Declaring

end DenoisePlanner
