import DenoisePlanner.Proofs.Agreement

namespace DenoisePlanner

open Declaring

-- One operation of a declaration.
inductive DraftStep where
  | permanent (texture : Texture)
  | transient (texture : Texture)
  | pass (stage : Stage)
  | input (reference : Reference)
  | output (reference : Reference)
  | dispatch (shader : String) (defines : List Define) (args : DispatchArgs)

def DraftStep.run : DraftStep → Declaring Unit
  | .permanent texture => discard (addPermanent texture)
  | .transient texture => discard (addTransient texture)
  | .pass stage => openPass stage
  | .input reference => addInput reference
  | .output reference => addOutput reference
  | .dispatch shader defines args => discard (addDispatch shader defines args)

namespace Draft

theorem error_after {α : Type} {x : Declaring α} {d : Draft} (h : Declaring.succeeds x d = false) :
    ∃ failure, x d = .error failure (d.after x) := by
  cases hx : x d with
  | ok a d' => simp [Declaring.succeeds, hx] at h
  | error failure d' => exact ⟨failure, by rw [Draft.after, hx]⟩

-- A denoiser in the course of its declaration, some of whose operations may have failed.
def steps (d : Draft) (l : List DraftStep) : Draft := l.foldl (fun d step => d.after step.run) d

end Draft

-- The roles that a reference asks for are registered, whatever becomes of the binding.
def Claims.Registers (claims : Claims) (swaps : SwapTable) (r : Reference) (swaps' : SwapTable) :
    Prop :=
  ∃ current other entry, r = .swapping (.permanent current) (.permanent other) ∧
    current < claims.permanentCount ∧ other < claims.permanentCount ∧
    swaps.register (claims.base + current) (claims.base + other) = .ok (entry, swaps')

theorem SwapTable.register_again {t t' t'' : SwapTable} {P : SwapPair → Prop} {a b entry : Nat}
    (h : t.register a b = .ok (entry, t')) (hgrows : Grows P t'.pairs t''.pairs) :
    t''.register a b = .ok (entry, t'') := by
  obtain ⟨hne, hfound, -⟩ := register_ok h
  have hfound' : t''.pairs.findIdx? (·.joins a b) = some entry := hgrows.findIdx? hfound
  rw [register, if_neg hne, hfound']

namespace Claims

variable {claims : Claims} {swaps swaps' swaps'' : SwapTable} {access : Access} {r : Reference}
  {binding : Binding}

theorem attach_ok (h : claims.attach swaps access r = .ok (binding, swaps')) :
    swaps' = swaps ∨ claims.Registers swaps r swaps' := by
  rcases attach_eq_ok_iff.mp h with ⟨-, -, -, hswaps⟩ | ⟨-, -, -, -, -, -, hswaps⟩ |
    ⟨i, j, entry, hr, hi, hj, hregister, -⟩
  · exact .inl hswaps
  · exact .inl hswaps
  · exact .inr ⟨i, j, entry, hr, hi, hj, hregister⟩

-- Roles that are known already are found again.
theorem attach_again {P : SwapPair → Prop}
    (h : claims.attach swaps access r = .ok (binding, swaps'))
    (hgrows : Grows P swaps'.pairs swaps''.pairs) :
    claims.attach swaps'' access r = .ok (binding, swaps'') := by
  rcases attach_eq_ok_iff.mp h with ⟨kind, hr, hbinding, -⟩ |
    ⟨slot, kind, index, hr, hslot, hbinding, -⟩ | ⟨i, j, entry, hr, hi, hj, hregister, hbinding⟩
  · exact attach_eq_ok_iff.mpr (.inl ⟨kind, hr, hbinding, rfl⟩)
  · exact attach_eq_ok_iff.mpr (.inr (.inl ⟨slot, kind, index, hr, hslot, hbinding, rfl⟩))
  · have hknown := SwapTable.register_again hregister hgrows
    exact attach_eq_ok_iff.mpr (.inr (.inr ⟨i, j, entry, hr, hi, hj, hknown, hbinding⟩))

end Claims

namespace Allotting

variable {s s' : Allotment} {texture : Texture} {failure : Failure}

-- An addition fails for want of room only, and then it changes nothing.
theorem addPermanent_error_iff : addPermanent texture s = .error failure s' ↔
    Pools.capacity ≤ s.pools.permanent.size ∧ failure = .overflow .permanent ∧ s' = s := by
  simp only [addPermanent, bind_eq_error_iff, get_eq_error_iff, get_eq_ok_iff, guard_eq_error_iff,
    modifyGet_eq_error_iff, false_or, and_false, or_false]
  constructor
  · rintro ⟨_, _, ⟨rfl, rfl⟩, hfull, rfl, rfl⟩
    exact ⟨hfull, rfl, rfl⟩
  · rintro ⟨hfull, rfl, rfl⟩
    exact ⟨_, _, ⟨rfl, rfl⟩, hfull, rfl, rfl⟩

theorem addTransient_error_iff : addTransient texture s = .error failure s' ↔
    s.pools.firstReusable s.claims texture = none ∧ Pools.capacity ≤ s.pools.transient.size ∧
      failure = .overflow .transient ∧ s' = s := by
  simp only [addTransient, bind_eq_error_iff, get_eq_error_iff, get_eq_ok_iff, false_or]
  cases hreuse : s.pools.firstReusable s.claims texture with
  | some i =>
    refine iff_of_false ?_ (by simp)
    rintro ⟨_, _, ⟨rfl, rfl⟩, h⟩
    simp [hreuse, claimTransient, modifyGet_eq_error_iff] at h
  | none =>
    constructor
    · rintro ⟨_, _, ⟨rfl, rfl⟩, h⟩
      simp only [hreuse, guard_eq_error_iff, bind_eq_error_iff, modify_eq_error_iff,
        claimTransient, modifyGet_eq_error_iff, and_false, exists_false, or_false] at h
      exact ⟨rfl, h.1, h.2.1.symm, h.2.2.symm⟩
    · rintro ⟨-, hfull, rfl, rfl⟩
      refine ⟨_, _, ⟨rfl, rfl⟩, ?_⟩
      simp only [hreuse, guard_eq_error_iff]
      exact .inl ⟨hfull, trivial, trivial⟩

theorem addPermanent_error (h : addPermanent texture s = .error failure s') : s' = s :=
  (addPermanent_error_iff.mp h).2.2

theorem addTransient_error (h : addTransient texture s = .error failure s') : s' = s :=
  (addTransient_error_iff.mp h).2.2.2

end Allotting

namespace Declarations

variable {t t' : Declarations} {failure : Failure}

theorem addPipeline_error {key : ShaderKey} {layout : PipelineLayout}
    (h : addPipeline key layout t = .error failure t') : t' = t := by
  unfold addPipeline at h
  dsimp only at h
  split at h
  · split at h
    · cases h
    · cases h
      rfl
  · split at h
    · cases h
      rfl
    · cases h

end Declarations

namespace Declaring

variable {d d' : Draft} {failure : Failure}

theorem onPools_error {α : Type} {x : Allotting α} (h : onPools x d = .error failure d')
    (hx : ∀ s s', x s = .error failure s' → s' = s) : d' = d := by
  unfold onPools at h
  dsimp only at h
  split at h
  · cases h
  · rename_i s hs
    cases h
    rw [hx _ _ hs]

theorem openPass_error {stage : Stage} (h : openPass stage d = .error failure d') : d' = d := by
  simp only [openPass, bind_eq_error_iff, get_eq_error_iff, get_eq_ok_iff, guard_eq_error_iff,
    modify_eq_error_iff, false_or, and_false, or_false] at h
  obtain ⟨_, _, ⟨rfl, rfl⟩, -, -, rfl⟩ := h
  rfl

theorem openPass_eq (stage : Stage) (h : d.denoiser.pending = none) :
    openPass stage d = .ok ⟨⟩ (withOpen d d.tables.swaps { stage }) := by
  show (if d.denoiser.pending.isSome then _ else _ : Declaring Unit) d = _
  rw [h]
  rfl

theorem modifyPass_eq (f : OpenPass → OpenPass) (d : Draft) :
    modifyPass f d = match d.denoiser.pending with
      | some pass => .ok ⟨⟩ (withOpen d d.tables.swaps (f pass))
      | none => .error (.invalidArgument .bindingOutsidePass) d := by
  show (match d.denoiser.pending with
    | some pass =>
      modify fun d => { d with denoiser := { d.denoiser with pending := some (f pass) } }
    | none => throw (.invalidArgument .bindingOutsidePass) : Declaring Unit) d = _
  cases d.denoiser.pending <;> rfl

-- What inputs and outputs have in common: the binding is made, and its roles are registered, before
-- it turns out whether a pass is open.
def connect (access : Access) (e : Failure) (f : Binding → OpenPass → OpenPass) (r : Reference) :
    Declaring Unit := do
  if !admissible access r then throw e
  let binding ← Declaring.bind access r
  modifyPass (f binding)

theorem connect_eq (access : Access) (e : Failure) (f : Binding → OpenPass → OpenPass)
    (r : Reference) (d : Draft) :
    connect access e f r d =
      if admissible access r then
        match d.denoiser.claims.attach d.tables.swaps access r with
        | .error e' => .error e' d
        | .ok (binding, swaps) => match d.denoiser.pending with
          | none => .error (.invalidArgument .bindingOutsidePass) (d.withSwaps swaps)
          | some pass => .ok ⟨⟩ (withOpen d swaps (f binding pass))
      else .error e d := by
  unfold connect
  by_cases hr : admissible access r
  · simp only [hr, Bool.not_true, if_true]
    show EStateM.bind (Declaring.bind access r) _ d = _
    rw [EStateM.bind, bind_eq]
    cases d.denoiser.claims.attach d.tables.swaps access r with
    | error e' => rfl
    | ok attached =>
      show modifyPass (f attached.1) (d.withSwaps attached.2) = _
      rw [modifyPass_eq]
      simp only [Draft.withSwaps]
      cases d.denoiser.pending <;> rfl
  · simp only [hr]
    rfl

variable {access : Access} {e : Failure} {f : Binding → OpenPass → OpenPass} {r : Reference}

theorem connect_error (h : connect access e f r d = .error failure d') :
    d' = d ∨ d.denoiser.pending = none ∧
      ∃ swaps, d.denoiser.claims.Registers d.tables.swaps r swaps ∧ d' = d.withSwaps swaps := by
  rw [connect_eq] at h
  split at h
  · split at h
    · cases h
      exact .inl rfl
    · rename_i binding swaps hattach
      split at h
      · rename_i hpending
        cases h
        obtain rfl | hregisters := Claims.attach_ok hattach
        · exact .inl rfl
        · exact .inr ⟨hpending, swaps, hregisters, rfl⟩
      · cases h
  · cases h
    exact .inl rfl

-- Once a pass is open, nothing tells that the binding was tried before.
theorem connect_retried (h : connect access e f r d = .error failure d') (stage : Stage) :
    (openPass stage >>= fun _ => connect access e f r) d' =
      (openPass stage >>= fun _ => connect access e f r) d := by
  rw [connect_eq] at h
  split at h
  · rename_i hadmissible
    split at h
    · cases h
      rfl
    · rename_i binding swaps hattach
      split at h
      · rename_i hpending
        cases h
        have hagain := Claims.attach_again hattach (.refl (P := fun _ => True) _)
        show EStateM.bind _ _ _ = EStateM.bind _ _ _
        rw [EStateM.bind, EStateM.bind, openPass_eq stage hpending,
          openPass_eq (d := d.withSwaps swaps) stage hpending]
        show connect access e f r _ = connect access e f r _
        rw [connect_eq, connect_eq, if_pos hadmissible, if_pos hadmissible]
        simp only [withOpen, Draft.withSwaps, hattach, hagain]
      · cases h
  · cases h
    rfl

-- What is bound to an open pass is bound again in the same way, also where the roles that it
-- registered are known by then.
def Repeats (x : Declaring Unit) : Prop :=
  ∀ ⦃d d' : Draft⦄ ⦃swaps : SwapTable⦄ ⦃pass : OpenPass⦄, x (withOpen d swaps pass) = .ok ⟨⟩ d' →
    ∃ swaps' pass', d' = withOpen d swaps' pass' ∧
      Grows d.denoiser.claims.OwnPair swaps.pairs swaps'.pairs ∧
      ∀ swaps'', Grows d.denoiser.claims.OwnPair swaps'.pairs swaps''.pairs →
        x (withOpen d swaps'' pass) = .ok ⟨⟩ (withOpen d swaps'' pass')

theorem repeats_connect (access : Access) (e : Failure) (f : Binding → OpenPass → OpenPass)
    (r : Reference) : Repeats (connect access e f r) := by
  intro d d' swaps pass h
  rw [connect_eq] at h
  split at h
  · rename_i hadmissible
    split at h
    · cases h
    · rename_i binding swaps' hattach
      cases h
      refine ⟨swaps', f binding pass, rfl, Claims.attach_grows hattach, fun swaps'' hgrows => ?_⟩
      have hagain : d.denoiser.claims.attach swaps'' access r = .ok (binding, swaps'') :=
        Claims.attach_again hattach hgrows
      rw [connect_eq, if_pos hadmissible]
      simp only [withOpen, hagain]
  · cases h

theorem Repeats.bind {x y : Declaring Unit} (hx : Repeats x) (hy : Repeats y) :
    Repeats (x >>= fun _ => y) := by
  intro d d' swaps pass h
  obtain ⟨⟨⟩, d₁, h₁, h₂⟩ := bind_eq_ok_iff.mp h
  obtain ⟨swaps₁, pass₁, rfl, hgrows₁, hagain₁⟩ := hx h₁
  obtain ⟨swaps₂, pass₂, rfl, hgrows₂, hagain₂⟩ := hy h₂
  refine ⟨swaps₂, pass₂, rfl, hgrows₁.trans hgrows₂, fun swaps'' hgrows => ?_⟩
  exact bind_eq_ok_iff.mpr
    ⟨⟨⟩, _, hagain₁ swaps'' (hgrows₂.trans hgrows), hagain₂ swaps'' hgrows⟩

theorem Repeats.forM {α : Type} {f : α → Declaring Unit} (hf : ∀ a, Repeats (f a)) :
    (l : List α) → Repeats (l.forM f)
  | [] => fun d d' swaps pass h => by
    cases h
    exact ⟨swaps, pass, rfl, .refl _, fun _ _ => rfl⟩
  | a :: l => (hf a).bind (Repeats.forM hf l)

-- A dispatch that is refused takes the open pass with it, and nothing else.
theorem addDispatch_error {shader : String} {defines : List Define} {args : DispatchArgs}
    (h : addDispatch shader defines args d = .error failure d') : d' = d.withoutPass := by
  rw [addDispatch_eq] at h
  cases hpending : d.denoiser.pending with
  | none =>
    rw [hpending] at h
    cases h
    rw [Draft.withoutPass, ← hpending]
  | some pass =>
    simp only [hpending] at h
    split at h
    · cases h
      rfl
    · cases hadd : Declarations.addPipeline ⟨shader, defines⟩ (args.layout pass) d.tables with
      | ok position tables =>
        rw [hadd] at h
        cases h
      | error e tables =>
        rw [hadd] at h
        cases h
        rw [Declarations.addPipeline_error hadd]
        rfl

-- A pass up to its dispatch.
def assemble (stage : Stage) (inputs outputs : List Reference) : Declaring Unit := do
  openPass stage
  inputs.forM addInput
  outputs.forM addOutput

-- A pass that was lost can be put together again.
theorem assemble_again {stage : Stage} {inputs outputs : List Reference}
    (h : assemble stage inputs outputs d = .ok ⟨⟩ d') :
    assemble stage inputs outputs d'.withoutPass = .ok ⟨⟩ d' := by
  have hbindings : Repeats (inputs.forM addInput >>= fun _ => outputs.forM addOutput) :=
    (Repeats.forM (fun _ => repeats_connect ..) inputs).bind
      (Repeats.forM (fun _ => repeats_connect ..) outputs)
  obtain ⟨⟨⟩, d₁, hopen, hrest⟩ := bind_eq_ok_iff.mp h
  obtain ⟨-, rfl⟩ := openPass_ok hopen
  obtain ⟨swaps, pass, rfl, -, hagain⟩ := hbindings hrest
  apply bind_eq_ok_iff.mpr
  exact ⟨⟨⟩, _, openPass_eq stage rfl, hagain swaps (.refl _)⟩

end Declaring

namespace DraftStep

-- What a failed operation may leave behind: a swap outside a pass leaves its pair, a dispatch uses
-- up the open pass, and all others leave nothing.
def Residue (d d' : Draft) : DraftStep → Prop
  | .permanent _ | .transient _ | .pass _ => d' = d
  | .input r | .output r => d' = d ∨ d.denoiser.pending = none ∧
      ∃ swaps, d.denoiser.claims.Registers d.tables.swaps r swaps ∧ d' = d.withSwaps swaps
  | .dispatch .. => d' = d.withoutPass

-- What makes a new attempt as good as the first: a pass for a binding that had none, and for a
-- dispatch the pass that was lost.
def Recovers (d d' : Draft) : DraftStep → Prop
  | .permanent _ | .transient _ | .pass _ => True
  | .input r => ∀ stage, (openPass stage >>= fun _ => addInput r) d' =
      (openPass stage >>= fun _ => addInput r) d
  | .output r => ∀ stage, (openPass stage >>= fun _ => addOutput r) d' =
      (openPass stage >>= fun _ => addOutput r) d
  | .dispatch .. => ∀ d₀ stage inputs outputs, assemble stage inputs outputs d₀ = .ok ⟨⟩ d →
      assemble stage inputs outputs d' = .ok ⟨⟩ d

theorem leaves_residue {step : DraftStep} {d d' : Draft} {failure : Failure}
    (h : step.run d = .error failure d') : step.Residue d d' ∧ step.Recovers d d' := by
  cases step with
  | permanent texture =>
    exact ⟨onPools_error (discard_eq_error_iff.mp h) fun _ _ => Allotting.addPermanent_error,
      trivial⟩
  | transient texture =>
    exact ⟨onPools_error (discard_eq_error_iff.mp h) fun _ _ => Allotting.addTransient_error,
      trivial⟩
  | pass stage => exact ⟨openPass_error h, trivial⟩
  | input r => exact ⟨connect_error h, connect_retried h⟩
  | output r => exact ⟨connect_error h, connect_retried h⟩
  | dispatch shader defines args =>
    have hlost := addDispatch_error (discard_eq_error_iff.mp h)
    refine ⟨hlost, fun d₀ stage inputs outputs hassemble => ?_⟩
    rw [hlost]
    exact assemble_again hassemble

-- A pass with one output whose dispatch covers nothing.
theorem exists_lost_pass :
    ∃ (d₀ d d' : Draft) (failure : Failure),
      assemble .copy [] [.host (.output .signal)] d₀ = .ok ⟨⟩ d ∧
      (dispatch "Copy" [] { downsample := 0 }).run d = .error failure d' ∧ d' = d.withoutPass ∧
      assemble .copy [] [.host (.output .signal)] d' = .ok ⟨⟩ d := by
  let d₀ := ({} : Declarations).draft "Denoiser" [] 0
  let d := d₀.steps [.pass .copy, .output (.host (.output .signal))]
  have hassemble : assemble .copy [] [.host (.output .signal)] d₀ = .ok ⟨⟩ d := rfl
  have hrefused : (dispatch "Copy" [] { downsample := 0 }).run d =
      .error (.invalidArgument .emptyDispatch) d.withoutPass := rfl
  obtain ⟨hresidue, hrecovers⟩ := leaves_residue hrefused
  exact ⟨d₀, d, _, _, hassemble, hrefused, hresidue, hrecovers d₀ _ _ _ hassemble⟩

-- The pass that a refused dispatch loses is missed by the next dispatch, and the pair that a swap
-- outside a pass leaves keeps its textures from being swapped with others.
theorem exists_changed_by_error :
    let d := (({} : Declarations).draft "Denoiser" [] 0).steps
      [.pass .copy, .output (.host (.output .signal))]
    let e := (({} : Declarations).draft "Denoiser" [] 0).steps
      [.permanent ⟨.r8Unorm, 1⟩, .permanent ⟨.r8Unorm, 1⟩, .permanent ⟨.r8Unorm, 1⟩]
    (∃ failure d', (dispatch "Copy" [] { downsample := 0 }).run d = .error failure d' ∧ d' ≠ d ∧
      Declaring.succeeds (dispatch "Copy" [] {}).run d = true ∧
      Declaring.succeeds (dispatch "Copy" [] {}).run d' = false) ∧
    ∃ failure e', (input (.swapping (.permanent 0) (.permanent 1))).run e = .error failure e' ∧
      e' ≠ e ∧
      Declaring.succeeds (input (.swapping (.permanent 0) (.permanent 2))).run
        (e.steps [.pass .copy]) = true ∧
      Declaring.succeeds (input (.swapping (.permanent 0) (.permanent 2))).run
        (e'.steps [.pass .copy]) = false := by
  intro d e
  obtain ⟨failure, hdispatch⟩ : ∃ failure, (dispatch "Copy" [] { downsample := 0 }).run d =
      .error failure (d.after (dispatch "Copy" [] { downsample := 0 }).run) :=
    Draft.error_after (by decide +kernel)
  obtain ⟨failure', hinput⟩ : ∃ failure, (input (.swapping (.permanent 0) (.permanent 1))).run e =
      .error failure (e.after (input (.swapping (.permanent 0) (.permanent 1))).run) :=
    Draft.error_after (by decide +kernel)
  refine ⟨⟨_, _, hdispatch, fun h => ?_, by decide +kernel, by decide +kernel⟩,
    ⟨_, _, hinput, fun h => ?_, by decide +kernel, by decide +kernel⟩⟩
  · exact absurd (congrArg (·.denoiser.pending.isSome) h) (by decide +kernel)
  · exact absurd (congrArg (·.tables.swaps.size) h) (by decide +kernel)

end DraftStep

end DenoisePlanner
