import DenoisePlanner.Proofs.Schedule
import Mathlib.Data.List.Perm.Subperm

namespace DenoisePlanner

namespace Claims

-- The swaps after a reference has been bound, unless it cannot be bound. Nothing else in the
-- tables matters for that.
def rehearse (claims : Claims) (access : Access) (swaps : SwapTable) (r : Reference) :
    Option SwapTable :=
  if Declaring.admissible access r then
    match r with
    | .host _ => some swaps
    | .pooled slot => (claims.resolve slot).toOption.map fun _ => swaps
    | .swapping (.permanent i) (.permanent j) =>
      if i < claims.permanentCount ∧ j < claims.permanentCount then
        (swaps.register (claims.base + i) (claims.base + j)).toOption.map Prod.snd
      else none
    | .swapping _ _ => none
  else none

def rehearseBindings (claims : Claims) (swaps : SwapTable) (b : Bindings) : Option SwapTable :=
  (b.inputs.foldlM (claims.rehearse .read) swaps).bind (b.outputs.foldlM (claims.rehearse .write))

-- The swaps after all specialisations of a pass.
def rehearsePass (claims : Claims) (swaps : SwapTable) (pass : Pass) : Option SwapTable :=
  if pass.downsample = 0 ∨ pass.repeats = 0 then none
  else (Specialization.all pass.conditions).foldlM
    (fun swaps s => claims.rehearseBindings swaps (pass.bindings s)) swaps

end Claims

-- Whoever asks for the same shader asks for the same layout.
def ScheduledPass.Consistent (table : List ScheduledPass) : Prop :=
  ∀ e ∈ table, ∀ e' ∈ table, ∀ s ∈ Specialization.all e.pass.conditions,
    ∀ s' ∈ Specialization.all e'.pass.conditions,
      (e.key s).identifier = (e'.key s').identifier → e.layout s = e'.layout s'

-- No two pipelines go by the same identifier.
def PipelineTable.Distinct (t : PipelineTable) : Prop :=
  (t.pipelines.toList.map (·.identifier)).Nodup

-- A draft in the course of a declaration that goes as rehearsed.
structure Draft.Rehearsed (start : Draft) (table : List ScheduledPass) (swaps : SwapTable)
    (d : Draft) : Prop where
  pools : d.tables.pools = start.tables.pools
  claims : d.denoiser.claims = start.denoiser.claims
  defines : d.denoiser.defines = start.denoiser.defines
  pending : d.denoiser.pending = none
  swaps : d.tables.swaps = swaps
  pipelines : ∀ p ∈ d.tables.pipelines.pipelines, ScheduledPass.Asks table p
  distinct : d.tables.pipelines.Distinct

namespace ScheduledPass

def identifiers (table : List ScheduledPass) : List String :=
  table.flatMap fun e => (Specialization.all e.pass.conditions).map fun s => (e.key s).identifier

theorem length_identifiers (table : List ScheduledPass) :
    (identifiers table).length = dispatchCount table := by
  induction table with
  | nil => rfl
  | cons e es ih =>
    rw [identifiers] at ih ⊢
    rw [List.flatMap_cons, List.length_append, ih, List.length_map, Specialization.length_all,
      dispatchCount]

end ScheduledPass

-- However many denoisers share a table of passes, they ask for no more pipelines than it has.
theorem PipelineTable.Distinct.size_le {t : PipelineTable} {table : List ScheduledPass}
    (h : t.Distinct) (hasks : ∀ p ∈ t.pipelines, ScheduledPass.Asks table p) :
    t.size ≤ ScheduledPass.dispatchCount table := by
  have hsubset : t.pipelines.toList.map (·.identifier) ⊆ ScheduledPass.identifiers table := by
    intro identifier hmem
    obtain ⟨p, hp, rfl⟩ := List.mem_map.mp hmem
    obtain ⟨e, he, s, hs, rfl⟩ := hasks p (Array.mem_toList_iff.mp hp)
    exact List.mem_flatMap.mpr ⟨e, he, List.mem_map_of_mem hs⟩
  have hlength := (List.Nodup.subperm h hsubset).length_le
  rwa [List.length_map, ScheduledPass.length_identifiers, Array.length_toList] at hlength

namespace Declaring

-- A loop goes through if a fold over the same list does, and what a step of both preserves holds
-- in the end. `P` tells of the elements left.
theorem exists_forM {ε σ α β : Type} {f : α → EStateM ε σ PUnit} {g : β → α → Option β}
    {P : List α → β → σ → Prop}
    (step : ∀ {x rest b b' s}, P (x :: rest) b s → g b x = some b' →
      ∃ s', f x s = .ok ⟨⟩ s' ∧ P rest b' s')
    {l : List α} {b b' : β} {s : σ} (hs : P l b s) (h : l.foldlM g b = some b') :
    ∃ s', l.forM f s = .ok ⟨⟩ s' ∧ P [] b' s' := by
  induction l generalizing b s with
  | nil =>
    cases h
    exact ⟨s, rfl, hs⟩
  | cons x xs ih =>
    obtain ⟨b₁, hb, hrest⟩ := Option.bind_eq_some_iff.mp h
    obtain ⟨s₁, hx, hs₁⟩ := step hs hb
    obtain ⟨s₂, hxs, hs₂⟩ := ih hs₁ hrest
    exact ⟨s₂, bind_eq_ok_iff.mpr ⟨⟨⟩, s₁, hx, hxs⟩, hs₂⟩

variable {d : Draft} {swaps swaps' : SwapTable} {access : Access} {r : Reference}

theorem exists_attach {claims : Claims} (h : claims.rehearse access swaps r = some swaps') :
    ∃ binding, claims.attach swaps access r = .ok (binding, swaps') := by
  unfold Claims.rehearse at h
  split at h
  case isFalse => cases h
  cases r with
  | host kind =>
    cases h
    exact ⟨_, rfl⟩
  | pooled slot =>
    cases hslot : claims.resolve slot with
    | error e => simp [hslot, Except.toOption] at h
    | ok resolved =>
      simp only [hslot, Except.toOption, Option.map_some, Option.some.injEq] at h
      exact ⟨_, Claims.attach_eq_ok_iff.mpr (.inr (.inl ⟨slot, _, _, rfl, hslot, rfl, h.symm⟩))⟩
  | swapping current other =>
    cases current with
    | transient i => cases h
    | permanent i =>
      cases other with
      | transient j => cases h
      | permanent j =>
        simp only at h
        split at h
        case isFalse => cases h
        rename_i hij
        cases hswap : swaps.register (claims.base + i) (claims.base + j) with
        | error e => simp [hswap, Except.toOption] at h
        | ok registered =>
          simp only [hswap, Except.toOption, Option.map_some, Option.some.injEq] at h
          subst h
          exact ⟨_, Claims.attach_eq_ok_iff.mpr
            (.inr (.inr ⟨i, j, registered.1, rfl, hij.1, hij.2, hswap, rfl⟩))⟩

theorem exists_bind (h : d.denoiser.claims.rehearse access swaps r = some swaps')
    (pass : OpenPass) :
    ∃ binding, bind access r (withOpen d swaps pass) = .ok binding (withOpen d swaps' pass) := by
  obtain ⟨binding, hattach⟩ := exists_attach h
  refine ⟨binding, ?_⟩
  rw [bind_eq]
  simp only [withOpen, hattach]
  rfl

theorem admissible_of_rehearse {claims : Claims}
    (h : claims.rehearse access swaps r = some swaps') : admissible access r = true := by
  unfold Claims.rehearse at h
  split at h
  · assumption
  · cases h

theorem modifyPass_withOpen (f : OpenPass → OpenPass) (pass : OpenPass) :
    modifyPass f (withOpen d swaps pass) = .ok ⟨⟩ (withOpen d swaps (f pass)) := rfl

theorem exists_addInput (h : d.denoiser.claims.rehearse .read swaps r = some swaps')
    (pass : OpenPass) :
    ∃ binding, addInput r (withOpen d swaps pass) =
      .ok ⟨⟩ (withOpen d swaps' { pass with inputs := pass.inputs.push binding }) := by
  obtain ⟨binding, hbind⟩ := exists_bind h pass
  refine ⟨binding, ?_⟩
  simp only [addInput, guard_eq_ok_iff, bind_eq_ok_iff]
  exact ⟨by simp [admissible_of_rehearse h], binding, _, hbind, modifyPass_withOpen _ _⟩

theorem exists_addOutput (h : d.denoiser.claims.rehearse .write swaps r = some swaps')
    (pass : OpenPass) :
    ∃ binding, addOutput r (withOpen d swaps pass) =
      .ok ⟨⟩ (withOpen d swaps' { pass with outputs := pass.outputs.push binding }) := by
  obtain ⟨binding, hbind⟩ := exists_bind h pass
  refine ⟨binding, ?_⟩
  simp only [addOutput, guard_eq_ok_iff, bind_eq_ok_iff]
  exact ⟨by simp [admissible_of_rehearse h], binding, _, hbind, modifyPass_withOpen _ _⟩

-- A pass that is open can be bound as rehearsed.
theorem exists_forM_bindings {b : Bindings} (stage : Stage)
    (h : d.denoiser.claims.rehearseBindings swaps b = some swaps') :
    ∃ swaps₁ inputs outputs,
      b.inputs.forM addInput (withOpen d swaps { stage }) =
        .ok ⟨⟩ (withOpen d swaps₁ { stage, inputs }) ∧
      b.outputs.forM addOutput (withOpen d swaps₁ { stage, inputs }) =
        .ok ⟨⟩ (withOpen d swaps' { stage, inputs, outputs }) ∧
      inputs.size = b.inputs.length ∧ outputs.size = b.outputs.length := by
  obtain ⟨swaps₁, hinputs, houtputs⟩ := Option.bind_eq_some_iff.mp h
  obtain ⟨_, hforM, inputs, rfl, hsize⟩ := exists_forM
    (P := fun rest swaps d₁ => ∃ inputs, d₁ = withOpen d swaps { stage, inputs } ∧
      inputs.size + rest.length = b.inputs.length)
    (f := addInput) (by
      rintro r rest s s' _ ⟨inputs, rfl, hsize⟩ hr
      obtain ⟨binding, hadd⟩ := exists_addInput hr { stage, inputs }
      refine ⟨_, hadd, inputs.push binding, rfl, ?_⟩
      rw [Array.size_push, ← hsize, List.length_cons]
      omega) ⟨#[], rfl, Nat.zero_add _⟩ hinputs
  obtain ⟨_, hforM', outputs, rfl, hsize'⟩ := exists_forM
    (P := fun rest swaps d₁ => ∃ outputs, d₁ = withOpen d swaps { stage, inputs, outputs } ∧
      outputs.size + rest.length = b.outputs.length)
    (f := addOutput) (by
      rintro r rest s s' _ ⟨outputs, rfl, hsize⟩ hr
      obtain ⟨binding, hadd⟩ := exists_addOutput hr { stage, inputs, outputs }
      refine ⟨_, hadd, outputs.push binding, rfl, ?_⟩
      rw [Array.size_push, ← hsize, List.length_cons]
      omega) ⟨#[], rfl, Nat.zero_add _⟩ houtputs
  exact ⟨swaps₁, inputs, outputs, hforM, hforM', hsize, hsize'⟩

end Declaring

-- A shader is declared without trouble if it is known with the same layout, or if there is room.
theorem Declarations.exists_addPipeline {t : Declarations} {key : ShaderKey}
    {layout : PipelineLayout}
    (hlayout : ∀ p ∈ t.pipelines.pipelines, p.identifier = key.identifier → p.layout = layout)
    (hroom : t.pipelines.size < PipelineTable.capacity) (hdistinct : t.pipelines.Distinct) :
    ∃ i t', addPipeline key layout t = .ok i t' ∧ t'.pipelines.Distinct := by
  unfold addPipeline
  dsimp only
  split
  · rename_i i hfound
    have hsame : t.pipelines.pipelines[i].layout = layout :=
      hlayout _ (Array.getElem_mem _) (PipelineTable.identifier_of_find? hfound)
    rw [if_pos hsame]
    exact ⟨_, _, rfl, hdistinct⟩
  · rename_i hnone
    rw [if_neg (Nat.not_le_of_lt hroom)]
    refine ⟨_, _, rfl, ?_⟩
    have hfresh := t.pipelines.map_find? key.identifier
    rw [hnone, Option.map_none, eq_comm, Array.findIdx?_eq_none_iff] at hfresh
    rw [PipelineTable.Distinct, PipelineTable.pipelines_push, Array.toList_push, List.map_append,
      List.nodup_append]
    refine ⟨hdistinct, by simp, fun x hx y hy hxy => ?_⟩
    obtain ⟨p, hp, rfl⟩ := List.mem_map.mp hx
    obtain rfl : y = key.identifier := by simpa using hy
    simpa [hxy] using hfresh p (Array.mem_toList_iff.mp hp)

namespace Draft.Rehearsed

open Declaring ScheduledPass

variable {start d : Draft} {table : List ScheduledPass} {swaps swaps' : SwapTable}
  {e : ScheduledPass} {s : Specialization}

-- A pass that is open and bound can be dispatched.
theorem exists_addDispatch (h : start.Rehearsed table swaps d)
    (swaps' : SwapTable) (inputs outputs : Array Binding) (hconsistent : Consistent table)
    (hroom : dispatchCount table < PipelineTable.capacity) (he : e ∈ table) (hs : s ∈ Specialization.all e.pass.conditions)
    (hargs : ¬(e.pass.downsample = 0 ∨ e.pass.repeats = 0))
    (hinputs : inputs.size = (e.pass.bindings s).inputs.length)
    (houtputs : outputs.size = (e.pass.bindings s).outputs.length) :
    ∃ n d', addDispatch e.pass.shader (e.defines ++ s.defines) e.args
        (withOpen d swaps' { stage := e.pass.stage, inputs, outputs }) = .ok n d' ∧
      start.Rehearsed table swaps' d' := by
  have hknown : ∀ p ∈ d.tables.pipelines.pipelines, p.identifier = (e.key s).identifier →
      p.layout = e.layout s := by
    intro p hp hidentifier
    obtain ⟨e', he', s', hs', rfl⟩ := h.pipelines p hp
    exact hconsistent e' he' e he s' hs' s hs hidentifier
  obtain ⟨position, tables, hadd, hdistinct⟩ := Declarations.exists_addPipeline
    (t := { d.tables with swaps := swaps' }) hknown
    (Nat.lt_of_le_of_lt (h.distinct.size_le h.pipelines) hroom) h.distinct
  obtain ⟨pipelines, journal, -, rfl, hgrows, -⟩ := Declarations.addPipeline_ok hadd
  have hlayout : e.args.layout { stage := e.pass.stage, inputs, outputs } = e.layout s := by
    simp [DispatchArgs.layout, ScheduledPass.layout, ScheduledPass.args, hinputs, houtputs]
  let span : Span := ⟨d.tables.bindings.size, d.tables.bindings.size + (inputs ++ outputs).size⟩
  let tables : Declarations :=
    { d.tables with
      swaps := swaps', pipelines, journal
      bindings := d.tables.bindings ++ (inputs ++ outputs)
      dispatches := d.tables.dispatches.push (e.dispatch d.denoiser.author position span) }
  refine ⟨d.tables.dispatches.size, ⟨tables, { d.denoiser with pending := none }⟩, ?_, ?_⟩
  · have hpositive := not_or.mp hargs
    exact addDispatch_eq_ok_iff.mpr ⟨_, position, _, rfl, hpositive.1, hpositive.2,
      hlayout ▸ hadd, rfl⟩
  · refine ⟨h.pools, h.claims, h.defines, rfl, rfl, ?_, hdistinct⟩
    exact (hgrows.mono fun p hp => ⟨e, he, s, hs, hp⟩).forall_mem h.pipelines

-- What has been recorded plays no part.
theorem withPasses (h : start.Rehearsed table swaps d) (passes : Array DeclaredPass)
    (journal : Array LogEvent) : start.Rehearsed table swaps
      ⟨{ d.tables with journal := journal }, { d.denoiser with passes := passes }⟩ :=
  ⟨h.pools, h.claims, h.defines, h.pending, h.swaps, h.pipelines, h.distinct⟩

theorem openPass_eq_ok (h : start.Rehearsed table swaps d) (stage : Stage) :
    openPass stage d = .ok ⟨⟩ (withOpen d swaps { stage }) := by
  simp only [openPass, bind_eq_ok_iff, get_eq_ok_iff, guard_eq_ok_iff, modify_eq_ok_iff]
  exact ⟨_, _, ⟨rfl, rfl⟩, by simp [h.pending], by rw [← h.swaps]; rfl⟩

theorem exists_declareSpecialization (h : start.Rehearsed table swaps d)
    (hconsistent : Consistent table) (hroom : dispatchCount table < PipelineTable.capacity)
    (he : e ∈ table) (hdefines : e.defines = start.denoiser.defines)
    (hs : s ∈ Specialization.all e.pass.conditions)
    (hargs : ¬(e.pass.downsample = 0 ∨ e.pass.repeats = 0))
    (hbindings : start.denoiser.claims.rehearseBindings swaps (e.pass.bindings s) = some swaps') :
    ∃ d', declareSpecialization e.pass s d = .ok ⟨⟩ d' ∧
      start.Rehearsed table swaps' d' := by
  obtain ⟨swaps₁, inputs, outputs, hinputs, houtputs, hsize, hsize'⟩ :=
    exists_forM_bindings (d := d) e.pass.stage (h.claims ▸ hbindings)
  obtain ⟨n, d', hadd, hd'⟩ := h.exists_addDispatch swaps' inputs outputs hconsistent hroom he hs
    hargs hsize hsize'
  refine ⟨d', ?_, hd'⟩
  simp only [declareSpecialization, bind_eq_ok_iff, get_eq_ok_iff, discard_eq_ok_iff]
  refine ⟨⟨⟩, _, h.openPass_eq_ok _, ⟨⟩, _, hinputs, ⟨⟩, _, houtputs, _, _, ⟨rfl, rfl⟩, n, ?_⟩
  rw [show (withOpen d swaps' { stage := e.pass.stage, inputs, outputs }).denoiser.defines =
    e.defines from h.defines.trans hdefines.symm]
  exact hadd

theorem exists_declarePass {pass : Pass} (h : start.Rehearsed table swaps d)
    (hconsistent : Consistent table) (hroom : dispatchCount table < PipelineTable.capacity)
    (he : ⟨pass, start.denoiser.defines⟩ ∈ table)
    (hpass : start.denoiser.claims.rehearsePass swaps pass = some swaps') :
    ∃ d', declarePass pass d = .ok ⟨⟩ d' ∧ start.Rehearsed table swaps' d' := by
  unfold Claims.rehearsePass at hpass
  split at hpass
  case isTrue => cases hpass
  rename_i hargs
  obtain ⟨d₁, hloop, hd₁, -⟩ := exists_forM (f := declareSpecialization pass) (s := d)
    (P := fun rest swaps d₁ => start.Rehearsed table swaps d₁ ∧
      rest ⊆ Specialization.all pass.conditions)
    (by
      rintro s rest swaps swaps' d₁ ⟨hd₁, hrest⟩ hs
      obtain ⟨d₂, hdeclare, hd₂⟩ := hd₁.exists_declareSpecialization hconsistent hroom he rfl
        (hrest List.mem_cons_self) hargs hs
      exact ⟨d₂, hdeclare, hd₂, fun x hx => hrest (List.mem_cons_of_mem _ hx)⟩)
    ⟨h, fun _ hx => hx⟩ hpass
  refine ⟨_, ?_, hd₁.withPasses
    (d₁.denoiser.passes.push ⟨pass.stage, pass.conditions, d.tables.dispatches.size⟩)
    (d₁.tables.journal.push (.passDeclared d₁.denoiser.name pass.stage
      (Specialization.count pass.conditions)))⟩
  simp only [declarePass, declareFrom, bind_eq_ok_iff, get_eq_ok_iff]
  exact ⟨_, _, ⟨rfl, rfl⟩, ⟨⟩, d₁, hloop, _, _, ⟨rfl, rfl⟩, ⟨⟩, _, rfl, rfl⟩

theorem exists_declareClear {slot : Slot} {texture : Texture}
    (h : start.Rehearsed table swaps d) (hconsistent : Consistent table)
    (hroom : dispatchCount table < PipelineTable.capacity)
    (he : ScheduledPass.clear slot texture ∈ table)
    (htexture : start.tables.pools.texture? start.denoiser.claims slot = some texture)
    (hdownsample : texture.downsample ≠ 0)
    (hslot : start.denoiser.claims.rehearse .write swaps (.pooled slot) = some swaps) :
    ∃ d', declareClear slot d = .ok ⟨⟩ d' ∧ start.Rehearsed table swaps d' := by
  obtain ⟨binding, houtput⟩ := exists_addOutput (d := d) (h.claims ▸ hslot) { stage := .clear }
  obtain ⟨n, d₁, hadd, hd₁⟩ := h.exists_addDispatch (s := ⟨[], 0⟩) swaps #[] #[binding]
    hconsistent hroom he (List.mem_singleton.mpr rfl)
    (not_or.mpr ⟨hdownsample, (by decide : (1 : UInt16) ≠ 0)⟩) rfl rfl
  refine ⟨_, ?_, hd₁.withPasses (d₁.denoiser.passes.push ⟨.clear, [], n⟩) d₁.tables.journal⟩
  simp only [declareClear, bind_eq_ok_iff, get_eq_ok_iff]
  refine ⟨_, _, ⟨rfl, rfl⟩, ?_⟩
  simp only [h.pools, h.claims, htexture, bind_eq_ok_iff]
  exact ⟨⟨⟩, _, h.openPass_eq_ok .clear, ⟨⟩, _, houtput, n, d₁, hadd, rfl⟩

end Draft.Rehearsed

theorem Claims.rehearse_of_texture? {claims : Claims} {pools : Pools} {slot : Slot}
    {texture : Texture} (h : pools.texture? claims slot = some texture) (access : Access)
    (swaps : SwapTable) : claims.rehearse access swaps (.pooled slot) = some swaps := by
  unfold Pools.texture? at h
  cases hslot : claims.resolve slot with
  | error e => simp [hslot] at h
  | ok resolved => simp [rehearse, Declaring.admissible, hslot, Except.toOption]

namespace Draft

open Declaring ScheduledPass

-- A table of passes can be declared if it binds as rehearsed, and if it agrees about its shaders
-- with all that has been declared before.
theorem exists_declare (start : Draft) {passes : List Pass} {table : List ScheduledPass}
    {swaps : SwapTable} (hpending : start.denoiser.pending = none)
    (hpipelines : ∀ p ∈ start.tables.pipelines.pipelines, Asks table p)
    (hdistinct : start.tables.pipelines.Distinct) (hconsistent : Consistent table)
    (hroom : dispatchCount table < PipelineTable.capacity) (hschedule : start.schedule passes ⊆ table)
    (hclears : ∀ slot ∈ start.denoiser.claims.permanentSlots, ∃ texture,
      start.tables.pools.texture? start.denoiser.claims slot = some texture ∧
        texture.downsample ≠ 0)
    (hpasses : passes.foldlM start.denoiser.claims.rehearsePass start.tables.swaps = some swaps) :
    ∃ d, declare passes start = .ok ⟨⟩ d ∧ start.Rehearsed table swaps d := by
  have hstart : start.Rehearsed table start.tables.swaps start :=
    ⟨rfl, rfl, rfl, hpending, rfl, hpipelines, hdistinct⟩
  -- clears leave the swaps alone
  obtain ⟨d₁, hcleared, ⟨hd₁, -⟩, hswaps⟩ := exists_forM (f := declareClear) (s := start)
    (P := fun rest swaps d => (start.Rehearsed table swaps d ∧
      rest ⊆ start.denoiser.claims.permanentSlots) ∧ swaps = start.tables.swaps)
    (g := fun swaps _ => some swaps)
    (by
      rintro slot rest swaps _ d ⟨⟨hd, hrest⟩, rfl⟩ ⟨⟩
      have hslot := hrest List.mem_cons_self
      obtain ⟨texture, htexture, hdownsample⟩ := hclears slot hslot
      have he : ScheduledPass.clear slot texture ∈ table :=
        hschedule (List.mem_append_left _ (List.mem_filterMap.mpr ⟨slot, hslot, by rw [htexture]; rfl⟩))
      obtain ⟨d', hclear, hd'⟩ := hd.exists_declareClear hconsistent hroom he htexture hdownsample
        (Claims.rehearse_of_texture? htexture _ _)
      exact ⟨d', hclear, ⟨hd', fun x hx => hrest (List.mem_cons_of_mem _ hx)⟩, rfl⟩)
    ⟨⟨hstart, fun _ hx => hx⟩, rfl⟩ (List.foldlM_pure (m := Option))
  obtain ⟨d₂, hpassed, hd₂, -⟩ := exists_forM (f := declarePass) (s := d₁)
    (P := fun rest swaps d => start.Rehearsed table swaps d ∧ rest ⊆ passes)
    (by
      rintro pass rest swaps swaps' d ⟨hd, hrest⟩ hpass
      have he : ⟨pass, start.denoiser.defines⟩ ∈ table :=
        hschedule (List.mem_append_right _ (List.mem_map_of_mem (hrest List.mem_cons_self)))
      obtain ⟨d', hdeclare, hd'⟩ := hd.exists_declarePass hconsistent hroom he hpass
      exact ⟨d', hdeclare, hd', fun x hx => hrest (List.mem_cons_of_mem _ hx)⟩)
    ⟨by simpa [hswaps] using hd₁, fun _ hx => hx⟩ hpasses
  refine ⟨d₂, ?_, hd₂⟩
  simp only [declare, bind_eq_ok_iff, get_eq_ok_iff]
  exact ⟨_, _, ⟨rfl, rfl⟩, ⟨⟩, d₁, hcleared, hpassed⟩

end Draft

end DenoisePlanner
