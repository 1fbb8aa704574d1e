import DenoisePlanner.Proofs.Closing
import DenoisePlanner.Proofs.Declared

namespace DenoisePlanner

theorem PipelineTable.identifier_of_find? {t : PipelineTable} {identifier : String}
    {i : Fin t.pipelines.size} (h : t.find? identifier = some i) :
    t.pipelines[i].identifier = identifier := by
  have hfind := t.map_find? identifier
  rw [h, Option.map_some] at hfind
  obtain ⟨hlt, heq, -⟩ := Array.findIdx?_eq_some_iff_getElem.mp hfind.symm
  simpa using heq

theorem Declarations.addPipeline_ok {key : ShaderKey} {layout : PipelineLayout}
    {t t' : Declarations} {i : Nat} (h : addPipeline key layout t = .ok i t') :
    ∃ pipelines journal pipeline,
      t' = { t with pipelines := pipelines, journal := journal } ∧
      Grows (· = ⟨key, key.identifier, layout⟩) t.pipelines.pipelines pipelines.pipelines ∧
      pipelines.pipelines[i]? = some pipeline ∧ pipeline.identifier = key.identifier ∧
      pipeline.layout = layout := by
  unfold addPipeline at h
  dsimp only at h
  split at h
  · rename_i j hfound
    split at h
    · rename_i hlayout
      cases h
      exact ⟨t.pipelines, t.journal, t.pipelines.pipelines[j], rfl, .refl _,
        Array.getElem?_eq_getElem j.isLt, PipelineTable.identifier_of_find? hfound, hlayout⟩
    · cases h
  · rename_i hnone
    split at h
    · cases h
    · cases h
      refine ⟨_, _, ⟨key, key.identifier, layout⟩, rfl, ?_, ?_, rfl, rfl⟩
      · rw [PipelineTable.pipelines_push]
        exact .push rfl
      · rw [PipelineTable.pipelines_push]
        simp [PipelineTable.size]

namespace Declaring

variable {d d' : Draft}

-- The bindings that a pass has collected are those of a specialisation.
structure Collected (claims : Claims) (swaps : SwapTable) (b : Bindings) (pass : OpenPass) :
    Prop where
  inputs : pass.inputs.toList.map some = b.inputs.map (claims.binding? swaps .read)
  outputs : pass.outputs.toList.map some = b.outputs.map (claims.binding? swaps .write)

theorem Collected.sizes {claims : Claims} {swaps : SwapTable} {b : Bindings} {pass : OpenPass}
    (h : Collected claims swaps b pass) :
    pass.inputs.size = b.inputs.length ∧ pass.outputs.size = b.outputs.length := by
  constructor
  · simpa using congrArg List.length h.inputs
  · simpa using congrArg List.length h.outputs

theorem addDispatch_ok {swaps : SwapTable} {pass : OpenPass} {e : ScheduledPass}
    {s : Specialization} {n : Nat} (hstage : pass.stage = e.pass.stage)
    (hcollected : Collected d.denoiser.claims swaps (e.pass.bindings s) pass)
    (hswaps : Grows d.denoiser.claims.OwnPair d.tables.swaps.pairs swaps.pairs)
    (h : addDispatch e.pass.shader (e.defines ++ s.defines) e.args (withOpen d swaps pass) =
      .ok n d') :
    n = d.tables.dispatches.size ∧ d'.denoiser = { d.denoiser with pending := none } ∧
      d.tables.Extends d.denoiser.claims.OwnPair
        (· = ⟨e.key s, (e.key s).identifier, e.layout s⟩) d'.tables ∧
      d'.tables.dispatches.size = d.tables.dispatches.size + 1 ∧
      d'.tables.Realizes d.denoiser.author e s n := by
  obtain ⟨taken, position, tables, htaken, -, -, hadd, hclose⟩ := addDispatch_eq_ok_iff.mp h
  obtain rfl : pass = taken := Option.some.inj htaken
  obtain ⟨hinputs, houtputs⟩ := hcollected.sizes
  have hlayout : e.args.layout pass = e.layout s := by
    simp [DispatchArgs.layout, ScheduledPass.layout, ScheduledPass.args, hinputs, houtputs]
  have hadd : Declarations.addPipeline (e.key s) (e.layout s) { d.tables with swaps := swaps } =
      .ok position tables := hlayout ▸ hadd
  obtain ⟨pipelines, journal, pipeline, rfl, hgrows, hget, hid, hpl⟩ :=
    Declarations.addPipeline_ok hadd
  cases hclose
  dsimp only at hgrows hget ⊢
  refine ⟨rfl, rfl, ⟨rfl, hswaps, ⟨_, rfl, by simp⟩, .push trivial, hgrows⟩, by simp, ?_⟩
  refine ⟨position, ⟨d.tables.bindings.size,
    d.tables.bindings.size + (pass.inputs ++ pass.outputs).size⟩, pipeline, ?_, hget, hid, hpl,
    ?_, ?_⟩
  · rw [Array.getElem?_push_size, OpenPass.dispatch, hstage]
    rfl
  · simp
  · rw [Span.slice_appended]
    simp [Claims.bindings, OpenDenoiser.author, hcollected.inputs, hcollected.outputs]

-- The loops over inputs and outputs add to the open pass and to the swap table alone.
theorem forM_addInput_ok {swaps : SwapTable} {stage : Stage} {refs : List Reference}
    (h : refs.forM addInput (withOpen d swaps { stage }) = .ok ⟨⟩ d') :
    ∃ swaps' inputs, d' = withOpen d swaps' { stage, inputs } ∧
      Grows d.denoiser.claims.OwnPair swaps.pairs swaps'.pairs ∧
      inputs.toList.map some = refs.map (d.denoiser.claims.binding? swaps' .read) := by
  refine forM_ok (P := fun done d₁ => ∃ swaps' inputs, d₁ = withOpen d swaps' { stage, inputs } ∧
    Grows d.denoiser.claims.OwnPair swaps.pairs swaps'.pairs ∧
    inputs.toList.map some = done.map (d.denoiser.claims.binding? swaps' .read)) ?_
    ⟨swaps, #[], rfl, .refl _, rfl⟩ h
  rintro done r _ d₂ ⟨swaps₁, inputs, rfl, hgrows, hinputs⟩ hadd
  obtain ⟨swaps₂, binding, rfl, hgrows', hbinding⟩ := addInput_ok hadd
  refine ⟨swaps₂, inputs.push binding, rfl, hgrows.trans hgrows', ?_⟩
  rw [Array.toList_push, List.map_append, Claims.map_binding?_grows hgrows' hinputs]
  simp [hbinding]

theorem forM_addOutput_ok {swaps : SwapTable} {stage : Stage} {inputs : Array Binding}
    {refs : List Reference}
    (h : refs.forM addOutput (withOpen d swaps { stage, inputs }) = .ok ⟨⟩ d') :
    ∃ swaps' outputs, d' = withOpen d swaps' { stage, inputs, outputs } ∧
      Grows d.denoiser.claims.OwnPair swaps.pairs swaps'.pairs ∧
      outputs.toList.map some = refs.map (d.denoiser.claims.binding? swaps' .write) := by
  refine forM_ok (P := fun done d₁ => ∃ swaps' outputs,
    d₁ = withOpen d swaps' { stage, inputs, outputs } ∧
    Grows d.denoiser.claims.OwnPair swaps.pairs swaps'.pairs ∧
    outputs.toList.map some = done.map (d.denoiser.claims.binding? swaps' .write)) ?_
    ⟨swaps, #[], rfl, .refl _, rfl⟩ h
  rintro done r _ d₂ ⟨swaps₁, outputs, rfl, hgrows, houtputs⟩ hadd
  obtain ⟨swaps₂, binding, rfl, hgrows', hbinding⟩ := addOutput_ok hadd
  refine ⟨swaps₂, outputs.push binding, rfl, hgrows.trans hgrows', ?_⟩
  rw [Array.toList_push, List.map_append, Claims.map_binding?_grows hgrows' houtputs]
  simp [hbinding]

end Declaring

open Declaring ScheduledPass

-- A stretch of the declaration that has added the passes of `table`.
structure Draft.Declares (d d' : Draft) (table : List ScheduledPass) : Prop where
  denoiser : d'.denoiser = { d.denoiser with
    pending := none
    passes := d.denoiser.passes ++ (recorded d.tables.dispatches.size table).toArray }
  extends_tables : d.tables.Extends d.denoiser.claims.OwnPair (Asks table) d'.tables
  size : d'.tables.dispatches.size = d.tables.dispatches.size + dispatchCount table
  realizes : ∀ base e, (base, e) ∈ place d.tables.dispatches.size table →
    ∀ s ∈ Specialization.all e.pass.conditions,
      d'.tables.Realizes d.denoiser.author e s (base + s.bits)

namespace Draft.Declares

variable {d d' d'' : Draft} {xs ys : List ScheduledPass}

theorem nil (h : d.denoiser.pending = none) : d.Declares d [] where
  denoiser := by simp [recorded, place, ← h]
  extends_tables := .refl _
  size := by simp [dispatchCount]
  realizes := by simp [place]

theorem append (h : d.Declares d' xs) (h' : d'.Declares d'' ys) : d.Declares d'' (xs ++ ys) := by
  have hclaims : d'.denoiser.claims = d.denoiser.claims := by rw [h.denoiser]
  have hauthor : d'.denoiser.author = d.denoiser.author := by rw [h.denoiser]; rfl
  have hext : d'.tables.Extends d.denoiser.claims.OwnPair (Asks ys) d''.tables :=
    hclaims ▸ h'.extends_tables
  refine ⟨?_, ?_, ?_, ?_⟩
  · rw [h'.denoiser, h.denoiser, h.size, recorded_append]
    simp
  · exact (h.extends_tables.mono (fun _ hp => hp) fun _ =>
        Asks.mono (List.subset_append_left ..)).trans
      (hext.mono (fun _ hp => hp) fun _ => Asks.mono (List.subset_append_right ..))
  · rw [h'.size, h.size, dispatchCount_append, Nat.add_assoc]
  · intro base e he s hs
    rw [place_append, ← h.size] at he
    rcases List.mem_append.mp he with he | he
    · exact (h.realizes base e he s hs).extends h'.extends_tables
    · exact hauthor ▸ h'.realizes base e he s hs

end Draft.Declares

-- A stretch of the declaration that has added dispatches of one pass, without recording it.
structure Draft.Specializes (d d' : Draft) (e : ScheduledPass) (done : List Specialization) :
    Prop where
  denoiser : d'.denoiser = { d.denoiser with pending := none }
  extends_tables : d.tables.Extends d.denoiser.claims.OwnPair
    (fun p => ∃ s ∈ done, p = ⟨e.key s, (e.key s).identifier, e.layout s⟩) d'.tables
  size : d'.tables.dispatches.size = d.tables.dispatches.size + done.length
  realizes : ∀ i s, done[i]? = some s →
    d'.tables.Realizes d.denoiser.author e s (d.tables.dispatches.size + i)

namespace Draft.Specializes

variable {d d' d'' : Draft} {e : ScheduledPass} {done : List Specialization}

theorem nil (h : d.denoiser.pending = none) : d.Specializes d e [] where
  denoiser := by simp [← h]
  extends_tables := .refl _
  size := rfl
  realizes := by simp

theorem snoc {s : Specialization} {swaps : SwapTable} {pass : OpenPass} {n : Nat}
    (h : d.Specializes d' e done) (hstage : pass.stage = e.pass.stage)
    (hcollected : Collected d.denoiser.claims swaps (e.pass.bindings s) pass)
    (hswaps : Grows d.denoiser.claims.OwnPair d'.tables.swaps.pairs swaps.pairs)
    (hadd : addDispatch e.pass.shader (e.defines ++ s.defines) e.args (withOpen d' swaps pass) =
      .ok n d'') : d.Specializes d'' e (done ++ [s]) := by
  have hclaims : d'.denoiser.claims = d.denoiser.claims := by rw [h.denoiser]
  have hauthor : d'.denoiser.author = d.denoiser.author := by rw [h.denoiser]; rfl
  obtain ⟨rfl, hdenoiser, hext, hsize, hreal⟩ := addDispatch_ok hstage
    (hclaims ▸ hcollected) (hclaims ▸ hswaps) hadd
  rw [hclaims] at hext
  refine ⟨by rw [hdenoiser, h.denoiser], ?_, ?_, ?_⟩
  · refine (h.extends_tables.mono (fun _ hp => hp) ?_).trans (hext.mono (fun _ hp => hp) ?_)
    · rintro p ⟨s', hs', hp⟩
      exact ⟨s', by simp [hs'], hp⟩
    · rintro p hp
      exact ⟨s, by simp, hp⟩
  · rw [hsize, h.size, List.length_append, List.length_singleton, Nat.add_assoc]
  · intro i t hi
    rw [List.getElem?_append] at hi
    split at hi
    · exact (h.realizes i t hi).extends hext
    · obtain ⟨hlt, rfl⟩ := List.getElem?_eq_some_iff.mp hi
      have hi' : i = done.length := by
        simp only [List.length_singleton] at hlt
        omega
      simpa [hi', ← h.size, hauthor] using hreal

-- All specialisations of a pass, once it is recorded, are a stretch of the table.
theorem declares {base : Nat} (h : d.Specializes d' e (Specialization.all e.pass.conditions))
    (hbase : base = d.tables.dispatches.size)
    (htables : d'.tables.Extends (fun _ => False) (fun _ => False) d''.tables)
    (hdispatches : d''.tables.dispatches = d'.tables.dispatches)
    (hdenoiser : d''.denoiser = { d'.denoiser with
      passes := d'.denoiser.passes.push (e.declared base) }) : d.Declares d'' [e] where
  denoiser := by
    rw [hdenoiser, h.denoiser, hbase]
    simp [recorded, place]
  extends_tables := by
    refine (h.extends_tables.mono (fun _ hp => hp) ?_).trans (htables.mono ?_ ?_)
    · rintro p ⟨s, hs, hp⟩
      exact ⟨e, by simp, s, hs, hp⟩
    · exact fun _ => False.elim
    · exact fun _ => False.elim
  size := by simp [hdispatches, h.size, dispatchCount, Specialization.length_all]
  realizes := by
    intro start e' he s hs
    simp only [place, List.mem_singleton, Prod.mk.injEq] at he
    obtain ⟨rfl, rfl⟩ := he
    obtain ⟨hconditions, hbits⟩ := (Specialization.mem_all_iff _ _).mp hs
    have hget := Specialization.getElem?_all e'.pass.conditions s.bits hbits
    exact (h.realizes s.bits s (by simpa [← hconditions] using hget)).extends htables

end Draft.Specializes

namespace Declaring

variable {d d' : Draft}

theorem recordPass_ok {pass : DeclaredPass} (h : recordPass pass d = .ok ⟨⟩ d') :
    d'.tables = d.tables ∧
      d'.denoiser = { d.denoiser with passes := d.denoiser.passes.push pass } := by
  simp only [recordPass, modify_eq_ok_iff] at h
  exact h ▸ ⟨rfl, rfl⟩

theorem note_ok {event : LogEvent} (h : note event d = .ok ⟨⟩ d') :
    d.tables.Extends (fun _ => False) (fun _ => False) d'.tables ∧
      d'.tables.dispatches = d.tables.dispatches ∧ d'.denoiser = d.denoiser := by
  simp only [note, modify_eq_ok_iff] at h
  exact h ▸ ⟨⟨rfl, .refl _, .refl _, .refl _, .refl _⟩, rfl, rfl⟩

theorem declareSpecialization_ok {start : Draft} {e : ScheduledPass}
    {done : List Specialization} {s : Specialization} (hdefines : e.defines = start.denoiser.defines)
    (hd : start.Specializes d e done) (h : declareSpecialization e.pass s d = .ok ⟨⟩ d') :
    start.Specializes d' e (done ++ [s]) := by
  have hclaims : d.denoiser.claims = start.denoiser.claims := by rw [hd.denoiser]
  simp only [declareSpecialization, bind_eq_ok_iff, get_eq_ok_iff, discard_eq_ok_iff] at h
  obtain ⟨⟨⟩, d₁, hopen, ⟨⟩, d₂, hinputs, ⟨⟩, d₃, houtputs, _, _, ⟨rfl, rfl⟩, n, hadd⟩ := h
  obtain ⟨-, rfl⟩ := openPass_ok hopen
  obtain ⟨swaps₁, inputs, rfl, hgrows₁, hinputs⟩ := forM_addInput_ok hinputs
  obtain ⟨swaps₂, outputs, rfl, hgrows₂, houtputs⟩ := forM_addOutput_ok houtputs
  rw [hclaims] at hgrows₁ hgrows₂ hinputs houtputs
  have hcollected : Collected start.denoiser.claims swaps₂ (e.pass.bindings s)
      { stage := e.pass.stage, inputs, outputs } :=
    ⟨Claims.map_binding?_grows hgrows₂ hinputs, houtputs⟩
  have hdefines' : d.denoiser.defines = e.defines := by rw [hd.denoiser, hdefines]
  exact hd.snoc rfl hcollected (hgrows₁.trans hgrows₂) (hdefines' ▸ hadd)

theorem declarePass_ok {e : ScheduledPass} (hdefines : e.defines = d.denoiser.defines)
    (hpending : d.denoiser.pending = none) (h : declarePass e.pass d = .ok ⟨⟩ d') :
    d.Declares d' [e] := by
  simp only [declarePass, declareFrom, bind_eq_ok_iff, get_eq_ok_iff] at h
  obtain ⟨_, _, ⟨rfl, rfl⟩, ⟨⟩, d₁, hloop, _, _, ⟨rfl, rfl⟩, ⟨⟩, d₂, hnote, hrecord⟩ := h
  have hspecialized : d.Specializes d₁ e (Specialization.all e.pass.conditions) :=
    forM_ok (P := fun done d₁ => d.Specializes d₁ e done)
      (fun hd hs => declareSpecialization_ok hdefines hd hs) (.nil hpending) hloop
  obtain ⟨hext, hdispatches, hdenoiser⟩ := note_ok hnote
  obtain ⟨htables, hdenoiser'⟩ := recordPass_ok hrecord
  exact hspecialized.declares rfl (htables ▸ hext) (htables ▸ hdispatches)
    (by rw [hdenoiser', hdenoiser]; rfl)

theorem declareClear_ok {slot : Slot} {texture : Texture} (hpending : d.denoiser.pending = none)
    (htexture : d.tables.pools.texture? d.denoiser.claims slot = some texture)
    (h : declareClear slot d = .ok ⟨⟩ d') : d.Declares d' [.clear slot texture] := by
  simp only [declareClear, bind_eq_ok_iff, get_eq_ok_iff] at h
  obtain ⟨_, _, ⟨rfl, rfl⟩, h⟩ := h
  simp only [htexture, bind_eq_ok_iff] at h
  obtain ⟨⟨⟩, d₁, hopen, ⟨⟩, d₂, houtput, base, d₃, hadd, hrecord⟩ := h
  obtain ⟨-, rfl⟩ := openPass_ok hopen
  obtain ⟨swaps, binding, rfl, hgrows, hbinding⟩ := addOutput_ok houtput
  obtain ⟨htables, hdenoiser⟩ := recordPass_ok hrecord
  have hadded := addDispatch_ok (e := .clear slot texture) (s := ⟨[], 0⟩) rfl
    ⟨rfl, by simp [ScheduledPass.clear, Pass.clear, hbinding]⟩ hgrows hadd
  have hspecialized : d.Specializes d₃ (.clear slot texture) [⟨[], 0⟩] :=
    (Draft.Specializes.nil hpending).snoc rfl
      ⟨rfl, by simp [ScheduledPass.clear, Pass.clear, hbinding]⟩ hgrows hadd
  have hrefl : d₃.tables.Extends (fun _ => False) (fun _ => False) d'.tables := by
    rw [htables]
    exact .refl _
  exact Draft.Specializes.declares hspecialized hadded.1 hrefl (htables ▸ rfl) hdenoiser

end Declaring

namespace Draft

-- The clears of permanent textures.
def clears (d : Draft) (slots : List Slot) : List ScheduledPass :=
  slots.filterMap fun slot => (d.tables.pools.texture? d.denoiser.claims slot).map (.clear slot)

-- Everything that a denoiser declares for a table of passes.
def schedule (d : Draft) (passes : List Pass) : List ScheduledPass :=
  d.clears d.denoiser.claims.permanentSlots ++ passes.map fun pass => ⟨pass, d.denoiser.defines⟩

variable {d d' : Draft}

theorem forM_declareClear_ok {slots : List Slot} (hpending : d.denoiser.pending = none)
    (h : slots.forM declareClear d = .ok ⟨⟩ d') :
    d.Declares d' (d.clears slots) ∧ (d.clears slots).length = slots.length := by
  refine forM_ok (P := fun done d₁ => d.Declares d₁ (d.clears done) ∧
    (d.clears done).length = done.length) ?_ ⟨.nil hpending, rfl⟩ h
  rintro done slot d₁ d₂ ⟨hd, hlength⟩ hclear
  have hclaims : d₁.denoiser.claims = d.denoiser.claims := by rw [hd.denoiser]
  have hpools : d₁.tables.pools = d.tables.pools := hd.extends_tables.pools
  cases htexture : d.tables.pools.texture? d.denoiser.claims slot with
  | none =>
    simp only [declareClear, bind_eq_ok_iff, get_eq_ok_iff] at hclear
    obtain ⟨_, _, ⟨rfl, rfl⟩, hclear⟩ := hclear
    simp [hclaims, hpools, htexture, throw_eq_ok_iff] at hclear
  | some texture =>
    have hone : d.clears [slot] = [.clear slot texture] := by simp [clears, htexture]
    have happend : d.clears (done ++ [slot]) = d.clears done ++ d.clears [slot] :=
      List.filterMap_append
    rw [happend, hone]
    refine ⟨hd.append (declareClear_ok ?_ ?_ hclear), by simp [hlength]⟩
    · rw [hd.denoiser]
    · rw [hpools, hclaims, htexture]

theorem forM_declarePass_ok {passes : List Pass} (hpending : d.denoiser.pending = none)
    (h : passes.forM declarePass d = .ok ⟨⟩ d') :
    d.Declares d' (passes.map fun pass => ⟨pass, d.denoiser.defines⟩) := by
  refine forM_ok (P := fun done d₁ =>
    d.Declares d₁ (done.map fun pass => ⟨pass, d.denoiser.defines⟩)) ?_ (.nil hpending) h
  intro done pass d₁ d₂ hd hpass
  rw [List.map_append]
  refine hd.append (declarePass_ok (e := ⟨pass, d.denoiser.defines⟩) ?_ ?_ hpass)
  · rw [hd.denoiser]
  · rw [hd.denoiser]

theorem declare_ok {passes : List Pass} (hpending : d.denoiser.pending = none)
    (h : declare passes d = .ok ⟨⟩ d') :
    d.Declares d' (d.schedule passes) ∧
      (d.clears d.denoiser.claims.permanentSlots).length = d.denoiser.claims.permanentCount := by
  simp only [declare, bind_eq_ok_iff, get_eq_ok_iff] at h
  obtain ⟨_, _, ⟨rfl, rfl⟩, ⟨⟩, d₁, hclears, hpasses⟩ := h
  obtain ⟨hcleared, hlength⟩ := forM_declareClear_ok hpending hclears
  have hpassed := forM_declarePass_ok (by rw [hcleared.denoiser]) hpasses
  have hdefines : d₁.denoiser.defines = d.denoiser.defines := by rw [hcleared.denoiser]
  rw [hdefines] at hpassed
  exact ⟨hcleared.append hpassed, by simpa [Claims.permanentSlots] using hlength⟩

-- What a denoiser that starts with its table of passes has declared in the end.
theorem finish_declare {passes : List Pass} (hpending : d.denoiser.pending = none)
    (hpasses : d.denoiser.passes = #[]) (h : declare passes d = .ok ⟨⟩ d') :
    d'.finish = .ok
      { passes := recorded d.tables.dispatches.size (d.schedule passes)
        dispatches := ⟨d.denoiser.dispatchStart, d'.tables.dispatches.size⟩
        swaps := ⟨d.denoiser.swapStart, d'.tables.swaps.size⟩
        claims := d.denoiser.claims } := by
  have hdenoiser := (declare_ok hpending h).1.denoiser
  simp [finish, hdenoiser, hpasses]

end Draft

end DenoisePlanner
