import DenoisePlanner.Proofs.Upkeep

namespace DenoisePlanner

open Declaring

-- What a dispatch of the tables binds, as shaders and host rely on it.
structure Declarations.Accords (t : Declarations) (claims : Claims) (dispatch : DeclaredDispatch) :
    Prop where
  inside : dispatch.bindings.start ≤ dispatch.bindings.stop ∧
    dispatch.bindings.stop ≤ t.bindings.size
  pipeline : ∃ pipeline reads writes,
    t.pipelines.pipelines[dispatch.pipeline]? = some pipeline ∧
    t.resources dispatch = reads ++ writes ∧
    (∀ resource ∈ reads, resource.access = .read) ∧
    (∀ resource ∈ writes, resource.access = .write) ∧
    pipeline.layout = ⟨dispatch.threads, reads.length, writes.length, dispatch.data.hasShared⟩
  downsample : 0 < dispatch.downsample
  repeats : 0 < dispatch.repeats
  permits : ∀ resource ∈ t.resources dispatch, claims.Permits t.pools resource

-- Every dispatch has a denoiser that declared it and bindings of its own.
structure Declarations.InOrder (t : Declarations) (owners : List Owner) : Prop where
  accords : ∀ (n : Nat) dispatch, t.dispatches[n]? = some dispatch →
    ∃ owner ∈ owners, owner.dispatches.start ≤ n ∧ n < owner.dispatches.stop ∧
      t.Accords owner.claims dispatch
  apart : ∀ (m n : Nat) x y, t.dispatches[m]? = some x → t.dispatches[n]? = some y → m < n →
    x.bindings.stop ≤ y.bindings.start
  precedes : owners.Pairwise Owner.Precedes

namespace Declarations

variable {t : Declarations} {claims : Claims} {dispatch : DeclaredDispatch} {owners : List Owner}

theorem Built.accords (h : t.Built claims dispatch) (hwithin : claims.Within t.pools) :
    t.Accords claims dispatch := by
  obtain ⟨pipeline, inputs, outputs, hpipeline, hslice, hinputs, houtputs, hlayout⟩ := h.pipeline
  have hreads := fun b hb => (hinputs b hb).resolve hwithin
  have hwrites := fun b hb => (houtputs b hb).resolve hwithin
  have hresources : t.resources dispatch =
      inputs.map (Binding.resolve t.swaps) ++ outputs.map (Binding.resolve t.swaps) := by
    rw [resources, hslice, List.map_append]
  refine ⟨h.inside, ⟨pipeline, _, _, hpipeline, hresources, ?_, ?_, ?_⟩,
    UInt16.pos_iff_ne_zero.mpr h.downsample, UInt16.pos_iff_ne_zero.mpr h.repeats, ?_⟩
  · exact List.forall_mem_map.mpr fun b hb => (hreads b hb).1
  · exact List.forall_mem_map.mpr fun b hb => (hwrites b hb).1
  · rw [hlayout, List.length_map, List.length_map]
  · rw [hresources]
    exact List.forall_mem_append.mpr ⟨List.forall_mem_map.mpr fun b hb => (hreads b hb).2,
      List.forall_mem_map.mpr fun b hb => (hwrites b hb).2⟩

theorem Kept.inOrder (h : t.Kept owners) : t.InOrder owners where
  accords := fun n dispatch hn => by
    obtain ⟨owner, howner, hstart, hstop, hbuilt⟩ := h.built n dispatch hn
    exact ⟨owner, howner, hstart, hstop, hbuilt.accords (h.inside owner howner).claims⟩
  apart := fun m n x y hm hn hlt => by
    obtain ⟨hm', rfl⟩ := Array.getElem?_eq_some_iff.mp hm
    obtain ⟨hn', rfl⟩ := Array.getElem?_eq_some_iff.mp hn
    exact List.pairwise_iff_getElem.mp h.apart m n hm' hn' hlt
  precedes := h.precedes

theorem Kept.empty : Kept {} [] where
  built := fun n dispatch hn => by simp at hn
  apart := .nil
  inside := by simp
  precedes := .nil

-- A new denoiser stands behind all others.
theorem Kept.draft (h : t.Kept owners) (name : String) (defines : List Define) (sharedSize : Nat) :
    (t.draft name defines sharedSize).Kept owners where
  tables := by
    refine ⟨fun n dispatch hn => ?_, h.apart, ?_, ?_⟩
    · obtain ⟨owner, howner, hbuilt⟩ := h.built n dispatch hn
      exact ⟨owner, List.mem_append_left _ howner, hbuilt⟩
    · refine List.forall_mem_append.mpr ⟨h.inside, fun owner howner => ?_⟩
      rw [List.mem_singleton.mp howner]
      exact ⟨⟨Nat.le_refl _, fun i hi => absurd hi (Array.not_mem_empty i)⟩,
        ⟨Nat.le_refl _, Nat.le_refl _⟩, ⟨Nat.le_refl _, Nat.le_refl _⟩⟩
    · refine List.pairwise_append.mpr ⟨h.precedes, List.pairwise_singleton _ _, fun x hx y hy => ?_⟩
      have hinside := h.inside x hx
      rw [List.mem_singleton.mp hy]
      exact ⟨hinside.claims.permanent, hinside.dispatches.2, hinside.swaps.2⟩
  inputs := fun pass hpass => by cases hpass
  outputs := fun pass hpass => by cases hpass

theorem evolves_exchanged (t : Declarations) (span : Span) : t.Evolves (t.exchanged span) :=
  ⟨Nat.le_refl _, Nat.le_refl _, t.swaps.retains_exchanged span, .refl _, .refl _, rfl⟩

end Declarations

def DenoiserLayout.owner (layout : DenoiserLayout) : Owner :=
  ⟨layout.claims, layout.dispatches, layout.swaps⟩

theorem Draft.owner_of_finish {d : Draft} {layout : DenoiserLayout} (h : d.finish = .ok layout) :
    layout.owner = d.owner := by
  unfold finish at h
  split at h
  · cases h
  · cases h
    rfl

-- Tables that denoisers are declared in, one after the other.
structure Workshop where
  tables : Declarations := {}
  -- Of the denoisers that are done, whether they were finished or given up.
  closed : List Owner := []
  current : Option OpenDenoiser := none
  layouts : List DenoiserLayout := []

inductive WorkshopStep where
  | begin (name : String) (defines : List Define) (sharedSize : Nat)
  | build (step : DraftStep)
  | declare (passes : List Pass)
  | finish
  -- The pairs of a layout that was finished trade places.
  | exchange (layout : Nat)

namespace Workshop

def owners (w : Workshop) : List Owner :=
  w.closed ++ (w.current.map fun denoiser => Draft.owner ⟨w.tables, denoiser⟩).toList

-- The current denoiser, if there is one, is declared no further.
def close (w : Workshop) : Workshop := { w with closed := w.owners, current := none }

-- An operation changes tables and denoiser also where it fails.
def perform (w : Workshop) (x : Declaring Unit) : Workshop :=
  match w.current with
  | none => w
  | some denoiser =>
    let d := Draft.after ⟨w.tables, denoiser⟩ x
    { w with tables := d.tables, current := some d.denoiser }

def finish (w : Workshop) : Workshop :=
  match w.current.map fun denoiser => Draft.finish ⟨w.tables, denoiser⟩ with
  | some (.ok layout) => { w.close with layouts := w.layouts ++ [layout] }
  | _ => w.close

def next (w : Workshop) : WorkshopStep → Workshop
  | .begin name defines sharedSize =>
    { w.close with current := some (w.tables.draft name defines sharedSize).denoiser }
  | .build step => w.perform step.run
  | .declare passes => w.perform (Declaring.declare passes)
  | .finish => w.finish
  | .exchange i => match w.layouts[i]? with
    | some layout => { w with tables := w.tables.exchanged layout.swaps }
    | none => w

structure Sound (w : Workshop) : Prop where
  closed : w.tables.Kept w.owners
  current : ∀ denoiser, w.current = some denoiser → Draft.Kept w.closed ⟨w.tables, denoiser⟩
  layouts : ∀ layout ∈ w.layouts, layout.owner ∈ w.closed

variable {w : Workshop}

theorem Sound.close (h : w.Sound) : w.close.Sound where
  closed := by simpa [Workshop.close, owners] using h.closed
  current := by simp [Workshop.close]
  layouts := fun layout hlayout => List.mem_append_left _ (h.layouts layout hlayout)

theorem Sound.perform (h : w.Sound) {x : Declaring Unit} (hx : Upholds w.closed x) :
    (w.perform x).Sound := by
  unfold Workshop.perform
  split
  · exact h
  · rename_i denoiser hcurrent
    have hkept := hx (h.current denoiser hcurrent)
    refine ⟨hkept.tables, ?_, h.layouts⟩
    rintro _ ⟨⟩
    exact hkept

theorem Sound.finish (h : w.Sound) : w.finish.Sound := by
  have hclose := h.close
  unfold Workshop.finish
  split
  · rename_i layout hfinish
    obtain ⟨denoiser, hcurrent, hok⟩ := Option.map_eq_some_iff.mp hfinish
    refine ⟨hclose.closed, hclose.current, ?_⟩
    refine List.forall_mem_append.mpr ⟨hclose.layouts, fun x hx => ?_⟩
    rw [List.mem_singleton.mp hx, Draft.owner_of_finish hok]
    simp [Workshop.close, owners, hcurrent]
  · exact hclose

-- Roles may change while a denoiser is under way.
theorem Sound.exchange (h : w.Sound) (span : Span) :
    ({ w with tables := w.tables.exchanged span } : Workshop).Sound := by
  have hevolves := w.tables.evolves_exchanged span
  have hcurrent : ∀ denoiser, w.current = some denoiser →
      Draft.Kept w.closed ⟨w.tables.exchanged span, denoiser⟩ := by
    intro denoiser hdenoiser
    have hkept := h.current denoiser hdenoiser
    refine ⟨?_, fun pass hpass b hb => ?_, fun pass hpass b hb => ?_⟩
    · exact hkept.evolve hevolves (.refl _) (hevolves.within hkept.within) rfl rfl
    · exact (hkept.inputs pass hpass b hb).mono (.refl _) hevolves.swaps
    · exact (hkept.outputs pass hpass b hb).mono (.refl _) hevolves.swaps
  refine ⟨?_, hcurrent, h.layouts⟩
  cases hdenoiser : w.current with
  | none =>
    have hclosed := h.closed.evolve hevolves
    simpa [owners, hdenoiser] using hclosed
  | some denoiser =>
    have htables := (hcurrent denoiser hdenoiser).tables
    simpa [owners, hdenoiser] using htables

theorem Sound.next (h : w.Sound) (step : WorkshopStep) : (w.next step).Sound := by
  cases step with
  | begin name defines sharedSize =>
    have hdraft := h.closed.draft name defines sharedSize
    refine ⟨hdraft.tables, ?_, h.close.layouts⟩
    rintro _ ⟨⟩
    exact hdraft
  | build step => exact h.perform (step.upholds _)
  | declare passes => exact h.perform (upholds_declare passes)
  | finish => exact h.finish
  | exchange i =>
    unfold Workshop.next
    dsimp only
    split
    · exact h.exchange _
    · exact h

theorem Sound.new : Sound {} where
  closed := .empty
  current := by simp
  layouts := by simp

theorem Sound.foldl (h : w.Sound) (steps : List WorkshopStep) :
    (steps.foldl Workshop.next w).Sound := by
  induction steps generalizing w with
  | nil => exact h
  | cons step steps ih => exact ih (h.next step)

-- However denoisers are declared, also where steps fail and denoisers are given up, and however
-- textures change roles, the tables stay in order, and the pairs of every layout can change roles.
theorem inOrder_of_steps (steps : List WorkshopStep) :
    let w := steps.foldl Workshop.next {}
    w.tables.InOrder w.owners ∧ ∀ layout ∈ w.layouts,
      layout.owner ∈ w.owners ∧ (w.tables.swaps.exchange? layout.swaps).isSome := by
  have hsound := Sound.new.foldl steps
  refine ⟨hsound.closed.inOrder, fun layout hlayout => ?_⟩
  have howner : layout.owner ∈ (steps.foldl Workshop.next {}).owners :=
    List.mem_append_left _ (hsound.layouts layout hlayout)
  have hinside := (hsound.closed.inside _ howner).swaps
  refine ⟨howner, ?_⟩
  simp only [DenoiserLayout.owner] at hinside
  simp [SwapTable.exchange?, hinside]

-- A denoiser is given up with a pass open, and the next one swaps its textures.
theorem exists_inOrder :
    ∃ steps : List WorkshopStep,
      let w := steps.foldl Workshop.next {}
      w.tables.dispatches.size = 2 ∧ w.owners.length = 2 ∧ w.layouts.length = 1 ∧
      w.tables.dispatches[1]?.map w.tables.resources =
        some [⟨.permanentPool, 2, .read⟩, ⟨.transientPool, 0, .write⟩] ∧
      w.tables.InOrder w.owners := by
  let steps : List WorkshopStep :=
    [.begin "First" [] 0, .build (.permanent ⟨.r8Unorm, 1⟩), .build (.transient ⟨.r8Unorm, 1⟩),
      .build (.pass .copy), .build (.input (.pooled (.permanent 0))),
      .build (.output (.pooled (.transient 0))), .build (.dispatch "Copy" [] {}),
      .build (.pass .blur), .build (.input (.pooled (.permanent 1))),
      .begin "Second" [] 0, .build (.permanent ⟨.r8Unorm, 1⟩), .build (.permanent ⟨.r8Unorm, 1⟩),
      .build (.transient ⟨.r8Unorm, 1⟩), .build (.pass .copy),
      .build (.input (.swapping (.permanent 0) (.permanent 1))),
      .build (.output (.pooled (.transient 0))), .build (.dispatch "Copy" [] {}), .finish,
      .exchange 0]
  exact ⟨steps, by decide +kernel, by decide +kernel, by decide +kernel, by decide +kernel,
    (inOrder_of_steps steps).1⟩

end Workshop

end DenoisePlanner
