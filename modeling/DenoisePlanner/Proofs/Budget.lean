import DenoisePlanner.Proofs.Issue
import Mathlib.Algebra.BigOperators.Group.Finset.Basic
import Mathlib.Algebra.Order.BigOperators.Group.Finset
import Mathlib.Algebra.Order.Group.Nat

namespace DenoisePlanner

section Sums

variable {α : Type} (table : List α)

-- What a table says of a position, and nothing beyond its end.
def lookup (f : α → Nat) (n : Nat) : Nat := (table[n]?.map f).getD 0

theorem sum_lookup (f : α → Nat) :
    ∑ n ∈ Finset.range table.length, lookup table f n = (table.map f).sum := by
  induction table with
  | nil => rfl
  | cons x xs ih =>
    rw [List.length_cons, Finset.sum_range_succ', List.map_cons, List.sum_cons, ← ih, Nat.add_comm]
    rfl

-- A selection that takes no entry more often than is allowed weighs no more than the table.
theorem sum_lookup_le {picks : List Nat} {times weight : α → Nat}
    (hcount : ∀ n x, table[n]? = some x → picks.count n ≤ times x) :
    (picks.map (lookup table weight)).sum ≤ (table.map fun x => times x * weight x).sum := by
  have hterm (n : Nat) : picks.count n • lookup table weight n ≤
      lookup table (fun x => times x * weight x) n := by
    unfold lookup
    cases hx : table[n]? with
    | none => simp
    | some x => exact Nat.mul_le_mul_right (weight x) (hcount n x hx)
  have hinside (n : Nat) (hn : lookup table (fun x => times x * weight x) n ≠ 0) :
      n ∈ Finset.range table.length := by
    by_contra hout
    rw [Finset.mem_range, Nat.not_lt] at hout
    rw [lookup, List.getElem?_eq_none hout] at hn
    exact hn rfl
  calc (picks.map (lookup table weight)).sum
    _ = ∑ n ∈ picks.toFinset, picks.count n • lookup table weight n :=
      Finset.sum_list_map_count ..
    _ ≤ ∑ n ∈ picks.toFinset, lookup table (fun x => times x * weight x) n :=
      Finset.sum_le_sum fun n _ => hterm n
    _ ≤ ∑ n ∈ Finset.range table.length, lookup table (fun x => times x * weight x) n :=
      Finset.sum_le_sum_of_ne_zero fun n _ => hinside n
    _ = (table.map fun x => times x * weight x).sum := sum_lookup ..

theorem sum_map_eq_countP (p : α → Bool) :
    (table.map fun x => if p x then 1 else 0).sum = table.countP p := by
  induction table with
  | nil => rfl
  | cons x xs ih =>
    rw [List.map_cons, List.sum_cons, ih, List.countP_cons, Nat.add_comm]

end Sums

namespace DescriptorBudget

-- All descriptors together.
def total (b : DescriptorBudget) : Nat :=
  b.sets + b.constantBuffers + b.samplers + b.textures + b.storageTextures

-- The numbers of a budget are 32-bit numbers.
structure InWords (b : DescriptorBudget) : Prop where
  sets : b.sets < 2 ^ 32
  constantBuffers : b.constantBuffers < 2 ^ 32
  samplers : b.samplers < 2 ^ 32
  textures : b.textures < 2 ^ 32
  storageTextures : b.storageTextures < 2 ^ 32

theorem inWords_of_total {b : DescriptorBudget} (h : b.total < 2 ^ 32) : b.InWords := by
  unfold total at h
  constructor <;> omega

-- The descriptors that the dispatches of a frame take up.
structure Covers (b : DescriptorBudget) (dispatches : List Dispatch) : Prop where
  sets : dispatches.length ≤ b.sets
  constantBuffers : dispatches.countP (fun x => decide (0 < x.constants.size)) ≤ b.constantBuffers
  samplers : 2 * dispatches.length ≤ b.samplers
  textures : (dispatches.map fun x => x.boundFor .read).sum ≤ b.textures
  storageTextures : (dispatches.map fun x => x.boundFor .write).sum ≤ b.storageTextures

end DescriptorBudget

namespace Declarations

variable {tables : Declarations}

-- The budget as far as it has been added up.
def budgetOf (tables : Declarations) (dispatches : List DeclaredDispatch) : DescriptorBudget :=
  dispatches.foldl (fun total x => total.add (.ofDispatch (tables.layoutOf x) x)) {}

theorem budget_eq (tables : Declarations) :
    tables.budget = tables.budgetOf tables.dispatches.toList := by
  rw [budget, budgetOf, Array.foldl_toList]

-- A quantity that adds up over budgets adds up over the dispatches.
theorem map_budgetOf {φ : DescriptorBudget → Nat} (hzero : φ {} = 0)
    (hadd : ∀ a b, φ (a.add b) = φ a + φ b) (dispatches : List DeclaredDispatch) :
    φ (tables.budgetOf dispatches) =
      (dispatches.map fun x => φ (.ofDispatch (tables.layoutOf x) x)).sum := by
  suffices ∀ init : DescriptorBudget, φ (dispatches.foldl
      (fun total x => total.add (.ofDispatch (tables.layoutOf x) x)) init) =
      φ init + (dispatches.map fun x => φ (.ofDispatch (tables.layoutOf x) x)).sum by
    rw [budgetOf, this, hzero, Nat.zero_add]
  induction dispatches with
  | nil => exact fun _ => rfl
  | cons x xs ih =>
    intro init
    rw [List.foldl_cons, ih, hadd, List.map_cons, List.sum_cons, Nat.add_assoc]

end Declarations

namespace Variant

-- No dispatch takes up many descriptors, however often it repeats,
theorem total_ofDispatch_le (v : Variant) : ∀ e ∈ v.blueprint.schedule,
    ∀ s ∈ Specialization.all e.pass.conditions,
      e.pass.repeats.toNat * (4 + (e.pass.bindings s).inputs.length +
        (e.pass.bindings s).outputs.length) ≤ 128 := by
  cases v <;> decide +kernel

-- and no denoiser declares many dispatches.
theorem dispatchCount_le (v : Variant) : ScheduledPass.dispatchCount v.blueprint.schedule ≤ 64 := by
  cases v <;> decide +kernel

end Variant

namespace Planner

variable {p : Planner} {store : ShaderStore} {flipped : Nat → Bool}

theorem Sound.total_ofDispatch_le (h : p.Sound store flipped) (hlasting : p.Lasting store)
    {n : Nat} {declared : DeclaredDispatch} (hdeclared : p.tables.dispatches[n]? = some declared) :
    (DescriptorBudget.ofDispatch (p.tables.layoutOf declared) declared).total ≤ 128 := by
  obtain ⟨i, d, -, e, he, s, hs, hrealizes⟩ := h.exists_realizes hlasting hdeclared
  have hbound := d.variant.total_ofDispatch_le e he s hs
  have hlayout := hrealizes.layoutOf_eq hdeclared
  obtain ⟨position, span, pipeline, hdispatch, -⟩ := hrealizes
  have hrepeats : declared.repeats = e.pass.repeats := by
    rw [← Option.some.inj (hdispatch.symm.trans hdeclared)]
    rfl
  have hsamplers : Sampler.all.length = 2 := rfl
  simp only [DescriptorBudget.total, DescriptorBudget.ofDispatch, hlayout, hrepeats, hsamplers,
    ScheduledPass.layout]
  rw [Nat.mul_add, Nat.mul_add] at hbound
  split <;> omega

theorem Sound.size_dispatches_le (h : p.Sound store flipped) (hlasting : p.Lasting store) :
    p.tables.dispatches.size ≤ 64 * 65535 := by
  have hstop : p.tables.dispatches.size = 0 + (p.members.map Member.dispatchCount).sum :=
    hlasting.tiled.stop_eq
  have hsum := List.sum_le_card_nsmul (p.members.map Member.dispatchCount) 64 (by
    intro count hcount
    obtain ⟨m, -, rfl⟩ := List.mem_map.mp hcount
    exact m.variant.dispatchCount_le)
  have hlength : p.members.length = p.denoisers.size := by simp [members, Roster.members]
  have hdenoisers : p.denoisers.size ≤ 65535 := Nat.le_trans h.roster.count h.roster.room
  rw [List.length_map, hlength, Nat.nsmul_eq_mul] at hsum
  omega

-- The sums stay small enough from the first dispatch to the last.
theorem Sound.inWords_budgetOf_take (h : p.Sound store flipped) (hlasting : p.Lasting store)
    (k : Nat) : (p.tables.budgetOf (p.tables.dispatches.toList.take k)).InWords := by
  have hsum := List.sum_le_card_nsmul ((p.tables.dispatches.toList.take k).map fun x =>
    (DescriptorBudget.ofDispatch (p.tables.layoutOf x) x).total) 128 (by
      intro count hcount
      obtain ⟨declared, hmem, rfl⟩ := List.mem_map.mp hcount
      obtain ⟨n, hn⟩ := Array.getElem?_of_mem (Array.mem_toList_iff.mp (List.mem_of_mem_take hmem))
      exact h.total_ofDispatch_le hlasting hn)
  have hlength : (p.tables.dispatches.toList.take k).length ≤ p.tables.dispatches.size :=
    List.length_take_le' k p.tables.dispatches.toList
  have hsize := h.size_dispatches_le hlasting
  apply DescriptorBudget.inWords_of_total
  rw [Declarations.map_budgetOf (φ := DescriptorBudget.total) rfl]
  · rw [List.length_map, Nat.nsmul_eq_mul] at hsum
    omega
  · intro a b
    simp only [DescriptorBudget.total, DescriptorBudget.add]
    omega

section Frame

variable {policy : MemoryPolicy} {identifiers : List Identifier} {frame : Frame}

-- What a dispatch takes up of one kind is what the budget has for it, as often as it repeats.
theorem Sound.sum_le_budget (h : p.Sound store flipped) (hlasting : p.Lasting store)
    (hframe : (p.frame policy identifiers).result = .ok frame) (φ : DescriptorBudget → Nat)
    (weight : DeclaredDispatch → Nat) (taken : Dispatch → Nat)
    (hzero : φ {} = 0) (hadd : ∀ a b, φ (a.add b) = φ a + φ b)
    (hof : ∀ declared, φ (.ofDispatch (p.tables.layoutOf declared) declared) =
      declared.repeats.toNat * weight declared)
    (htaken : ∀ declared x, p.tables.Suits declared → p.Issues declared x →
      taken x = weight declared) :
    (frame.dispatches.map taken).sum ≤ φ p.inventory.budget := by
  have hissues := h.issues_frame hframe
  have hmap : frame.dispatches.map taken =
      (p.picks identifiers).map (lookup p.tables.dispatches.toList weight) := by
    refine (List.forall₂_eq_eq_eq ▸ List.forall₂_map_left_iff.mpr
      (List.forall₂_map_right_iff.mpr (hissues.flip.imp ?_)) : _ = _)
    rintro x n ⟨declared, hdeclared, hx⟩
    rw [lookup, Array.getElem?_toList, hdeclared]
    exact htaken declared x (h.suits hlasting hdeclared) hx
  have hcount (n : Nat) (declared : DeclaredDispatch)
      (hdeclared : p.tables.dispatches.toList[n]? = some declared) :
      (p.picks identifiers).count n ≤ declared.repeats.toNat := by
    rw [Array.getElem?_toList] at hdeclared
    exact h.count_picks_le hlasting (h.frame_shares hframe).1 hdeclared
  calc (frame.dispatches.map taken).sum
    _ ≤ (p.tables.dispatches.toList.map fun x => x.repeats.toNat * weight x).sum :=
      hmap ▸ sum_lookup_le _ hcount
    _ = (p.tables.dispatches.toList.map fun x =>
        φ (.ofDispatch (p.tables.layoutOf x) x)).sum := by
      rw [List.map_congr_left fun x _ => (hof x).symm]
    _ = φ p.inventory.budget := by
      rw [hlasting.inventory, ← Declarations.map_budgetOf hzero hadd, ← Declarations.budget_eq]
      rfl

theorem Sound.covers (h : p.Sound store flipped) (hlasting : p.Lasting store)
    (hframe : (p.frame policy identifiers).result = .ok frame) :
    p.inventory.budget.Covers frame.dispatches := by
  have hbound (declared : DeclaredDispatch) (x : Dispatch) (hsuits : p.tables.Suits declared)
      (hissues : p.Issues declared x) : x.resources.map BoundResource.access =
        List.replicate (p.tables.layoutOf declared).textures .read ++
          List.replicate (p.tables.layoutOf declared).storageTextures .write := by
    rw [hissues.resources, hsuits.accesses, PipelineLayout.accesses_eq]
  refine ⟨?_, ?_, ?_, ?_, ?_⟩
  · have hsum := h.sum_le_budget hlasting hframe DescriptorBudget.sets (fun _ => 1) (fun _ => 1)
      rfl (fun _ _ => rfl) (fun _ => (Nat.mul_one _).symm) (fun _ _ _ _ => rfl)
    simpa using hsum
  · have hsum := h.sum_le_budget hlasting hframe DescriptorBudget.constantBuffers
      (fun declared => if 0 < declared.constantsSize then 1 else 0)
      (fun x => if decide (0 < x.constants.size) then 1 else 0) rfl (fun _ _ => rfl)
      (by
        intro declared
        simp only [DescriptorBudget.ofDispatch]
        split <;> simp)
      (by
        intro declared x _ hissues
        simp only [hissues.constants, decide_eq_true_eq])
    rwa [sum_map_eq_countP] at hsum
  · have hsum := h.sum_le_budget hlasting hframe DescriptorBudget.samplers (fun _ => 2)
      (fun _ => 2) rfl (fun _ _ => rfl) (fun _ => rfl) (fun _ _ _ _ => rfl)
    simp only [List.map_const', List.sum_replicate, Nat.nsmul_eq_mul] at hsum
    omega
  · refine h.sum_le_budget hlasting hframe DescriptorBudget.textures
      (fun declared => (p.tables.layoutOf declared).textures) _ rfl (fun _ _ => rfl)
      (fun _ => rfl) fun declared x hsuits hissues => ?_
    rw [Dispatch.boundFor, hbound declared x hsuits hissues]
    simp [List.count_replicate]
  · refine h.sum_le_budget hlasting hframe DescriptorBudget.storageTextures
      (fun declared => (p.tables.layoutOf declared).storageTextures) _ rfl (fun _ _ => rfl)
      (fun _ => rfl) fun declared x hsuits hissues => ?_
    rw [Dispatch.boundFor, hbound declared x hsuits hissues]
    simp [List.count_replicate]

end Frame

-- A frame of a planner keeps to what the inventory says.
structure Promises (p : Planner) (identifiers : List Identifier) (frame : Frame) : Prop where
  issues : List.Forall₂ p.IssuesAt (p.picks identifiers) frame.dispatches
  repeats : ∀ n declared, p.tables.dispatches[n]? = some declared →
    (p.picks identifiers).count n ≤ declared.repeats.toNat
  covers : p.inventory.budget.Covers frame.dispatches
  conforms : ∀ x ∈ frame.dispatches, x.Conforms p.inventory

-- What the host was told to create suffices for every frame, and was added up without wrapping.
theorem Reachable.keeps_promises {denoisers : List (Identifier × Variant)}
    (h : Reachable denoisers store p) :
    p.inventory.budget = p.tables.budgetOf p.tables.dispatches.toList ∧
      (∀ k, (p.tables.budgetOf (p.tables.dispatches.toList.take k)).InWords) ∧
      ∀ policy identifiers frame, (p.frame policy identifiers).result = .ok frame →
        p.Promises identifiers frame := by
  obtain ⟨flipped, hsound⟩ := h.sound
  have hlasting := h.lasting
  refine ⟨?_, hsound.inWords_budgetOf_take hlasting, fun policy identifiers frame hframe => ?_⟩
  · rw [hlasting.inventory, ← Declarations.budget_eq]
    rfl
  · have hissues := hsound.issues_frame hframe
    refine ⟨hissues, fun n declared hdeclared => ?_, hsound.covers hlasting hframe, fun x hx => ?_⟩
    · exact hsound.count_picks_le hlasting (hsound.frame_shares hframe).1 hdeclared
    · obtain ⟨n, -, hx⟩ := exists_of_mem_right hissues hx
      exact hsound.conforms hlasting hx

theorem Reachable.keeps_promises_shadowAndReference : ∃ p frame,
    Reachable shadowAndReference (fun _ _ => none) p ∧
      (p.frame (.atMost none) [⟨3⟩, ⟨7⟩]).result = .ok frame ∧ p.Promises [⟨3⟩, ⟨7⟩] frame := by
  obtain ⟨p, frame, hcreate, hframe⟩ := exists_frame_shadowAndReference
  exact ⟨p, frame, .created hcreate, hframe,
    (keeps_promises (.created hcreate)).2.2 _ _ frame hframe⟩

end Planner

end DenoisePlanner
