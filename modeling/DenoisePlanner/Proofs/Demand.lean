import DenoisePlanner.Proofs.Answers
import DenoisePlanner.Proofs.Refusal

namespace DenoisePlanner

namespace ScratchBuffer

variable {b c : ScratchBuffer} {policy : MemoryPolicy} {chunks chunks' : List ByteArray}
  {blocks blocks' : List (List ByteArray)}

-- Buffers that are filled equally far and hold equally much, whatever is in them.
structure Level (b c : ScratchBuffer) : Prop where
  length_eq : b.length = c.length
  capacity_eq : b.capacity = c.capacity

-- Attempts that came to the same, whatever they stored.
structure Attempt.Level {α : Type} (x y : Attempt α) : Prop where
  buffer : x.buffer.Level y.buffer
  call : x.call = y.call
  result : x.result = y.result

structure Placement.Level (x y : Placement) : Prop where
  buffer : x.buffer.Level y.buffer
  calls : x.calls = y.calls
  result : x.result = y.result

theorem growthCall_level (h : b.Level c) (size : Nat) (granted : Bool) :
    b.growthCall size granted = c.growthCall size granted := by
  rw [growthCall, growthCall, block, block, h.capacity_eq]

theorem reserve_level (h : b.Level c) (policy : MemoryPolicy) (required : Nat) :
    (b.reserve policy required).Level (c.reserve policy required) := by
  unfold reserve
  rw [h.capacity_eq]
  split
  · exact ⟨h, rfl, rfl⟩
  · cases grownCapacity required with
    | error failure => exact ⟨h, rfl, rfl⟩
    | ok size =>
      simp only [growthCall_level h]
      split
      · exact ⟨⟨h.length_eq, rfl⟩, rfl, rfl⟩
      · exact ⟨h, rfl, rfl⟩

theorem store_level (h : b.Level c) {block block' : ByteArray} (hsize : block.size = block'.size) :
    (b.store block).Level (c.store block') where
  length_eq := by simp only [store, h.length_eq, hsize]
  capacity_eq := by simp only [store, h.capacity_eq]

theorem push_level (h : b.Level c) (policy : MemoryPolicy)
    (hsize : (join chunks).size = (join chunks').size) :
    (b.push policy chunks).Level (c.push policy chunks') := by
  have hroom := reserve_level h policy (alignUp c.length + (join chunks').size)
  unfold push
  dsimp only
  rw [h.length_eq, hsize]
  split
  · exact ⟨h, rfl, rfl⟩
  · rw [hroom.result]
    split
    · exact ⟨hroom.buffer, hroom.call, rfl⟩
    · exact ⟨store_level hroom.buffer hsize, hroom.call, rfl⟩

-- What the allocator hears, and where blocks come to lie, is decided by their sizes.
theorem pushAll_level (h : b.Level c) (policy : MemoryPolicy)
    (hsizes : blocks.map (fun block => (join block).size) =
      blocks'.map (fun block => (join block).size)) :
    (b.pushAll policy blocks).Level (c.pushAll policy blocks') := by
  induction blocks generalizing b c blocks' with
  | nil =>
    obtain rfl := List.map_eq_nil_iff.mp hsizes.symm
    exact ⟨h, rfl, rfl⟩
  | cons block blocks ih =>
    obtain ⟨block', rest, rfl, hblock, hrest⟩ := List.map_eq_cons_iff.mp hsizes.symm
    have hfirst := push_level h policy hblock.symm
    have hothers := ih hfirst.buffer hrest.symm
    cases hresult : (b.push policy block).result with
    | error failure =>
      rw [pushAll_cons_of_error hresult, pushAll_cons_of_error (hfirst.result ▸ hresult)]
      exact ⟨hfirst.buffer, congrArg Option.toList hfirst.call, rfl⟩
    | ok place =>
      rw [pushAll_cons_of_ok hresult, pushAll_cons_of_ok (hfirst.result ▸ hresult)]
      exact ⟨hothers.buffer, congrArg₂ (·.toList ++ ·) hfirst.call hothers.calls,
        congrArg (Except.map (place :: ·)) hothers.result⟩

-- Storing breaks off at the first block that finds no room.
theorem pushAll_append_of_error {failure : Failure}
    (h : (b.pushAll policy blocks).result = .error failure) :
    b.pushAll policy (blocks ++ blocks') = b.pushAll policy blocks := by
  induction blocks generalizing b with
  | nil => cases h
  | cons block blocks ih =>
    rw [List.cons_append]
    cases hfirst : (b.push policy block).result with
    | error e => rw [pushAll_cons_of_error hfirst, pushAll_cons_of_error hfirst]
    | ok place =>
      rw [pushAll_cons_of_ok hfirst] at h ⊢
      rw [pushAll_cons_of_ok hfirst, ih (map_eq_error_iff.mp h)]

theorem pushAll_append_of_ok {places : List Span}
    (h : (b.pushAll policy blocks).result = .ok places) :
    b.pushAll policy (blocks ++ blocks') =
      let rest := (b.pushAll policy blocks).buffer.pushAll policy blocks'
      ⟨rest.buffer, (b.pushAll policy blocks).calls ++ rest.calls,
        rest.result.map (places ++ ·)⟩ := by
  induction blocks generalizing b places with
  | nil =>
    cases h
    rcases hrest : b.pushAll policy blocks' with ⟨buffer, calls, result⟩
    cases result <;> simp [pushAll, hrest, Except.map]
  | cons block blocks ih =>
    obtain ⟨place, others, hfirst, hothers, rfl⟩ := exists_of_pushAll_cons h
    rw [List.cons_append, pushAll_cons_of_ok hfirst, pushAll_cons_of_ok hfirst, ih hothers]
    dsimp only
    rw [List.append_assoc]
    cases (((b.push policy block).buffer.pushAll policy blocks).buffer.pushAll policy
      blocks').result <;> rfl

-- Blocks of the given sizes.
def blanks (sizes : List Nat) : List (List ByteArray) := sizes.map fun n => [zeros n]

theorem blanks_append (sizes sizes' : List Nat) :
    blanks (sizes ++ sizes') = blanks sizes ++ blanks sizes' :=
  List.map_append

theorem map_size_blanks (sizes : List Nat) :
    (blanks sizes).map (fun block => (join block).size) = sizes := by
  rw [blanks, List.map_map]
  refine (List.map_congr_left fun n _ => ?_).trans (List.map_id _)
  simp [join, size_zeros]

end ScratchBuffer

open ScratchBuffer

-- The sizes of the blocks that a denoiser has to store in a frame.
def DenoiserState.demand (d : DenoiserState) (s : FrameSettings) : List Nat :=
  (d.emissions s).map fun em =>
    if em.pass.pass.data.hasShared then
      d.settings.family.sharedSize + em.pass.pass.data.extraSize
    else 0

theorem DenoiserState.demand_congr {d e : DenoiserState} {s : FrameSettings}
    (hvariant : d.variant = e.variant) (hsettings : d.settings = e.settings)
    (hsnapshot : d.snapshot = e.snapshot) : d.demand s = e.demand s := by
  simp only [demand, emissions, switches, isCleared, hvariant, hsettings, hsnapshot]

-- A run came to what storing some blocks comes to.
structure Run.Level {α : Type} (run : Run α) (fill : Placement) : Prop where
  buffer : run.planner.scratch.Level fill.buffer
  calls : run.calls = fill.calls
  failure : ∀ failure, run.result = .error failure ↔ fill.result = .error failure

theorem Run.Level.exists_ok {α : Type} {run : Run α} {fill : Placement} (h : run.Level fill)
    (hfill : fill.result.isOk = true) : ∃ x, run.result = .ok x := by
  cases hresult : run.result with
  | ok x => exact ⟨x, rfl⟩
  | error failure =>
    rw [(h.failure failure).mp hresult] at hfill
    cases hfill

namespace Planner

variable {p : Planner} {store : ShaderStore} {flipped : Nat → Bool} {policy : MemoryPolicy}
  {i : Nat} {d : DenoiserState} {members : List (Nat × DenoiserState)} {b : ScratchBuffer}

theorem Sound.map_size_plan (h : p.Sound store flipped) (hi : p.denoisers[i]? = some d) :
    ((p.plan d).dispatches.map (·.constants)).map (fun block => (join block).size) =
      d.demand p.settings := by
  have hsizes := congrArg (List.map fun x => x.constants.size) (h.map_sketch_plan hi)
  rw [List.map_map, List.map_map] at hsizes
  rw [List.map_map]
  refine hsizes.trans (List.map_congr_left fun em _ => ?_)
  exact d.size_constants p.settings store (flipped i) em

theorem Sound.runDenoiser_level (h : p.Sound store flipped) (policy : MemoryPolicy)
    (hi : p.denoisers[i]? = some d) (hlevel : p.scratch.Level b) :
    (p.runDenoiser policy i d).Level (b.pushAll policy (blanks (d.demand p.settings))) := by
  have hfill : (p.scratch.pushAll policy ((p.plan d).dispatches.map (·.constants))).Level
      (b.pushAll policy (blanks (d.demand p.settings))) :=
    pushAll_level hlevel policy (by rw [h.map_size_plan hi, map_size_blanks])
  unfold Planner.runDenoiser
  dsimp only
  split
  · rename_i failure hfailure
    exact ⟨hfill.buffer, hfill.calls, fun _ => by rw [← hfill.result, hfailure]; simp⟩
  · rename_i places hplaces
    refine ⟨?_, hfill.calls, fun _ => by rw [← hfill.result, hplaces]; simp⟩
    rw [scratch_advance]
    exact hfill.buffer

-- A run stores the blocks of its denoisers one behind the other.
theorem Sound.runAll_level (h : p.Sound store flipped) (policy : MemoryPolicy)
    (hvalid : p.scratch.Valid) (hmembers : p.Members members) (hlevel : p.scratch.Level b) :
    (p.runAll policy (members.map Prod.fst)).Level
      (b.pushAll policy (blanks (members.flatMap fun m => m.2.demand p.settings))) := by
  induction members generalizing p flipped b with
  | nil => exact ⟨hlevel, rfl, fun _ => by simp [runAll, pushAll, blanks]⟩
  | cons m ms ih =>
    have hm := hmembers.1 m List.mem_cons_self
    have hfirst := h.runDenoiser_level policy hm hlevel
    rw [List.map_cons, List.flatMap_cons, blanks_append]
    cases hresult : (p.runDenoiser policy m.1 m.2).result with
    | error failure =>
      have hfill := (hfirst.failure failure).mp hresult
      rw [runAll_cons_of_error hm hresult, pushAll_append_of_error hfill]
      exact ⟨hfirst.buffer, hfirst.calls, fun _ => by rw [hfill]; simp⟩
    | ok placed =>
      cases hfill : (b.pushAll policy (blanks (m.2.demand p.settings))).result with
      | error failure =>
        rw [(hfirst.failure failure).mpr hfill] at hresult
        cases hresult
      | ok places =>
        obtain ⟨hmoved, hkeeps, -, -⟩ := runDenoiser_ok h hvalid hm hresult
        have hothers := ih hmoved.sound hkeeps.valid (hmembers.moved hmoved) hfirst.buffer
        rw [hmoved.settings] at hothers
        rw [runAll_cons_of_ok hm hresult, pushAll_append_of_ok hfill]
        exact ⟨hothers.buffer, congrArg₂ (· ++ ·) hfirst.calls hothers.calls, fun failure =>
          map_eq_error_iff.trans ((hothers.failure failure).trans map_eq_error_iff.symm)⟩

-- What a frame asks of the allocator, how far it fills the memory and whether it runs out of it is
-- decided by what there is and by what its denoisers demand.
theorem Sound.frame_level (h : p.Sound store flipped) (policy : MemoryPolicy)
    (hmembers : p.Members members) :
    (p.frame policy (members.map (·.2.identifier))).Level
      (pushAll { capacity := p.scratch.capacity } policy
        (blanks (members.flatMap fun m => m.2.demand p.settings))) := by
  have hcleared : p.scratch.clear.Level { capacity := p.scratch.capacity } := ⟨rfl, rfl⟩
  have hrun := (h.withScratch p.scratch.clear).runAll_level policy (Nat.zero_le _)
    hmembers hcleared
  unfold Planner.frame
  simp only [h.positions_eq hmembers]
  exact ⟨hrun.buffer, hrun.calls, fun failure => map_eq_error_iff.trans (hrun.failure failure)⟩

end Planner

end DenoisePlanner
