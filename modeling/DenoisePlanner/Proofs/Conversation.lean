import DenoisePlanner.Proofs.Blocks
import DenoisePlanner.Proofs.Room
import Mathlib.Order.Bounds.Basic

namespace DenoisePlanner

open ScratchBuffer

namespace MemoryCall

-- The size that the caller has from now on.
def granted? : MemoryCall → Option Nat
  | .allocate block true => some block.size
  | .reallocate _ newSize true => some newSize
  | _ => none

-- The block that the allocator is told about.
def block : MemoryCall → MemoryBlock
  | .allocate block _ => block
  | .reallocate block _ _ => block
  | .free block => block

-- The books of an allocator: which blocks are in use. Only such a block may be grown or freed.
def settle (live : List MemoryBlock) : MemoryCall → Option (List MemoryBlock)
  | .allocate block granted => some (if granted then live ++ [block] else live)
  | .reallocate block newSize granted =>
    if block ∈ live then
      some (if granted then live.erase block ++ [{ block with size := newSize }] else live)
    else none
  | .free block => if block ∈ live then some (live.erase block) else none

-- The blocks in use after some calls, as long as all of them were allowed.
def live? (calls : List MemoryCall) : Option (List MemoryBlock) := calls.foldlM settle []

def lastGranted (calls : List MemoryCall) : Option Nat := (calls.filterMap granted?).getLast?

-- A request of someone who was last granted a block of the given size, if any.
def Continues (last : Option Nat) (call : MemoryCall) : Prop :=
  ∃ k granted, 256 ≤ 2 ^ k ∧ last.getD 0 < 2 ^ k ∧
    call = match last with
      | none => .allocate ⟨2 ^ k, alignment⟩ granted
      | some size => .reallocate ⟨size, alignment⟩ (2 ^ k) granted

-- Each request goes on from those before it.
def Orderly (calls : List MemoryCall) : Prop :=
  ∀ before call after, calls = before ++ call :: after → call.Continues (lastGranted before)

theorem lastGranted_append_singleton (calls : List MemoryCall) (call : MemoryCall) :
    lastGranted (calls ++ [call]) = call.granted?.or (lastGranted calls) := by
  rw [lastGranted, List.filterMap_append, List.getLast?_append]
  cases h : call.granted? <;> simp [h, lastGranted]

theorem Orderly.of_append {calls calls' : List MemoryCall} (h : Orderly (calls ++ calls')) :
    Orderly calls := by
  rintro before call after rfl
  exact h before call (after ++ calls') (by simp)

theorem Orderly.append_singleton {calls : List MemoryCall} {call : MemoryCall}
    (h : Orderly calls) (hcall : call.Continues (lastGranted calls)) :
    Orderly (calls ++ [call]) := by
  intro before other after heq
  rcases List.eq_nil_or_concat' after with rfl | ⟨after, last, rfl⟩
  · obtain ⟨rfl, hlast⟩ := List.append_inj' heq rfl
    rw [← (List.cons.inj hlast).1]
    exact hcall
  · rw [← List.cons_append, ← List.append_assoc] at heq
    obtain ⟨rfl, -⟩ := List.append_inj' heq rfl
    exact h before other after rfl

-- Whoever asks like this holds the block that was granted last, and no other.
theorem Orderly.live?_eq {calls : List MemoryCall} (h : Orderly calls) :
    live? calls = some ((lastGranted calls).map (⟨·, alignment⟩)).toList := by
  induction calls using List.reverseRecOn with
  | nil => rfl
  | append_singleton calls call ih =>
    obtain ⟨k, granted, -, -, hcall⟩ := h calls call [] rfl
    have hlive := ih h.of_append
    rw [live?] at hlive ⊢
    rw [List.foldlM_append, hlive, lastGranted_append_singleton]
    cases hlast : lastGranted calls with
    | none =>
      simp only [hlast] at hcall
      subst hcall
      cases granted <;> rfl
    | some size =>
      simp only [hlast] at hcall
      subst hcall
      cases granted <;> simp [settle, granted?]

theorem Orderly.alignment_eq {calls : List MemoryCall} (h : Orderly calls) {call : MemoryCall}
    (hcall : call ∈ calls) : call.block.alignment = alignment := by
  obtain ⟨before, after, rfl⟩ := List.append_of_mem hcall
  obtain ⟨k, granted, -, -, rfl⟩ := h before call after rfl
  cases lastGranted before <;> rfl

end MemoryCall

open MemoryCall

namespace ScratchBuffer

variable {b : ScratchBuffer} {policy : MemoryPolicy} {chunks : List ByteArray}

-- The sizes that a buffer would take to store `required` bytes.
def growthSizes (required : Nat) : Set Nat :=
  {size | (∃ k, size = 2 ^ k) ∧ 256 ≤ size ∧ required ≤ size}

-- Where a block would end.
def stop (b : ScratchBuffer) (chunks : List ByteArray) : Nat :=
  alignUp b.length + (join chunks).size

-- What is asked for to store a block that does not fit.
def growthSize (b : ScratchBuffer) (chunks : List ByteArray) : Nat :=
  max (powerOfTwo (b.stop chunks)) minCapacity

def Outgrows (b : ScratchBuffer) (chunks : List ByteArray) : Prop :=
  (join chunks).size ≠ 0 ∧ b.capacity < b.stop chunks

-- How room is found for a block, or is not.
structure Bargains (b : ScratchBuffer) (policy : MemoryPolicy) (chunks : List ByteArray) :
    Prop where
  least : IsLeast (growthSizes (b.stop chunks)) (b.growthSize chunks)
  larger : b.Outgrows chunks → b.capacity < b.growthSize chunks
  asks : (b.push policy chunks).call.isSome ↔
    b.Outgrows chunks ∧ b.growthSize chunks ≤ maxLayoutSize
  asked : ∀ call ∈ (b.push policy chunks).call,
    call = b.growthCall (b.growthSize chunks) (policy (b.growthSize chunks))
  fits : ¬b.Outgrows chunks → (∃ place, (b.push policy chunks).result = .ok place) ∧
    (b.push policy chunks).buffer.capacity = b.capacity
  granted : b.Outgrows chunks → b.growthSize chunks ≤ maxLayoutSize →
    policy (b.growthSize chunks) = true →
      (∃ place, (b.push policy chunks).result = .ok place) ∧
        (b.push policy chunks).buffer.capacity = b.growthSize chunks
  refused : b.Outgrows chunks → b.growthSize chunks ≤ maxLayoutSize →
    policy (b.growthSize chunks) = false →
      (b.push policy chunks).result = .error (.outOfMemory (b.growthSize chunks)) ∧
        (b.push policy chunks).buffer = b
  tooLarge : b.Outgrows chunks → maxLayoutSize < b.growthSize chunks →
    (∃ n, (b.push policy chunks).result = .error (.outOfMemory n)) ∧
      (b.push policy chunks).buffer = b

theorem exists_powerOfTwo_eq (n : Nat) : ∃ k, powerOfTwo n = 2 ^ k := by
  unfold powerOfTwo
  split
  · exact ⟨0, rfl⟩
  · exact ⟨_, Nat.one_shiftLeft _⟩

theorem isLeast_growthSizes (required : Nat) :
    IsLeast (growthSizes required) (max (powerOfTwo required) minCapacity) := by
  obtain ⟨k, hk⟩ := exists_powerOfTwo_eq required
  refine ⟨⟨?_, Nat.le_max_right _ _, ?_⟩, ?_⟩
  · rcases Nat.le_total (powerOfTwo required) minCapacity with hle | hle
    · exact ⟨8, Nat.max_eq_right hle⟩
    · exact ⟨k, by rw [Nat.max_eq_left hle, hk]⟩
  · exact Nat.le_trans (le_powerOfTwo required) (Nat.le_max_left _ _)
  · rintro size ⟨⟨j, rfl⟩, hmin, hrequired⟩
    rw [← Nat.one_shiftLeft] at hrequired hmin ⊢
    exact Nat.max_le.mpr ⟨powerOfTwo_le hrequired, hmin⟩

theorem grownCapacity_of_le (h : b.growthSize chunks ≤ maxLayoutSize) :
    grownCapacity (b.stop chunks) = .ok (b.growthSize chunks) := by
  have hpower : ¬maxPowerOfTwo < powerOfTwo (b.stop chunks) := by
    simp only [maxPowerOfTwo, maxLayoutSize, alignment, growthSize] at h ⊢
    omega
  rw [grownCapacity, if_neg hpower]
  exact if_neg (Nat.not_lt_of_le h)

theorem grownCapacity_of_lt (h : maxLayoutSize < b.growthSize chunks) :
    ∃ n, grownCapacity (b.stop chunks) = .error (.outOfMemory n) := by
  unfold grownCapacity
  dsimp only
  split
  · exact ⟨_, rfl⟩
  · exact ⟨_, if_pos h⟩

theorem push_of_fits (policy : MemoryPolicy) (h : ¬b.Outgrows chunks) :
    (b.push policy chunks).call = none ∧ (∃ place, (b.push policy chunks).result = .ok place) ∧
      (b.push policy chunks).buffer.capacity = b.capacity := by
  by_cases hempty : (join chunks).size = 0
  · rw [push_empty b policy hempty]
    exact ⟨rfl, ⟨_, rfl⟩, rfl⟩
  · have hroom : b.capacity ≠ 0 ∧ alignUp b.length + (join chunks).size ≤ b.capacity := by
      simp only [Outgrows, stop, hempty, not_false_eq_true, true_and, Nat.not_lt, ne_eq] at h
      omega
    simp only [push, if_neg hempty, reserve, if_pos hroom]
    exact ⟨trivial, ⟨_, rfl⟩, rfl⟩

theorem push_of_outgrows (policy : MemoryPolicy) (h : b.Outgrows chunks) :
    b.push policy chunks =
      match grownCapacity (b.stop chunks) with
      | .error e => { buffer := b, result := .error e }
      | .ok size =>
        if policy size then
          { buffer := { b with capacity := size }.store (join chunks)
            call := b.growthCall size true
            result := .ok ⟨alignUp b.length, b.stop chunks⟩ }
        else
          { buffer := b, call := b.growthCall size false,
            result := .error (.outOfMemory size) } := by
  have hfull : ¬(b.capacity ≠ 0 ∧ b.stop chunks ≤ b.capacity) :=
    fun hroom => Nat.not_lt_of_le hroom.2 h.2
  rw [stop] at hfull ⊢
  simp only [push, if_neg h.1, reserve, if_neg hfull]
  cases grownCapacity (alignUp b.length + (join chunks).size) with
  | error e => rfl
  | ok size => by_cases hpolicy : policy size <;> simp [hpolicy]

theorem bargains (b : ScratchBuffer) (policy : MemoryPolicy) (chunks : List ByteArray) :
    b.Bargains policy chunks := by
  have hleast : IsLeast (growthSizes (b.stop chunks)) (b.growthSize chunks) :=
    isLeast_growthSizes _
  have hlarger (h : b.Outgrows chunks) : b.capacity < b.growthSize chunks :=
    Nat.lt_of_lt_of_le h.2 hleast.1.2.2
  by_cases houtgrows : b.Outgrows chunks
  · have hpush := push_of_outgrows policy houtgrows
    rcases Nat.lt_or_ge maxLayoutSize (b.growthSize chunks) with hsize | hsize
    · obtain ⟨n, hn⟩ := grownCapacity_of_lt hsize
      rw [hn] at hpush
      constructor <;> simp_all [Nat.not_le_of_lt hsize]
    · rw [grownCapacity_of_le hsize] at hpush
      cases hpolicy : policy (b.growthSize chunks) <;> constructor <;> simp_all [store]
  · obtain ⟨hcall, hok, hcapacity⟩ := push_of_fits policy houtgrows
    constructor <;> simp_all

theorem granted?_growthCall (b : ScratchBuffer) (size : Nat) (granted : Bool) :
    (b.growthCall size granted).granted? = if granted then some size else none := by
  unfold growthCall
  split <;> cases granted <;> rfl

theorem Bargains.capacity_of_silent (h : b.Bargains policy chunks)
    (hcall : (b.push policy chunks).call = none) :
    (b.push policy chunks).buffer.capacity = b.capacity := by
  by_cases houtgrows : b.Outgrows chunks
  · have hsize : ¬b.growthSize chunks ≤ maxLayoutSize := fun hsize => by
      simpa [hcall] using h.asks.mpr ⟨houtgrows, hsize⟩
    rw [(h.tooLarge houtgrows (Nat.lt_of_not_le hsize)).2]
  · exact (h.fits houtgrows).2

theorem Bargains.capacity_of_asks (h : b.Bargains policy chunks)
    (hcall : (b.push policy chunks).call.isSome) :
    (b.push policy chunks).buffer.capacity =
      if policy (b.growthSize chunks) then b.growthSize chunks else b.capacity := by
  obtain ⟨houtgrows, hsize⟩ := h.asks.mp hcall
  split
  · exact (h.granted houtgrows hsize ‹_›).2
  · rw [(h.refused houtgrows hsize (Bool.eq_false_of_not_eq_true ‹_›)).2]

end ScratchBuffer

-- A buffer, with all that it has said to allocators so far.
structure Conversation where
  buffer : ScratchBuffer := {}
  calls : List MemoryCall := []

namespace Conversation

def next (c : Conversation) : ScratchMove → Conversation
  | .push policy chunks =>
    let attempt := c.buffer.push policy chunks
    ⟨attempt.buffer, c.calls ++ attempt.call.toList⟩
  | .clear => { c with buffer := c.buffer.clear }
  | .expose bytes => { c with buffer := { c.buffer with memory := c.buffer.memory ++ bytes } }

-- The conversation as it is when the buffer is given up.
def all (c : Conversation) : List MemoryCall := c.calls ++ c.buffer.release

-- What an allocator can rely on.
structure Proper (c : Conversation) : Prop where
  recorded : c.buffer.capacity = (lastGranted c.calls).getD 0
  requests : Orderly c.calls
  release : c.buffer.release = ((lastGranted c.calls).map (.free ⟨·, alignment⟩)).toList
  live : ∀ calls, calls <+: c.all → ∃ live, live? calls = some live ∧ live.length ≤ 1
  settled : live? c.all = some []
  aligned : ∀ call ∈ c.all, call.block.alignment = 16

-- What a step keeps: the buffer knows what it was granted last.
structure Knowing (c : Conversation) : Prop where
  orderly : Orderly c.calls
  held : lastGranted c.calls = if c.buffer.capacity = 0 then none else some c.buffer.capacity

variable {c : Conversation}

theorem Knowing.continues (h : c.Knowing) {size : Nat} (granted : Bool)
    (hpower : ∃ k, size = 2 ^ k) (hmin : 256 ≤ size) (hlarger : c.buffer.capacity < size) :
    (c.buffer.growthCall size granted).Continues (lastGranted c.calls) := by
  obtain ⟨k, rfl⟩ := hpower
  refine ⟨k, granted, hmin, ?_, ?_⟩
  · rw [h.held]
    split
    · exact Nat.two_pow_pos k
    · exact hlarger
  · rw [h.held, growthCall]
    split <;> rfl

theorem Knowing.push (h : c.Knowing) (policy : MemoryPolicy) (chunks : List ByteArray) :
    (c.next (.push policy chunks)).Knowing := by
  have hbargains := c.buffer.bargains policy chunks
  cases hcall : (c.buffer.push policy chunks).call with
  | none =>
    have hcapacity := hbargains.capacity_of_silent hcall
    refine ⟨?_, ?_⟩
    · simpa only [next, hcall, Option.toList_none, List.append_nil] using h.orderly
    · simpa only [next, hcall, hcapacity, Option.toList_none, List.append_nil] using h.held
  | some call =>
    have hasks : (c.buffer.push policy chunks).call.isSome := by rw [hcall]; rfl
    have hcapacity := hbargains.capacity_of_asks hasks
    have hlarger := hbargains.larger (hbargains.asks.mp hasks).1
    obtain ⟨⟨hpower, hmin, -⟩, -⟩ := hbargains.least
    obtain rfl := hbargains.asked call hcall
    refine ⟨?_, ?_⟩
    · simp only [next, hcall, Option.toList_some]
      exact h.orderly.append_singleton (h.continues _ hpower hmin hlarger)
    · simp only [next, hcall, hcapacity, Option.toList_some, lastGranted_append_singleton,
        granted?_growthCall]
      split
      · rw [if_neg (by omega)]
        rfl
      · exact h.held

theorem Knowing.next (h : c.Knowing) (move : ScratchMove) : (c.next move).Knowing := by
  cases move with
  | push policy chunks => exact h.push policy chunks
  | clear => exact ⟨h.orderly, h.held⟩
  | expose bytes => exact ⟨h.orderly, h.held⟩

theorem Knowing.new : Knowing {} where
  orderly := by
    intro before call after h
    simp at h
  held := rfl

theorem Knowing.foldl (h : c.Knowing) (moves : List ScratchMove) :
    (moves.foldl Conversation.next c).Knowing := by
  induction moves generalizing c with
  | nil => exact h
  | cons move moves ih => exact ih (h.next move)

theorem Knowing.release_eq (h : c.Knowing) :
    c.buffer.release = ((lastGranted c.calls).map (.free ⟨·, alignment⟩)).toList := by
  rw [h.held, release]
  split <;> rfl

theorem Knowing.live?_all (h : c.Knowing) : live? c.all = some [] := by
  have hheld := h.orderly.live?_eq
  rw [live?] at hheld
  rw [all, h.release_eq, live?, List.foldlM_append, hheld]
  cases lastGranted c.calls with
  | none => rfl
  | some size => simp [settle]

theorem Knowing.exists_live (h : c.Knowing) {calls : List MemoryCall} (hcalls : calls <+: c.all) :
    ∃ live, live? calls = some live ∧ live.length ≤ 1 := by
  obtain ⟨rest, hrest⟩ := hcalls
  rcases List.append_eq_append_iff.mp hrest with ⟨others, hothers, -⟩ | ⟨freed, rfl, hfreed⟩
  · exact ⟨_, (hothers ▸ h.orderly).of_append.live?_eq, Option.length_toList_le⟩
  · cases freed with
    | nil =>
      rw [List.append_nil]
      exact ⟨_, h.orderly.live?_eq, Option.length_toList_le⟩
    | cons call freed =>
      -- what is said last is said with one call
      have hempty : freed ++ rest = [] := by
        rw [h.release_eq] at hfreed
        cases hlast : lastGranted c.calls with
        | none => simp [hlast] at hfreed
        | some size =>
          rw [hlast] at hfreed
          exact (List.cons.inj hfreed).2.symm
      obtain ⟨rfl, rfl⟩ := List.append_eq_nil_iff.mp hempty
      rw [List.append_nil] at hfreed
      exact ⟨[], by rw [← hfreed, ← all, h.live?_all], by simp⟩

theorem Knowing.proper (h : c.Knowing) : c.Proper where
  recorded := by
    rw [h.held]
    split
    · assumption
    · rfl
  requests := h.orderly
  release := h.release_eq
  live := fun _ => h.exists_live
  settled := h.live?_all
  aligned := fun call hcall => by
    rw [all, h.release_eq] at hcall
    rcases List.mem_append.mp hcall with hcall | hcall
    · exact h.orderly.alignment_eq hcall
    · obtain ⟨size, -, rfl⟩ := Option.map_eq_some_iff.mp (Option.mem_toList.mp hcall)
      rfl

-- However often a buffer is filled and cleared, and whatever allocators answer, what they hear
-- until the buffer is given up is in order. Each block that is stored asks for just the room it
-- needs.
theorem proper_of_moves (moves : List ScratchMove) :
    let c := moves.foldl next {}
    c.Proper ∧ ∀ (policy : MemoryPolicy) (chunks : List ByteArray),
      c.buffer.Bargains policy chunks :=
  ⟨(Knowing.new.foldl moves).proper, fun policy chunks => bargains _ policy chunks⟩

-- A first and a later request that are refused, and a block for which there is room anyway.
theorem exists_proper :
    ∃ moves : List ScratchMove,
      let c := moves.foldl next {}
      c.all = [.allocate ⟨256, 16⟩ false, .allocate ⟨256, 16⟩ true, .reallocate ⟨256, 16⟩ 512 false,
        .reallocate ⟨256, 16⟩ 1024 true, .free ⟨1024, 16⟩] ∧ c.Proper ∧
      c.buffer.Outgrows [zeros 1000] ∧
      (c.buffer.push (fun _ => false) [zeros 1000]).result = .error (.outOfMemory 2048) ∧
      (c.buffer.push (fun _ => false) [zeros 1000]).buffer = c.buffer := by
  let moves : List ScratchMove :=
    [.push (fun _ => false) [zeros 20], .push (fun _ => true) [zeros 20],
      .push (fun _ => false) [zeros 300], .clear, .push (fun _ => true) [zeros 600], .clear,
      .push (fun _ => false) [zeros 900]]
  obtain ⟨hproper, hbargains⟩ := proper_of_moves moves
  have houtgrows : (moves.foldl next {}).buffer.Outgrows [zeros 1000] := by
    simp only [Outgrows, stop]
    decide +kernel
  have hsize : (moves.foldl next {}).buffer.growthSize [zeros 1000] = 2048 := by decide +kernel
  obtain ⟨hresult, hbuffer⟩ := (hbargains (fun _ => false) [zeros 1000]).refused houtgrows
    (by rw [hsize]; decide) rfl
  rw [hsize] at hresult
  exact ⟨moves, by decide +kernel, hproper, houtgrows, hresult, hbuffer⟩

end Conversation

end DenoisePlanner
