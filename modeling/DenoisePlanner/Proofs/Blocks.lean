import DenoisePlanner.Proofs.Answers
import DenoisePlanner.Proofs.Exhaustion
import Mathlib.Data.List.Chain

namespace DenoisePlanner

namespace ScratchBuffer

variable {b : ScratchBuffer} {policy : MemoryPolicy}

theorem alignment_dvd_alignUp (n : Nat) : alignment ∣ alignUp n :=
  Nat.dvd_mul_left _ _

theorem reserve_refused {required : Nat} {failure : Failure}
    (h : (b.reserve policy required).result = .error failure) :
    (b.reserve policy required).buffer = b := by
  unfold reserve at h ⊢
  split at h
  · cases h
  rename_i hfull
  rw [if_neg hfull]
  split at h
  · rfl
  · split at h
    · cases h
    · rename_i hrefused
      simp only [if_neg hrefused]

-- A block that finds no room leaves the buffer as it was, its memory included.
theorem push_refusal {chunks : List ByteArray} {failure : Failure}
    (h : (b.push policy chunks).result = .error failure) :
    (b.push policy chunks).buffer = b := by
  unfold push at h ⊢
  dsimp only at h ⊢
  split at h
  · cases h
  rename_i hfull
  rw [if_neg hfull]
  split at h
  · exact reserve_refused ‹_›
  · cases h

theorem push_empty (b : ScratchBuffer) (policy : MemoryPolicy) {chunks : List ByteArray}
    (h : (join chunks).size = 0) :
    b.push policy chunks = { buffer := b, result := .ok ⟨b.length, b.length⟩ } := by
  unfold push
  exact if_pos h

theorem reserve_room {required : Nat} (h : (b.reserve policy required).result = .ok ()) :
    required ≤ (b.reserve policy required).buffer.capacity := by
  unfold reserve at h ⊢
  split at h
  · rename_i hroom
    rw [if_pos hroom]
    exact hroom.2
  rename_i hfull
  rw [if_neg hfull]
  split at h
  · cases h
  · rename_i size hsize
    split at h
    · rename_i hgranted
      rw [if_pos hgranted]
      exact (grownCapacity_ok hsize).1
    · cases h

-- The block ends inside the memory that was granted.
theorem push_room {chunks : List ByteArray} {place : Span}
    (h : (b.push policy chunks).result = .ok place) (hsize : (join chunks).size ≠ 0) :
    place.stop ≤ (b.push policy chunks).buffer.capacity := by
  unfold push at h ⊢
  dsimp only at h ⊢
  rw [if_neg hsize] at h ⊢
  split at h
  · cases h
  · rename_i hroom
    cases h
    have hcapacity := reserve_room hroom
    simpa only [hroom, store] using hcapacity

theorem extract_zeros {n start stop : Nat} (h : stop ≤ n) :
    (zeros n).extract start stop = zeros (stop - start) := by
  rw [zeros, zeros, ByteArray.ext_iff, ByteArray.data_extract, Array.extract_replicate,
    Nat.min_eq_left h]

-- The bytes between a block and the one before it.
theorem read_store_gap (h : b.Valid) (block : ByteArray) {n : Nat} (hstart : b.length ≤ n)
    (hstop : n < alignUp b.length) : (b.store block).read ⟨n, n + 1⟩ = zeros 1 := by
  have hvalid : b.length ≤ b.memory.size := h
  obtain ⟨rest, hmemory⟩ := memory_store b block
  have hsize : (b.memory.extract 0 b.length).size = b.length := by
    rw [ByteArray.size_extract]
    omega
  have hold : (b.memory.extract 0 b.length).extract n (n + 1) = ByteArray.empty := by
    apply ByteArray.extract_eq_empty_iff.mpr
    omega
  have hnew : (block ++ rest).extract (n - b.length - (alignUp b.length - b.length))
      (n + 1 - b.length - (alignUp b.length - b.length)) = ByteArray.empty := by
    apply ByteArray.extract_eq_empty_iff.mpr
    omega
  have hgap : n + 1 - b.length ≤ alignUp b.length - b.length := by omega
  have hone : n + 1 - b.length - (n - b.length) = 1 := by omega
  rw [read, hmemory, ByteArray.append_assoc, ByteArray.extract_append, hold, hsize,
    ByteArray.extract_append, size_zeros, hnew, ByteArray.empty_append, ByteArray.append_empty]
  rw [extract_zeros hgap, hone]

theorem push_gap (h : b.Valid) {chunks : List ByteArray} {place : Span}
    (hplace : (b.push policy chunks).result = .ok place) (hsize : (join chunks).size ≠ 0) :
    ∀ n, b.length ≤ n → n < alignUp b.length →
      (b.push policy chunks).buffer.read ⟨n, n + 1⟩ = zeros 1 := by
  intro n hstart hstop
  unfold push at hplace ⊢
  dsimp only at hplace ⊢
  rw [if_neg hsize] at hplace ⊢
  split at hplace
  · cases hplace
  · rename_i hroom
    obtain ⟨capacity, hbuffer⟩ := reserve_buffer b policy (alignUp b.length + (join chunks).size)
    simp only [hbuffer]
    have hvalid : Valid { b with capacity := capacity } := h
    exact read_store_gap hvalid _ hstart hstop

end ScratchBuffer

open ScratchBuffer

-- What can happen to a buffer of constants. Every block may meet another allocator.
inductive ScratchMove where
  | push (policy : MemoryPolicy) (chunks : List ByteArray)
  | clear
  -- Behind the old bytes, memory that has grown shows whatever lay there.
  | expose (bytes : ByteArray)

-- A block and where it was put.
structure StoredBlock where
  place : Span
  chunks : List ByteArray

-- A buffer, with the blocks that it took in since it was last cleared.
structure Stock where
  buffer : ScratchBuffer := {}
  blocks : List StoredBlock := []

namespace Stock

def next (s : Stock) : ScratchMove → Stock
  | .push policy chunks =>
    let attempt := s.buffer.push policy chunks
    match attempt.result with
    | .error _ => { s with buffer := attempt.buffer }
    | .ok place =>
      { buffer := attempt.buffer
        blocks := if (join chunks).size = 0 then s.blocks else s.blocks ++ [⟨place, chunks⟩] }
  | .clear => { buffer := s.buffer.clear }
  | .expose bytes => { s with buffer := { s.buffer with memory := s.buffer.memory ++ bytes } }

-- The blocks lie one behind the other, each at the first aligned place, with zeroes between them.
structure Packed (s : Stock) : Prop where
  valid : s.buffer.Valid
  room : s.buffer.length ≤ s.buffer.capacity
  reads : ∀ block ∈ s.blocks, s.buffer.read block.place = join block.chunks
  sizes : ∀ block ∈ s.blocks, block.place.stop = block.place.start + (join block.chunks).size
  filled : ∀ block ∈ s.blocks, block.place.start < block.place.stop
  aligned : ∀ block ∈ s.blocks, alignment ∣ block.place.start
  head : ∀ block ∈ s.blocks.head?, block.place.start = 0
  follows : s.blocks.IsChain fun block block' => block'.place.start = alignUp block.place.stop
  ordered : s.blocks.Pairwise fun block block' => block.place.stop ≤ block'.place.start
  length_eq : s.buffer.length = (s.blocks.getLast?.map (·.place.stop)).getD 0
  gaps : ∀ n < s.buffer.length,
    (∀ block ∈ s.blocks, ¬(block.place.start ≤ n ∧ n < block.place.stop)) →
    s.buffer.read ⟨n, n + 1⟩ = zeros 1

variable {s : Stock}

-- A new buffer is a cleared one.
theorem Packed.cleared (b : ScratchBuffer) : ({ buffer := b.clear } : Stock).Packed where
  valid := Nat.zero_le _
  room := Nat.zero_le _
  reads := by simp
  sizes := by simp
  filled := by simp
  aligned := by simp
  head := by simp
  follows := .nil
  ordered := .nil
  length_eq := rfl
  gaps := fun n hn => absurd hn (Nat.not_lt_zero n)

-- No block reaches past the last one.
theorem Packed.stop_le (h : s.Packed) : ∀ block ∈ s.blocks, block.place.stop ≤ s.buffer.length := by
  intro block hblock
  rw [h.length_eq]
  obtain hnil | ⟨blocks, last, heq⟩ := List.eq_nil_or_concat' s.blocks
  · simp [hnil] at hblock
  have hordered := h.ordered
  have hfilled := h.filled last (by simp [heq])
  rw [heq] at hblock hordered ⊢
  rw [List.getLast?_append, List.getLast?_singleton, Option.some_or, Option.map_some,
    Option.getD_some]
  rcases List.mem_append.mp hblock with hblock | hblock
  · have hle := (List.pairwise_append.mp hordered).2.2 block hblock last (by simp)
    omega
  · rw [List.mem_singleton.mp hblock]

-- Bytes that nothing looks at may change, and so may the room there is, if it does not shrink.
theorem Packed.keeps (h : s.Packed) {b : ScratchBuffer} (hkeeps : Keeps s.buffer b)
    (hlength : b.length = s.buffer.length) (hcapacity : s.buffer.capacity ≤ b.capacity) :
    ({ s with buffer := b } : Stock).Packed :=
  { h with
    valid := hkeeps.valid
    room := by
      have hroom := h.room
      show b.length ≤ b.capacity
      omega
    reads := fun block hblock => by
      rw [← h.reads block hblock]
      exact hkeeps.read _ (h.stop_le block hblock)
    length_eq := hlength.trans h.length_eq
    gaps := fun n hn hout => by
      have hn' : n < s.buffer.length := by simpa only [hlength] using hn
      rw [← h.gaps n hn' hout]
      exact hkeeps.read _ (Nat.succ_le_of_lt hn') }

theorem Packed.expose (h : s.Packed) (bytes : ByteArray) : (s.next (.expose bytes)).Packed := by
  have hvalid : s.buffer.length ≤ s.buffer.memory.size := h.valid
  refine h.keeps ⟨?_, Nat.le_refl _, fun span hspan => ?_⟩ rfl (Nat.le_refl _)
  · show s.buffer.length ≤ (s.buffer.memory ++ bytes).size
    rw [ByteArray.size_append]
    omega
  · have hold : bytes.extract (span.start - s.buffer.memory.size)
        (span.stop - s.buffer.memory.size) = ByteArray.empty := by
      apply ByteArray.extract_eq_empty_iff.mpr
      omega
    rw [ScratchBuffer.read, ScratchBuffer.read, ByteArray.extract_append, hold,
      ByteArray.append_empty]

-- A new block starts where the last one ended, rounded up.
theorem Packed.store (h : s.Packed) {policy : MemoryPolicy} {chunks : List ByteArray} {place : Span}
    (hsize : (join chunks).size ≠ 0) (hplace : (s.buffer.push policy chunks).result = .ok place) :
    ({ buffer := (s.buffer.push policy chunks).buffer,
       blocks := s.blocks ++ [⟨place, chunks⟩] } : Stock).Packed := by
  have hstop := h.stop_le
  have hroom := push_room hplace hsize
  have hgap := push_gap h.valid hplace hsize
  obtain ⟨hkeeps, hstores⟩ := push_ok h.valid hplace
  obtain ⟨hspan, hlength⟩ := push_place hplace
  have halign := le_alignUp s.buffer.length
  rw [if_neg hsize] at hspan
  subst hspan
  generalize (s.buffer.push policy chunks).buffer = b at *
  dsimp only at hlength hroom
  refine
    { valid := hkeeps.valid
      room := hlength ▸ hroom
      reads := List.forall_mem_append.mpr ⟨fun block hblock => ?_, ?_⟩
      sizes := List.forall_mem_append.mpr ⟨h.sizes, by simp⟩
      filled := List.forall_mem_append.mpr ⟨h.filled, ?_⟩
      aligned := List.forall_mem_append.mpr ⟨h.aligned, ?_⟩
      head := ?_
      follows := List.isChain_append.mpr ⟨h.follows, .singleton _, ?_⟩
      ordered := List.pairwise_append.mpr ⟨h.ordered, List.pairwise_singleton _ _, ?_⟩
      length_eq := ?_
      gaps := fun n hn hout => ?_ }
  · rw [← h.reads block hblock]
    exact hkeeps.read _ (hstop block hblock)
  · simpa using hstores.read
  · intro block hblock
    rw [List.mem_singleton.mp hblock]
    show alignUp s.buffer.length < alignUp s.buffer.length + (join chunks).size
    omega
  · intro block hblock
    rw [List.mem_singleton.mp hblock]
    exact alignment_dvd_alignUp _
  · intro block hblock
    cases hblocks : s.blocks with
    | nil =>
      have hzero : s.buffer.length = 0 := by rw [h.length_eq, hblocks]; rfl
      simp only [hblocks, List.nil_append, List.head?_cons, Option.mem_some_iff] at hblock
      rw [← hblock, hzero]
      rfl
    | cons first rest =>
      have hhead := h.head
      simp only [hblocks, List.cons_append, List.head?_cons] at hblock hhead
      exact hhead block hblock
  · intro last hlast block hblock
    have hend : s.buffer.length = last.place.stop := by
      rw [h.length_eq, Option.mem_def.mp hlast]
      rfl
    simp only [List.head?_cons, Option.mem_some_iff] at hblock
    rw [← hblock, hend]
  · intro block hblock new hnew
    have hle := hstop block hblock
    rw [List.mem_singleton.mp hnew]
    show block.place.stop ≤ alignUp s.buffer.length
    omega
  · rw [hlength, List.getLast?_append, List.getLast?_singleton]
    rfl
  · by_cases hold : n < s.buffer.length
    · rw [← h.gaps n hold fun block hblock => hout block (List.mem_append_left _ hblock)]
      exact hkeeps.read _ (Nat.succ_le_of_lt hold)
    · have hnew := hout ⟨_, chunks⟩ (List.mem_append_right _ (List.mem_singleton_self _))
      dsimp only at hn hnew
      exact hgap n (by omega) (by omega)

theorem Packed.push (h : s.Packed) (policy : MemoryPolicy) (chunks : List ByteArray) :
    (s.next (.push policy chunks)).Packed := by
  simp only [next]
  split
  · rename_i failure hrefused
    rw [push_refusal hrefused]
    exact h
  · rename_i place hplace
    split
    · rename_i hempty
      rw [push_empty _ _ hempty]
      exact h
    · rename_i hsize
      exact h.store hsize hplace

theorem Packed.next (h : s.Packed) (move : ScratchMove) : (s.next move).Packed := by
  cases move with
  | push policy chunks => exact h.push policy chunks
  | clear => exact .cleared s.buffer
  | expose bytes => exact h.expose bytes

theorem Packed.foldl (h : s.Packed) (moves : List ScratchMove) :
    (moves.foldl Stock.next s).Packed := by
  induction moves generalizing s with
  | nil => exact h
  | cons move moves ih => exact ih (h.next move)

end Stock

-- Whatever happens to a buffer, what was stored since it was last cleared can be read back, packed
-- as blocks are. What finds no room and what has no bytes leaves no trace.
theorem ScratchBuffer.packed_of_moves (moves : List ScratchMove) :
    let s := moves.foldl Stock.next {}
    s.Packed ∧ ∀ (policy : MemoryPolicy) (chunks : List ByteArray),
      (∀ failure, (s.buffer.push policy chunks).result = .error failure →
        (s.buffer.push policy chunks).buffer = s.buffer) ∧
      ((join chunks).size = 0 →
        s.buffer.push policy chunks =
          { buffer := s.buffer, result := .ok ⟨s.buffer.length, s.buffer.length⟩ }) :=
  ⟨(Stock.Packed.cleared {}).foldl moves, fun policy _ =>
    ⟨fun _ hrefused => push_refusal hrefused, fun hempty => push_empty _ policy hempty⟩⟩

-- Short blocks over the bytes of a longer one, with a refusal behind them.
theorem ScratchBuffer.exists_packed_over_old_bytes :
    ∃ moves : List ScratchMove,
      let s := moves.foldl Stock.next {}
      s.blocks.map (·.place) = [⟨0, 1⟩, ⟨16, 18⟩] ∧
      s.buffer.memory = ⟨#[7] ++ Array.replicate 15 0 ++ #[8, 9, 5, 5, 1, 2]⟩ ∧ s.Packed ∧
      (s.buffer.push (fun _ => false) [zeros 300]).result = .error (.outOfMemory 512) ∧
      (s.buffer.push (fun _ => false) [zeros 300]).buffer = s.buffer ∧
      s.buffer.push (fun _ => false) [] = { buffer := s.buffer, result := .ok ⟨18, 18⟩ } := by
  let moves : List ScratchMove :=
    [.push (fun _ => true) [⟨Array.replicate 20 5⟩], .expose ⟨#[1, 2]⟩, .clear,
      .push (fun _ => true) [⟨#[7]⟩], .push (fun _ => false) [zeros 300], .push (fun _ => false) [],
      .push (fun _ => true) [⟨#[8]⟩, ⟨#[9]⟩]]
  obtain ⟨hpacked, htrace⟩ := packed_of_moves moves
  have hrefused : ((moves.foldl Stock.next {}).buffer.push (fun _ => false) [zeros 300]).result =
      .error (.outOfMemory 512) := by decide +kernel
  have hlength : (moves.foldl Stock.next {}).buffer.length = 18 := by decide +kernel
  have hempty := (htrace (fun _ => false) []).2 rfl
  rw [hlength] at hempty
  exact ⟨moves, by decide +kernel, by decide +kernel, hpacked, hrefused,
    (htrace _ _).1 _ hrefused, hempty⟩

end DenoisePlanner
