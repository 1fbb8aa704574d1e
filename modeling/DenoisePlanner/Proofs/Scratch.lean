import DenoisePlanner.Memory.ScratchBuffer
import DenoisePlanner.Proofs.Basic

namespace DenoisePlanner.ScratchBuffer

-- The blocks of the buffer lie inside its memory.
def Valid (b : ScratchBuffer) : Prop := b.length ≤ b.memory.size

theorem le_alignUp (n : Nat) : n ≤ alignUp n := by
  simp only [alignUp, alignment]
  omega

theorem alignUp_lt (n : Nat) : alignUp n < n + alignment := by
  simp only [alignUp, alignment]
  omega

theorem size_zeros (n : Nat) : (zeros n).size = n := by
  simp [zeros, ByteArray.size]

-- What a block leaves behind: the memory before it, zeroes, the block, and old bytes.
theorem memory_store (b : ScratchBuffer) (block : ByteArray) :
    ∃ rest, (b.store block).memory =
      b.memory.extract 0 b.length ++ zeros (alignUp b.length - b.length) ++ (block ++ rest) := by
  simp only [store, ByteArray.copySlice_eq_append, Nat.zero_add, ByteArray.extract_zero_size]
  exact ⟨_, by rw [ByteArray.append_assoc, ByteArray.append_assoc, ByteArray.append_assoc]⟩

-- Later blocks lie behind earlier ones.
structure Keeps (b b' : ScratchBuffer) : Prop where
  valid : b'.Valid
  length_le : b.length ≤ b'.length
  read : ∀ span : Span, span.stop ≤ b.length → b'.read span = b.read span

theorem Keeps.refl {b : ScratchBuffer} (h : b.Valid) : Keeps b b :=
  ⟨h, Nat.le_refl _, fun _ _ => rfl⟩

theorem Keeps.trans {a b c : ScratchBuffer} (h : Keeps a b) (h' : Keeps b c) : Keeps a c :=
  ⟨h'.valid, Nat.le_trans h.length_le h'.length_le, fun span hspan => by
    rw [h'.read span (Nat.le_trans hspan h.length_le), h.read span hspan]⟩

theorem store_keeps {b : ScratchBuffer} (h : b.Valid) (block : ByteArray) :
    Keeps b (b.store block) := by
  have hle := le_alignUp b.length
  have hvalid : b.length ≤ b.memory.size := h
  obtain ⟨rest, hmemory⟩ := memory_store b block
  refine ⟨?_, ?_, fun span hspan => ?_⟩
  · rw [Valid, hmemory]
    simp only [ByteArray.size_append, ByteArray.size_extract, size_zeros, store]
    omega
  · simp only [store]
    omega
  · have hsize : (b.memory.extract 0 b.length).size = b.length := by
      rw [ByteArray.size_extract]
      omega
    rw [read, read, hmemory, ByteArray.append_assoc, ByteArray.extract_append,
      ByteArray.extract_extract, hsize]
    have hempty (x : ByteArray) : x.extract (span.start - b.length) (span.stop - b.length) =
        ByteArray.empty := ByteArray.extract_eq_empty_iff.mpr (by omega)
    rw [hempty, ByteArray.append_empty, Nat.zero_add, Nat.zero_add, Nat.min_eq_left hspan]

theorem read_store {b : ScratchBuffer} (h : b.Valid) (block : ByteArray) :
    (b.store block).read ⟨alignUp b.length, alignUp b.length + block.size⟩ = block := by
  have hle := le_alignUp b.length
  have hvalid : b.length ≤ b.memory.size := h
  obtain ⟨rest, hmemory⟩ := memory_store b block
  have hstart : alignUp b.length =
      (b.memory.extract 0 b.length ++ zeros (alignUp b.length - b.length)).size := by
    rw [ByteArray.size_append, ByteArray.size_extract, size_zeros]
    omega
  rw [read, hmemory]
  exact (ByteArray.extract_append_size_add' (i := 0) hstart).trans
    (ByteArray.extract_append_eq_left rfl)

-- The blocks stand at their places.
structure Stores (b : ScratchBuffer) (places : List Span) (blocks : List (List ByteArray)) :
    Prop where
  inside : ∀ place ∈ places, place.stop ≤ b.length
  read : places.map b.read = blocks.map join

theorem Stores.keeps {b b' : ScratchBuffer} {places : List Span} {blocks : List (List ByteArray)}
    (h : b.Stores places blocks) (hk : Keeps b b') : b'.Stores places blocks where
  inside := fun place hp => Nat.le_trans (h.inside place hp) hk.length_le
  read := by
    rw [← h.read]
    exact List.map_congr_left fun place hp => hk.read place (h.inside place hp)

-- Growing changes the capacity alone.
theorem reserve_buffer (b : ScratchBuffer) (policy : MemoryPolicy) (required : Nat) :
    ∃ capacity, (b.reserve policy required).buffer = { b with capacity := capacity } := by
  unfold reserve
  split
  · exact ⟨b.capacity, rfl⟩
  · split
    · exact ⟨b.capacity, rfl⟩
    · split
      · exact ⟨_, rfl⟩
      · exact ⟨b.capacity, rfl⟩

theorem push_ok {b : ScratchBuffer} {policy : MemoryPolicy} {chunks : List ByteArray} {place : Span}
    (hvalid : b.Valid) (h : (b.push policy chunks).result = .ok place) :
    Keeps b (b.push policy chunks).buffer ∧
      (b.push policy chunks).buffer.Stores [place] [chunks] := by
  unfold push at h ⊢
  dsimp only at h ⊢
  split at h
  · rename_i hempty
    cases h
    rw [if_pos hempty]
    refine ⟨.refl hvalid, by simp, ?_⟩
    rw [List.map_singleton, List.map_singleton, ByteArray.size_eq_zero_iff.mp hempty, read,
      ByteArray.extract_same]
  · rename_i hfull
    rw [if_neg hfull]
    split at h
    · cases h
    · rename_i hroom
      cases h
      obtain ⟨capacity, hbuffer⟩ := reserve_buffer b policy (alignUp b.length + (join chunks).size)
      simp only [hbuffer]
      have hvalid' : Valid { b with capacity := capacity } := hvalid
      have hgrown : b.Keeps { b with capacity := capacity } :=
        ⟨hvalid, Nat.le_refl _, fun _ _ => rfl⟩
      refine ⟨hgrown.trans (store_keeps hvalid' _), ?_, ?_⟩
      · simp [store]
      · rw [List.map_singleton, List.map_singleton]
        exact congrArg ([·]) (read_store hvalid' _)

section Blocks

variable {b : ScratchBuffer} {policy : MemoryPolicy} {block : List ByteArray}
  {blocks : List (List ByteArray)} {places : List Span}

theorem pushAll_cons_of_error {failure : Failure}
    (h : (b.push policy block).result = .error failure) :
    b.pushAll policy (block :: blocks) =
      ⟨(b.push policy block).buffer, (b.push policy block).call.toList, .error failure⟩ := by
  rw [pushAll]
  simp only [h]

theorem pushAll_cons_of_ok {place : Span} (h : (b.push policy block).result = .ok place) :
    b.pushAll policy (block :: blocks) =
      let rest := (b.push policy block).buffer.pushAll policy blocks
      ⟨rest.buffer, (b.push policy block).call.toList ++ rest.calls,
        rest.result.map (place :: ·)⟩ := by
  rw [pushAll]
  simp only [h]

-- All blocks are stored if the first is and those after it are.
theorem exists_of_pushAll_cons
    (h : (b.pushAll policy (block :: blocks)).result = .ok places) :
    ∃ place others, (b.push policy block).result = .ok place ∧
      ((b.push policy block).buffer.pushAll policy blocks).result = .ok others ∧
      places = place :: others := by
  cases hfirst : (b.push policy block).result with
  | error failure =>
    rw [pushAll_cons_of_error hfirst] at h
    cases h
  | ok place =>
    rw [pushAll_cons_of_ok hfirst] at h
    obtain ⟨others, hothers, heq⟩ := map_eq_ok_iff.mp h
    exact ⟨place, others, rfl, hothers, heq.symm⟩

theorem pushAll_ok (hvalid : b.Valid) (h : (b.pushAll policy blocks).result = .ok places) :
    Keeps b (b.pushAll policy blocks).buffer ∧
      (b.pushAll policy blocks).buffer.Stores places blocks := by
  induction blocks generalizing b places with
  | nil =>
    cases h
    exact ⟨.refl hvalid, by simp, rfl⟩
  | cons block blocks ih =>
    obtain ⟨place, others, hplace, hothers, rfl⟩ := exists_of_pushAll_cons h
    obtain ⟨hkeeps, hstores⟩ := push_ok hvalid hplace
    obtain ⟨hkeeps', hstores'⟩ := ih hkeeps.valid hothers
    have hfirst := hstores.keeps hkeeps'
    rw [pushAll_cons_of_ok hplace]
    refine ⟨hkeeps.trans hkeeps', ?_, ?_⟩
    · intro x hx
      rcases List.mem_cons.mp hx with rfl | hx
      · exact hfirst.inside _ (by simp)
      · exact hstores'.inside x hx
    · have hread : [_] = [_] := hfirst.read
      rw [List.map_cons, List.map_cons, hstores'.read, (List.cons.inj hread).1]

end Blocks

end DenoisePlanner.ScratchBuffer
