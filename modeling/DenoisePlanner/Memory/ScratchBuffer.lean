import DenoisePlanner.Extent
import DenoisePlanner.Failure
import DenoisePlanner.Text.Record

namespace DenoisePlanner

-- A block of memory, as the host's allocator is told about it.
structure MemoryBlock where
  size : Nat
  alignment : Nat
  deriving DecidableEq, Inhabited

-- A request to the allocator, with its answer where it can be refused.
inductive MemoryCall where
  | allocate (block : MemoryBlock) (granted : Bool)
  -- A block that is grown keeps its alignment.
  | reallocate (block : MemoryBlock) (newSize : Nat) (granted : Bool)
  | free (block : MemoryBlock)
  deriving DecidableEq, Inhabited

-- Whether the allocator grants a block of the given size.
abbrev MemoryPolicy := Nat → Bool

def MemoryPolicy.atMost (limit : Option Nat) : MemoryPolicy := fun size =>
  match limit with
  | some limit => decide (size ≤ limit)
  | none => true

-- The constant data of a frame, as blocks at multiples of 16 in one block of memory. The memory
-- outlives the frame: a cleared buffer still holds old bytes past its length.
structure ScratchBuffer where
  memory : ByteArray := .empty
  length : Nat := 0
  -- The size last granted; zero before the first grant.
  capacity : Nat := 0
  deriving Inhabited

namespace ScratchBuffer

def alignment : Nat := 16

def minCapacity : Nat := 256

-- The largest size that a block of memory can be asked for with this alignment.
def maxLayoutSize : Nat := (1 <<< 63) - alignment

-- The largest power of two among 64-bit numbers.
def maxPowerOfTwo : Nat := 1 <<< 63

def alignUp (n : Nat) : Nat := (n + alignment - 1) / alignment * alignment

def clear (b : ScratchBuffer) : ScratchBuffer := { b with length := 0 }

def isEmpty (b : ScratchBuffer) : Bool := b.length == 0

-- The least power of two that is not below `n`.
def powerOfTwo (n : Nat) : Nat := if n ≤ 1 then 1 else 1 <<< ((n - 1).log2 + 1)

-- The size to ask for when `required` bytes do not fit.
def grownCapacity (required : Nat) : Except Failure Nat :=
  let size := powerOfTwo required
  if maxPowerOfTwo < size then .error (.outOfMemory required)
  else
    let size := max size minCapacity
    if maxLayoutSize < size then .error (.outOfMemory size) else .ok size

-- The block that the buffer holds, if it holds one.
def block (b : ScratchBuffer) : MemoryBlock := ⟨b.capacity, alignment⟩

-- The call that grows the buffer to `size`.
def growthCall (b : ScratchBuffer) (size : Nat) (granted : Bool) : MemoryCall :=
  if b.capacity = 0 then .allocate ⟨size, alignment⟩ granted
  else .reallocate b.block size granted

-- What came of an attempt to make room or to store a block.
structure Attempt (α : Type) where
  buffer : ScratchBuffer
  call : Option MemoryCall := none
  result : Except Failure α

def reserve (b : ScratchBuffer) (policy : MemoryPolicy) (required : Nat) : Attempt Unit :=
  if b.capacity ≠ 0 ∧ required ≤ b.capacity then { buffer := b, result := .ok () }
  else match grownCapacity required with
    | .error e => { buffer := b, result := .error e }
    | .ok size =>
      if policy size then
        { buffer := { b with capacity := size }
          call := b.growthCall size true
          result := .ok () }
      else
        { buffer := b
          call := b.growthCall size false
          result := .error (.outOfMemory size) }

def zeros (n : Nat) : ByteArray := ⟨Array.replicate n 0⟩

def join (chunks : List ByteArray) : ByteArray := chunks.foldl (· ++ ·) .empty

-- Stores a block behind zeroes that fill the gap before it.
def store (b : ScratchBuffer) (block : ByteArray) : ScratchBuffer :=
  let start := alignUp b.length
  let source := zeros (start - b.length) ++ block
  { b with
    memory := source.copySlice 0 b.memory b.length source.size false
    length := start + block.size }

-- Appends the chunks as one block. A block without bytes takes no room.
def push (b : ScratchBuffer) (policy : MemoryPolicy) (chunks : List ByteArray) : Attempt Span :=
  let block := join chunks
  if block.size = 0 then { buffer := b, result := .ok ⟨b.length, b.length⟩ }
  else
    let start := alignUp b.length
    let stop := start + block.size
    let room := b.reserve policy stop
    match room.result with
    | .error e => { buffer := room.buffer, call := room.call, result := .error e }
    | .ok () =>
      { buffer := room.buffer.store block, call := room.call, result := .ok ⟨start, stop⟩ }

def read (b : ScratchBuffer) (span : Span) : ByteArray := b.memory.extract span.start span.stop

-- The calls that give the memory back.
def release (b : ScratchBuffer) : List MemoryCall :=
  if b.capacity = 0 then [] else [.free b.block]

def text (b : ScratchBuffer) : String :=
  recordText "ConstantBuffer" [("capacity", toString b.capacity), ("len", toString b.length)]

-- What came of storing several blocks, up to the first that found no room.
structure Placement where
  buffer : ScratchBuffer
  calls : List MemoryCall
  result : Except Failure (List Span)

def pushAll (b : ScratchBuffer) (policy : MemoryPolicy) : List (List ByteArray) → Placement
  | [] => ⟨b, [], .ok []⟩
  | block :: blocks =>
    let first := b.push policy block
    match first.result with
    | .error e => ⟨first.buffer, first.call.toList, .error e⟩
    | .ok span =>
      let rest := first.buffer.pushAll policy blocks
      ⟨rest.buffer, first.call.toList ++ rest.calls, rest.result.map (span :: ·)⟩

end ScratchBuffer

end DenoisePlanner
