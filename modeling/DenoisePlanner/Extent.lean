namespace DenoisePlanner

-- A pair of 32-bit counts: texels, thread groups or threads of a group.
structure Extent where
  x : UInt32
  y : UInt32
  deriving DecidableEq, Inhabited

namespace Extent

def zero : Extent := ⟨0, 0⟩

-- Neither side is longer than the other extent's.
def fits (a b : Extent) : Bool := decide (a.x ≤ b.x) && decide (a.y ≤ b.y)

def sub (a b : Extent) : Extent := ⟨a.x - b.x, a.y - b.y⟩

-- The quotient rounded up, written so that no intermediate sum can wrap.
def ceilDiv (a b : UInt32) : UInt32 := a / b + if a % b = 0 then 0 else 1

-- The thread groups that cover `extent` at the given downsampling.
def groups (extent : Extent) (downsample : UInt16) (threads : Extent) : Extent where
  x := ceilDiv (ceilDiv extent.x downsample.toUInt32) threads.x
  y := ceilDiv (ceilDiv extent.y downsample.toUInt32) threads.y

theorem fits_iff (a b : Extent) : a.fits b = true ↔ a.x ≤ b.x ∧ a.y ≤ b.y := by
  simp [fits]

end Extent

-- A half-open range of positions in a table or buffer.
structure Span where
  start : Nat
  stop : Nat
  deriving DecidableEq, Inhabited

namespace Span

def size (s : Span) : Nat := s.stop - s.start

-- The entries of `table` at the positions of the span.
def slice (s : Span) (table : Array α) : List α := (table.extract s.start s.stop).toList

end Span

end DenoisePlanner
