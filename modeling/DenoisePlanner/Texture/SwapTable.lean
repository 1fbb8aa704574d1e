import DenoisePlanner.Extent
import DenoisePlanner.Failure

namespace DenoisePlanner

-- Two permanent textures that trade places; `swapped` tells whether they currently do.
structure SwapPair where
  first : Nat
  second : Nat
  swapped : Bool := false
  deriving DecidableEq, Inhabited

namespace SwapPair

def joins (p : SwapPair) (a b : Nat) : Bool :=
  (p.first == a && p.second == b) || (p.first == b && p.second == a)

def touches (p : SwapPair) (a : Nat) : Bool := p.first == a || p.second == a

def toggle (p : SwapPair) : SwapPair := { p with swapped := !p.swapped }

-- The texture that stands in for `logical`, one side of the pair.
def resolve (p : SwapPair) (logical : Nat) : Nat :=
  if p.swapped then if logical = p.first then p.second else p.first else logical

theorem toggle_toggle (p : SwapPair) : p.toggle.toggle = p := by simp [toggle]

end SwapPair

structure SwapTable where
  pairs : Array SwapPair := #[]
  deriving Inhabited

namespace SwapTable

def capacity : Nat := 65535

def size (t : SwapTable) : Nat := t.pairs.size

-- A known pair keeps its entry in either order; no texture takes part in two pairs.
def register (t : SwapTable) (a b : Nat) : Except Failure (Nat × SwapTable) :=
  if a = b then .error .invalidSwap
  else match t.pairs.findIdx? (·.joins a b) with
    | some entry => .ok (entry, t)
    | none =>
      if t.pairs.any fun p => p.touches a || p.touches b then .error .invalidSwap
      else if capacity ≤ t.size then .error (.overflow .swaps)
      else .ok (t.size, ⟨t.pairs.push { first := a, second := b }⟩)

def resolve (t : SwapTable) (entry logical : Nat) : Nat :=
  match t.pairs[entry]? with
  | some p => p.resolve logical
  | none => logical

-- Exchanges the roles within every pair of the span, which has to lie inside the table.
def exchange? (t : SwapTable) (span : Span) : Option SwapTable :=
  if span.start ≤ span.stop ∧ span.stop ≤ t.size then
    some ⟨t.pairs.mapIdx fun i p => if span.start ≤ i ∧ i < span.stop then p.toggle else p⟩
  else none

end SwapTable

end DenoisePlanner
