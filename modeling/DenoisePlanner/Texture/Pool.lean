import DenoisePlanner.Failure
import DenoisePlanner.Resource
import DenoisePlanner.Texture.Basic

namespace DenoisePlanner

-- A pooled texture by its number within the denoiser that asked for it.
inductive Slot where
  | permanent (index : Nat)
  | transient (index : Nat)
  deriving DecidableEq, Inhabited

-- Every denoiser has permanent textures of its own; transient textures are handed out again
-- to each denoiser.
structure Pools where
  permanent : Array Texture := #[]
  transient : Array Texture := #[]
  deriving Inhabited

-- The part of the pools that one denoiser has asked for.
structure Claims where
  base : Nat
  permanentCount : Nat := 0
  transient : Array Nat := #[]
  deriving Inhabited

namespace Pools

-- Positions stay below 65535.
def capacity : Nat := 65535

def claims (pools : Pools) : Claims where
  base := pools.permanent.size

-- A texture of the wanted kind that the denoiser has not claimed yet.
def reusable (pools : Pools) (claims : Claims) (texture : Texture) (i : Nat) : Bool :=
  pools.transient[i]? == some texture && !claims.transient.contains i

def firstReusable (pools : Pools) (claims : Claims) (texture : Texture) : Option Nat :=
  (List.range pools.transient.size).find? (pools.reusable claims texture)

end Pools

namespace Claims

def resolve (claims : Claims) : Slot → Except Failure (ResourceKind × Nat)
  | .permanent i =>
    if i < claims.permanentCount then .ok (.permanentPool, claims.base + i)
    else .error (.invalidArgument .unknownPermanentSlot)
  | .transient i =>
    match claims.transient[i]? with
    | some index => .ok (.transientPool, index)
    | none => .error (.invalidArgument .unknownTransientSlot)

def permanentSlots (claims : Claims) : List Slot :=
  (List.range claims.permanentCount).map .permanent

end Claims

-- The texture behind a slot.
def Pools.texture? (pools : Pools) (claims : Claims) (slot : Slot) : Option Texture :=
  match claims.resolve slot with
  | .ok (.permanentPool, i) => pools.permanent[i]?
  | .ok (_, i) => pools.transient[i]?
  | .error _ => none

-- Pools together with the claims being extended.
structure Allotment where
  pools : Pools
  claims : Claims
  deriving Inhabited

abbrev Allotting := EStateM Failure Allotment

namespace Allotting

def addPermanent (texture : Texture) : Allotting Slot := do
  if Pools.capacity ≤ (← get).pools.permanent.size then throw (.overflow .permanent)
  modifyGet fun ⟨pools, claims⟩ =>
    (.permanent claims.permanentCount,
      ⟨{ pools with permanent := pools.permanent.push texture },
        { claims with permanentCount := claims.permanentCount + 1 }⟩)

-- Records the claim on position `i` of the transient pool.
def claimTransient (i : Nat) : Allotting Slot :=
  modifyGet fun ⟨pools, claims⟩ =>
    (.transient claims.transient.size,
      ⟨pools, { claims with transient := claims.transient.push i }⟩)

-- Takes the first texture that can be reused, and grows the pool only without one.
def addTransient (texture : Texture) : Allotting Slot := do
  let s ← get
  match s.pools.firstReusable s.claims texture with
  | some i => claimTransient i
  | none =>
    let size := s.pools.transient.size
    if Pools.capacity ≤ size then throw (.overflow .transient)
    modify fun s => { s with pools := { s.pools with transient := s.pools.transient.push texture } }
    claimTransient size

end Allotting

end DenoisePlanner
