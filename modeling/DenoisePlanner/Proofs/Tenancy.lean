import DenoisePlanner.Proofs.Basic
import DenoisePlanner.Proofs.Retry
import DenoisePlanner.Proofs.Reuse
import Mathlib.Data.List.Forall2
import Mathlib.Data.List.Induction

namespace DenoisePlanner

-- A denoiser's claims, with the slots that it was given and the textures that it wanted.
structure Tenant where
  claims : Claims
  granted : List (Slot × Texture) := []

-- The pools, with all denoisers that have asked for textures.
structure Estate where
  pools : Pools := {}
  tenants : List Tenant := []

-- Only the newest tenant asks for permanent textures. Transient textures may be asked for by all.
inductive EstateMove where
  | enter
  | permanent (texture : Texture)
  | transient (tenant : Nat) (texture : Texture)

-- How many textures can be addressed.
def Pools.extent (pools : Pools) : ResourceKind → Nat
  | .permanentPool => pools.permanent.size
  | .transientPool => pools.transient.size
  | _ => 0

def Slot.number : Slot → Nat
  | .permanent i => i
  | .transient i => i

namespace Claims

variable {claims claims' : Claims} {kind : ResourceKind} {slot : Slot}

-- Where a slot leads, if it leads to a texture of the given kind.
def index? (claims : Claims) (kind : ResourceKind) (slot : Slot) : Option Nat :=
  match claims.resolve slot with
  | .ok (found, i) => if found = kind then some i else none
  | .error _ => none

-- Slots lead to where they led before.
def Preserves (claims claims' : Claims) : Prop :=
  ∀ slot resolved, claims.resolve slot = .ok resolved → claims'.resolve slot = .ok resolved

theorem Preserves.index?_eq (h : claims.Preserves claims') {resolved : ResourceKind × Nat}
    (hslot : claims.resolve slot = .ok resolved) :
    claims'.index? kind slot = claims.index? kind slot := by
  rw [index?, index?, hslot, h slot resolved hslot]

theorem index?_permanent {i : Nat} (h : i < claims.permanentCount) :
    claims.index? kind (.permanent i) =
      if .permanentPool = kind then some (claims.base + i) else none := by
  rw [index?, resolve_permanent h]

theorem preserves_permanent (claims : Claims) :
    claims.Preserves { claims with permanentCount := claims.permanentCount + 1 } := by
  rintro slot ⟨kind, index⟩ h
  cases slot with
  | permanent i =>
    obtain ⟨hi, rfl, rfl⟩ := resolve_permanent_ok h
    rw [resolve_permanent (Nat.lt_succ_of_lt hi)]
  | transient i => exact h

theorem resolve_transient {i index : Nat} (h : claims.transient[i]? = some index) :
    claims.resolve (.transient i) = .ok (.transientPool, index) := by
  rw [resolve, h]

theorem index?_transient {i index : Nat} (h : claims.transient[i]? = some index) :
    claims.index? kind (.transient i) = if .transientPool = kind then some index else none := by
  rw [index?, resolve_transient h]

theorem resolve_transient_ok {i : Nat} {resolved : ResourceKind × Nat}
    (h : claims.resolve (.transient i) = .ok resolved) :
    ∃ index, claims.transient[i]? = some index ∧ resolved = (.transientPool, index) := by
  rw [resolve] at h
  split at h
  · cases h
    exact ⟨_, ‹_›, rfl⟩
  · cases h

theorem preserves_transient (claims : Claims) (index : Nat) :
    claims.Preserves { claims with transient := claims.transient.push index } := by
  intro slot resolved h
  cases slot with
  | permanent i => exact h
  | transient i =>
    obtain ⟨found, hfound, rfl⟩ := resolve_transient_ok h
    apply resolve_transient
    exact (Grows.push trivial : Grows (fun _ => True) _ _).getElem? hfound

end Claims

namespace Pools

variable {pools pools' : Pools} {claims claims' : Claims} {slot : Slot} {texture : Texture}

-- Textures stay where they are.
structure Enlarges (pools pools' : Pools) : Prop where
  permanent : Grows (fun _ => True) pools.permanent pools'.permanent
  transient : Grows (fun _ => True) pools.transient pools'.transient

theorem texture?_cases (h : pools.texture? claims slot = some texture) :
    (∃ i, claims.resolve slot = .ok (.permanentPool, i) ∧ pools.permanent[i]? = some texture) ∨
      ∃ i, claims.resolve slot = .ok (.transientPool, i) ∧ pools.transient[i]? = some texture := by
  cases slot with
  | permanent i =>
    by_cases hi : i < claims.permanentCount
    · have hresolve := Claims.resolve_permanent hi
      rw [texture?, hresolve] at h
      exact .inl ⟨_, hresolve, h⟩
    · simp [texture?, Claims.resolve, hi] at h
  | transient i =>
    cases hi : claims.transient[i]? with
    | none => simp [texture?, Claims.resolve, hi] at h
    | some index =>
      have hresolve := Claims.resolve_transient hi
      rw [texture?, hresolve] at h
      exact .inr ⟨index, hresolve, h⟩

theorem texture?_permanent {i : Nat} (h : claims.resolve slot = .ok (.permanentPool, i)) :
    pools.texture? claims slot = pools.permanent[i]? := by
  rw [texture?, h]

theorem texture?_transient {i : Nat} (h : claims.resolve slot = .ok (.transientPool, i)) :
    pools.texture? claims slot = pools.transient[i]? := by
  rw [texture?, h]

theorem Enlarges.texture? (h : pools.Enlarges pools') (hclaims : claims.Preserves claims')
    (htexture : pools.texture? claims slot = some texture) :
    pools'.texture? claims' slot = some texture := by
  rcases texture?_cases htexture with ⟨i, hresolve, hi⟩ | ⟨i, hresolve, hi⟩
  · rw [texture?_permanent (hclaims _ _ hresolve)]
    exact h.permanent.getElem? hi
  · rw [texture?_transient (hclaims _ _ hresolve)]
    exact h.transient.getElem? hi

theorem exists_resolve (h : pools.texture? claims slot = some texture) :
    ∃ kind index, claims.resolve slot = .ok (kind, index) ∧ index < pools.extent kind := by
  rcases texture?_cases h with ⟨i, hresolve, hi⟩ | ⟨i, hresolve, hi⟩
  · exact ⟨_, i, hresolve, (Array.getElem?_eq_some_iff.mp hi).1⟩
  · exact ⟨_, i, hresolve, (Array.getElem?_eq_some_iff.mp hi).1⟩

end Pools

namespace Allotment

variable {s s' : Allotment} {texture : Texture} {slot : Slot}

-- What a transient texture more changes, and what it leaves alone.
structure AddsTransient (s s' : Allotment) : Prop where
  pools : s.pools.Enlarges s'.pools
  claims : s.claims.Preserves s'.claims
  permanent : s'.pools.permanent = s.pools.permanent
  base : s'.claims.base = s.claims.base
  permanentCount : s'.claims.permanentCount = s.claims.permanentCount
  transient : ∃ i, s'.claims.transient = s.claims.transient.push i
  transient_le : s.pools.transient.size ≤ Pools.capacity →
    s'.pools.transient.size ≤ Pools.capacity

theorem addsTransient (h : Allotting.addTransient texture s = .ok slot s') :
    s.AddsTransient s' := by
  obtain ⟨-, ⟨i, -, rfl⟩ | ⟨-, hroom, rfl⟩⟩ := Allotting.addTransient_cases h
  · exact ⟨⟨.refl _, .refl _⟩, s.claims.preserves_transient i, rfl, rfl, rfl, ⟨i, rfl⟩, id⟩
  · refine ⟨⟨.refl _, .push trivial⟩, s.claims.preserves_transient _, rfl, rfl, rfl, ⟨_, rfl⟩, ?_⟩
    intro _
    rw [Array.size_push]
    exact hroom

-- How requests are turned down.
structure Refuses (s : Allotment) (texture : Texture) : Prop where
  permanent : ∀ failure s', Allotting.addPermanent texture s = .error failure s' ↔
    Pools.capacity ≤ s.pools.permanent.size ∧ failure = .overflow .permanent ∧ s' = s
  transient : ∀ failure s', Allotting.addTransient texture s = .error failure s' ↔
    s.pools.firstReusable s.claims texture = none ∧ Pools.capacity ≤ s.pools.transient.size ∧
      failure = .overflow .transient ∧ s' = s

theorem Serves.size_le {asked : List Texture} (h : s.Serves asked) :
    s.claims.transient.size ≤ s.pools.transient.size := by
  have hsubset : s.claims.transient.toList ⊆ List.range s.pools.transient.size := fun i hi =>
    List.mem_range.mpr (h.lt (Array.mem_toList_iff.mp hi))
  simpa using (List.Nodup.subperm h.nodup hsubset).length_le

-- The texture that was claimed last is the one that was asked for last.
theorem Serves.getElem?_last {asked : List Texture} {claimed : Array Nat} {i : Nat}
    (h : s.Serves (asked ++ [texture])) (hpush : s.claims.transient = claimed.push i) :
    s.pools.transient[i]? = some texture := by
  have hclaimed := h.claimed
  rw [hpush, Array.toList_push, List.map_append, List.map_append] at hclaimed
  exact (List.cons.inj (List.append_inj' hclaimed rfl).2).1

end Allotment

namespace Tenant

variable {t : Tenant} {claims : Claims} {slot : Slot} {texture : Texture}

-- The transient textures that a tenant was given, in order.
def asked (t : Tenant) : List Texture :=
  t.granted.filterMap fun (slot, texture) => match slot with
    | .permanent _ => none
    | .transient _ => some texture

-- Where the slots of a tenant lead, as far as they lead to textures of the given kind.
def indices (t : Tenant) (kind : ResourceKind) : List Nat :=
  t.granted.filterMap fun (slot, _) => t.claims.index? kind slot

-- A tenant that was given one more slot.
def extend (t : Tenant) (claims : Claims) (slot : Slot) (texture : Texture) : Tenant :=
  ⟨claims, t.granted ++ [(slot, texture)]⟩

-- The end of a tenant's permanent textures.
def stop (t : Tenant) : Nat := t.claims.base + t.claims.permanentCount

-- A tenant has what it was given, and no transient texture twice.
structure Holds (t : Tenant) (pools : Pools) : Prop where
  serves : Allotment.Serves ⟨pools, t.claims⟩ t.asked
  granted : ∀ slot texture, (slot, texture) ∈ t.granted →
    pools.texture? t.claims slot = some texture
  transient : t.indices .transientPool = t.claims.transient.toList

variable {pools pools' : Pools} {kind : ResourceKind}

theorem asked_extend_permanent (t : Tenant) (claims : Claims) (i : Nat) (texture : Texture) :
    (t.extend claims (.permanent i) texture).asked = t.asked := by
  simp [asked, extend]

theorem asked_extend_transient (t : Tenant) (claims : Claims) (i : Nat) (texture : Texture) :
    (t.extend claims (.transient i) texture).asked = t.asked ++ [texture] := by
  simp [asked, extend]

theorem Holds.mono (h : t.Holds pools) (hpools : pools.Enlarges pools') : t.Holds pools' where
  serves := h.serves.grow hpools.transient
  granted slot texture hgranted :=
    hpools.texture? (fun _ _ h => h) (h.granted slot texture hgranted)
  transient := h.transient

theorem Holds.indices_extend (h : t.Holds pools) (hclaims : t.claims.Preserves claims) :
    (t.extend claims slot texture).indices kind =
      t.indices kind ++ (claims.index? kind slot).toList := by
  have hold : t.granted.filterMap (fun (slot, _) => claims.index? kind slot) = t.indices kind := by
    refine List.filterMap_congr fun (slot, texture) hgranted => ?_
    obtain ⟨found, i, hresolve, -⟩ := Pools.exists_resolve (h.granted slot texture hgranted)
    exact hclaims.index?_eq hresolve
  rw [indices, extend, List.filterMap_append, hold]
  cases hslot : claims.index? kind slot <;> simp [hslot]

theorem Holds.extend (h : t.Holds pools) (hpools : pools.Enlarges pools')
    (hclaims : t.claims.Preserves claims)
    (hserves : Allotment.Serves ⟨pools', claims⟩ (t.extend claims slot texture).asked)
    (htexture : pools'.texture? claims slot = some texture)
    (htransient : t.claims.transient.toList ++ (claims.index? .transientPool slot).toList =
      claims.transient.toList) :
    (t.extend claims slot texture).Holds pools' where
  serves := hserves
  granted other wanted hgranted := by
    rcases List.mem_append.mp hgranted with hold | hnew
    · exact hpools.texture? hclaims (h.granted other wanted hold)
    · cases List.mem_singleton.mp hnew
      exact htexture
  transient := by
    rw [h.indices_extend hclaims, h.transient]
    exact htransient

end Tenant

namespace Estate

open Allotting

-- What a tenant gets, and what it leaves behind when it gets nothing.
def serve (e : Estate) (n : Nat) (texture : Texture) (add : Texture → Allotting Slot) : Estate :=
  match e.tenants[n]? with
  | none => e
  | some t => match add texture ⟨e.pools, t.claims⟩ with
    | .ok slot s => ⟨s.pools, e.tenants.set n (t.extend s.claims slot texture)⟩
    | .error _ s => ⟨s.pools, e.tenants.set n { t with claims := s.claims }⟩

def next (e : Estate) : EstateMove → Estate
  | .enter => { e with tenants := e.tenants ++ [⟨e.pools.claims, []⟩] }
  | .permanent texture => e.serve (e.tenants.length - 1) texture addPermanent
  | .transient n texture => e.serve n texture addTransient

-- The estate after some moves, from the first one on.
def settled (moves : List EstateMove) : Estate := moves.foldl next {}

-- The most copies of a transient texture that one tenant was given.
def peak (e : Estate) (texture : Texture) : Nat :=
  (e.tenants.map (·.asked.count texture)).foldr max 0

-- A tenant's slot leads to a texture of the wanted kind.
structure Lends (e : Estate) (n : Nat) (slot : Slot) (texture : Texture) (kind : ResourceKind)
    (index : Nat) : Prop where
  resolves : ∃ t, e.tenants[n]? = some t ∧ t.claims.resolve slot = .ok (kind, index) ∧
    e.pools.texture? t.claims slot = some texture
  inRange : index < e.pools.extent kind

variable {e : Estate} {n : Nat} {t : Tenant} {texture : Texture}

theorem serve_error {add : Texture → Allotting Slot} {failure : Failure}
    (ht : e.tenants[n]? = some t)
    (h : add texture ⟨e.pools, t.claims⟩ = .error failure ⟨e.pools, t.claims⟩) :
    e.serve n texture add = e := by
  simp only [serve, ht, h]
  obtain ⟨hn, rfl⟩ := List.getElem?_eq_some_iff.mp ht
  exact congrArg (Estate.mk e.pools) (List.set_getElem_self hn)

-- All that a move can do.
theorem next_cases (e : Estate) (move : EstateMove) :
    e.next move = e ∨
    e.next move = ⟨e.pools, e.tenants ++ [⟨e.pools.claims, []⟩]⟩ ∨
    (∃ n t texture, e.tenants[n]? = some t ∧ n + 1 = e.tenants.length ∧
      e.pools.permanent.size < Pools.capacity ∧
      e.next move = ⟨{ e.pools with permanent := e.pools.permanent.push texture },
        e.tenants.set n (t.extend { t.claims with permanentCount := t.claims.permanentCount + 1 }
          (.permanent t.claims.permanentCount) texture)⟩) ∨
    ∃ n t texture slot s, e.tenants[n]? = some t ∧
      addTransient texture ⟨e.pools, t.claims⟩ = .ok slot s ∧
      e.next move = ⟨s.pools, e.tenants.set n (t.extend s.claims slot texture)⟩ := by
  cases move with
  | enter => exact .inr (.inl rfl)
  | permanent texture =>
    cases ht : e.tenants[e.tenants.length - 1]? with
    | none => exact .inl (by simp [next, serve, ht])
    | some t =>
      cases hadd : addPermanent texture ⟨e.pools, t.claims⟩ with
      | error failure s =>
        rw [addPermanent_error hadd] at hadd
        exact .inl (serve_error ht hadd)
      | ok slot s =>
        obtain ⟨rfl, hroom, rfl⟩ := addPermanent_ok hadd
        have hn := (List.getElem?_eq_some_iff.mp ht).1
        refine .inr (.inr (.inl ⟨e.tenants.length - 1, t, texture, ht, by omega, hroom, ?_⟩))
        simp only [next, serve, ht, hadd]
  | transient n texture =>
    cases ht : e.tenants[n]? with
    | none => exact .inl (by simp [next, serve, ht])
    | some t =>
      cases hadd : addTransient texture ⟨e.pools, t.claims⟩ with
      | error failure s =>
        rw [addTransient_error hadd] at hadd
        exact .inl (serve_error ht hadd)
      | ok slot s =>
        refine .inr (.inr (.inr ⟨n, t, texture, slot, s, ht, hadd, ?_⟩))
        simp only [next, serve, ht, hadd]

theorem exists_set {m : Nat} {t' : Tenant} {claims : Claims} {slot : Slot}
    (h : e.tenants[n]? = some t) (ht' : e.tenants[m]? = some t')
    (hclaims : t'.claims.Preserves claims) :
    ∃ t₁, (e.tenants.set m (t'.extend claims slot texture))[n]? = some t₁ ∧
      t.claims.Preserves t₁.claims ∧ t.granted <+: t₁.granted := by
  by_cases hm : m = n
  · subst hm
    cases h.symm.trans ht'
    have hlt := (List.getElem?_eq_some_iff.mp h).1
    exact ⟨_, List.getElem?_set_self hlt, hclaims, List.prefix_append ..⟩
  · exact ⟨t, (List.getElem?_set_ne hm).trans h, fun _ _ h => h, List.prefix_rfl⟩

-- No tenant loses anything.
theorem exists_next (h : e.tenants[n]? = some t) (move : EstateMove) :
    ∃ t', (e.next move).tenants[n]? = some t' ∧ t.claims.Preserves t'.claims ∧
      t.granted <+: t'.granted := by
  rcases e.next_cases move with heq | heq | ⟨m, t', texture, ht', -, -, heq⟩ |
    ⟨m, t', texture, slot, s, ht', hadd, heq⟩ <;> rw [heq]
  · exact ⟨t, h, fun _ _ h => h, List.prefix_rfl⟩
  · refine ⟨t, ?_, fun _ _ h => h, List.prefix_rfl⟩
    exact (List.getElem?_append_left (List.getElem?_eq_some_iff.mp h).1).trans h
  · exact exists_set h ht' t'.claims.preserves_permanent
  · exact exists_set h ht' (Allotment.addsTransient hadd).claims

theorem exists_foldl_next (h : e.tenants[n]? = some t) (more : List EstateMove) :
    ∃ t', (more.foldl next e).tenants[n]? = some t' ∧ t.claims.Preserves t'.claims ∧
      t.granted <+: t'.granted := by
  induction more generalizing e t with
  | nil => exact ⟨t, h, fun _ _ h => h, List.prefix_rfl⟩
  | cons move more ih =>
    obtain ⟨t₁, ht₁, hclaims, hgranted⟩ := exists_next h move
    obtain ⟨t₂, ht₂, hclaims', hgranted'⟩ := ih ht₁
    exact ⟨t₂, ht₂, fun slot resolved hslot => hclaims' _ _ (hclaims _ _ hslot),
      hgranted.trans hgranted'⟩

theorem peak_le_iff {m : Nat} :
    e.peak texture ≤ m ↔ ∀ t ∈ e.tenants, t.asked.count texture ≤ m := by
  rw [peak]
  induction e.tenants with
  | nil => simp
  | cons t tenants ih => rw [List.map_cons, List.foldr_cons, Nat.max_le, ih, List.forall_mem_cons]

theorem le_peak (h : t ∈ e.tenants) (texture : Texture) : t.asked.count texture ≤ e.peak texture :=
  peak_le_iff.mp (Nat.le_refl _) t h

theorem peak_le_next (e : Estate) (move : EstateMove) (texture : Texture) :
    e.peak texture ≤ (e.next move).peak texture := by
  refine peak_le_iff.mpr fun t ht => ?_
  obtain ⟨n, hn⟩ := List.getElem?_of_mem ht
  obtain ⟨t', ht', -, hgranted⟩ := exists_next hn move
  calc t.asked.count texture
    _ ≤ t'.asked.count texture := (hgranted.filterMap _).sublist.count_le texture
    _ ≤ (e.next move).peak texture := le_peak (List.mem_of_getElem? ht') texture

-- Permanent textures are shared out in order, without gaps, and the newest tenant has the last
-- of them. No texture has more copies than some tenant needs.
structure Sound (e : Estate) : Prop where
  holds : ∀ t ∈ e.tenants, t.Holds e.pools
  permanent : e.tenants.flatMap (·.indices .permanentPool) = List.range e.pools.permanent.size
  last : ∀ stop, (e.tenants.map Tenant.stop).getLast? = some stop →
    stop = e.pools.permanent.size
  permanent_le : e.pools.permanent.size ≤ Pools.capacity
  transient_le : e.pools.transient.size ≤ Pools.capacity
  copies_le : ∀ texture, e.pools.copies texture ≤ e.peak texture

theorem sound_empty : Sound {} where
  holds t ht := by cases ht
  permanent := rfl
  last stop h := by cases h
  permanent_le := Nat.zero_le _
  transient_le := Nat.zero_le _
  copies_le texture := Nat.zero_le _

theorem Sound.holds_set (h : e.Sound) {pools : Pools} {new : Tenant}
    (hpools : e.pools.Enlarges pools) (hnew : new.Holds pools) :
    ∀ t ∈ e.tenants.set n new, t.Holds pools := by
  intro t ht
  rcases List.mem_or_eq_of_mem_set ht with hold | rfl
  · exact (h.holds t hold).mono hpools
  · exact hnew

theorem Sound.enter (h : e.Sound)
    (hpeak : ∀ texture, e.peak texture ≤
      peak ⟨e.pools, e.tenants ++ [⟨e.pools.claims, []⟩]⟩ texture) :
    Sound ⟨e.pools, e.tenants ++ [⟨e.pools.claims, []⟩]⟩ where
  holds t ht := by
    rcases List.mem_append.mp ht with hold | hnew
    · exact h.holds t hold
    · rw [List.mem_singleton.mp hnew]
      exact ⟨⟨rfl, List.nodup_nil⟩, (fun _ _ hgranted => by cases hgranted), rfl⟩
  permanent := by
    rw [List.flatMap_append, h.permanent]
    exact List.append_nil _
  last stop hstop := by
    rw [List.map_append, List.map_singleton, List.getLast?_concat] at hstop
    exact (Option.some.inj hstop).symm
  permanent_le := h.permanent_le
  transient_le := h.transient_le
  copies_le texture := Nat.le_trans (h.copies_le texture) (hpeak texture)

theorem Sound.stop_eq (h : e.Sound) (ht : e.tenants[n]? = some t) (hn : n + 1 = e.tenants.length) :
    t.stop = e.pools.permanent.size := by
  apply h.last
  rw [List.getLast?_eq_getElem?, List.length_map, List.getElem?_map, ← hn, Nat.add_sub_cancel, ht,
    Option.map_some]

theorem Sound.addPermanent (h : e.Sound) (ht : e.tenants[n]? = some t)
    (hn : n + 1 = e.tenants.length) (hroom : e.pools.permanent.size < Pools.capacity) {e' : Estate}
    (heq : e' = ⟨{ e.pools with permanent := e.pools.permanent.push texture },
      e.tenants.set n (t.extend { t.claims with permanentCount := t.claims.permanentCount + 1 }
        (.permanent t.claims.permanentCount) texture)⟩)
    (hpeak : ∀ texture, e.peak texture ≤ e'.peak texture) : e'.Sound := by
  have hstop : t.claims.base + t.claims.permanentCount = e.pools.permanent.size := h.stop_eq ht hn
  have hholds := h.holds t (List.mem_of_getElem? ht)
  have hclaims := t.claims.preserves_permanent
  have hlast : t.claims.permanentCount < t.claims.permanentCount + 1 := Nat.lt_succ_self _
  subst heq
  constructor
  case holds =>
    refine h.holds_set ⟨.push trivial, .refl _⟩
      (hholds.extend ⟨.push trivial, .refl _⟩ hclaims ?_ ?_ ?_)
    · rw [Tenant.asked_extend_permanent]
      exact ⟨hholds.serves.claimed, hholds.serves.nodup⟩
    · rw [Pools.texture?_permanent (Claims.resolve_permanent hlast), hstop]
      exact Array.getElem?_push_size
    · rw [Claims.index?_permanent hlast]
      exact List.append_nil _
  case permanent =>
    have hold := h.permanent
    rw [eq_take_append ht hn, List.flatMap_append, List.flatMap_singleton] at hold
    show List.flatMap _ (List.set _ _ _) = List.range (e.pools.permanent.push texture).size
    rw [set_last hn, List.flatMap_append, List.flatMap_singleton, hholds.indices_extend hclaims,
      Claims.index?_permanent hlast, ← List.append_assoc, hold, Array.size_push, List.range_succ,
      ← hstop]
    rfl
  case last =>
    intro stop hlast
    rw [set_last hn, List.map_append, List.map_singleton, List.getLast?_concat] at hlast
    obtain rfl := Option.some.inj hlast
    show t.claims.base + (t.claims.permanentCount + 1) = (e.pools.permanent.push texture).size
    rw [Array.size_push, ← hstop, Nat.add_assoc]
  case permanent_le =>
    rw [Array.size_push]
    exact hroom
  case transient_le =>
    exact h.transient_le
  case copies_le =>
    exact fun texture => Nat.le_trans (h.copies_le texture) (hpeak texture)

theorem Sound.addTransient (h : e.Sound) (ht : e.tenants[n]? = some t) {slot : Slot}
    {s : Allotment} (hadd : addTransient texture ⟨e.pools, t.claims⟩ = .ok slot s) {e' : Estate}
    (heq : e' = ⟨s.pools, e.tenants.set n (t.extend s.claims slot texture)⟩)
    (hpeak : ∀ texture, e.peak texture ≤ e'.peak texture) : e'.Sound := by
  have hholds := h.holds t (List.mem_of_getElem? ht)
  obtain ⟨hserves, hcopies⟩ := hholds.serves.addTransient hadd
  have hadds := Allotment.addsTransient hadd
  obtain ⟨i, hpush⟩ : ∃ i, s.claims.transient = t.claims.transient.push i := hadds.transient
  have hi : s.claims.transient[t.claims.transient.size]? = some i := by
    rw [hpush, Array.getElem?_push_size]
  have hpermanent : s.pools.permanent = e.pools.permanent := hadds.permanent
  obtain ⟨rfl, -⟩ := addTransient_cases hadd
  subst heq
  constructor
  case holds =>
    refine h.holds_set hadds.pools (hholds.extend hadds.pools hadds.claims ?_ ?_ ?_)
    · rw [Tenant.asked_extend_transient]
      exact hserves
    · rw [Pools.texture?_transient (Claims.resolve_transient hi)]
      exact hserves.getElem?_last hpush
    · rw [Claims.index?_transient hi, hpush, Array.toList_push]
      rfl
  case permanent =>
    show List.flatMap _ (List.set _ _ _) = List.range s.pools.permanent.size
    rw [hpermanent, ← h.permanent, List.flatMap_def, List.flatMap_def, map_set_eq ht]
    rw [hholds.indices_extend hadds.claims, Claims.index?_transient hi]
    exact List.append_nil _
  case last =>
    show ∀ stop, (List.map Tenant.stop (List.set _ _ _)).getLast? = some stop →
      stop = s.pools.permanent.size
    rw [hpermanent, map_set_eq ht]
    · exact h.last
    · show s.claims.base + s.claims.permanentCount = t.claims.base + t.claims.permanentCount
      rw [hadds.base, hadds.permanentCount]
  case permanent_le =>
    show s.pools.permanent.size ≤ Pools.capacity
    rw [hpermanent]
    exact h.permanent_le
  case transient_le =>
    exact hadds.transient_le h.transient_le
  case copies_le =>
    intro wanted
    rcases hcopies wanted with hle | hle
    · exact Nat.le_trans hle (Nat.le_trans (h.copies_le wanted) (hpeak wanted))
    · rw [← Tenant.asked_extend_transient t s.claims t.claims.transient.size] at hle
      have hn := (List.getElem?_eq_some_iff.mp ht).1
      exact Nat.le_trans hle (le_peak (List.mem_set hn _) wanted)

theorem Sound.next (h : e.Sound) (move : EstateMove) : (e.next move).Sound := by
  have hpeak := e.peak_le_next move
  rcases e.next_cases move with heq | heq | ⟨n, t, texture, ht, hn, hroom, heq⟩ |
    ⟨n, t, texture, slot, s, ht, hadd, heq⟩
  · rw [heq]
    exact h
  · rw [heq] at hpeak ⊢
    exact h.enter hpeak
  · exact h.addPermanent ht hn hroom heq hpeak
  · exact h.addTransient ht hadd heq hpeak

theorem sound_settled (moves : List EstateMove) : (settled moves).Sound := by
  induction moves using List.reverseRecOn with
  | nil => exact sound_empty
  | append_singleton moves move ih =>
    rw [settled, List.foldl_append]
    exact ih.next move

namespace Sound

theorem copies_eq (h : e.Sound) (texture : Texture) : e.pools.copies texture = e.peak texture := by
  apply Nat.le_antisymm (h.copies_le texture)
  exact peak_le_iff.mpr fun t ht => (h.holds t ht).serves.count_le texture

theorem extent_le (h : e.Sound) (kind : ResourceKind) : e.pools.extent kind ≤ Pools.capacity := by
  cases kind with
  | permanentPool => exact h.permanent_le
  | transientPool => exact h.transient_le
  | input _ => exact Nat.zero_le _
  | output _ => exact Nat.zero_le _

theorem number_lt (h : e.Sound) (ht : t ∈ e.tenants) {slot : Slot}
    (hgranted : (slot, texture) ∈ t.granted) : slot.number < Pools.capacity := by
  obtain ⟨kind, index, hresolve, hindex⟩ :=
    Pools.exists_resolve ((h.holds t ht).granted slot texture hgranted)
  cases slot with
  | permanent i =>
    obtain ⟨-, rfl, rfl⟩ := Claims.resolve_permanent_ok hresolve
    have hle := h.permanent_le
    simp only [Pools.extent] at hindex
    simp only [Slot.number]
    omega
  | transient i =>
    obtain ⟨found, hfound, -⟩ := Claims.resolve_transient_ok hresolve
    have hlt : i < t.claims.transient.size := (Array.getElem?_eq_some_iff.mp hfound).1
    have hsize : t.claims.transient.size ≤ e.pools.transient.size := (h.holds t ht).serves.size_le
    exact Nat.lt_of_lt_of_le hlt (Nat.le_trans hsize h.transient_le)

theorem nodup_permanent (h : e.Sound) :
    (e.tenants.flatMap (·.indices .permanentPool)).Nodup := by
  rw [h.permanent]
  exact List.nodup_range

theorem nodup_transient (h : e.Sound) (ht : t ∈ e.tenants) :
    (t.indices .transientPool).Nodup := by
  rw [(h.holds t ht).transient]
  exact (h.holds t ht).serves.nodup

end Sound

theorem lends_settled {moves : List EstateMove} {slot : Slot}
    (ht : (settled moves).tenants[n]? = some t) (hgranted : (slot, texture) ∈ t.granted) :
    ∃ kind index, ∀ more, (settled (moves ++ more)).Lends n slot texture kind index := by
  have hholds := (sound_settled moves).holds t (List.mem_of_getElem? ht)
  obtain ⟨kind, index, hresolve, -⟩ :=
    Pools.exists_resolve (hholds.granted slot texture hgranted)
  refine ⟨kind, index, fun more => ?_⟩
  obtain ⟨t', ht', hclaims, hkept⟩ := exists_foldl_next ht more
  rw [settled, ← List.foldl_append, ← settled] at ht'
  have hholds' := (sound_settled (moves ++ more)).holds t' (List.mem_of_getElem? ht')
  have htexture := hholds'.granted slot texture (hkept.subset hgranted)
  obtain ⟨kind', index', hresolve', hlt⟩ := Pools.exists_resolve htexture
  have heq := hclaims _ _ hresolve
  rw [hresolve'] at heq
  cases heq
  exact ⟨⟨t', ht', hresolve', htexture⟩, hlt⟩

theorem peak_congr {e' : Estate}
    (h : List.Forall₂ (fun t t' => t.asked.Perm t'.asked) e.tenants e'.tenants)
    (texture : Texture) : e.peak texture = e'.peak texture := by
  have hcounts : e.tenants.map (·.asked.count texture) =
      e'.tenants.map (·.asked.count texture) := by
    rw [← List.forall₂_eq_eq_eq, List.forall₂_map_left_iff, List.forall₂_map_right_iff]
    exact h.imp fun t t' hperm => hperm.count_eq texture
  rw [peak, peak, hcounts]

-- A slot leads to the texture that it was granted for, always the same. No permanent texture has
-- two slots, and no transient one has two of the same tenant. There are as many copies of a
-- transient texture as the neediest tenant has been given, in whatever order.
theorem tenancy_of_moves (moves : List EstateMove) :
    (∀ n t slot texture, (settled moves).tenants[n]? = some t → (slot, texture) ∈ t.granted →
      slot.number < Pools.capacity ∧
      ∃ kind index, ∀ more, (settled (moves ++ more)).Lends n slot texture kind index) ∧
    ((settled moves).tenants.flatMap (·.indices .permanentPool)).Nodup ∧
    (∀ t ∈ (settled moves).tenants, (t.indices .transientPool).Nodup) ∧
    (∀ texture, (settled moves).pools.copies texture = (settled moves).peak texture) ∧
    (∀ moves', List.Forall₂ (fun t t' => t.asked.Perm t'.asked) (settled moves).tenants
      (settled moves').tenants →
      ∀ texture, (settled moves).pools.copies texture = (settled moves').pools.copies texture) ∧
    (∀ kind, (settled moves).pools.extent kind ≤ Pools.capacity) ∧
    ∀ t ∈ (settled moves).tenants, ∀ texture,
      Allotment.Refuses ⟨(settled moves).pools, t.claims⟩ texture := by
  have hsound := sound_settled moves
  refine ⟨?_, hsound.nodup_permanent, fun t => hsound.nodup_transient, hsound.copies_eq, ?_,
    hsound.extent_le, ?_⟩
  · intro n t slot texture ht hgranted
    exact ⟨hsound.number_lt (List.mem_of_getElem? ht) hgranted, lends_settled ht hgranted⟩
  · intro moves' hasked texture
    rw [hsound.copies_eq, (sound_settled moves').copies_eq]
    exact peak_congr hasked texture
  · exact fun t _ texture =>
      ⟨fun _ _ => addPermanent_error_iff, fun _ _ => addTransient_error_iff⟩

example : (settled [.enter, .transient 0 ⟨.r8Uint, 1⟩, .transient 0 ⟨.r8Unorm, 16⟩, .enter,
    .transient 1 ⟨.r8Unorm, 16⟩, .transient 0 ⟨.r8Uint, 1⟩,
    .transient 1 ⟨.r8Uint, 1⟩]).pools.transient =
      #[⟨.r8Uint, 1⟩, ⟨.r8Unorm, 16⟩, ⟨.r8Uint, 1⟩] := by
  decide +kernel

end Estate

end DenoisePlanner
