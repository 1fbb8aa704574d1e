import DenoisePlanner.Proofs.Installed
import Mathlib.Algebra.Group.Nat.Even
import Mathlib.Data.List.Induction

namespace DenoisePlanner

-- What can be done to a table of swapping pairs.
inductive SwapMove where
  | register (a b : Nat)
  | exchange (span : Span)

namespace SwapPair

variable {p q : SwapPair} {a b : Nat}

theorem touches_iff : p.touches a = true ↔ a = p.first ∨ a = p.second := by
  simp only [touches, Bool.or_eq_true, beq_iff_eq]
  omega

theorem joins_iff : p.joins a b = true ↔
    a = p.first ∧ b = p.second ∨ a = p.second ∧ b = p.first := by
  simp only [joins, Bool.or_eq_true, Bool.and_eq_true, beq_iff_eq]
  omega

theorem joins_comm (p : SwapPair) (a b : Nat) : p.joins a b = p.joins b a :=
  Bool.or_comm _ _

theorem touches_of_joins (h : p.joins a b = true) :
    p.touches a = true ∧ p.touches b = true := by
  rw [joins_iff] at h
  rw [touches_iff, touches_iff]
  omega

theorem touches_congr (h : p.sides = q.sides) (a : Nat) : p.touches a = q.touches a := by
  obtain ⟨hfirst, hsecond⟩ := Prod.mk.inj h
  rw [touches, touches, hfirst, hsecond]

theorem resolve_first (p : SwapPair) :
    p.resolve p.first = if p.swapped then p.second else p.first := by
  simp [resolve]

theorem resolve_second (p : SwapPair) :
    p.resolve p.second = if p.swapped then p.first else p.second := by
  rw [resolve]
  split
  · split
    · assumption
    · rfl
  · rfl

-- One side stands in for one side.
theorem touches_resolve (h : p.touches a = true) : p.touches (p.resolve a) = true := by
  rw [touches_iff] at h ⊢
  rcases h with rfl | rfl
  · rw [resolve_first]
    split <;> simp
  · rw [resolve_second]
    split <;> simp

theorem resolve_inj (ha : p.touches a = true) (hb : p.touches b = true)
    (h : p.resolve a = p.resolve b) : a = b := by
  rw [touches_iff] at ha hb
  rcases ha with rfl | rfl <;> rcases hb with rfl | rfl
  · rfl
  · rw [resolve_first, resolve_second] at h
    split at h <;> omega
  · rw [resolve_first, resolve_second] at h
    split at h <;> omega
  · rfl

end SwapPair

namespace SwapTable

-- A move that is refused leaves the table as it is.
def next (t : SwapTable) : SwapMove → SwapTable
  | .register a b => match t.register a b with
    | .ok (_, t') => t'
    | .error _ => t
  | .exchange span => t.exchanged span

-- The table after some moves, from the first one on.
def played (moves : List SwapMove) : SwapTable := moves.foldl next {}

-- The move lets the textures of an entry trade places.
def turns (t : SwapTable) (entry : Nat) : SwapMove → Bool
  | .register _ _ => false
  | .exchange span =>
    (t.exchange? span).isSome && decide (span.start ≤ entry ∧ entry < span.stop)

def turnCount (entry : Nat) (t : SwapTable) : List SwapMove → Nat
  | [] => 0
  | move :: moves => (t.turns entry move).toNat + turnCount entry (t.next move) moves

-- The texture that stands in for another, which may be in no pair at all.
def physical (t : SwapTable) (logical : Nat) : Nat :=
  match t.pairs.findIdx? (·.touches logical) with
  | some entry => t.resolve entry logical
  | none => logical

-- Pairs are of two textures, and no texture is in two of them.
structure Paired (t : SwapTable) : Prop where
  distinct : ∀ (i : Nat) p, t.pairs[i]? = some p → p.first ≠ p.second
  apart : ∀ (i j : Nat) p q a, t.pairs[i]? = some p → t.pairs[j]? = some q →
    p.touches a = true → q.touches a = true → i = j

-- How two textures are registered, or are not.
structure Registers (t : SwapTable) (a b : Nat) : Prop where
  known : ∀ (entry : Nat) p, t.pairs[entry]? = some p → p.joins a b = true →
    t.register a b = .ok (entry, t) ∧ t.register b a = .ok (entry, t)
  same : a = b → t.register a b = .error .invalidSwap
  overlapping : ∀ p ∈ t.pairs, p.joins a b = false → p.touches a = true ∨ p.touches b = true →
    t.register a b = .error .invalidSwap
  new : a ≠ b → (∀ p ∈ t.pairs, p.touches a = false ∧ p.touches b = false) →
    t.register a b =
      if t.size < capacity then .ok (t.size, ⟨t.pairs.push { first := a, second := b }⟩)
      else .error (.overflow .swaps)
  refused : ∀ failure, t.register a b = .error failure → t.next (.register a b) = t

-- How the pairs of a span trade places, or do not.
structure Exchanges (t : SwapTable) (span : Span) : Prop where
  isSome_iff : (t.exchange? span).isSome ↔ span.start ≤ span.stop ∧ span.stop ≤ t.size
  twice : ∀ t', t.exchange? span = some t' → t'.exchange? span = some t
  refused : t.exchange? span = none → t.next (.exchange span) = t

-- An entry was made for two textures at one of the moves, and they have traded places `count`
-- times since then.
def MadeFor (moves : List SwapMove) (entry a b count : Nat) : Prop :=
  ∃ before after, moves = before ++ .register a b :: after ∧ (played before).size = entry ∧
    (played before).register a b = .ok (entry, played (before ++ [.register a b])) ∧
    turnCount entry (played (before ++ [.register a b])) after = count

variable {t t' : SwapTable} {a b entry : Nat} {p : SwapPair} {span : Span} {move : SwapMove}
  {moves : List SwapMove}

theorem played_append_singleton (moves : List SwapMove) (move : SwapMove) :
    played (moves ++ [move]) = (played moves).next move := by
  simp [played]

theorem turnCount_append (entry : Nat) (t : SwapTable) (moves moves' : List SwapMove) :
    turnCount entry t (moves ++ moves') =
      turnCount entry t moves + turnCount entry (moves.foldl next t) moves' := by
  induction moves generalizing t with
  | nil => simp [turnCount]
  | cons move moves ih => rw [List.cons_append, turnCount, turnCount, ih, List.foldl_cons]; omega

theorem register_cases (h : t.register a b = .ok (entry, t')) :
    t' = t ∨ a ≠ b ∧ (∀ p ∈ t.pairs, p.touches a = false ∧ p.touches b = false) ∧
      t.size < capacity ∧ entry = t.size ∧ t' = ⟨t.pairs.push { first := a, second := b }⟩ := by
  unfold register at h
  split at h
  · cases h
  rename_i hne
  split at h
  · cases h
    exact .inl rfl
  split at h
  · cases h
  rename_i huntouched
  split at h
  · cases h
  rename_i hroom
  cases h
  rw [Bool.not_eq_true, Array.any_eq_false'] at huntouched
  refine .inr ⟨hne, fun p hp => ?_, Nat.lt_of_not_le hroom, rfl, rfl⟩
  simpa using huntouched p hp

theorem exchange?_eq_some_iff : t.exchange? span = some t' ↔
    (span.start ≤ span.stop ∧ span.stop ≤ t.size) ∧ t' = t.exchanged span := by
  by_cases hspan : span.start ≤ span.stop ∧ span.stop ≤ t.size
  · simp [exchanged, exchange?, hspan, eq_comm]
  · simp [exchange?, hspan]

theorem size_exchanged (t : SwapTable) (span : Span) : (t.exchanged span).size = t.size := by
  simpa [size] using congrArg Array.size (t.sides_exchanged span)

-- The entry is an old one, turned over or not, or the move has made it.
theorem of_getElem?_next (h : (t.next move).pairs[entry]? = some p) :
    (∃ q, t.pairs[entry]? = some q ∧ p = if t.turns entry move then q.toggle else q) ∨
      move = .register p.first p.second ∧ p.swapped = false ∧ t.size = entry ∧
        t.register p.first p.second = .ok (entry, t.next move) := by
  cases move with
  | register a b =>
    cases hregister : t.register a b with
    | error failure =>
      rw [next, hregister] at h
      exact .inl ⟨p, h, rfl⟩
    | ok granted =>
      obtain ⟨made, t'⟩ := granted
      have hnext : t.next (.register a b) = t' := by rw [next, hregister]
      rw [hnext] at h ⊢
      rcases register_cases hregister with rfl | ⟨-, -, -, rfl, rfl⟩
      · exact .inl ⟨p, h, rfl⟩
      rcases of_getElem?_push h with ⟨hentry, rfl⟩ | h
      · exact .inr ⟨rfl, rfl, hentry.symm, hentry ▸ hregister⟩
      · exact .inl ⟨p, h, rfl⟩
  | exchange span =>
    by_cases hspan : span.start ≤ span.stop ∧ span.stop ≤ t.size
    · rw [next, getElem?_exchanged hspan, Option.map_eq_some_iff] at h
      obtain ⟨q, hq, rfl⟩ := h
      exact .inl ⟨q, hq, by simp [turns, exchange?, hspan]⟩
    · refine .inl ⟨p, ?_, by simp [turns, exchange?, hspan]⟩
      simpa [next, exchanged, exchange?, hspan] using h

theorem paired_empty : Paired {} where
  distinct i p h := by simp at h
  apart i j p q a h := by simp at h

-- Pairs that are turned over keep their sides.
theorem Paired.congr (h : t.Paired)
    (hsides : t'.pairs.map SwapPair.sides = t.pairs.map SwapPair.sides) : t'.Paired := by
  have hold {i : Nat} {p' : SwapPair} (hi : t'.pairs[i]? = some p') :
      ∃ p, t.pairs[i]? = some p ∧ p.sides = p'.sides := by
    have hi' : (t'.pairs.map SwapPair.sides)[i]? = some p'.sides := by
      rw [Array.getElem?_map, hi, Option.map_some]
    rw [hsides, Array.getElem?_map, Option.map_eq_some_iff] at hi'
    exact hi'
  constructor
  · intro i p' hi
    obtain ⟨p, hp, heq⟩ := hold hi
    obtain ⟨hfirst, hsecond⟩ := Prod.mk.inj heq
    rw [← hfirst, ← hsecond]
    exact h.distinct i p hp
  · intro i j p' q' a hi hj htouches htouches'
    obtain ⟨p, hp, heq⟩ := hold hi
    obtain ⟨q, hq, heq'⟩ := hold hj
    rw [← SwapPair.touches_congr heq] at htouches
    rw [← SwapPair.touches_congr heq'] at htouches'
    exact h.apart i j p q a hp hq htouches htouches'

theorem Paired.push (h : t.Paired) (hne : a ≠ b)
    (huntouched : ∀ p ∈ t.pairs, p.touches a = false ∧ p.touches b = false) :
    Paired ⟨t.pairs.push { first := a, second := b }⟩ := by
  have hnew {p : SwapPair} {i c : Nat} (hp : t.pairs[i]? = some p)
      (hc : ({ first := a, second := b } : SwapPair).touches c = true) : p.touches c = false := by
    have hp := huntouched p (Array.mem_of_getElem? hp)
    rcases SwapPair.touches_iff.mp hc with rfl | rfl
    · exact hp.1
    · exact hp.2
  constructor
  · intro i p hi
    rcases of_getElem?_push hi with ⟨-, rfl⟩ | hi
    · exact hne
    · exact h.distinct i p hi
  · intro i j p q c hi hj hp hq
    rcases of_getElem?_push hi with ⟨rfl, rfl⟩ | hi <;>
      rcases of_getElem?_push hj with ⟨rfl, rfl⟩ | hj
    · rfl
    · exact absurd hq (by rw [hnew hj hp]; exact Bool.false_ne_true)
    · exact absurd hp (by rw [hnew hi hq]; exact Bool.false_ne_true)
    · exact h.apart i j p q c hi hj hp hq

theorem Paired.next (h : t.Paired) (move : SwapMove) : (t.next move).Paired := by
  cases move with
  | register a b =>
    rw [SwapTable.next]
    cases hregister : t.register a b with
    | error failure => exact h
    | ok granted =>
      obtain ⟨made, t'⟩ := granted
      rcases register_cases hregister with rfl | ⟨hne, huntouched, -, -, rfl⟩
      · exact h
      · exact h.push hne huntouched
  | exchange span => exact h.congr (t.sides_exchanged span)

theorem paired_played (moves : List SwapMove) : (played moves).Paired := by
  induction moves using List.reverseRecOn with
  | nil => exact paired_empty
  | append_singleton moves move ih =>
    rw [played_append_singleton]
    exact ih.next move

theorem size_played_le (moves : List SwapMove) : (played moves).size ≤ capacity := by
  induction moves using List.reverseRecOn with
  | nil => exact Nat.zero_le _
  | append_singleton moves move ih =>
    rw [played_append_singleton]
    cases move with
    | register a b =>
      rw [next]
      cases hregister : (played moves).register a b with
      | error failure => exact ih
      | ok granted =>
        obtain ⟨made, t'⟩ := granted
        rcases register_cases hregister with rfl | ⟨-, -, hroom, -, rfl⟩
        · exact ih
        · simpa [size, Nat.succ_le_iff] using hroom
    | exchange span => rwa [next, size_exchanged]

namespace Paired

theorem eq_of_touches (h : t.Paired) {p q : SwapPair} (hp : p ∈ t.pairs) (hq : q ∈ t.pairs)
    (ha : p.touches a = true) (ha' : q.touches a = true) : p = q := by
  obtain ⟨i, hi⟩ := Array.getElem?_of_mem hp
  obtain ⟨j, hj⟩ := Array.getElem?_of_mem hq
  obtain rfl := h.apart i j p q a hi hj ha ha'
  exact Option.some.inj (hi.symm.trans hj)

theorem findIdx?_touches (h : t.Paired) (hp : t.pairs[entry]? = some p)
    (ha : p.touches a = true) : t.pairs.findIdx? (·.touches a) = some entry := by
  obtain ⟨hlt, rfl⟩ := Array.getElem?_eq_some_iff.mp hp
  refine Array.findIdx?_eq_some_iff_getElem.mpr ⟨hlt, ha, fun j hj hother => ?_⟩
  have := h.apart entry j _ _ a hp (Array.getElem?_eq_getElem (Nat.lt_trans hj hlt)) ha hother
  omega

theorem findIdx?_joins (h : t.Paired) (hp : t.pairs[entry]? = some p)
    (hjoins : p.joins a b = true) : t.pairs.findIdx? (·.joins a b) = some entry := by
  obtain ⟨hlt, rfl⟩ := Array.getElem?_eq_some_iff.mp hp
  refine Array.findIdx?_eq_some_iff_getElem.mpr ⟨hlt, hjoins, fun j hj hother => ?_⟩
  have := h.apart entry j _ _ a hp (Array.getElem?_eq_getElem (Nat.lt_trans hj hlt))
    (SwapPair.touches_of_joins hjoins).1 (SwapPair.touches_of_joins hother).1
  omega

theorem register_known (h : t.Paired) (hp : t.pairs[entry]? = some p)
    (hjoins : p.joins a b = true) : t.register a b = .ok (entry, t) := by
  have hne : a ≠ b := by
    have := h.distinct entry p hp
    have := SwapPair.joins_iff.mp hjoins
    omega
  rw [register, if_neg hne, h.findIdx?_joins hp hjoins]

theorem registers (h : t.Paired) (a b : Nat) : t.Registers a b where
  known entry p hp hjoins :=
    ⟨h.register_known hp hjoins, h.register_known hp ((p.joins_comm b a).trans hjoins)⟩
  same heq := if_pos heq
  overlapping p hp hapart htouches := by
    by_cases hne : a = b
    · exact if_pos hne
    have hnone : t.pairs.findIdx? (·.joins a b) = none := by
      refine Array.findIdx?_eq_none_iff.mpr fun q hq => Bool.eq_false_iff.mpr fun hjoins => ?_
      obtain ⟨ha, hb⟩ := SwapPair.touches_of_joins hjoins
      have heq : p = q := htouches.elim (h.eq_of_touches hp hq · ha) (h.eq_of_touches hp hq · hb)
      rw [heq, hjoins] at hapart
      cases hapart
    have hany : (t.pairs.any fun p => p.touches a || p.touches b) = true :=
      Array.any_eq_true'.mpr ⟨p, hp, by simpa using htouches⟩
    rw [register, if_neg hne, hnone]
    exact if_pos hany
  new hne huntouched := by
    have hnone : t.pairs.findIdx? (·.joins a b) = none := by
      refine Array.findIdx?_eq_none_iff.mpr fun q hq => Bool.eq_false_iff.mpr fun hjoins => ?_
      have htouches := (SwapPair.touches_of_joins hjoins).1
      rw [(huntouched q hq).1] at htouches
      cases htouches
    have hany : ¬(t.pairs.any fun p => p.touches a || p.touches b) = true := by
      rw [Bool.not_eq_true, Array.any_eq_false']
      intro p hp
      simpa using huntouched p hp
    rw [register, if_neg hne, hnone]
    dsimp only
    rw [if_neg hany]
    split <;> split
    all_goals first | rfl | omega
  refused failure herror := by rw [SwapTable.next, herror]

end Paired

theorem exchanges (t : SwapTable) (span : Span) : t.Exchanges span where
  isSome_iff := by
    rw [exchange?]
    split <;> simp [*]
  twice t' h := by
    obtain ⟨hspan, rfl⟩ := exchange?_eq_some_iff.mp h
    have hspan' : span.start ≤ span.stop ∧ span.stop ≤ (t.exchanged span).size := by
      rwa [size_exchanged]
    refine exchange?_eq_some_iff.mpr ⟨hspan', ?_⟩
    have hpairs : t.pairs = ((t.exchanged span).exchanged span).pairs := by
      refine Array.ext_getElem? fun i => ?_
      rw [getElem?_exchanged hspan', getElem?_exchanged hspan, Option.map_map]
      cases t.pairs[i]? with
      | none => rfl
      | some p =>
        by_cases hi : span.start ≤ i ∧ i < span.stop <;> simp [hi, p.toggle_toggle]
    exact congrArg SwapTable.mk hpairs
  refused h := by rw [next, exchanged, h, Option.getD_none]

-- The count goes on with the moves, and with it the roles of the two textures.
theorem MadeFor.append_singleton {count : Nat} (h : MadeFor moves entry a b count)
    (move : SwapMove) :
    MadeFor (moves ++ [move]) entry a b (count + ((played moves).turns entry move).toNat) := by
  obtain ⟨before, after, rfl, hsize, hregister, rfl⟩ := h
  refine ⟨before, after ++ [move], by simp, hsize, hregister, ?_⟩
  rw [turnCount_append]
  simp [turnCount, played]

theorem exists_madeFor (moves : List SwapMove) (h : (played moves).pairs[entry]? = some p) :
    ∃ count, MadeFor moves entry p.first p.second count ∧ (p.swapped = false ↔ Even count) := by
  induction moves using List.reverseRecOn generalizing p with
  | nil => simp [played] at h
  | append_singleton moves move ih =>
    rw [played_append_singleton] at h
    rcases of_getElem?_next h with ⟨q, hq, rfl⟩ | ⟨rfl, hswapped, hsize, hregister⟩
    · obtain ⟨count, hmade, hswapped⟩ := ih hq
      have hmade' := hmade.append_singleton move
      cases hturns : (played moves).turns entry move with
      | false =>
        rw [hturns] at hmade'
        exact ⟨count, hmade', hswapped⟩
      | true =>
        rw [hturns] at hmade'
        refine ⟨count + 1, hmade', ?_⟩
        rw [Nat.even_add_one, ← hswapped]
        simp [SwapPair.toggle]
    · rw [← played_append_singleton] at hregister
      exact ⟨0, ⟨moves, [], rfl, hsize, hregister, rfl⟩, by simp [hswapped]⟩

theorem physical_of_free (h : ∀ p ∈ t.pairs, p.touches a = false) : t.physical a = a := by
  rw [physical, Array.findIdx?_eq_none_iff.mpr h]

namespace Paired

theorem physical_eq (h : t.Paired) (hp : t.pairs[entry]? = some p) (ha : p.touches a = true) :
    t.physical a = t.resolve entry a := by
  simp only [physical, h.findIdx?_touches hp ha]

-- A texture of a pair stands for one of the same pair, any other for itself.
theorem physical_cases (h : t.Paired) (a : Nat) :
    (∃ p ∈ t.pairs, p.touches a = true ∧ t.physical a = p.resolve a) ∨
      (∀ p ∈ t.pairs, p.touches a = false) ∧ t.physical a = a := by
  by_cases htouched : ∃ p ∈ t.pairs, p.touches a = true
  · obtain ⟨p, hp, ha⟩ := htouched
    obtain ⟨entry, hentry⟩ := Array.getElem?_of_mem hp
    refine .inl ⟨p, hp, ha, ?_⟩
    rw [h.physical_eq hentry ha, resolve, hentry]
  · have hfree : ∀ p ∈ t.pairs, p.touches a = false := by
      simpa using htouched
    exact .inr ⟨hfree, physical_of_free hfree⟩

theorem physical_injective (h : t.Paired) : Function.Injective t.physical := by
  intro a b heq
  rcases h.physical_cases a with ⟨p, hp, ha, hphysical⟩ | ⟨hfree, hphysical⟩ <;>
    rcases h.physical_cases b with ⟨q, hq, hb, hphysical'⟩ | ⟨hfree', hphysical'⟩ <;>
    rw [hphysical, hphysical'] at heq
  · have hq' := SwapPair.touches_resolve hb
    rw [← heq] at hq'
    obtain rfl := h.eq_of_touches hp hq (SwapPair.touches_resolve ha) hq'
    exact SwapPair.resolve_inj ha hb heq
  · have hfree'' := hfree' p hp
    rw [← heq, SwapPair.touches_resolve ha] at hfree''
    cases hfree''
  · have hfree'' := hfree q hq
    rw [heq, SwapPair.touches_resolve hb] at hfree''
    cases hfree''
  · exact heq

end Paired

-- Two textures of an entry stand for themselves or for each other, as the exchanges since its
-- registration have it. All other textures stand for themselves.
theorem roles_of_moves (moves : List SwapMove) :
    (played moves).Paired ∧
    (played moves).size ≤ capacity ∧
    (∀ a b, (played moves).Registers a b) ∧
    (∀ span, (played moves).Exchanges span) ∧
    (∀ (entry : Nat) p, (played moves).pairs[entry]? = some p →
      ∃ count, MadeFor moves entry p.first p.second count ∧
        (played moves).resolve entry p.first = (if Even count then p.first else p.second) ∧
        (played moves).resolve entry p.second = (if Even count then p.second else p.first)) ∧
    (∀ (entry : Nat) p a, (played moves).pairs[entry]? = some p → p.touches a = true →
      (played moves).physical a = (played moves).resolve entry a) ∧
    (∀ a, (∀ p ∈ (played moves).pairs, p.touches a = false) → (played moves).physical a = a) ∧
    Function.Injective (played moves).physical := by
  have hpaired := paired_played moves
  refine ⟨hpaired, size_played_le moves, hpaired.registers, (played moves).exchanges, ?_,
    fun entry p a => hpaired.physical_eq, fun a => physical_of_free, hpaired.physical_injective⟩
  · intro entry p hp
    obtain ⟨count, hmade, hswapped⟩ := exists_madeFor moves hp
    refine ⟨count, hmade, ?_, ?_⟩
    · simp only [resolve, hp, SwapPair.resolve_first, ← hswapped]
      cases p.swapped <;> rfl
    · simp only [resolve, hp, SwapPair.resolve_second, ← hswapped]
      cases p.swapped <;> rfl

example : (played [.register 3 4, .exchange ⟨0, 1⟩, .register 7 5, .register 4 3,
    .exchange ⟨0, 2⟩, .register 3 5, .exchange ⟨2, 1⟩]).pairs =
    #[{ first := 3, second := 4 }, { first := 7, second := 5, swapped := true }] := by
  decide +kernel

end SwapTable

end DenoisePlanner
