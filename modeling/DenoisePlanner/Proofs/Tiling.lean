import DenoisePlanner.Proofs.Reachable
import Mathlib.Algebra.GroupWithZero.Nat
import Mathlib.Data.List.Pairwise

namespace DenoisePlanner

-- Stretches of numbers, each with its first number and its length.
section Tiles

variable {α : Type} (first length : α → Nat)

def Within (a : α) (n : Nat) : Prop := first a ≤ n ∧ n < first a + length a

-- Stretches that follow on each other, from a start up to a stop.
def Tiles : Nat → List α → Nat → Prop
  | start, [], stop => start = stop
  | start, a :: as, stop => first a = start ∧ Tiles (start + length a) as stop

variable {first length} {start stop n : Nat} {as : List α} {a b : α}

theorem Tiles.concat (h : Tiles first length start as stop) (ha : first a = stop) :
    Tiles first length start (as ++ [a]) (stop + length a) := by
  induction as generalizing start with
  | nil =>
    have hstop : start = stop := h
    exact ⟨ha.trans hstop.symm, by rw [hstop]; rfl⟩
  | cons b as ih => exact ⟨h.1, ih h.2⟩

theorem Tiles.stop_eq (h : Tiles first length start as stop) :
    stop = start + (as.map length).sum := by
  induction as generalizing start with
  | nil => exact h.symm
  | cons a as ih =>
    have hrest := ih h.2
    simp only [List.map_cons, List.sum_cons]
    omega

theorem Tiles.start_le (h : Tiles first length start as stop) (ha : a ∈ as) :
    start ≤ first a := by
  induction as generalizing start with
  | nil => cases ha
  | cons b as ih =>
    have hfirst := h.1
    rcases List.mem_cons.mp ha with rfl | ha
    · omega
    · have hrest := ih h.2 ha
      omega

theorem Tiles.within_lt (h : Tiles first length start as stop) (ha : a ∈ as)
    (hn : Within first length a n) : start ≤ n ∧ n < stop := by
  induction as generalizing start with
  | nil => cases ha
  | cons b as ih =>
    have hfirst := h.1
    have hstop := Tiles.stop_eq h.2
    have hge := hn.1
    have hlt := hn.2
    rcases List.mem_cons.mp ha with rfl | ha
    · omega
    · have hrest := ih h.2 ha
      omega

-- No number lies within two of the stretches,
theorem Tiles.pairwise (h : Tiles first length start as stop) :
    as.Pairwise fun a b => ∀ n, Within first length a n → ¬Within first length b n := by
  induction as generalizing start with
  | nil => exact .nil
  | cons a as ih =>
    refine List.pairwise_cons.mpr ⟨fun b hb n hn hn' => ?_, ih h.2⟩
    have hfirst := h.1
    have hle := Tiles.start_le h.2 hb
    have hlt := hn.2
    have hge := hn'.1
    omega

theorem Tiles.unique (h : Tiles first length start as stop) (ha : a ∈ as) (hb : b ∈ as)
    (hna : Within first length a n) (hnb : Within first length b n) : a = b := by
  by_contra hne
  have hsymm : Std.Symm fun a b => ∀ n, Within first length a n → ¬Within first length b n :=
    ⟨fun _ _ hab n hn hn' => hab n hn' hn⟩
  exact h.pairwise.forall ha hb hne n hna hnb

-- and each number lies within one.
theorem Tiles.exists_within (h : Tiles first length start as stop) (hstart : start ≤ n)
    (hstop : n < stop) : ∃ a ∈ as, Within first length a n := by
  induction as generalizing start with
  | nil =>
    have heq : start = stop := h
    omega
  | cons a as ih =>
    have hfirst := h.1
    by_cases hn : n < start + length a
    · exact ⟨a, List.mem_cons_self, by omega, by omega⟩
    · obtain ⟨b, hb, hwithin⟩ := ih h.2 (by omega)
      exact ⟨b, List.mem_cons_of_mem _ hb, hwithin⟩

end Tiles

-- The parts of a denoiser that do not change.
structure Member where
  identifier : Identifier
  variant : Variant
  layout : DenoiserLayout

namespace Member

def firstDispatch (m : Member) : Nat := m.layout.dispatches.start

def dispatchCount (m : Member) : Nat := ScheduledPass.dispatchCount m.variant.blueprint.schedule

end Member

def DenoiserState.member (d : DenoiserState) : Member := ⟨d.identifier, d.variant, d.layout⟩

theorem Declarations.addVariant_dispatches {v : Variant} {tables tables' : Declarations}
    {layout : DenoiserLayout} (hroom : tables.pools.permanent.size ≤ Pools.capacity)
    (h : addVariant v tables = .ok layout tables') :
    layout.dispatches = ⟨tables.dispatches.size, tables'.dispatches.size⟩ ∧
      tables'.dispatches.size =
        tables.dispatches.size + ScheduledPass.dispatchCount v.blueprint.schedule := by
  unfold addVariant at h
  dsimp only at h
  split at h
  · cases h
  rename_i d' hdeclare
  obtain ⟨transient, claimed, hdeclare, -⟩ := allot_ok rfl hroom hdeclare
  have hsize := (Draft.declare_ok rfl hdeclare).1.size
  rw [Draft.finish_declare rfl rfl hdeclare] at h
  rw [schedule_withPools _ _ _ _ rfl] at hsize
  cases h
  exact ⟨rfl, hsize⟩

namespace Roster

variable {r r' : Roster} {identifier : Identifier} {v : Variant}

def members (r : Roster) : List Member := r.denoisers.toList.map DenoiserState.member

-- The dispatches of a roster are those of its denoisers, one denoiser after the other.
def Tiled (r : Roster) : Prop :=
  Tiles Member.firstDispatch Member.dispatchCount 0 r.members r.tables.dispatches.size

theorem Tiled.enlist (h : r.Tiled) (hsound : r.Sound fun _ => false)
    (henlist : enlist identifier v r = .ok ⟨⟩ r') : r'.Tiled := by
  obtain ⟨-, layout, tables, hadd, rfl⟩ := exists_of_enlist henlist
  obtain ⟨hspan, hsize⟩ := Declarations.addVariant_dispatches hsound.room hadd
  have hstart := congrArg Span.start hspan
  unfold Tiled members
  rw [Array.toList_push, List.map_append, hsize]
  exact Tiles.concat h hstart

theorem enlistAll_tiled {denoisers : List (Identifier × Variant)}
    (h : enlistAll denoisers {} = .ok ⟨⟩ r) : r.Tiled := by
  refine (Declaring.forM_ok (P := fun _ r => (r.Sound fun _ => false) ∧ r.Tiled) ?_
    ⟨.empty, rfl⟩ h).2
  rintro done ⟨identifier, v⟩ r₁ r₂ ⟨hsound, htiled⟩ henlist
  exact ⟨(enlist_ok hsound henlist).1, htiled.enlist hsound henlist⟩

end Roster

namespace Planner

variable {p p' : Planner} {store : ShaderStore}

def members (p : Planner) : List Member := Roster.members ⟨p.tables, p.denoisers⟩

-- What a planner tells of itself to the host stays true: no call changes what it declared, and
-- its tables change in the roles of pairs alone.
structure Lasting (p : Planner) (store : ShaderStore) : Prop where
  tiled : Roster.Tiled ⟨p.tables, p.denoisers⟩
  inventory : p.inventory = p.tables.inventory store

section Lasting

theorem Lasting.of_create {denoisers : List (Identifier × Variant)}
    (h : (create denoisers store).result = .ok p) : p.Lasting store := by
  unfold create at h
  split at h
  · cases h
  · split at h
    · cases h
    · rename_i tables members henlist
      cases h
      exact ⟨Roster.enlistAll_tiled henlist, rfl⟩

-- The denoisers of a planner can be replaced by others that stand for the same members.
theorem Lasting.replace (h : p.Lasting store) {swaps : SwapTable}
    (htables : p'.tables = { p.tables with swaps := swaps })
    (hinventory : p'.inventory = p.inventory) (hmembers : p'.members = p.members) :
    p'.Lasting store := by
  constructor
  · have htiled := h.tiled
    change Tiles _ _ 0 p.members _ at htiled
    change Tiles _ _ 0 p'.members _
    rwa [hmembers, htables]
  · rw [hinventory, h.inventory, htables]
    rfl

theorem members_of_getElem? {denoisers : Array DenoiserState}
    (h : ∀ j : Nat, denoisers[j]?.map DenoiserState.member =
      p.denoisers[j]?.map DenoiserState.member) :
    denoisers.toList.map DenoiserState.member = p.members := by
  refine List.ext_getElem? fun j => ?_
  rw [members, Roster.members, List.getElem?_map, List.getElem?_map, Array.getElem?_toList,
    Array.getElem?_toList, h]

-- No call changes the members, nor what the host was told of them.
theorem members_advance {i : Nat} {d : DenoiserState} (hi : p.denoisers[i]? = some d)
    (plan : DenoiserPlan) :
    (p.advance i d plan).members = p.members ∧ (p.advance i d plan).inventory = p.inventory := by
  unfold Planner.advance
  split
  · exact ⟨rfl, rfl⟩
  · refine ⟨members_of_getElem? fun j => ?_, rfl⟩
    rw [Array.getElem?_setIfInBounds]
    split
    · subst j
      have hlt := (Array.getElem?_eq_some_iff.mp hi).1
      rw [if_pos hlt, hi]
      rfl
    · rfl

theorem members_setDenoiserSettings {identifier : Identifier} {s : DenoiserSettings}
    (hset : p.setDenoiserSettings identifier s = .ok p') :
    p'.members = p.members ∧ p'.inventory = p.inventory := by
  obtain ⟨i, d, -, -, -, -, -, rfl⟩ := setDenoiserSettings_ok hset
  refine ⟨members_of_getElem? fun j => ?_, rfl⟩
  rw [Array.getElem?_modify]
  split
  · rw [Option.map_map]
    rfl
  · rfl

theorem Lasting.advance (h : p.Lasting store) {i : Nat} {d : DenoiserState}
    (hi : p.denoisers[i]? = some d) (plan : DenoiserPlan) :
    (p.advance i d plan).Lasting store := by
  have hmembers := (members_advance hi plan).1
  unfold Planner.advance at hmembers ⊢
  split at hmembers
  · next hpassthrough => rwa [if_pos hpassthrough]
  · next hdenoises =>
    rw [if_neg hdenoises]
    exact h.replace rfl rfl hmembers

theorem Lasting.setDenoiserSettings (h : p.Lasting store) {identifier : Identifier}
    {s : DenoiserSettings} (hset : p.setDenoiserSettings identifier s = .ok p') :
    p'.Lasting store := by
  have hmembers := (members_setDenoiserSettings hset).1
  obtain ⟨i, d, -, -, -, -, -, rfl⟩ := setDenoiserSettings_ok hset
  exact h.replace rfl rfl hmembers

theorem Reachable.lasting {denoisers : List (Identifier × Variant)}
    (h : Reachable denoisers store p) : p.Lasting store := by
  induction h with
  | created h => exact .of_create h
  | setFrameSettings s _ hset ih =>
    obtain ⟨-, rfl⟩ := setFrameSettings_ok hset
    exact ⟨ih.tiled, ih.inventory⟩
  | setDenoiserSettings identifier s _ hset ih => exact ih.setDenoiserSettings hset
  | frame policy identifiers _ ih =>
    exact frame_preserves (P := fun q => q.Lasting store) (fun _ _ h => ⟨h.tiled, h.inventory⟩)
      (fun _ _ _ hi h => h.advance hi _) policy identifiers ih

end Lasting

end Planner

end DenoisePlanner
