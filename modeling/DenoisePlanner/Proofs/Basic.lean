import Mathlib.Data.List.Forall2
import Mathlib.Data.List.Induction
import Mathlib.Data.List.Nodup

-- Facts about results, arrays and lists.
namespace DenoisePlanner

section Results

variable {ε α β : Type} {x : Except ε α} {f : α → β}

theorem map_eq_error_iff {e : ε} : x.map f = .error e ↔ x = .error e := by
  cases x <;> simp [Except.map]

theorem map_eq_ok_iff {b : β} : x.map f = .ok b ↔ ∃ a, x = .ok a ∧ f a = b := by
  cases x <;> simp [Except.map]

end Results

theorem of_getElem?_push {α : Type} {xs : Array α} {x y : α} {i : Nat}
    (h : (xs.push x)[i]? = some y) : i = xs.size ∧ y = x ∨ xs[i]? = some y := by
  rw [Array.getElem?_push] at h
  split at h
  · exact .inl ⟨‹_›, (Option.some.inj h).symm⟩
  · exact .inr h

section Lists

variable {α β γ : Type} {xs ys as bs : List α} {a b : α}

theorem map_filterMap_eq {f : α → Option β} {g : β → γ} {k : α → γ}
    (h : ∀ x ∈ xs, ∃ y, f x = some y ∧ g y = k x) : (xs.filterMap f).map g = xs.map k := by
  rw [List.map_filterMap, ← List.filterMap_eq_map]
  refine List.filterMap_congr fun x hx => ?_
  obtain ⟨y, hf, hg⟩ := h x hx
  rw [hf, Option.map_some, hg, Function.comp_apply]

theorem filterMap_range_eq_mapIdx (xs : List α) (f : Nat → α → β) :
    ((List.range xs.length).filterMap fun i => xs[i]?.map (f i)) = xs.mapIdx f := by
  induction xs generalizing f with
  | nil => rfl
  | cons x xs ih =>
    rw [List.length_cons, List.range_succ_eq_map, List.filterMap_cons, List.filterMap_map,
      List.mapIdx_cons, ← ih]
    rfl

-- What stands before the first occurrence of a separator can be told from what follows it.
theorem append_cons_inj (hx : a ∉ xs) (hy : a ∉ ys) (h : xs ++ a :: as = ys ++ a :: bs) :
    xs = ys ∧ as = bs := by
  induction xs generalizing ys with
  | nil =>
    cases ys with
    | nil => exact ⟨rfl, (List.cons.inj h).2⟩
    | cons y ys =>
      obtain ⟨rfl, -⟩ := List.cons.inj h
      exact absurd List.mem_cons_self hy
  | cons x xs ih =>
    cases ys with
    | nil =>
      obtain ⟨rfl, -⟩ := List.cons.inj h
      exact absurd List.mem_cons_self hx
    | cons y ys =>
      obtain ⟨rfl, hrest⟩ := List.cons.inj h
      obtain ⟨rfl, rfl⟩ :=
        ih (mt (List.mem_cons_of_mem x) hx) (mt (List.mem_cons_of_mem x) hy) hrest
      exact ⟨rfl, rfl⟩

-- The first of its kind is at no later place than any of its kind.
theorem mem_left_of_split {P : α → Prop} (h : xs ++ a :: ys = as ++ b :: bs) (ha : P a)
    (hothers : ∀ c ∈ as ++ [b], ¬P c) : b ∈ xs := by
  rcases List.append_eq_append_iff.mp h with ⟨cs, rfl, hrest⟩ | ⟨cs, rfl, hrest⟩
  · cases cs with
    | nil => exact absurd ha (hothers a (by simp [(List.cons.inj hrest).1]))
    | cons c cs => exact absurd ha (hothers a (by simp [(List.cons.inj hrest).1]))
  · cases cs with
    | nil => exact absurd ha (hothers a (by simp [(List.cons.inj hrest).1]))
    | cons c cs => simp [(List.cons.inj hrest).1]

theorem find?_eq_some_of_pairwise {q : α → Bool}
    (h : xs.Pairwise fun x y => q x = true → q y = false) (ha : a ∈ xs) (hq : q a = true) :
    xs.find? q = some a := by
  induction xs with
  | nil => cases ha
  | cons b xs ih =>
    obtain ⟨hothers, hrest⟩ := List.pairwise_cons.mp h
    rcases List.mem_cons.mp ha with rfl | ha
    · exact List.find?_cons_of_pos hq
    · have hb : ¬q b = true := fun hb => by
        rw [hothers a ha hb] at hq
        cases hq
      rw [List.find?_cons_of_neg hb]
      exact ih hrest ha

theorem map_set_eq {f : α → β} {n : Nat} (ha : xs[n]? = some a) (hf : f b = f a) :
    (xs.set n b).map f = xs.map f := by
  obtain ⟨hn, rfl⟩ := List.getElem?_eq_some_iff.mp ha
  rw [List.map_set, hf, ← List.getElem_map f, List.set_getElem_self]
  simpa using hn

theorem set_last {n : Nat} (hn : n + 1 = xs.length) (a : α) : xs.set n a = xs.take n ++ [a] := by
  rw [List.set_eq_take_append_cons_drop, if_pos (by omega), List.drop_of_length_le (by omega)]

theorem eq_take_append {n : Nat} (ha : xs[n]? = some a) (hn : n + 1 = xs.length) :
    xs = xs.take n ++ [a] := by
  obtain ⟨hlt, rfl⟩ := List.getElem?_eq_some_iff.mp ha
  rw [← set_last hn, List.set_getElem_self]

-- A list made of blocks is put together from what it holds of each block's kind.
theorem eq_flatMap_filter {κ μ : Type} [DecidableEq κ] {tag : α → κ} {f : α → β} {key : μ → κ}
    {block : μ → List β} {ms : List μ}
    (htag : ∀ m ∈ ms, ∀ x, f x ∈ block m → tag x = key m) (hnodup : (ms.map key).Nodup)
    (h : xs.map f = ms.flatMap block) :
    xs = (ms.map key).flatMap (fun k => xs.filter (tag · = k)) ∧
      ∀ m ∈ ms, (xs.filter (tag · = key m)).map f = block m := by
  induction ms generalizing xs with
  | nil => simpa using h
  | cons m ms ih =>
    obtain ⟨ys, zs, rfl, hys, hzs⟩ := List.map_eq_append_iff.mp h
    obtain ⟨hfresh, hnodup⟩ := List.nodup_cons.mp hnodup
    obtain ⟨hrest, hblocks⟩ := ih (fun m' hm' => htag m' (List.mem_cons_of_mem _ hm')) hnodup hzs
    have hfirst (y : α) (hy : y ∈ ys) : tag y = key m :=
      htag m List.mem_cons_self y (hys ▸ List.mem_map_of_mem hy)
    have hother (z : α) (hz : z ∈ zs) : tag z ∈ ms.map key := by
      obtain ⟨m', hm', hmem⟩ := List.mem_flatMap.mp (hzs ▸ List.mem_map_of_mem (f := f) hz)
      rw [htag m' (List.mem_cons_of_mem _ hm') z hmem]
      exact List.mem_map_of_mem hm'
    have hhere : (ys ++ zs).filter (tag · = key m) = ys := by
      rw [List.filter_append, List.filter_eq_self.mpr (by simpa using hfirst),
        List.filter_eq_nil_iff.mpr, List.append_nil]
      intro z hz
      simpa using fun heq : tag z = key m => hfresh (heq ▸ hother z hz)
    have hthere (k : κ) (hk : k ∈ ms.map key) :
        (ys ++ zs).filter (tag · = k) = zs.filter (tag · = k) := by
      rw [List.filter_append, List.filter_eq_nil_iff.mpr, List.nil_append]
      intro y hy
      simpa [hfirst y hy] using fun heq : key m = k => hfresh (heq ▸ hk)
    refine ⟨?_, fun m' hm' => ?_⟩
    · rw [List.map_cons, List.flatMap_cons, hhere, List.flatMap_congr hthere, ← hrest]
    · rcases List.mem_cons.mp hm' with rfl | hm'
      · rw [hhere, hys]
      · rw [hthere _ (List.mem_map_of_mem hm'), hblocks m' hm']

end Lists

section Counts

variable {α β : Type} [BEq β] [LawfulBEq β] {l : List β} {b : β}

-- What only one element contributes is counted there.
theorem count_flatMap_le {f : α → List β} {xs : List α} {bound : Nat}
    (hdisjoint : xs.Pairwise fun x y => b ∈ f x → b ∉ f y)
    (hbound : ∀ x ∈ xs, (f x).count b ≤ bound) : (xs.flatMap f).count b ≤ bound := by
  induction xs with
  | nil => exact Nat.zero_le _
  | cons x xs ih =>
    obtain ⟨hothers, hrest⟩ := List.pairwise_cons.mp hdisjoint
    rw [List.flatMap_cons, List.count_append]
    by_cases hx : b ∈ f x
    · have hnone : b ∉ xs.flatMap f := by
        intro hmem
        obtain ⟨y, hy, hb⟩ := List.mem_flatMap.mp hmem
        exact hothers y hy hx hb
      rw [List.count_eq_zero.mpr hnone]
      exact hbound x List.mem_cons_self
    · rw [List.count_eq_zero.mpr hx, Nat.zero_add]
      exact ih hrest fun y hy => hbound y (List.mem_cons_of_mem _ hy)

theorem eraseDups_concat_of_mem (h : b ∈ l) : (l ++ [b]).eraseDups = l.eraseDups := by
  rw [List.eraseDups_append]
  simp [List.removeAll, h]

theorem eraseDups_concat_of_notMem (h : b ∉ l) : (l ++ [b]).eraseDups = l.eraseDups ++ [b] := by
  rw [List.eraseDups_append]
  simp [List.removeAll, h, List.eraseDups_cons]

theorem nodup_eraseDups (l : List β) : l.eraseDups.Nodup := by
  induction l using List.reverseRecOn with
  | nil => exact List.nodup_nil
  | append_singleton l b ih =>
    by_cases h : b ∈ l
    · rw [eraseDups_concat_of_mem h]
      exact ih
    · rw [eraseDups_concat_of_notMem h]
      refine List.nodup_append.mpr ⟨ih, List.nodup_singleton b, fun x hx y hy hxy => h ?_⟩
      rw [List.mem_singleton.mp hy] at hxy
      rwa [hxy, List.mem_eraseDups] at hx

end Counts

section Pairs

variable {α β γ : Type} {xs : List α} {ys : List β} {x : α} {y : β} {R : α → β → Prop}

theorem exists_mem_zip_left (h : xs.length = ys.length) (hx : x ∈ xs) :
    ∃ y ∈ ys, (x, y) ∈ xs.zip ys := by
  rw [← List.map_fst_zip (Nat.le_of_eq h)] at hx
  obtain ⟨⟨x, y⟩, hxy, rfl⟩ := List.mem_map.mp hx
  exact ⟨y, (List.of_mem_zip hxy).2, hxy⟩

theorem exists_mem_zip_right (h : xs.length = ys.length) (hy : y ∈ ys) :
    ∃ x ∈ xs, (x, y) ∈ xs.zip ys := by
  rw [← List.map_snd_zip (Nat.le_of_eq h.symm)] at hy
  obtain ⟨⟨x, y⟩, hxy, rfl⟩ := List.mem_map.mp hy
  exact ⟨x, (List.of_mem_zip hxy).1, hxy⟩

theorem exists_of_mem_right (h : List.Forall₂ R xs ys) (hy : y ∈ ys) : ∃ x ∈ xs, R x y := by
  obtain ⟨hlength, hpairs⟩ := List.forall₂_iff_zip.mp h
  obtain ⟨x, hx, hxy⟩ := exists_mem_zip_right hlength hy
  exact ⟨x, hx, hpairs hxy⟩

-- Lists that come to the same correspond to each other.
theorem forall₂_of_map_eq {f : α → γ} {g : β → γ} (h : ys.map g = xs.map f)
    (hR : ∀ x ∈ xs, ∀ y, g y = f x → R x y) : List.Forall₂ R xs ys := by
  have hsame : List.Forall₂ (· = ·) (xs.map f) (ys.map g) := h ▸ List.forall₂_refl _
  rw [List.forall₂_map_left_iff, List.forall₂_map_right_iff] at hsame
  have hinside := (List.forall₂_and_left xs ys).mpr ⟨fun x hx => hx, hsame⟩
  exact hinside.imp fun x y ⟨hx, hxy⟩ => hR x hx y hxy.symm

end Pairs

end DenoisePlanner
