import DenoisePlanner.Proofs.Allotting
import Mathlib.Data.List.Count
import Mathlib.Data.List.Perm.Subperm
import Mathlib.Data.Option.Basic

namespace DenoisePlanner

-- A loop goes through if each of its steps can be taken after those before it.
theorem Declaring.exists_forM_of_step {ε σ α : Type} {f : α → EStateM ε σ PUnit}
    {P : List α → σ → Prop} {l : List α}
    (step : ∀ done x rest s, l = done ++ x :: rest → P done s →
      ∃ s', f x s = .ok ⟨⟩ s' ∧ P (done ++ [x]) s')
    {s : σ} (h : P [] s) : ∃ s', l.forM f s = .ok ⟨⟩ s' ∧ P l s' := by
  suffices ∀ done rest s, l = done ++ rest → P done s →
      ∃ s', rest.forM f s = .ok ⟨⟩ s' ∧ P l s' from this [] l s rfl h
  intro done rest
  induction rest generalizing done with
  | nil =>
    intro s hl hs
    rw [hl, List.append_nil]
    exact ⟨s, rfl, hs⟩
  | cons x rest ih =>
    intro s hl hs
    obtain ⟨s₁, hx, hs₁⟩ := step done x rest s hl hs
    obtain ⟨s₂, hrest, hs₂⟩ := ih (done ++ [x]) s₁ (by simp [hl]) hs₁
    exact ⟨s₂, bind_eq_ok_iff.mpr ⟨⟨⟩, s₁, hx, hrest⟩, hs₂⟩

-- How often a texture is there in the transient pool.
def Pools.copies (pools : Pools) (texture : Texture) : Nat :=
  pools.transient.toList.count texture

-- The claims of a denoiser that has asked for the textures of a list: each is a texture of the
-- wanted kind, and none is claimed twice.
structure Allotment.Serves (s : Allotment) (asked : List Texture) : Prop where
  claimed : s.claims.transient.toList.map (s.pools.transient[·]?) = asked.map some
  nodup : s.claims.transient.toList.Nodup

namespace Allotment

variable {s s' : Allotment} {asked : List Texture} {texture : Texture}

theorem Serves.lt (h : s.Serves asked) {i : Nat} (hi : i ∈ s.claims.transient) :
    i < s.pools.transient.size := by
  have hmem := List.mem_map_of_mem (f := (s.pools.transient[·]?)) (Array.mem_toList_iff.mpr hi)
  rw [h.claimed] at hmem
  obtain ⟨t, -, ht⟩ := List.mem_map.mp hmem
  exact (Array.getElem?_eq_some_iff.mp ht.symm).1

theorem count_range_filter (pools : Pools) (texture : Texture) :
    ((List.range pools.transient.size).filter (pools.transient[·]? == some texture)).length =
      pools.copies texture := by
  have hmap : (List.range pools.transient.size).map (pools.transient[·]?) =
      pools.transient.toList.map some := by
    apply List.ext_getElem
    · simp
    · intro i hi hi'
      simp at hi
      simp [hi]
  rw [← List.countP_eq_length_filter, Pools.copies,
    ← List.count_map_of_injective _ some (Option.some_injective _), ← hmap, List.count,
    List.countP_map]
  rfl

theorem Serves.count_eq (h : s.Serves asked) (texture : Texture) :
    (s.claims.transient.toList.filter (s.pools.transient[·]? == some texture)).length =
      asked.count texture := by
  rw [← List.count_map_of_injective asked some (Option.some_injective _), ← h.claimed,
    ← List.countP_eq_length_filter, List.count, List.countP_map]
  rfl

-- There is a copy for each request.
theorem Serves.count_le (h : s.Serves asked) (texture : Texture) :
    asked.count texture ≤ s.pools.copies texture := by
  rw [← h.count_eq, ← count_range_filter]
  have hsubset : s.claims.transient.toList.filter (s.pools.transient[·]? == some texture) ⊆
      (List.range s.pools.transient.size).filter (s.pools.transient[·]? == some texture) := by
    intro i hi
    obtain ⟨hclaimed, hkind⟩ := List.mem_filter.mp hi
    exact List.mem_filter.mpr ⟨List.mem_range.mpr (h.lt (Array.mem_toList_iff.mp hclaimed)), hkind⟩
  exact (List.Nodup.subperm (h.nodup.filter _) hsubset).length_le

-- A texture for which nothing can be reused has all its copies claimed.
theorem Serves.copies_le (h : s.Serves asked)
    (hnone : s.pools.firstReusable s.claims texture = none) :
    s.pools.copies texture ≤ asked.count texture := by
  have hsubset : (List.range s.pools.transient.size).filter
      (s.pools.transient[·]? == some texture) ⊆
      s.claims.transient.toList.filter (s.pools.transient[·]? == some texture) := by
    intro i hi
    obtain ⟨hrange, hkind⟩ := List.mem_filter.mp hi
    have hclaimed := List.find?_eq_none.mp hnone i hrange
    simp only [Pools.reusable, hkind, Bool.true_and, Bool.not_eq_true', Bool.not_eq_false] at hclaimed
    apply List.mem_filter.mpr
    exact ⟨by simpa using hclaimed, hkind⟩
  have hnodup := (List.nodup_range (n := s.pools.transient.size)).filter
    (s.pools.transient[·]? == some texture)
  calc s.pools.copies texture
    _ ≤ (s.claims.transient.toList.filter (s.pools.transient[·]? == some texture)).length := by
        rw [← count_range_filter]
        exact (List.Nodup.subperm hnodup hsubset).length_le
    _ = asked.count texture := h.count_eq texture

theorem Serves.claim (h : s.Serves asked) {i : Nat} (hi : s.pools.transient[i]? = some texture)
    (hfresh : i ∉ s.claims.transient) :
    Serves ⟨s.pools, { s.claims with transient := s.claims.transient.push i }⟩
      (asked ++ [texture]) where
  claimed := by
    rw [Array.toList_push, List.map_append, h.claimed, List.map_append]
    simp [hi]
  nodup := by
    rw [Array.toList_push]
    apply List.nodup_append.mpr
    refine ⟨h.nodup, by simp, fun x hx y hy hxy => hfresh ?_⟩
    obtain rfl := List.mem_singleton.mp hy
    exact Array.mem_toList_iff.mp (hxy ▸ hx)

-- A pool that grows at its end keeps what was claimed.
theorem Serves.grow {P : Texture → Prop} {pools : Pools} (h : s.Serves asked)
    (hgrows : Grows P s.pools.transient pools.transient) : Serves ⟨pools, s.claims⟩ asked := by
  refine ⟨?_, h.nodup⟩
  rw [← h.claimed]
  apply List.map_congr_left
  intro i hi
  have hlt := h.lt (Array.mem_toList_iff.mp hi)
  exact (hgrows.getElem? (Array.getElem?_eq_getElem hlt)).trans
    (Array.getElem?_eq_getElem hlt).symm

-- One more request is served. The pool holds no more copies of a texture than before, or than
-- have been asked for.
theorem Serves.addTransient (h : s.Serves asked) {slot : Slot}
    (hadd : Allotting.addTransient texture s = .ok slot s') :
    s'.Serves (asked ++ [texture]) ∧ ∀ t, s'.pools.copies t ≤ s.pools.copies t ∨
      s'.pools.copies t ≤ (asked ++ [texture]).count t := by
  obtain ⟨-, ⟨i, hreuse, rfl⟩ | ⟨hreuse, -, rfl⟩⟩ := Allotting.addTransient_cases hadd
  · obtain ⟨-, hfresh⟩ := Allotting.lt_of_reusable (List.find?_some hreuse)
    have hkind : s.pools.transient[i]? = some texture := by
      have hreusable := List.find?_some hreuse
      simp only [Pools.reusable, Bool.and_eq_true, beq_iff_eq] at hreusable
      exact hreusable.1
    exact ⟨h.claim hkind hfresh, fun t => .inl (Nat.le_refl _)⟩
  · have hfresh : s.pools.transient.size ∉ s.claims.transient :=
      fun hmem => Nat.lt_irrefl _ (h.lt hmem)
    have hgrown : Serves ⟨{ s.pools with transient := s.pools.transient.push texture }, s.claims⟩
        asked := h.grow (Grows.push trivial : Grows (fun _ => True) _ _)
    refine ⟨hgrown.claim (by simp) hfresh, fun t => ?_⟩
    have hcopies : Pools.copies { s.pools with transient := s.pools.transient.push texture } t =
        s.pools.copies t + [texture].count t := by
      simp [Pools.copies]
    rw [hcopies]
    by_cases ht : texture = t
    · subst ht
      have hle := h.copies_le hreuse
      right
      rw [List.count_append]
      omega
    · left
      simp [ht]

theorem exists_addTransient (s : Allotment) (texture : Texture)
    (hroom : s.pools.transient.size < Pools.capacity) :
    ∃ slot s', Allotting.addTransient texture s = .ok slot s' := by
  simp only [Allotting.addTransient, Declaring.bind_eq_ok_iff, Declaring.get_eq_ok_iff]
  cases hreuse : s.pools.firstReusable s.claims texture with
  | some i => exact ⟨_, _, s, s, ⟨rfl, rfl⟩, by simp only [hreuse]; rfl⟩
  | none =>
    refine ⟨.transient s.claims.transient.size,
      ⟨{ s.pools with transient := s.pools.transient.push texture },
        { s.claims with transient := s.claims.transient.push s.pools.transient.size }⟩,
      s, s, ⟨rfl, rfl⟩, ?_⟩
    simp only [hreuse, Declaring.guard_eq_ok_iff, Declaring.bind_eq_ok_iff,
      Declaring.modify_eq_ok_iff]
    exact ⟨Nat.not_le_of_lt hroom, ⟨⟩, _, rfl, rfl⟩

end Allotment

namespace Declaring

variable {d : Draft} {textures stock : List Texture}

theorem size_transient_le {pools : Pools} (h : ∀ t, pools.copies t ≤ stock.count t) :
    pools.transient.size ≤ stock.length := by
  have hsubperm : pools.transient.toList.Subperm stock := by
    apply List.subperm_ext_iff.mpr
    exact fun t _ => h t
  simpa using hsubperm.length_le

-- Denoisers that ask one after the other for no more than a stock of textures holds never fill
-- the pool beyond that stock.
theorem exists_forM_reuse (hclaims : d.denoiser.claims.transient = #[])
    (hpool : ∀ t, d.tables.pools.copies t ≤ stock.count t)
    (hasked : ∀ t, textures.count t ≤ stock.count t) (hroom : stock.length < Pools.capacity) :
    ∃ d', textures.forM (fun t => discard (addTransient t)) d = .ok ⟨⟩ d' ∧
      ∀ t, d'.tables.pools.copies t ≤ stock.count t := by
  obtain ⟨d', hloop, -, hd'⟩ := exists_forM_of_step
    (f := fun t => discard (addTransient t)) (l := textures) (s := d)
    (P := fun done d₁ => Allotment.Serves ⟨d₁.tables.pools, d₁.denoiser.claims⟩ done ∧
      ∀ t, d₁.tables.pools.copies t ≤ stock.count t)
    (by
      rintro done texture rest d₁ hsplit ⟨hserves, hcopies⟩
      have hsize := size_transient_le hcopies
      obtain ⟨slot, s', hadd⟩ := Allotment.exists_addTransient
        ⟨d₁.tables.pools, d₁.denoiser.claims⟩ texture (Nat.lt_of_le_of_lt hsize hroom)
      obtain ⟨hserves', hgrown⟩ := hserves.addTransient hadd
      refine ⟨_, discard_eq_ok_iff.mpr ⟨slot, onPools_eq_ok hadd⟩, hserves', fun t => ?_⟩
      have hprefix : (done ++ [texture]).count t ≤ textures.count t := by
        simp only [hsplit, List.count_append, List.count_cons, List.count_nil]
        omega
      have := hasked t
      have := hcopies t
      show s'.pools.copies t ≤ stock.count t
      rcases hgrown t with hle | hle
      · exact Nat.le_trans hle (hcopies t)
      · omega)
    ⟨⟨by simp [hclaims], by simp [hclaims]⟩, hpool⟩
  exact ⟨d', hloop, hd'⟩

end Declaring

end DenoisePlanner
