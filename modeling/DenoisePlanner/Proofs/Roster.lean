import DenoisePlanner.Proofs.Installed

namespace DenoisePlanner

-- Denoisers that share tables without getting into each other's way. `flipped` tells in which
-- phase the pairs of each are.
structure Roster.Sound (r : Roster) (flipped : Nat → Bool) : Prop where
  installed : ∀ (i : Nat) d, r.denoisers[i]? = some d →
    Installed r.tables d.variant d.layout (flipped i)
  family : ∀ (i : Nat) d, r.denoisers[i]? = some d → d.settings.family = d.variant.family
  distinct : ∀ (i j : Nat) d e, r.denoisers[i]? = some d → r.denoisers[j]? = some e →
    d.identifier = e.identifier → i = j
  disjoint : ∀ (i j : Nat) d e, r.denoisers[i]? = some d → r.denoisers[j]? = some e → i ≠ j →
    ∀ n, d.layout.claims.Owns n → ¬e.layout.claims.Owns n
  pairs : ∀ pair ∈ r.tables.swaps.pairs, pair.first < r.tables.pools.permanent.size
  room : r.tables.pools.permanent.size ≤ Pools.capacity
  count : r.denoisers.size ≤ r.tables.pools.permanent.size
  pipelines : ∀ p ∈ r.tables.pipelines.pipelines,
    ∃ v : Variant, ScheduledPass.Asks v.blueprint.schedule p

-- A denoiser as it is before its first frame.
def DenoiserState.Fresh (d : DenoiserState) : Prop :=
  d.settings = .ofFamily d.variant.family ∧ d.snapshot = none ∧ d.accumulated = 0

theorem Variant.permanent_pos (v : Variant) : 0 < v.blueprint.permanent.length := by
  cases v <;> decide

namespace Roster

variable {r r' : Roster} {flipped : Nat → Bool} {identifier : Identifier} {v : Variant}

theorem Sound.empty : Sound {} flipped where
  installed := by simp
  family := by simp
  distinct := by simp
  disjoint := by simp
  pairs := by simp
  room := Nat.zero_le _
  count := Nat.le_refl _
  pipelines := by simp [PipelineTable.empty]

-- A denoiser that changes in its settings or its history alone is still the same denoiser.
theorem Sound.replace (h : r.Sound flipped) {i : Nat} {d d' : DenoiserState}
    {denoisers : Array DenoiserState} (hi : r.denoisers[i]? = some d)
    (hget : ∀ j : Nat, denoisers[j]? = if j = i then some d' else r.denoisers[j]?)
    (hidentifier : d'.identifier = d.identifier) (hvariant : d'.variant = d.variant)
    (hlayout : d'.layout = d.layout) (hfamily : d'.settings.family = d.variant.family) :
    Sound ⟨r.tables, denoisers⟩ flipped := by
  -- what stands at a position now, and what stood there before
  have hold (j : Nat) (x : DenoiserState) (hj : denoisers[j]? = some x) :
      ∃ y, r.denoisers[j]? = some y ∧ x.identifier = y.identifier ∧ x.variant = y.variant ∧
        x.layout = y.layout := by
    rw [hget] at hj
    split at hj
    · obtain rfl := Option.some.inj hj
      exact ⟨d, by simpa [‹j = i›] using hi, hidentifier, hvariant, hlayout⟩
    · exact ⟨x, hj, rfl, rfl, rfl⟩
  refine ⟨?_, ?_, ?_, ?_, h.pairs, h.room, ?_, h.pipelines⟩
  · intro j x hj
    obtain ⟨y, hy, -, hv, hl⟩ := hold j x hj
    rw [hv, hl]
    exact h.installed j y hy
  · intro j x hj
    have hj : denoisers[j]? = some x := hj
    rw [hget] at hj
    split at hj
    · obtain rfl := Option.some.inj hj
      rw [hfamily, hvariant]
    · exact h.family j x hj
  · intro j k x y hj hk heq
    obtain ⟨x', hx', hxid, -⟩ := hold j x hj
    obtain ⟨y', hy', hyid, -⟩ := hold k y hk
    exact h.distinct j k x' y' hx' hy' (by rw [← hxid, ← hyid, heq])
  · intro j k x y hj hk hne n
    obtain ⟨x', hx', -, -, hxl⟩ := hold j x hj
    obtain ⟨y', hy', -, -, hyl⟩ := hold k y hk
    rw [hxl, hyl]
    exact h.disjoint j k x' y' hx' hy' hne n
  · have hsize : denoisers.size ≤ r.denoisers.size := by
      refine Nat.le_of_not_lt fun hlt => ?_
      obtain ⟨y, hy, -⟩ := hold r.denoisers.size denoisers[r.denoisers.size] (by simp [hlt])
      simp at hy
    exact Nat.le_trans hsize h.count

-- One denoiser turns its pairs over.
theorem Sound.exchange (h : r.Sound flipped) {i : Nat} {d : DenoiserState}
    (hi : r.denoisers[i]? = some d) :
    Sound ⟨r.tables.exchanged d.layout.swaps, r.denoisers⟩
      (fun j => if j = i then !flipped j else flipped j) where
  installed := by
    intro j x hj
    have hj : r.denoisers[j]? = some x := hj
    dsimp only
    split
    · rename_i hji
      subst hji
      obtain rfl : x = d := by simpa [hi] using hj.symm
      exact (h.installed j x hj).exchange
    · rename_i hne
      exact (h.installed j x hj).frame (h.installed i d hi) (h.disjoint j i x d hj hi hne)
  family := h.family
  distinct := h.distinct
  disjoint := h.disjoint
  pairs := by
    intro pair hpair
    have hsides : pair.sides ∈ (r.tables.swaps.exchanged d.layout.swaps).pairs.map SwapPair.sides :=
      Array.mem_map_of_mem hpair
    rw [SwapTable.sides_exchanged] at hsides
    obtain ⟨pair', hpair', heq⟩ := Array.mem_map.mp hsides
    have hfirst : pair'.first = pair.first := congrArg Prod.fst heq
    exact hfirst ▸ h.pairs pair' hpair'
  room := h.room
  count := h.count
  pipelines := h.pipelines

-- A denoiser that joins under an identifier of its own, with textures beyond all others.
theorem Sound.push (h : r.Sound flipped) {d : DenoiserState} {tables : Declarations}
    {pools : Pools}
    (hext : Declarations.Extends d.layout.claims.OwnPair
      (ScheduledPass.Asks d.variant.blueprint.schedule) { r.tables with pools := pools } tables)
    (hpools : pools.permanent.size =
      r.tables.pools.permanent.size + d.variant.blueprint.permanent.length)
    (hroom : pools.permanent.size ≤ Pools.capacity)
    (hinstalled : Installed tables d.variant d.layout (flipped r.denoisers.size))
    (hbase : d.layout.claims.base = r.tables.pools.permanent.size)
    (hfamily : d.settings.family = d.variant.family)
    (hidentifier : ∀ e ∈ r.denoisers, e.identifier ≠ d.identifier) :
    Sound ⟨tables, r.denoisers.push d⟩ flipped := by
  have hsize : tables.pools.permanent.size =
      r.tables.pools.permanent.size + d.variant.blueprint.permanent.length := by
    rw [hext.pools, hpools]
  have hbelow (j : Nat) (x : DenoiserState) (hj : r.denoisers[j]? = some x) (n : Nat)
      (hn : x.layout.claims.Owns n) : ¬d.layout.claims.Owns n := by
    have := (h.installed j x hj).fits
    simp only [Claims.Owns] at hn ⊢
    omega
  refine ⟨?_, ?_, ?_, ?_, ?_, ?_, ?_, ?_⟩
  · intro j x hj
    rcases of_getElem?_push hj with ⟨rfl, rfl⟩ | hj
    · exact hinstalled
    · exact (h.installed j x hj).grown (by omega) hext fun pair hpair => hbase ▸ hpair.1.1
  · intro j x hj
    rcases of_getElem?_push hj with ⟨rfl, rfl⟩ | hj
    · exact hfamily
    · exact h.family j x hj
  · intro j k x y hj hk heq
    rcases of_getElem?_push hj with ⟨rfl, rfl⟩ | hj' <;>
      rcases of_getElem?_push hk with ⟨rfl, rfl⟩ | hk'
    · rfl
    · exact absurd heq.symm (hidentifier y (Array.mem_of_getElem? hk'))
    · exact absurd heq (hidentifier x (Array.mem_of_getElem? hj'))
    · exact h.distinct j k x y hj' hk' heq
  · intro j k x y hj hk hne n hx hy
    rcases of_getElem?_push hj with ⟨rfl, rfl⟩ | hj' <;>
      rcases of_getElem?_push hk with ⟨rfl, rfl⟩ | hk'
    · exact hne rfl
    · exact hbelow k y hk' n hy hx
    · exact hbelow j x hj' n hx hy
    · exact h.disjoint j k x y hj' hk' hne n hx hy
  · intro pair hpair
    obtain ⟨i, hi⟩ := Array.getElem?_of_mem hpair
    dsimp only
    rcases hext.swaps.of_getElem? hi with hi | ⟨-, hown⟩
    · have := h.pairs pair (Array.mem_of_getElem? hi)
      omega
    · have := hown.1.2
      have := hinstalled.fits
      omega
  · rw [hsize, ← hpools]
    exact hroom
  · have := h.count
    have := d.variant.permanent_pos
    simp only [Array.size_push]
    omega
  · exact (hext.pipelines.mono fun p hp => ⟨d.variant, hp⟩).forall_mem h.pipelines

-- A denoiser is declared after all others, under an identifier of its own.
theorem exists_of_enlist (h : enlist identifier v r = .ok ⟨⟩ r') :
    (∀ e ∈ r.denoisers, e.identifier ≠ identifier) ∧
      ∃ layout tables, Declarations.addVariant v r.tables = .ok layout tables ∧
        r' = ⟨tables, r.denoisers.push
          { identifier, layout, variant := v, settings := .ofFamily v.family }⟩ := by
  unfold enlist at h
  dsimp only at h
  split at h
  · cases h
  rename_i hunknown
  split at h
  · cases h
  rename_i layout tables hadd
  cases h
  refine ⟨fun e he heq => ?_, layout, tables, hadd, rfl⟩
  exact hunknown (Array.any_eq_true'.mpr ⟨e, he, by simpa using heq⟩)

theorem enlist_ok (h : r.Sound fun _ => false) (henlist : enlist identifier v r = .ok ⟨⟩ r') :
    (r'.Sound fun _ => false) ∧ ∃ d, r'.denoisers = r.denoisers.push d ∧
      d.identifier = identifier ∧ d.variant = v ∧ d.Fresh := by
  obtain ⟨hunknown, layout, tables, hadd, rfl⟩ := exists_of_enlist henlist
  obtain ⟨transient, hext, hinstalled, hbase, hcapacity⟩ :=
    Declarations.addVariant_ok h.room h.pairs hadd
  exact ⟨h.push hext (by simp) (by simpa using hcapacity) hinstalled hbase
    (DenoiserSettings.family_ofFamily _) hunknown, _, rfl, rfl, rfl, rfl, rfl, rfl⟩

-- The denoisers of a roster as they were asked for.
def roll (r : Roster) : List (Identifier × Variant) :=
  r.denoisers.toList.map fun d => (d.identifier, d.variant)

theorem enlistAll_ok {denoisers : List (Identifier × Variant)}
    (h : enlistAll denoisers {} = .ok ⟨⟩ r) :
    (r.Sound fun _ => false) ∧ r.roll = denoisers ∧ ∀ d ∈ r.denoisers, d.Fresh := by
  refine Declaring.forM_ok (P := fun done r => (r.Sound fun _ => false) ∧ r.roll = done ∧
    ∀ d ∈ r.denoisers, d.Fresh) ?_ ⟨.empty, rfl, by simp⟩ h
  rintro done ⟨identifier, v⟩ r₁ r₂ ⟨hsound, hroll, hfresh⟩ henlist
  obtain ⟨hsound', d, hpush, hid, hv, hd⟩ := enlist_ok hsound henlist
  refine ⟨hsound', ?_, ?_⟩
  · rw [roll, hpush, Array.toList_push, List.map_append, ← hroll, ← hid, ← hv]
    rfl
  · intro e he
    rw [hpush] at he
    rcases Array.mem_push.mp he with he | rfl
    · exact hfresh e he
    · exact hd

end Roster

end DenoisePlanner
