import DenoisePlanner.Proofs.Rehearsal

namespace DenoisePlanner

namespace SwapPair

-- The same pair among textures that begin at `base`.
def shift (base : Nat) (p : SwapPair) : SwapPair :=
  { p with first := base + p.first, second := base + p.second }

theorem joins_shift (base : Nat) (p : SwapPair) (i j : Nat) :
    (p.shift base).joins (base + i) (base + j) = p.joins i j := by
  apply Bool.eq_iff_iff.mpr
  simp [joins, shift]

theorem touches_shift (base : Nat) (p : SwapPair) (i : Nat) :
    (p.shift base).touches (base + i) = p.touches i := by
  apply Bool.eq_iff_iff.mpr
  simp [touches, shift]

end SwapPair

namespace SwapTable

-- The pairs of one denoiser, whose textures begin at `base`, behind those of others.
def behind (others : SwapTable) (base : Nat) (own : SwapTable) : SwapTable :=
  ⟨others.pairs ++ own.pairs.map (SwapPair.shift base)⟩

-- All pairs are of textures before `base`.
def Below (t : SwapTable) (base : Nat) : Prop :=
  ∀ p ∈ t.pairs, p.first < base ∧ p.second < base

variable {others own own' : SwapTable} {base : Nat}

theorem size_behind (others : SwapTable) (base : Nat) (own : SwapTable) :
    (others.behind base own).size = others.size + own.size := by
  simp [behind, size]

theorem Below.behind {count : Nat} (h : others.Below base) (hown : own.Below count) :
    (others.behind base own).Below (base + count) := by
  intro p hp
  rcases Array.mem_append.mp hp with hp | hp
  · have := h p hp
    omega
  · obtain ⟨q, hq, rfl⟩ := Array.mem_map.mp hp
    have := hown q hq
    simp only [SwapPair.shift]
    omega

theorem findIdx?_behind (h : others.Below base) (i j : Nat) :
    (others.behind base own).pairs.findIdx? (·.joins (base + i) (base + j)) =
      (own.pairs.findIdx? (·.joins i j)).map (· + others.size) := by
  have hothers : others.pairs.findIdx? (·.joins (base + i) (base + j)) = none := by
    apply Array.findIdx?_eq_none_iff.mpr
    intro p hp
    have := h p hp
    have hfirst : p.first ≠ base + i := by omega
    have hfirst' : p.first ≠ base + j := by omega
    simp [SwapPair.joins, hfirst, hfirst']
  have hown : ((fun p : SwapPair => p.joins (base + i) (base + j)) ∘ SwapPair.shift base) =
      (·.joins i j) := by
    funext p
    exact p.joins_shift base i j
  rw [behind, Array.findIdx?_append, hothers, Option.none_or, Array.findIdx?_map, hown]
  rfl

theorem any_touches_behind (h : others.Below base) (i j : Nat) :
    ((others.behind base own).pairs.any fun p => p.touches (base + i) || p.touches (base + j)) =
      own.pairs.any fun p => p.touches i || p.touches j := by
  have hothers : (others.pairs.any fun p => p.touches (base + i) || p.touches (base + j)) =
      false := by
    apply Array.any_eq_false.mpr
    intro k hk
    have := h _ (Array.getElem_mem hk)
    simp only [SwapPair.touches, Bool.or_eq_true, beq_iff_eq]
    omega
  rw [behind, Array.any_append, hothers, Bool.false_or, Array.any_map]
  congr 1
  funext p
  simp only [Function.comp_apply, SwapPair.touches_shift]

theorem size_le_of_register {i j entry : Nat} (h : own.register i j = .ok (entry, own')) :
    own.size ≤ own'.size := by
  unfold register at h
  split at h
  · cases h
  split at h
  · cases h
    exact Nat.le_refl _
  split at h
  · cases h
  split at h
  · cases h
  cases h
  simp [size]

-- What others have registered is out of the way, as long as there is room.
theorem register_behind (h : others.Below base) {i j entry : Nat}
    (hown : own.register i j = .ok (entry, own')) (hroom : others.size + own'.size ≤ capacity) :
    ∃ entry', (others.behind base own).register (base + i) (base + j) =
      .ok (entry', others.behind base own') := by
  unfold register at hown ⊢
  rw [findIdx?_behind h, any_touches_behind h, size_behind]
  split at hown
  · cases hown
  rename_i hne
  rw [if_neg (by omega)]
  split at hown
  · rename_i k hfound
    cases hown
    rw [hfound]
    exact ⟨_, rfl⟩
  rename_i hnone
  rw [hnone]
  split at hown
  · cases hown
  rename_i huntouched
  rw [Option.map_none]
  dsimp only
  rw [if_neg huntouched]
  split at hown
  · cases hown
  cases hown
  have hlt : others.size + own.size < capacity := by
    simp only [size, Array.size_push] at hroom ⊢
    omega
  rw [if_neg (by omega)]
  exact ⟨others.size + own.size, by simp [behind, SwapPair.shift]⟩

end SwapTable

namespace Claims

variable {claims claims' : Claims} {others own own' : SwapTable} {base : Nat}

-- Claims of the same extent on textures that begin elsewhere.
structure Relocates (claims claims' : Claims) (base : Nat) : Prop where
  base : claims.base = 0 ∧ claims'.base = base
  permanentCount : claims'.permanentCount = claims.permanentCount
  transientCount : claims'.transient.size = claims.transient.size

theorem Relocates.resolve (h : claims.Relocates claims' base) (slot : Slot) :
    (claims'.resolve slot).toOption.isSome = (claims.resolve slot).toOption.isSome := by
  cases slot with
  | permanent i =>
    simp only [Claims.resolve, h.permanentCount]
    split <;> rfl
  | transient i =>
    have hsize := h.transientCount
    simp only [Claims.resolve]
    by_cases hi : i < claims.transient.size
    · rw [Array.getElem?_eq_getElem hi, Array.getElem?_eq_getElem (hsize ▸ hi)]
      rfl
    · rw [Array.getElem?_eq_none (by omega), Array.getElem?_eq_none (by omega)]

-- A step on the pairs of one denoiser that can be taken as well behind the pairs of others.
def Lifts (others : SwapTable) (base : Nat) (f g : SwapTable → Option SwapTable) : Prop :=
  ∀ own own', f own = some own' → own.size ≤ own'.size ∧
    (others.size + own'.size ≤ SwapTable.capacity →
      g (others.behind base own) = some (others.behind base own'))

theorem Lifts.bind {f g f' g' : SwapTable → Option SwapTable} (h : Lifts others base f g)
    (h' : Lifts others base f' g') :
    Lifts others base (fun own => (f own).bind f') (fun own => (g own).bind g') := by
  intro own own₂ hstep
  obtain ⟨own₁, hfirst, hsecond⟩ := Option.bind_eq_some_iff.mp hstep
  obtain ⟨hle, hlift⟩ := h own own₁ hfirst
  obtain ⟨hle', hlift'⟩ := h' own₁ own₂ hsecond
  refine ⟨by omega, fun hroom => ?_⟩
  dsimp only
  rw [hlift (by omega), Option.bind_some, hlift' hroom]

theorem Lifts.foldlM {α : Type} {f g : SwapTable → α → Option SwapTable}
    (h : ∀ x, Lifts others base (f · x) (g · x)) (xs : List α) :
    Lifts others base (xs.foldlM f) (xs.foldlM g) := by
  induction xs with
  | nil =>
    rintro own _ ⟨⟩
    exact ⟨Nat.le_refl _, fun _ => rfl⟩
  | cons x xs ih => exact (h x).bind ih

theorem Relocates.lifts_rehearse (h : claims.Relocates claims' base) (hbelow : others.Below base)
    (access : Access) (r : Reference) :
    Lifts others base (claims.rehearse access · r) (claims'.rehearse access · r) := by
  intro own own' hstep
  dsimp only at hstep ⊢
  unfold rehearse at hstep ⊢
  by_cases hadmissible : Declaring.admissible access r = true
  case neg =>
    rw [if_neg hadmissible] at hstep
    cases hstep
  rw [if_pos hadmissible] at hstep ⊢
  cases r with
  | host kind =>
    cases hstep
    exact ⟨Nat.le_refl _, fun _ => rfl⟩
  | pooled slot =>
    obtain ⟨resolved, hresolved, rfl⟩ := Option.map_eq_some_iff.mp hstep
    refine ⟨Nat.le_refl _, fun _ => ?_⟩
    have hsome := h.resolve slot
    rw [hresolved, Option.isSome_some] at hsome
    obtain ⟨resolved', hresolved'⟩ := Option.isSome_iff_exists.mp hsome
    simp only [hresolved', Option.map_some]
  | swapping current other =>
    cases current with
    | transient i => cases hstep
    | permanent i =>
      cases other with
      | transient j => cases hstep
      | permanent j =>
        dsimp only at hstep ⊢
        rw [h.permanentCount]
        split at hstep
        case isFalse => cases hstep
        rename_i hij
        rw [h.base.1, Nat.zero_add, Nat.zero_add] at hstep
        cases hregister : own.register i j with
        | error failure => simp [hregister, Except.toOption] at hstep
        | ok registered =>
          obtain ⟨entry, own₁⟩ := registered
          obtain rfl : own₁ = own' := by simpa [hregister, Except.toOption] using hstep
          refine ⟨SwapTable.size_le_of_register hregister, fun hroom => ?_⟩
          obtain ⟨entry', hbehind⟩ := SwapTable.register_behind hbelow hregister hroom
          rw [if_pos hij, h.base.2, hbehind]
          rfl

theorem Relocates.lifts_rehearseBindings (h : claims.Relocates claims' base)
    (hbelow : others.Below base) (b : Bindings) :
    Lifts others base (claims.rehearseBindings · b) (claims'.rehearseBindings · b) :=
  (Lifts.foldlM (h.lifts_rehearse hbelow .read) b.inputs).bind
    (Lifts.foldlM (h.lifts_rehearse hbelow .write) b.outputs)

theorem Relocates.lifts_rehearsePass (h : claims.Relocates claims' base)
    (hbelow : others.Below base) (pass : Pass) :
    Lifts others base (claims.rehearsePass · pass) (claims'.rehearsePass · pass) := by
  unfold Lifts rehearsePass
  by_cases hargs : pass.downsample = 0 ∨ pass.repeats = 0
  · simp [hargs]
  · simp only [if_neg hargs]
    exact Lifts.foldlM (fun s => h.lifts_rehearseBindings hbelow (pass.bindings s)) _

-- What has been rehearsed alone goes as well behind others.
theorem Relocates.lifts_rehearsal (h : claims.Relocates claims' base) (hbelow : others.Below base)
    (passes : List Pass) :
    Lifts others base (passes.foldlM claims.rehearsePass) (passes.foldlM claims'.rehearsePass) :=
  Lifts.foldlM (h.lifts_rehearsePass hbelow) passes

end Claims

end DenoisePlanner
