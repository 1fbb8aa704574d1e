import DenoisePlanner.Proofs.Allotting
import DenoisePlanner.Proofs.Basic
import DenoisePlanner.Proofs.Location
import DenoisePlanner.Proofs.Schedule
import DenoisePlanner.Planner.Basic

namespace DenoisePlanner

namespace SwapPair

-- The two textures of a pair, whichever is in use.
def sides (p : SwapPair) : Nat × Nat := (p.first, p.second)

theorem sides_toggle (p : SwapPair) : p.toggle.sides = p.sides := rfl

end SwapPair

namespace SwapTable

-- Roles play no part in the search for an entry.
theorem find?_congr {t t' : SwapTable} (h : t'.pairs.map SwapPair.sides = t.pairs.map SwapPair.sides)
    (a b : Nat) : t'.find? a b = t.find? a b := by
  have hjoins (t : SwapTable) : t.find? a b = (t.pairs.map SwapPair.sides).findIdx?
      fun s => (s.1 == a && s.2 == b) || (s.1 == b && s.2 == a) := by
    rw [Array.findIdx?_map]
    rfl
  rw [hjoins, hjoins, h]

-- The table after the pairs of a span have traded places.
def exchanged (t : SwapTable) (span : Span) : SwapTable := (t.exchange? span).getD t

variable {t : SwapTable} {span : Span}

theorem getElem?_exchanged (hspan : span.start ≤ span.stop ∧ span.stop ≤ t.size) (i : Nat) :
    (t.exchanged span).pairs[i]? = t.pairs[i]?.map fun p =>
      if span.start ≤ i ∧ i < span.stop then p.toggle else p := by
  simp [exchanged, exchange?, hspan]

theorem sides_exchanged (t : SwapTable) (span : Span) :
    (t.exchanged span).pairs.map SwapPair.sides = t.pairs.map SwapPair.sides := by
  by_cases hspan : span.start ≤ span.stop ∧ span.stop ≤ t.size
  · refine Array.ext_getElem? fun i => ?_
    rw [Array.getElem?_map, getElem?_exchanged hspan, Array.getElem?_map, Option.map_map]
    congr 1
    funext p
    simp only [Function.comp_apply]
    split
    · exact p.sides_toggle
    · rfl
  · simp [exchanged, exchange?, hspan]

end SwapTable

theorem Claims.bindings_congr {swaps swaps' : SwapTable} {claims : Claims}
    (h : ∀ a b, swaps'.find? a b = swaps.find? a b) :
    claims.bindings swaps' = claims.bindings swaps := by
  have hbinding : claims.binding? swaps' = claims.binding? swaps := by
    funext access r
    unfold binding?
    simp only [h]
  funext b
  rw [bindings, bindings, hbinding]

-- The clears of all permanent textures, then the passes.
def Blueprint.schedule (b : Blueprint) : List ScheduledPass :=
  b.permanent.mapIdx (fun i texture => .clear (.permanent i) texture) ++
    b.passes.map fun pass => ⟨pass, b.defines⟩

theorem Blueprint.of_mem_schedule {b : Blueprint} {e : ScheduledPass} (h : e ∈ b.schedule) :
    (∃ slot texture, e = .clear slot texture) ∨
      e.defines = b.defines ∧ e.pass ∈ b.passes := by
  rcases List.mem_append.mp h with h | h
  · obtain ⟨i, hi, rfl⟩ := List.mem_mapIdx.mp h
    exact .inl ⟨_, _, rfl⟩
  · obtain ⟨pass, hpass, rfl⟩ := List.mem_map.mp h
    exact .inr ⟨rfl, hpass⟩

def Variant.author (v : Variant) (claims : Claims) : Author :=
  ⟨v.name, v.family.sharedSize, claims⟩

-- A variant's declaration stands in the tables: every specialisation of its schedule can be
-- dispatched, its textures are its own, and its pairs are in one phase.
structure Installed (tables : Declarations) (v : Variant) (layout : DenoiserLayout)
    (flipped : Bool) : Prop where
  passes : layout.passes = ScheduledPass.recorded layout.dispatches.start v.blueprint.schedule
  realizes : ∀ base e,
    (base, e) ∈ ScheduledPass.place layout.dispatches.start v.blueprint.schedule →
      ∀ s ∈ Specialization.all e.pass.conditions,
        tables.Realizes (v.author layout.claims) e s (base + s.bits)
  permanentCount : layout.claims.permanentCount = v.blueprint.permanent.length
  transientCount : layout.claims.transient.size = v.blueprint.transient.length
  nodup : layout.claims.transient.toList.Nodup
  fits : layout.claims.base + layout.claims.permanentCount ≤ tables.pools.permanent.size
  inPhase : layout.claims.InPhase tables.swaps flipped
  span : layout.swaps.start ≤ layout.swaps.stop ∧ layout.swaps.stop ≤ tables.swaps.size
  mem_span : ∀ (i : Nat) pair, tables.swaps.pairs[i]? = some pair →
    (layout.claims.Owns pair.first ↔ layout.swaps.start ≤ i ∧ i < layout.swaps.stop)

-- The tables after the pairs of a span have traded places.
def Declarations.exchanged (tables : Declarations) (span : Span) : Declarations :=
  { tables with swaps := tables.swaps.exchanged span }

namespace Installed

variable {tables : Declarations} {v : Variant} {layout : DenoiserLayout} {flipped : Bool}

theorem realizes_exchanged (h : Installed tables v layout flipped) (span : Span) :
    ∀ base e, (base, e) ∈ ScheduledPass.place layout.dispatches.start v.blueprint.schedule →
      ∀ s ∈ Specialization.all e.pass.conditions,
        (tables.exchanged span).Realizes (v.author layout.claims) e s (base + s.bits) := by
  intro base e he s hs
  obtain ⟨position, bindings, pipeline, hdispatch, hpipeline, hid, hlayout, hstop, hbindings⟩ :=
    h.realizes base e he s hs
  refine ⟨position, bindings, pipeline, hdispatch, hpipeline, hid, hlayout, hstop, ?_⟩
  refine hbindings.trans ?_
  exact congrFun (Claims.bindings_congr
    (SwapTable.find?_congr (SwapTable.sides_exchanged tables.swaps span))).symm _

theorem size_exchanged (tables : Declarations) (span : Span) :
    (tables.exchanged span).swaps.size = tables.swaps.size := by
  have h := congrArg Array.size (SwapTable.sides_exchanged tables.swaps span)
  rwa [Array.size_map, Array.size_map] at h

theorem mem_span_exchanged (h : Installed tables v layout flipped) {span : Span}
    (hspan : span.start ≤ span.stop ∧ span.stop ≤ tables.swaps.size) (i : Nat) (pair : SwapPair)
    (hi : (tables.exchanged span).swaps.pairs[i]? = some pair) :
    layout.claims.Owns pair.first ↔ layout.swaps.start ≤ i ∧ i < layout.swaps.stop := by
  rw [Declarations.exchanged, SwapTable.getElem?_exchanged hspan] at hi
  obtain ⟨pair', hpair', rfl⟩ := Option.map_eq_some_iff.mp hi
  rw [← h.mem_span i pair' hpair']
  split <;> rfl

-- A denoiser that moves on turns its own pairs over, and finds itself in the other phase.
theorem exchange (h : Installed tables v layout flipped) :
    Installed (tables.exchanged layout.swaps) v layout (!flipped) where
  passes := h.passes
  realizes := h.realizes_exchanged layout.swaps
  permanentCount := h.permanentCount
  transientCount := h.transientCount
  nodup := h.nodup
  fits := h.fits
  inPhase := by
    intro pair hpair howns
    obtain ⟨i, hi⟩ := Array.getElem?_of_mem hpair
    have hown := (h.mem_span_exchanged h.span i pair hi).mp howns
    rw [Declarations.exchanged, SwapTable.getElem?_exchanged h.span] at hi
    obtain ⟨pair', hpair', rfl⟩ := Option.map_eq_some_iff.mp hi
    rw [if_pos hown] at howns ⊢
    rw [← h.inPhase pair' (Array.mem_of_getElem? hpair') howns]
    rfl
  span := by rw [size_exchanged]; exact h.span
  mem_span := h.mem_span_exchanged h.span

-- It leaves all others as they are.
theorem frame (h : Installed tables v layout flipped) {w : Variant} {other : DenoiserLayout}
    {flipped' : Bool} (h' : Installed tables w other flipped')
    (hdisjoint : ∀ n, layout.claims.Owns n → ¬other.claims.Owns n) :
    Installed (tables.exchanged other.swaps) v layout flipped where
  passes := h.passes
  realizes := h.realizes_exchanged other.swaps
  permanentCount := h.permanentCount
  transientCount := h.transientCount
  nodup := h.nodup
  fits := h.fits
  inPhase := by
    intro pair hpair howns
    obtain ⟨i, hi⟩ := Array.getElem?_of_mem hpair
    have hother := mt (h'.mem_span_exchanged h'.span i pair hi).mpr (hdisjoint _ howns)
    rw [Declarations.exchanged, SwapTable.getElem?_exchanged h'.span] at hi
    obtain ⟨pair', hpair', rfl⟩ := Option.map_eq_some_iff.mp hi
    rw [if_neg hother] at howns ⊢
    exact h.inPhase pair' (Array.mem_of_getElem? hpair') howns
  span := by rw [size_exchanged]; exact h.span
  mem_span := h.mem_span_exchanged h'.span

-- Later declarations leave it alone as well: their pairs lie beyond its textures.
theorem grown {P : SwapPair → Prop} {Q : Pipeline → Prop} {tables' : Declarations}
    (h : Installed tables v layout flipped) {pools : Pools}
    (hpools : tables.pools.permanent.size ≤ pools.permanent.size)
    (hext : Declarations.Extends P Q { tables with pools := pools } tables')
    (hnew : ∀ pair, P pair → tables.pools.permanent.size ≤ pair.first) :
    Installed tables' v layout flipped where
  passes := h.passes
  realizes := fun base e he s hs =>
    Declarations.Realizes.extends (t := { tables with pools := pools })
      (h.realizes base e he s hs) hext
  permanentCount := h.permanentCount
  transientCount := h.transientCount
  nodup := h.nodup
  fits := by
    rw [hext.pools]
    exact Nat.le_trans h.fits hpools
  inPhase := by
    intro pair hpair howns
    obtain ⟨i, hi⟩ := Array.getElem?_of_mem hpair
    rcases hext.swaps.of_getElem? hi with hold | ⟨-, hP⟩
    · exact h.inPhase pair (Array.mem_of_getElem? hold) howns
    · have := hnew pair hP
      have := howns.2
      have := h.fits
      omega
  span := ⟨h.span.1, Nat.le_trans h.span.2 hext.swaps.size_le⟩
  mem_span := by
    intro i pair hi
    rcases hext.swaps.of_getElem? hi with hold | ⟨hsize, hP⟩
    · exact h.mem_span i pair hold
    · have := hnew pair hP
      have hfits := h.fits
      have hstop := h.span.2
      have hsize : tables.swaps.pairs.size ≤ i := hsize
      simp only [SwapTable.size] at hstop
      simp only [Claims.Owns]
      omega

end Installed

namespace Declarations

variable {tables tables' : Declarations} {v : Variant} {layout : DenoiserLayout}

theorem allot_ok {b : Blueprint} {d d' : Draft}
    (hclaims : d.denoiser.claims = d.tables.pools.claims)
    (hroom : d.tables.pools.permanent.size ≤ Pools.capacity)
    (h : Declaring.declareBlueprint b d = .ok ⟨⟩ d') :
    ∃ transient claimed,
      Declaring.declare b.passes (Declaring.withPools d
        ⟨d.tables.pools.permanent ++ b.permanent.toArray, transient⟩
        ⟨d.tables.pools.permanent.size, b.permanent.length, claimed⟩) = .ok ⟨⟩ d' ∧
      claimed.size = b.transient.length ∧ claimed.toList.Nodup ∧
      d.tables.pools.permanent.size + b.permanent.length ≤ Pools.capacity := by
  simp only [Declaring.declareBlueprint, Declaring.bind_eq_ok_iff] at h
  obtain ⟨⟨⟩, d₁, hpermanent, ⟨⟩, d₂, htransient, hdeclare⟩ := h
  obtain ⟨rfl, hcapacity⟩ := Declaring.forM_addPermanent_ok hroom hpermanent
  have hgranted := Declaring.forM_addTransient_ok
    (by simp [Declaring.withPools, hclaims, Pools.claims])
    (by simp [Declaring.withPools, hclaims, Pools.claims]) htransient
  obtain ⟨transient, claimed, rfl⟩ := hgranted.eq
  have hsize := hgranted.size
  simp only [Declaring.withPools, hclaims, Pools.claims] at hdeclare hsize ⊢
  refine ⟨transient, claimed, ?_, by simpa using hsize, hgranted.nodup, hcapacity⟩
  simpa using hdeclare

-- The textures to be cleared are those that the blueprint asked for.
theorem schedule_withPools (d : Draft) (b : Blueprint) (transient : Array Texture)
    (claimed : Array Nat) (hdefines : d.denoiser.defines = b.defines) :
    (Declaring.withPools d ⟨d.tables.pools.permanent ++ b.permanent.toArray, transient⟩
      ⟨d.tables.pools.permanent.size, b.permanent.length, claimed⟩).schedule b.passes =
      b.schedule := by
  unfold Draft.schedule Blueprint.schedule Draft.clears
  rw [← filterMap_range_eq_mapIdx]
  simp only [Declaring.withPools, Claims.permanentSlots, hdefines, List.filterMap_map]
  congr 1
  refine List.filterMap_congr fun i hi => ?_
  have hi : i < b.permanent.length := List.mem_range.mp hi
  simp [Pools.texture?, Claims.resolve, hi]

-- What the declaration of a variant leaves behind.
theorem addVariant_ok (hroom : tables.pools.permanent.size ≤ Pools.capacity)
    (hpairs : ∀ pair ∈ tables.swaps.pairs, pair.first < tables.pools.permanent.size)
    (h : addVariant v tables = .ok layout tables') :
    ∃ transient,
      Extends layout.claims.OwnPair (ScheduledPass.Asks v.blueprint.schedule)
        { tables with
          pools := ⟨tables.pools.permanent ++ v.blueprint.permanent.toArray, transient⟩ } tables' ∧
      Installed tables' v layout false ∧
      layout.claims.base = tables.pools.permanent.size ∧
      tables.pools.permanent.size + v.blueprint.permanent.length ≤ Pools.capacity := by
  unfold addVariant at h
  dsimp only at h
  split at h
  · cases h
  rename_i d' hdeclare
  obtain ⟨transient, claimed, hdeclare, hcount, hnodup, hcapacity⟩ := allot_ok rfl hroom hdeclare
  obtain ⟨hdeclares, -⟩ := Draft.declare_ok rfl hdeclare
  rw [Draft.finish_declare rfl rfl hdeclare] at h
  cases h
  rw [schedule_withPools _ _ _ _ rfl] at hdeclares ⊢
  have hold {i : Nat} {pair : SwapPair} (hi : tables.swaps.pairs[i]? = some pair) :
      i < tables.swaps.pairs.size ∧ pair.first < tables.pools.permanent.size :=
    ⟨(Array.getElem?_eq_some_iff.mp hi).1, hpairs pair (Array.mem_of_getElem? hi)⟩
  refine ⟨transient, hdeclares.extends_tables, ?_, rfl, hcapacity⟩
  exact
    { passes := rfl
      realizes := hdeclares.realizes
      permanentCount := rfl
      transientCount := hcount
      nodup := hnodup
      fits := by
        rw [hdeclares.extends_tables.pools]
        simp [Declaring.withPools]
      inPhase := by
        intro pair hpair howns
        obtain ⟨i, hi⟩ := Array.getElem?_of_mem hpair
        rcases hdeclares.extends_tables.swaps.of_getElem? hi with hi | ⟨-, hown⟩
        · exact absurd howns.1 (Nat.not_le_of_lt (hold hi).2)
        · exact hown.2.2.2
      span := ⟨hdeclares.extends_tables.swaps.size_le, Nat.le_refl _⟩
      mem_span := by
        intro i pair hi
        have hlt := (Array.getElem?_eq_some_iff.mp hi).1
        rcases hdeclares.extends_tables.swaps.of_getElem? hi with hi | ⟨hsize, hown⟩
        · exact ⟨fun howns => absurd howns.1 (Nat.not_le_of_lt (hold hi).2),
            fun hspan => absurd hspan.1 (Nat.not_le_of_lt (hold hi).1)⟩
        · exact ⟨fun _ => ⟨hsize, hlt⟩, fun _ => hown.1⟩ }

end Declarations

end DenoisePlanner
