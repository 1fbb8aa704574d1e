import DenoisePlanner.Proofs.Growth

namespace DenoisePlanner

-- The entry that lets two textures trade places.
def SwapTable.find? (t : SwapTable) (a b : Nat) : Option Nat := t.pairs.findIdx? (·.joins a b)

namespace Claims

-- The positions in the permanent pool that a denoiser has to itself.
def Owns (claims : Claims) (i : Nat) : Prop :=
  claims.base ≤ i ∧ i < claims.base + claims.permanentCount

theorem owns_base_add {claims : Claims} {i : Nat} (h : i < claims.permanentCount) :
    claims.Owns (claims.base + i) :=
  ⟨Nat.le_add_right _ _, Nat.add_lt_add_left h _⟩

-- What a reference is bound to once its swaps are registered.
def binding? (claims : Claims) (swaps : SwapTable) (access : Access) : Reference → Option Binding
  | .host kind => some (.fixed ⟨kind, 0, access⟩)
  | .pooled slot => match claims.resolve slot with
    | .ok (kind, index) => some (.fixed ⟨kind, index, access⟩)
    | .error _ => none
  | .swapping (.permanent current) (.permanent other) =>
    if current < claims.permanentCount ∧ other < claims.permanentCount then
      (swaps.find? (claims.base + current) (claims.base + other)).map fun entry =>
        .swapping entry (claims.base + current) access
    else none
  | .swapping _ _ => none

-- Inputs come before outputs.
def bindings (claims : Claims) (swaps : SwapTable) (b : Bindings) : List (Option Binding) :=
  b.inputs.map (claims.binding? swaps .read) ++ b.outputs.map (claims.binding? swaps .write)

theorem resolve_permanent_ok {claims : Claims} {i : Nat} {kind : ResourceKind} {index : Nat}
    (h : claims.resolve (.permanent i) = .ok (kind, index)) :
    i < claims.permanentCount ∧ kind = .permanentPool ∧ index = claims.base + i := by
  simp only [resolve] at h
  split at h
  · cases h
    exact ⟨‹_›, rfl, rfl⟩
  · cases h

theorem resolve_permanent {claims : Claims} {i : Nat} (h : i < claims.permanentCount) :
    claims.resolve (.permanent i) = .ok (.permanentPool, claims.base + i) := by
  simp [resolve, h]

-- A binding, with the swap table that its roles are registered in.
def attach (claims : Claims) (swaps : SwapTable) (access : Access) :
    Reference → Except Failure (Binding × SwapTable)
  | .host kind => .ok (.fixed ⟨kind, 0, access⟩, swaps)
  | .pooled slot =>
    (claims.resolve slot).map fun (kind, index) => (.fixed ⟨kind, index, access⟩, swaps)
  | .swapping (.permanent current) (.permanent other) =>
    if current < claims.permanentCount ∧ other < claims.permanentCount then
      (swaps.register (claims.base + current) (claims.base + other)).map fun (entry, swaps) =>
        (.swapping entry (claims.base + current) access, swaps)
    else .error (.invalidArgument .unknownPermanentSlot)
  | .swapping _ _ => .error .invalidSwap

-- A reference is to a texture of the host, to a slot, or to two permanent slots whose roles are
-- then registered.
theorem attach_eq_ok_iff {claims : Claims} {swaps swaps' : SwapTable} {access : Access}
    {r : Reference} {binding : Binding} : claims.attach swaps access r = .ok (binding, swaps') ↔
    (∃ kind, r = .host kind ∧ binding = .fixed ⟨kind, 0, access⟩ ∧ swaps' = swaps) ∨
    (∃ slot kind index, r = .pooled slot ∧ claims.resolve slot = .ok (kind, index) ∧
      binding = .fixed ⟨kind, index, access⟩ ∧ swaps' = swaps) ∨
    ∃ current other entry, r = .swapping (.permanent current) (.permanent other) ∧
      current < claims.permanentCount ∧ other < claims.permanentCount ∧
      swaps.register (claims.base + current) (claims.base + other) = .ok (entry, swaps') ∧
      binding = .swapping entry (claims.base + current) access := by
  constructor
  · intro h
    unfold attach at h
    split at h
    · rename_i kind
      cases h
      exact .inl ⟨kind, rfl, rfl, rfl⟩
    · rename_i slot
      cases hslot : claims.resolve slot with
      | error e => simp [hslot, Except.map] at h
      | ok resolved =>
        simp only [hslot, Except.map, Except.ok.injEq, Prod.mk.injEq] at h
        exact .inr (.inl ⟨slot, _, _, rfl, hslot, h.1.symm, h.2.symm⟩)
    · split at h
      · rename_i i j hij
        cases hregister : swaps.register (claims.base + i) (claims.base + j) with
        | error e => simp [hregister, Except.map] at h
        | ok registered =>
          simp only [hregister, Except.map, Except.ok.injEq, Prod.mk.injEq] at h
          exact .inr (.inr ⟨i, j, registered.1, rfl, hij.1, hij.2, by rw [hregister, ← h.2],
            h.1.symm⟩)
      · cases h
    · cases h
  · rintro (⟨kind, rfl, rfl, rfl⟩ | ⟨slot, kind, index, rfl, hslot, rfl, rfl⟩ |
      ⟨i, j, entry, rfl, hi, hj, hregister, rfl⟩)
    · rfl
    · rw [attach, hslot]
      rfl
    · rw [attach, if_pos ⟨hi, hj⟩, hregister]
      rfl

-- A pair that a denoiser registers joins two of its own textures, in their first roles.
def OwnPair (claims : Claims) (pair : SwapPair) : Prop :=
  claims.Owns pair.first ∧ claims.Owns pair.second ∧ pair.first ≠ pair.second ∧
    pair.swapped = false

end Claims

namespace SwapTable

variable {t t' : SwapTable} {a b entry : Nat}

theorem register_ok (h : t.register a b = .ok (entry, t')) :
    a ≠ b ∧ t'.find? a b = some entry ∧
      (t' = t ∨ t'.pairs = t.pairs.push { first := a, second := b }) := by
  unfold register at h
  split at h
  · cases h
  rename_i hne
  split at h
  · rename_i e hfound
    cases h
    exact ⟨hne, hfound, .inl rfl⟩
  · rename_i hnone
    split at h
    · cases h
    split at h
    · cases h
    cases h
    refine ⟨hne, ?_, .inr rfl⟩
    rw [find?, Array.findIdx?_push, hnone]
    simp [size, SwapPair.joins]

end SwapTable

theorem Claims.binding?_grows {claims : Claims} {P : SwapPair → Prop} {swaps swaps' : SwapTable}
    {access : Access} {r : Reference} {binding : Binding} (hg : Grows P swaps.pairs swaps'.pairs)
    (h : claims.binding? swaps access r = some binding) :
    claims.binding? swaps' access r = some binding := by
  cases r with
  | host kind => exact h
  | pooled slot => exact h
  | swapping current other =>
    cases current with
    | transient i => simp [binding?] at h
    | permanent i =>
      cases other with
      | transient j => simp [binding?] at h
      | permanent j =>
        simp only [binding?] at h ⊢
        split at h
        · rename_i hij
          obtain ⟨entry, hentry, rfl⟩ := Option.map_eq_some_iff.mp h
          have hentry' : swaps'.find? (claims.base + i) (claims.base + j) = some entry :=
            hg.findIdx? hentry
          simp [hij, hentry']
        · cases h

namespace Claims

variable {claims : Claims} {swaps swaps' : SwapTable} {access : Access} {r : Reference}
  {binding : Binding}

theorem attach_grows (h : claims.attach swaps access r = .ok (binding, swaps')) :
    Grows claims.OwnPair swaps.pairs swaps'.pairs := by
  rcases attach_eq_ok_iff.mp h with ⟨-, -, -, rfl⟩ | ⟨-, -, -, -, -, -, rfl⟩ |
    ⟨i, j, entry, -, hi, hj, hregister, -⟩
  · exact .refl _
  · exact .refl _
  · obtain ⟨hne, -, rfl | hpush⟩ := SwapTable.register_ok hregister
    · exact .refl _
    · rw [hpush]
      exact .push ⟨owns_base_add hi, owns_base_add hj, hne, rfl⟩

theorem binding?_of_attach (h : claims.attach swaps access r = .ok (binding, swaps')) :
    claims.binding? swaps' access r = some binding := by
  rcases attach_eq_ok_iff.mp h with ⟨kind, rfl, rfl, -⟩ | ⟨slot, kind, index, rfl, hslot, rfl, -⟩ |
    ⟨i, j, entry, rfl, hi, hj, hregister, rfl⟩
  · rfl
  · simp [binding?, hslot]
  · obtain ⟨-, hentry, -⟩ := SwapTable.register_ok hregister
    simp [binding?, hi, hj, hentry]

end Claims

def Draft.withSwaps (d : Draft) (swaps : SwapTable) : Draft :=
  { d with tables := { d.tables with swaps := swaps } }

namespace Declaring

variable {d d' : Draft}

-- A draft whose swaps have become `swaps`, and whose open pass is `pass`.
def withOpen (d : Draft) (swaps : SwapTable) (pass : OpenPass) : Draft where
  tables := { d.tables with swaps := swaps }
  denoiser := { d.denoiser with pending := some pass }

theorem openPass_ok {stage : Stage} (h : openPass stage d = .ok ⟨⟩ d') :
    d.denoiser.pending = none ∧ d' = withOpen d d.tables.swaps { stage } := by
  simp only [openPass, bind_eq_ok_iff, get_eq_ok_iff, guard_eq_ok_iff, modify_eq_ok_iff] at h
  obtain ⟨_, _, ⟨rfl, rfl⟩, hpending, rfl⟩ := h
  exact ⟨by simpa using hpending, rfl⟩

theorem resolve_eq (slot : Slot) (d : Draft) :
    resolve slot d = match d.denoiser.claims.resolve slot with
      | .ok resolved => .ok resolved d
      | .error e => .error e d := by
  show (match d.denoiser.claims.resolve slot with
    | .ok resolved => pure resolved
    | .error e => throw e : Declaring (ResourceKind × Nat)) d = _
  cases d.denoiser.claims.resolve slot <;> rfl

theorem registerSwap_eq (a b : Nat) (d : Draft) :
    registerSwap a b d = match d.tables.swaps.register a b with
      | .ok (entry, swaps) => .ok entry (d.withSwaps swaps)
      | .error e => .error e d := by
  show (match d.tables.swaps.register a b with
    | .ok (entry, swaps) => do
      modify fun d => d.withSwaps swaps
      pure entry
    | .error e => throw e : Declaring Nat) d = _
  cases d.tables.swaps.register a b <;> rfl

-- Binding reads the claims and the swap table, and writes the swap table.
theorem bind_eq (access : Access) (r : Reference) (d : Draft) :
    Declaring.bind access r d = match d.denoiser.claims.attach d.tables.swaps access r with
      | .ok (binding, swaps) => .ok binding (d.withSwaps swaps)
      | .error e => .error e d := by
  cases r with
  | host kind => rfl
  | pooled slot =>
    show (resolve slot >>= _ : Declaring Binding) d = _
    simp only [Claims.attach]
    show EStateM.bind _ _ d = _
    rw [EStateM.bind, resolve_eq]
    cases d.denoiser.claims.resolve slot <;> rfl
  | swapping current other =>
    cases current with
    | transient i => rfl
    | permanent i =>
      cases other with
      | transient j => rfl
      | permanent j =>
        simp only [Claims.attach]
        show EStateM.bind _ _ d = _
        rw [EStateM.bind, resolve_eq, Claims.resolve]
        by_cases hi : i < d.denoiser.claims.permanentCount
        · rw [if_pos hi]
          show EStateM.bind _ _ d = _
          rw [EStateM.bind, resolve_eq, Claims.resolve]
          by_cases hj : j < d.denoiser.claims.permanentCount
          · rw [if_pos hj, if_pos ⟨hi, hj⟩]
            show EStateM.bind _ _ d = _
            rw [EStateM.bind, registerSwap_eq]
            cases d.tables.swaps.register (d.denoiser.claims.base + i)
              (d.denoiser.claims.base + j) <;> rfl
          · rw [if_neg hj, if_neg fun h => hj h.2]
        · rw [if_neg hi, if_neg fun h => hi h.1]

-- Binding changes nothing but the swap table, which gains at most one pair.
theorem bind_reference_ok {access : Access} {r : Reference} {binding : Binding}
    (h : bind access r d = .ok binding d') :
    ∃ swaps, d' = { d with tables := { d.tables with swaps := swaps } } ∧
      Grows d.denoiser.claims.OwnPair d.tables.swaps.pairs swaps.pairs ∧
      d.denoiser.claims.binding? swaps access r = some binding := by
  rw [bind_eq] at h
  split at h
  · rename_i swaps hattach
    cases h
    exact ⟨swaps, rfl, Claims.attach_grows hattach, Claims.binding?_of_attach hattach⟩
  · cases h

theorem modifyPass_withOpen_ok {swaps : SwapTable} {pass : OpenPass} {f : OpenPass → OpenPass}
    (h : modifyPass f (withOpen d swaps pass) = .ok ⟨⟩ d') : d' = withOpen d swaps (f pass) := by
  simp only [modifyPass, bind_eq_ok_iff, get_eq_ok_iff] at h
  obtain ⟨_, _, ⟨rfl, rfl⟩, h⟩ := h
  simp only [withOpen, modify_eq_ok_iff] at h
  exact h.symm

theorem addInput_ok {swaps : SwapTable} {pass : OpenPass} {r : Reference}
    (h : addInput r (withOpen d swaps pass) = .ok ⟨⟩ d') :
    ∃ swaps' binding,
      d' = withOpen d swaps' { pass with inputs := pass.inputs.push binding } ∧
      Grows d.denoiser.claims.OwnPair swaps.pairs swaps'.pairs ∧
      d.denoiser.claims.binding? swaps' .read r = some binding := by
  simp only [addInput, guard_eq_ok_iff, bind_eq_ok_iff] at h
  obtain ⟨-, binding, d₁, hbind, h⟩ := h
  obtain ⟨swaps', rfl, hgrows, hbinding⟩ := bind_reference_ok hbind
  exact ⟨swaps', binding, modifyPass_withOpen_ok h, hgrows, hbinding⟩

theorem addOutput_ok {swaps : SwapTable} {pass : OpenPass} {r : Reference}
    (h : addOutput r (withOpen d swaps pass) = .ok ⟨⟩ d') :
    ∃ swaps' binding,
      d' = withOpen d swaps' { pass with outputs := pass.outputs.push binding } ∧
      Grows d.denoiser.claims.OwnPair swaps.pairs swaps'.pairs ∧
      d.denoiser.claims.binding? swaps' .write r = some binding := by
  simp only [addOutput, guard_eq_ok_iff, bind_eq_ok_iff] at h
  obtain ⟨-, binding, d₁, hbind, h⟩ := h
  obtain ⟨swaps', rfl, hgrows, hbinding⟩ := bind_reference_ok hbind
  exact ⟨swaps', binding, modifyPass_withOpen_ok h, hgrows, hbinding⟩

end Declaring

end DenoisePlanner
