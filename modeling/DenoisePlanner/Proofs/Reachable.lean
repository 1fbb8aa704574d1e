import DenoisePlanner.Planner.Frame
import DenoisePlanner.Proofs.Roster
import DenoisePlanner.Proofs.Scratch

namespace DenoisePlanner

namespace DenoiserState

-- A frame that only shows inputs leaves the denoiser where it was.
def moves (d : DenoiserState) (s : FrameSettings) : Bool := !(d.switches s).isPassthrough

def next (d : DenoiserState) (s : FrameSettings) : DenoiserState :=
  if d.moves s then d.advance s else d

end DenoiserState

namespace Planner

variable {p p' : Planner} {store : ShaderStore} {flipped : Nat → Bool}

-- A planner whose roster is sound and whose inventory lists the pipelines of its tables.
structure Sound (p : Planner) (store : ShaderStore) (flipped : Nat → Bool) : Prop where
  roster : Roster.Sound ⟨p.tables, p.denoisers⟩ flipped
  inventory : p.inventory.pipelines =
    p.tables.pipelines.pipelines.map fun q => ⟨q, store.bytecode q.key⟩

-- The denoisers of a planner as they were asked for.
def roll (p : Planner) : List (Identifier × Variant) := Roster.roll ⟨p.tables, p.denoisers⟩

theorem create_ok {denoisers : List (Identifier × Variant)}
    (h : (create denoisers store).result = .ok p) :
    p.Sound store (fun _ => false) ∧ p.roll = denoisers ∧ (∀ d ∈ p.denoisers, d.Fresh) ∧
      p.settings = {} := by
  unfold create at h
  split at h
  · cases h
  · split at h
    · cases h
    · rename_i tables members henlist
      cases h
      obtain ⟨hsound, hroll, hfresh⟩ := Roster.enlistAll_ok henlist
      exact ⟨⟨hsound, rfl⟩, hroll, hfresh, rfl⟩

theorem scratch_of_create {denoisers : List (Identifier × Variant)}
    (h : (create denoisers store).result = .ok p) : p.scratch = {} := by
  unfold create at h
  split at h
  · cases h
  · split at h
    · cases h
    · cases h
      rfl

-- Every denoiser that was asked for is there.
theorem exists_denoiser {denoisers : List (Identifier × Variant)}
    (hcreate : (create denoisers store).result = .ok p) {identifier : Identifier} {v : Variant}
    (hmem : (identifier, v) ∈ denoisers) :
    ∃ d ∈ p.denoisers, d.identifier = identifier ∧ d.variant = v ∧ d.Fresh := by
  obtain ⟨-, hroll, hfresh, -⟩ := create_ok hcreate
  rw [← hroll] at hmem
  obtain ⟨d, hd, heq⟩ := List.mem_map.mp hmem
  have hd := Array.mem_toList_iff.mp hd
  exact ⟨d, hd, congrArg Prod.fst heq, congrArg Prod.snd heq, hfresh d hd⟩

theorem position?_eq_some {identifier : Identifier} {i : Nat}
    (h : p.position? identifier = some i) :
    ∃ d, p.denoisers[i]? = some d ∧ d.identifier = identifier := by
  obtain ⟨hlt, hid, -⟩ := Array.findIdx?_eq_some_iff_getElem.mp h
  exact ⟨p.denoisers[i], Array.getElem?_eq_getElem hlt, by simpa using hid⟩

theorem setFrameSettings_ok {s : FrameSettings} (h : p.setFrameSettings s = .ok p') :
    s.validate = .ok () ∧ p' = { p with settings := s } := by
  unfold setFrameSettings at h
  cases hvalid : s.validate with
  | error e => simp [hvalid, bind, Except.bind] at h
  | ok u =>
    simp only [hvalid, bind, Except.bind, pure, Except.pure, Except.ok.injEq] at h
    exact ⟨rfl, h.symm⟩

theorem setDenoiserSettings_ok {identifier : Identifier} {s : DenoiserSettings}
    (h : p.setDenoiserSettings identifier s = .ok p') :
    ∃ i d, p.position? identifier = some i ∧ p.denoisers[i]? = some d ∧
      d.identifier = identifier ∧ s.family = d.variant.family ∧ s.validate = .ok () ∧
      p' = { p with denoisers := p.denoisers.modify i fun d => { d with settings := s } } := by
  unfold setDenoiserSettings at h
  split at h
  · cases h
  · rename_i i hi
    obtain ⟨d, hd, hid⟩ := position?_eq_some hi
    simp only [hd, Option.map_some, Option.getD_some] at h
    by_cases hfamily : s.family = d.variant.family
    · cases hvalid : s.validate with
      | error e => simp [hfamily, hvalid, bind, Except.bind] at h
      | ok u =>
        simp only [hfamily, hvalid, bind, Except.bind, pure, Except.pure, bne_self_eq_false,
          Bool.false_eq_true, if_false, Except.ok.injEq] at h
        exact ⟨i, d, hi, hd, hid, hfamily, rfl, h.symm⟩
    · simp [hfamily, bind, Except.bind, throw, throwThe, MonadExceptOf.throw] at h

theorem Sound.setFrameSettings (h : p.Sound store flipped) {s : FrameSettings}
    (hset : p.setFrameSettings s = .ok p') : p'.Sound store flipped := by
  obtain ⟨-, rfl⟩ := setFrameSettings_ok hset
  exact ⟨h.roster, h.inventory⟩

theorem Sound.setDenoiserSettings (h : p.Sound store flipped) {identifier : Identifier}
    {s : DenoiserSettings} (hset : p.setDenoiserSettings identifier s = .ok p') :
    p'.Sound store flipped := by
  obtain ⟨i, d, -, hi, -, hfamily, -, rfl⟩ := setDenoiserSettings_ok hset
  have hget (j : Nat) : (p.denoisers.modify i fun d => { d with settings := s })[j]? =
      if j = i then some { d with settings := s } else p.denoisers[j]? := by
    rw [Array.getElem?_modify]
    split
    · rename_i hij
      rw [if_pos hij.symm, ← hij, hi, Option.map_some]
    · rename_i hij
      rw [if_neg (Ne.symm hij)]
  exact ⟨h.roster.replace hi hget rfl rfl rfl hfamily, h.inventory⟩

-- Where a denoiser stands after its part in a frame, and in which phase.
structure Moved (p p' : Planner) (store : ShaderStore) (flipped : Nat → Bool) (i : Nat)
    (d : DenoiserState) : Prop where
  sound : p'.Sound store fun j => if j = i then flipped j != d.moves p.settings else flipped j
  denoisers : ∀ j : Nat, p'.denoisers[j]? =
    if j = i then some (d.next p.settings) else p.denoisers[j]?
  settings : p'.settings = p.settings
  inventory : p'.inventory = p.inventory

theorem Sound.advance (h : p.Sound store flipped) {i : Nat} {d : DenoiserState}
    (hi : p.denoisers[i]? = some d) : p.Moved (p.advance i d (p.plan d)) store flipped i d := by
  cases hpassthrough : (d.switches p.settings).isPassthrough with
  | true =>
    have hp : p.advance i d (p.plan d) = p := by simp [Planner.advance, plan, hpassthrough]
    have hmoves : d.moves p.settings = false := by simp [DenoiserState.moves, hpassthrough]
    rw [hp]
    refine ⟨?_, ?_, rfl, rfl⟩
    · simpa [hmoves] using h
    · intro j
      split
      · subst j
        simp [hi, DenoiserState.next, hmoves]
      · rfl
  | false =>
    have hp : p.advance i d (p.plan d) =
        { p with
          tables := p.tables.exchanged d.layout.swaps
          denoisers := p.denoisers.setIfInBounds i (d.advance p.settings) } := by
      simp [Planner.advance, plan, hpassthrough, Declarations.exchanged, SwapTable.exchanged]
    have hmoves : d.moves p.settings = true := by simp [DenoiserState.moves, hpassthrough]
    have hget (j : Nat) : (p.denoisers.setIfInBounds i (d.advance p.settings))[j]? =
        if j = i then some (d.advance p.settings) else p.denoisers[j]? := by
      rw [Array.getElem?_setIfInBounds]
      split
      · subst j
        simpa using (Array.getElem?_eq_some_iff.mp hi).1
      · rename_i hij
        rw [if_neg (Ne.symm hij)]
    rw [hp]
    refine ⟨⟨?_, h.inventory⟩, ?_, rfl, rfl⟩
    · simp only [hmoves, Bool.bne_true]
      exact (h.roster.exchange hi).replace hi hget rfl rfl rfl (h.roster.family i d hi)
    · intro j
      simpa [DenoiserState.next, hmoves] using hget j

theorem scratch_advance (p : Planner) (i : Nat) (d : DenoiserState) (plan : DenoiserPlan) :
    (p.advance i d plan).scratch = p.scratch := by
  unfold Planner.advance
  split <;> rfl

theorem Sound.withScratch (h : p.Sound store flipped) (scratch : ScratchBuffer) :
    Sound { p with scratch := scratch } store flipped := ⟨h.roster, h.inventory⟩

section Runs

variable {policy : MemoryPolicy} {i : Nat} {d : DenoiserState} {rest : List Nat}
  {plans : List PlacedPlan}

theorem runAll_cons_of_none (hi : p.denoisers[i]? = none) :
    p.runAll policy (i :: rest) = p.runAll policy rest := by
  rw [Planner.runAll]
  simp only [hi]

theorem runAll_cons_of_error (hi : p.denoisers[i]? = some d) {failure : Failure}
    (h : (p.runDenoiser policy i d).result = .error failure) :
    p.runAll policy (i :: rest) =
      let first := p.runDenoiser policy i d
      ⟨first.planner, first.calls, first.log, .error failure⟩ := by
  rw [Planner.runAll]
  simp only [hi, h]

theorem runAll_cons_of_ok (hi : p.denoisers[i]? = some d) {placed : PlacedPlan}
    (h : (p.runDenoiser policy i d).result = .ok placed) :
    p.runAll policy (i :: rest) =
      let first := p.runDenoiser policy i d
      let others := first.planner.runAll policy rest
      ⟨others.planner, first.calls ++ others.calls, first.log ++ others.log,
        others.result.map (placed :: ·)⟩ := by
  rw [Planner.runAll]
  simp only [hi, h]

-- A run gets through if its first denoiser is served and those after it are.
theorem exists_of_runAll_cons (hi : p.denoisers[i]? = some d)
    (h : (p.runAll policy (i :: rest)).result = .ok plans) :
    ∃ placed others, (p.runDenoiser policy i d).result = .ok placed ∧
      ((p.runDenoiser policy i d).planner.runAll policy rest).result = .ok others ∧
      plans = placed :: others := by
  cases hfirst : (p.runDenoiser policy i d).result with
  | error failure =>
    rw [runAll_cons_of_error hi hfirst] at h
    cases h
  | ok placed =>
    rw [runAll_cons_of_ok hi hfirst] at h
    obtain ⟨others, hothers, heq⟩ := map_eq_ok_iff.mp h
    exact ⟨placed, others, rfl, hothers, heq.symm⟩

-- A run that gets through its first stretch goes on from there.
theorem planner_runAll_append {pre : List Nat} (h : (p.runAll policy pre).result = .ok plans)
    (post : List Nat) :
    (p.runAll policy (pre ++ post)).planner =
      ((p.runAll policy pre).planner.runAll policy post).planner := by
  induction pre generalizing p plans with
  | nil => rfl
  | cons i pre ih =>
    rw [List.cons_append]
    cases hi : p.denoisers[i]? with
    | none =>
      rw [runAll_cons_of_none hi] at h
      rw [runAll_cons_of_none hi, runAll_cons_of_none hi]
      exact ih h
    | some d =>
      obtain ⟨placed, others, hfirst, hothers, -⟩ := exists_of_runAll_cons hi h
      rw [runAll_cons_of_ok hi hfirst, runAll_cons_of_ok hi hfirst]
      exact ih hothers

end Runs

section Preserves

variable {P : Planner → Prop}

-- A frame changes nothing but the memory and the denoisers that it moves on. What survives
-- both survives the frame, whatever becomes of the constants.
theorem runDenoiser_preserves (hscratch : ∀ q scratch, P q → P { q with scratch := scratch })
    (hadvance : ∀ q i d, q.denoisers[i]? = some d → P q → P (q.advance i d (q.plan d)))
    (policy : MemoryPolicy) {i : Nat} {d : DenoiserState} (hi : p.denoisers[i]? = some d)
    (h : P p) : P (p.runDenoiser policy i d).planner := by
  unfold Planner.runDenoiser
  dsimp only
  split
  · exact hscratch _ _ h
  · have hstored := hscratch p (p.scratch.pushAll policy
      ((p.plan d).dispatches.map (·.constants))).buffer h
    exact hadvance { p with scratch := (p.scratch.pushAll policy
      ((p.plan d).dispatches.map (·.constants))).buffer } i d hi hstored

theorem runAll_preserves (hscratch : ∀ q scratch, P q → P { q with scratch := scratch })
    (hadvance : ∀ q i d, q.denoisers[i]? = some d → P q → P (q.advance i d (q.plan d)))
    (policy : MemoryPolicy) (positions : List Nat) (h : P p) :
    P (p.runAll policy positions).planner := by
  induction positions generalizing p with
  | nil => exact h
  | cons i rest ih =>
    cases hi : p.denoisers[i]? with
    | none =>
      rw [runAll_cons_of_none hi]
      exact ih h
    | some d =>
      have hfirst := runDenoiser_preserves hscratch hadvance policy hi h
      cases hresult : (p.runDenoiser policy i d).result with
      | error failure =>
        rw [runAll_cons_of_error hi hresult]
        exact hfirst
      | ok placed =>
        rw [runAll_cons_of_ok hi hresult]
        exact ih hfirst

theorem frame_preserves (hscratch : ∀ q scratch, P q → P { q with scratch := scratch })
    (hadvance : ∀ q i d, q.denoisers[i]? = some d → P q → P (q.advance i d (q.plan d)))
    (policy : MemoryPolicy) (identifiers : List Identifier) (h : P p) :
    P (p.frame policy identifiers).planner := by
  unfold Planner.frame
  split
  · exact h
  · exact runAll_preserves hscratch hadvance policy _ (hscratch _ _ h)

end Preserves

theorem Sound.advances (store : ShaderStore) (q : Planner) (i : Nat) (d : DenoiserState)
    (hi : q.denoisers[i]? = some d) (h : ∃ flipped, q.Sound store flipped) :
    ∃ flipped, (q.advance i d (q.plan d)).Sound store flipped := by
  obtain ⟨flipped, h⟩ := h
  exact ⟨_, (h.advance hi).sound⟩

theorem Sound.runDenoiser (h : p.Sound store flipped) (policy : MemoryPolicy) {i : Nat}
    {d : DenoiserState} (hi : p.denoisers[i]? = some d) :
    ∃ flipped', (p.runDenoiser policy i d).planner.Sound store flipped' :=
  runDenoiser_preserves (fun _ scratch h => h.imp fun _ h => h.withScratch scratch)
    (Sound.advances store) policy hi ⟨flipped, h⟩

theorem Sound.frame (h : p.Sound store flipped) (policy : MemoryPolicy)
    (identifiers : List Identifier) :
    ∃ flipped', (p.frame policy identifiers).planner.Sound store flipped' :=
  frame_preserves (fun _ scratch h => h.imp fun _ h => h.withScratch scratch)
    (Sound.advances store) policy identifiers ⟨flipped, h⟩

-- The planners that come of a creation and any calls after it, failed frames included.
inductive Reachable (denoisers : List (Identifier × Variant)) (store : ShaderStore) :
    Planner → Prop where
  | created {p : Planner} : (create denoisers store).result = .ok p → Reachable denoisers store p
  | setFrameSettings {p p' : Planner} (s : FrameSettings) : Reachable denoisers store p →
    p.setFrameSettings s = .ok p' → Reachable denoisers store p'
  | setDenoiserSettings {p p' : Planner} (identifier : Identifier) (s : DenoiserSettings) :
    Reachable denoisers store p → p.setDenoiserSettings identifier s = .ok p' →
      Reachable denoisers store p'
  | frame {p : Planner} (policy : MemoryPolicy) (identifiers : List Identifier) :
    Reachable denoisers store p → Reachable denoisers store (p.frame policy identifiers).planner

theorem Reachable.sound {denoisers : List (Identifier × Variant)}
    (h : Reachable denoisers store p) : ∃ flipped, p.Sound store flipped := by
  induction h with
  | created h => exact ⟨_, (create_ok h).1⟩
  | setFrameSettings s _ hset ih =>
    obtain ⟨flipped, h⟩ := ih
    exact ⟨flipped, h.setFrameSettings hset⟩
  | setDenoiserSettings identifier s _ hset ih =>
    obtain ⟨flipped, h⟩ := ih
    exact ⟨flipped, h.setDenoiserSettings hset⟩
  | frame policy identifiers _ ih =>
    obtain ⟨flipped, h⟩ := ih
    exact h.frame policy identifiers

end Planner

end DenoisePlanner
