import DenoisePlanner.Proofs.Creation
import DenoisePlanner.Proofs.Demand
import DenoisePlanner.Proofs.Passthrough

namespace DenoisePlanner

def MemoryCall.size : MemoryCall → Nat
  | .allocate block _ => block.size
  | .reallocate _ size _ => size
  | .free block => block.size

namespace ScratchBuffer

variable {a b c : ScratchBuffer} {calls calls' : List MemoryCall} {policy : MemoryPolicy}

theorem le_powerOfTwo (n : Nat) : n ≤ powerOfTwo n := by
  unfold powerOfTwo
  split
  · assumption
  · have hlog : n - 1 < 2 ^ ((n - 1).log2 + 1) := Nat.lt_log2_self
    rw [Nat.one_shiftLeft]
    omega

theorem grownCapacity_ok {required size : Nat} (h : grownCapacity required = .ok size) :
    required ≤ size ∧ 0 < size := by
  have hpower := le_powerOfTwo required
  unfold grownCapacity at h
  dsimp only at h
  split at h
  · cases h
  · split at h
    · cases h
    · cases h
      simp only [minCapacity]
      omega

-- The requests that lead from one buffer to another ask for more and more.
structure Climbs (b b' : ScratchBuffer) (calls : List MemoryCall) : Prop where
  capacity_le : b.capacity ≤ b'.capacity
  above : ∀ call ∈ calls, b.capacity < call.size
  increasing : (calls.map MemoryCall.size).Pairwise (· < ·)

-- None of them was refused.
structure Granted (b b' : ScratchBuffer) (calls : List MemoryCall) : Prop extends
    Climbs b b' calls where
  within : ∀ call ∈ calls, call.size ≤ b'.capacity

theorem Granted.refl (h : c.capacity = b.capacity) : Granted b c [] :=
  ⟨⟨Nat.le_of_eq h.symm, by simp, by simp⟩, by simp⟩

theorem Granted.append_climbs (h : Granted a b calls) (h' : Climbs b c calls') :
    Climbs a c (calls ++ calls') where
  capacity_le := Nat.le_trans h.capacity_le h'.capacity_le
  above := fun call hcall => by
    rcases List.mem_append.mp hcall with hcall | hcall
    · exact h.above call hcall
    · exact Nat.lt_of_le_of_lt h.capacity_le (h'.above call hcall)
  increasing := by
    rw [List.map_append, List.pairwise_append]
    refine ⟨h.increasing, h'.increasing, fun x hx y hy => ?_⟩
    obtain ⟨call, hcall, rfl⟩ := List.mem_map.mp hx
    obtain ⟨call', hcall', rfl⟩ := List.mem_map.mp hy
    exact Nat.lt_of_le_of_lt (h.within call hcall) (h'.above call' hcall')

theorem Granted.append (h : Granted a b calls) (h' : Granted b c calls') :
    Granted a c (calls ++ calls') where
  toClimbs := h.append_climbs h'.toClimbs
  within := fun call hcall => by
    rcases List.mem_append.mp hcall with hcall | hcall
    · exact Nat.le_trans (h.within call hcall) h'.capacity_le
    · exact h'.within call hcall

theorem size_growthCall (b : ScratchBuffer) (size : Nat) (granted : Bool) :
    (b.growthCall size granted).size = size := by
  unfold growthCall
  split <;> rfl

theorem reserve_climbs (b : ScratchBuffer) (policy : MemoryPolicy) (required : Nat) :
    Climbs b (b.reserve policy required).buffer (b.reserve policy required).call.toList ∧
      ((b.reserve policy required).result = .ok () →
        Granted b (b.reserve policy required).buffer
          (b.reserve policy required).call.toList) := by
  unfold reserve
  split
  · exact ⟨(Granted.refl rfl).toClimbs, fun _ => .refl rfl⟩
  · rename_i hfull
    split
    · exact ⟨(Granted.refl rfl).toClimbs, fun _ => .refl rfl⟩
    · rename_i size hsize
      obtain ⟨hrequired, hpos⟩ := grownCapacity_ok hsize
      have hmore : b.capacity < size := by omega
      split
      · have hgranted : Granted b { b with capacity := size } [b.growthCall size true] :=
          ⟨⟨Nat.le_of_lt hmore, by simp [size_growthCall, hmore], by simp⟩, by
            simp [size_growthCall]⟩
        exact ⟨hgranted.toClimbs, fun _ => hgranted⟩
      · exact ⟨⟨Nat.le_refl _, by simp [size_growthCall, hmore], by simp⟩, fun h => by cases h⟩

theorem push_climbs (b : ScratchBuffer) (policy : MemoryPolicy) (chunks : List ByteArray) :
    Climbs b (b.push policy chunks).buffer (b.push policy chunks).call.toList ∧
      ∀ place, (b.push policy chunks).result = .ok place →
        Granted b (b.push policy chunks).buffer (b.push policy chunks).call.toList := by
  unfold push
  dsimp only
  split
  · exact ⟨(Granted.refl rfl).toClimbs, fun _ _ => .refl rfl⟩
  · obtain ⟨hclimbs, hgranted⟩ := b.reserve_climbs policy (alignUp b.length + (join chunks).size)
    split
    · exact ⟨hclimbs, fun _ h => by cases h⟩
    · rename_i hroom
      have hstored := (hgranted hroom).append (Granted.refl (c := store _ (join chunks)) rfl)
      rw [List.append_nil] at hstored
      exact ⟨hstored.toClimbs, fun _ _ => hstored⟩

theorem pushAll_climbs (b : ScratchBuffer) (policy : MemoryPolicy) (blocks : List (List ByteArray)) :
    Climbs b (b.pushAll policy blocks).buffer (b.pushAll policy blocks).calls ∧
      ∀ places, (b.pushAll policy blocks).result = .ok places →
        Granted b (b.pushAll policy blocks).buffer (b.pushAll policy blocks).calls := by
  induction blocks generalizing b with
  | nil => exact ⟨(Granted.refl rfl).toClimbs, fun _ _ => .refl rfl⟩
  | cons block blocks ih =>
    obtain ⟨hclimbs, hgranted⟩ := b.push_climbs policy block
    obtain ⟨hrest, hrest'⟩ := ih (b.push policy block).buffer
    cases hfirst : (b.push policy block).result with
    | error failure =>
      rw [pushAll_cons_of_error hfirst]
      exact ⟨hclimbs, fun _ h => by cases h⟩
    | ok place =>
      rw [pushAll_cons_of_ok hfirst]
      refine ⟨(hgranted place hfirst).append_climbs hrest, fun places h => ?_⟩
      obtain ⟨others, hothers, -⟩ := map_eq_ok_iff.mp h
      exact (hgranted place hfirst).append (hrest' others hothers)

end ScratchBuffer

namespace Planner

variable {p q r : Planner} {store : ShaderStore} {flipped : Nat → Bool} {policy : MemoryPolicy}
  {i j : Nat} {d x : DenoiserState} {indices : List Nat} {identifiers : List Identifier}
  {failure : Failure}

section Requests

open ScratchBuffer

theorem runDenoiser_climbs (p : Planner) (policy : MemoryPolicy) (i : Nat) (d : DenoiserState) :
    Climbs p.scratch (p.runDenoiser policy i d).planner.scratch (p.runDenoiser policy i d).calls ∧
      ∀ placed, (p.runDenoiser policy i d).result = .ok placed →
        Granted p.scratch (p.runDenoiser policy i d).planner.scratch
          (p.runDenoiser policy i d).calls := by
  obtain ⟨hclimbs, hgranted⟩ :=
    p.scratch.pushAll_climbs policy ((p.plan d).dispatches.map (·.constants))
  unfold Planner.runDenoiser
  dsimp only
  split
  · exact ⟨hclimbs, fun _ h => by cases h⟩
  · rename_i places hplaces
    simp only [scratch_advance]
    exact ⟨hclimbs, fun _ _ => hgranted places hplaces⟩

theorem runAll_climbs (p : Planner) (policy : MemoryPolicy) (indices : List Nat) :
    Climbs p.scratch (p.runAll policy indices).planner.scratch (p.runAll policy indices).calls := by
  induction indices generalizing p with
  | nil => exact (Granted.refl rfl).toClimbs
  | cons i rest ih =>
    cases hi : p.denoisers[i]? with
    | none =>
      rw [runAll_cons_of_none hi]
      exact ih p
    | some d =>
      obtain ⟨hclimbs, hgranted⟩ := p.runDenoiser_climbs policy i d
      cases hfirst : (p.runDenoiser policy i d).result with
      | error failure =>
        rw [runAll_cons_of_error hi hfirst]
        exact hclimbs
      | ok placed =>
        rw [runAll_cons_of_ok hi hfirst]
        exact (hgranted placed hfirst).append_climbs (ih _)

-- So no frame asks twice for the same size, and whoever decides by the size can answer each
-- request of a frame as they please.
theorem frame_calls_increasing (p : Planner) (policy : MemoryPolicy)
    (identifiers : List Identifier) :
    ((p.frame policy identifiers).calls.map MemoryCall.size).Pairwise (· < ·) := by
  unfold Planner.frame
  split
  · exact .nil
  · exact (runAll_climbs _ policy _).increasing

end Requests

-- A denoiser and the roles of its pairs are the same in both planners.
structure Spares (p q : Planner) (j : Nat) (x : DenoiserState) : Prop where
  denoiser : q.denoisers[j]? = some x
  pairs : ∀ entry, x.layout.swaps.start ≤ entry → entry < x.layout.swaps.stop →
    q.tables.swaps.pairs[entry]? = p.tables.swaps.pairs[entry]?

theorem Spares.refl (hj : p.denoisers[j]? = some x) : p.Spares p j x := ⟨hj, fun _ _ _ => rfl⟩

theorem Spares.trans (h : p.Spares q j x) (h' : q.Spares r j x) : p.Spares r j x :=
  ⟨h'.denoiser, fun entry hstart hstop =>
    (h'.pairs entry hstart hstop).trans (h.pairs entry hstart hstop)⟩

theorem Spares.congr (h : p.Spares q j x) (hbare : r.bare = q.bare) : p.Spares r j x := by
  rw [eq_withScratch_of_bare_eq hbare]
  exact ⟨h.denoiser, h.pairs⟩

-- A denoiser that moves on turns over no pair of another.
theorem Sound.advance_spares (h : p.Sound store flipped) (hi : p.denoisers[i]? = some d)
    (hj : p.denoisers[j]? = some x) (hne : j ≠ i) : p.Spares (p.advance i d (p.plan d)) j x := by
  refine ⟨?_, fun entry hstart hstop => ?_⟩
  · rw [(h.advance hi).denoisers, if_neg hne, hj]
  · unfold Planner.advance
    split
    · rfl
    · change (p.tables.swaps.exchanged d.layout.swaps).pairs[entry]? = _
      have hmine := h.roster.installed i d hi
      have htheirs := h.roster.installed j x hj
      rw [SwapTable.getElem?_exchanged hmine.span]
      cases hpair : p.tables.swaps.pairs[entry]? with
      | none => rfl
      | some pair =>
        have howns : x.layout.claims.Owns pair.first :=
          (htheirs.mem_span entry pair hpair).mpr ⟨hstart, hstop⟩
        have houtside : ¬(d.layout.swaps.start ≤ entry ∧ entry < d.layout.swaps.stop) :=
          fun hinside => h.roster.disjoint j i x d hj hi hne _ howns
            ((hmine.mem_span entry pair hpair).mpr hinside)
        rw [Option.map_some, if_neg houtside]

theorem Sound.runDenoiser_spares (h : p.Sound store flipped) (hi : p.denoisers[i]? = some d)
    (hj : p.denoisers[j]? = some x) (hne : j ≠ i) :
    p.Spares (p.runDenoiser policy i d).planner j x := by
  cases hresult : (p.runDenoiser policy i d).result with
  | error failure => exact (Spares.refl hj).congr (bare_runDenoiser_of_error hresult)
  | ok placed =>
    obtain ⟨-, -, hplanner⟩ := runDenoiser_placed hresult
    rw [hplanner]
    exact (h.advance_spares hi hj hne).congr rfl

theorem Sound.runAll_spares (h : p.Sound store flipped) (hj : p.denoisers[j]? = some x)
    (hother : j ∉ indices) : p.Spares (p.runAll policy indices).planner j x := by
  induction indices generalizing p flipped with
  | nil => exact .refl hj
  | cons i rest ih =>
    rw [List.mem_cons, not_or] at hother
    cases hi : p.denoisers[i]? with
    | none =>
      rw [runAll_cons_of_none hi]
      exact ih h hj hother.2
    | some d =>
      have hfirst : p.Spares (p.runDenoiser policy i d).planner j x :=
        h.runDenoiser_spares hi hj hother.1
      obtain ⟨flipped', h'⟩ := h.runDenoiser policy hi
      cases hresult : (p.runDenoiser policy i d).result with
      | error failure =>
        rw [runAll_cons_of_error hi hresult]
        exact hfirst
      | ok placed =>
        rw [runAll_cons_of_ok hi hresult]
        exact hfirst.trans (ih h' hfirst.denoiser hother.2)

-- A frame spares the denoisers that it is not asked for, whatever comes of it.
theorem Sound.frame_spares (h : p.Sound store flipped) (hj : p.denoisers[j]? = some x)
    (hother : x.identifier ∉ identifiers) : p.Spares (p.frame policy identifiers).planner j x := by
  unfold Planner.frame
  split
  · exact .refl hj
  · rename_i indices hpositions
    obtain ⟨members, hmembers, rfl, rfl, -⟩ := positions_ok hpositions
    obtain ⟨hdenoiser, hpairs⟩ := (h.withScratch p.scratch.clear).runAll_spares hj
      (hmembers.notMem_of_notMem hj hother)
    exact ⟨hdenoiser, hpairs⟩

theorem positions_error {seen : List Nat} (h : p.positions seen identifiers = .error failure) :
    ¬failure.IsOutOfMemory := by
  rintro ⟨size, rfl⟩
  induction identifiers generalizing seen with
  | nil => cases h
  | cons identifier rest ih =>
    unfold Planner.positions at h
    split at h
    · cases h
    · split at h
      · cases h
      · exact ih (map_eq_error_iff.mp h)

theorem positions_take {seen : List Nat} (h : p.positions seen identifiers = .ok indices) (k : Nat) :
    p.positions seen (identifiers.take k) = .ok (indices.take k) := by
  induction identifiers generalizing seen indices k with
  | nil =>
    cases h
    simp [Planner.positions]
  | cons identifier rest ih =>
    cases k with
    | zero => rfl
    | succ k =>
      unfold Planner.positions at h
      split at h
      · cases h
      rename_i i hi
      split at h
      · cases h
      rename_i hunseen
      cases hrest : p.positions (i :: seen) rest with
      | error failure => simp [hrest, Except.map] at h
      | ok others =>
        simp only [hrest, Except.map, Except.ok.injEq] at h
        subst h
        rw [List.take_succ_cons, List.take_succ_cons]
        unfold Planner.positions
        simp only [hi, if_neg hunseen, ih hrest k, Except.map]

-- What comes after a denoiser has been served leaves it alone, be it the end of the memory.
theorem Sound.frame_append (h : p.Sound store flipped) (hi : p.denoisers[i]? = some d)
    {served : List Identifier} (hmem : d.identifier ∈ served) {frame : Frame}
    (hframe : (p.frame policy served).result = .ok frame) (rest : List Identifier)
    (hpositions : p.positions [] (served ++ rest) = .ok indices) :
    (p.frame policy (served ++ rest)).planner.denoisers[i]? = some (d.next p.settings) := by
  obtain ⟨flipped', hsound, -⟩ := (h.serve_frame hframe).sound
  have hnext := h.frame_next hi hmem hframe
  have hshort := positions_take hpositions served.length
  rw [List.take_left] at hshort
  have hlater : i ∉ indices.drop served.length := by
    obtain ⟨members, hmembers, hindices, -, -⟩ := positions_ok hpositions
    obtain ⟨first, hfirst, htake, hidentifiers, -⟩ := positions_ok hshort
    have hnow : i ∈ indices.take served.length := by
      rw [hidentifiers] at hmem
      rw [htake]
      exact List.mem_map.mpr ⟨_, (hfirst.mem_iff h hi).mpr hmem, rfl⟩
    exact List.disjoint_take_drop (hindices ▸ hmembers.2) (Nat.le_refl _) hnow
  have hplanner : (p.frame policy (served ++ rest)).planner =
      ((p.frame policy served).planner.runAll policy (indices.drop served.length)).planner := by
    unfold Planner.frame at hframe ⊢
    simp only [hpositions, hshort] at hframe ⊢
    obtain ⟨plans, hrun, -⟩ := map_eq_ok_iff.mp hframe
    have happend := planner_runAll_append hrun (indices.drop served.length)
    rwa [List.take_append_drop] at happend
  rw [hplanner]
  exact (hsound.runAll_spares hnext hlater).denoiser

-- A run that fails has served the denoisers before the one that found no room, and no other.
theorem runAll_of_error (h : (p.runAll policy indices).result = .error failure) :
    ∃ pre i post plans, indices = pre ++ i :: post ∧
      (p.runAll policy pre).result = .ok plans ∧
      (p.runAll policy indices).planner.bare = (p.runAll policy pre).planner.bare := by
  induction indices generalizing p with
  | nil => cases h
  | cons i rest ih =>
    cases hi : p.denoisers[i]? with
    | none =>
      rw [runAll_cons_of_none hi] at h ⊢
      obtain ⟨pre, j, post, plans, rfl, hplans, hbare⟩ := ih h
      exact ⟨i :: pre, j, post, plans, rfl, by rw [runAll_cons_of_none hi, hplans],
        by rw [runAll_cons_of_none hi, hbare]⟩
    | some d =>
      cases hfirst : (p.runDenoiser policy i d).result with
      | error e =>
        refine ⟨[], i, rest, [], rfl, rfl, ?_⟩
        rw [runAll_cons_of_error hi hfirst]
        exact bare_runDenoiser_of_error hfirst
      | ok placed =>
        rw [runAll_cons_of_ok hi hfirst] at h ⊢
        obtain ⟨pre, j, post, plans, rfl, hplans, hbare⟩ := ih (map_eq_error_iff.mp h)
        refine ⟨i :: pre, j, post, placed :: plans, rfl, ?_, ?_⟩
        · rw [runAll_cons_of_ok hi hfirst]
          simp only [hplans, Except.map]
        · rw [runAll_cons_of_ok hi hfirst]
          exact hbare

theorem frame_of_outOfMemory {size : Nat}
    (h : (p.frame policy identifiers).result = .error (.outOfMemory size)) :
    ∃ k < identifiers.length, ∃ frame,
      (p.frame policy (identifiers.take k)).result = .ok frame ∧
      (p.frame policy identifiers).planner.bare =
        (p.frame policy (identifiers.take k)).planner.bare := by
  cases hpositions : p.positions [] identifiers with
  | error failure =>
    have hfailure : failure = .outOfMemory size := by simpa [Planner.frame, hpositions] using h
    exact absurd ⟨size, hfailure⟩ (positions_error hpositions)
  | ok indices =>
    obtain ⟨members, -, hindices, hidentifiers, -⟩ := positions_ok hpositions
    have hlength : identifiers.length = indices.length := by
      rw [hindices, hidentifiers, List.length_map, List.length_map]
    unfold Planner.frame at h ⊢
    simp only [hpositions] at h ⊢
    obtain ⟨pre, i, post, plans, rfl, hplans, hbare⟩ := runAll_of_error (map_eq_error_iff.mp h)
    have htake := positions_take hpositions pre.length
    rw [List.take_left] at htake
    refine ⟨pre.length, by rw [hlength]; simp, ?_⟩
    simp only [htake, hplans, Except.map]
    exact ⟨_, rfl, hbare⟩

-- The frame did its work for the first `k` of the denoisers that it was asked for and no more. What
-- it leaves behind is what the frame for these alone leaves behind, and as long as the memory
-- suffices from then on, no later call can tell the two apart. The other denoisers are spared.
structure StopsAt (p : Planner) (policy : MemoryPolicy) (identifiers : List Identifier) (k : Nat) :
    Prop where
  lt : k < identifiers.length
  served : ∃ frame, (p.frame policy (identifiers.take k)).result = .ok frame
  state : ∀ policy' frame, (p.frame policy' (identifiers.take k)).result = .ok frame →
    (p.frame policy identifiers).planner.bare = (p.frame policy' (identifiers.take k)).planner.bare
  answers : ∀ policy' frame, (p.frame policy' (identifiers.take k)).result = .ok frame →
    ∀ granting : MemoryPolicy, granting.Grants → ∀ calls,
      (p.frame policy identifiers).planner.answers granting calls =
        (p.frame policy' (identifiers.take k)).planner.answers granting calls
  spares : ∀ (j : Nat) (d : DenoiserState), p.denoisers[j]? = some d →
    d.identifier ∉ identifiers.take k → p.Spares (p.frame policy identifiers).planner j d

-- A frame that runs out of memory stops at the denoiser that found no room.
theorem Reachable.exhausted {denoisers : List (Identifier × Variant)}
    (h : Reachable denoisers store p) {size : Nat}
    (hframe : (p.frame policy identifiers).result = .error (.outOfMemory size)) :
    ∃ k, p.StopsAt policy identifiers k := by
  obtain ⟨flipped, hsound⟩ := h.sound
  obtain ⟨k, hk, frame, hshort, hbare⟩ := frame_of_outOfMemory hframe
  have hstate (policy' : MemoryPolicy) (frame' : Frame)
      (hshort' : (p.frame policy' (identifiers.take k)).result = .ok frame') :
      (p.frame policy identifiers).planner.bare =
        (p.frame policy' (identifiers.take k)).planner.bare := by
    obtain ⟨-, hsame⟩ := hsound.frame_congr rfl hshort' hshort
    exact hbare.trans hsame
  refine ⟨k, hk, ⟨frame, hshort⟩, hstate, fun policy' frame' hshort' granting hgrants calls => ?_,
    fun j d hj hother => (hsound.frame_spares hj hother).congr hbare⟩
  obtain ⟨flipped', hsound'⟩ := hsound.frame policy' (identifiers.take k)
  exact hsound'.answers_congr hgrants (hstate policy' frame' hshort') calls

end Planner

-- A shadow and three averages.
def crowd : List (Identifier × Variant) :=
  [(⟨7⟩, .sigmaShadow), (⟨3⟩, .reference), (⟨5⟩, .reference), (⟨9⟩, .reference)]

namespace Planner

-- A planner after a frame for one of the averages, and what a shadow, that average and one more
-- demand of its next frame.
theorem exists_crowded : ∃ (p : Planner) (a b c : Nat × DenoiserState),
    Reachable crowd (fun _ _ => none) p ∧ p.Members [a, b, c] ∧
      [a, b, c].map (·.2.identifier) = [⟨7⟩, ⟨3⟩, ⟨5⟩] ∧
      a.2.snapshot = none ∧ a.2.moves p.settings = true ∧ b.2.snapshot.isSome ∧
      p.scratch.capacity = 2048 ∧ a.2.demand p.settings = [0, 0, 592, 592, 608, 608, 592] ∧
      b.2.demand p.settings = [576, 576] ∧ c.2.demand p.settings = [0, 0, 576, 576] := by
  have hdeclarable : Declarable crowd := ⟨by decide, by decide⟩
  obtain ⟨p, hcreate⟩ := exists_create_of_declarable hdeclarable (by decide) fun _ _ => none
  obtain ⟨hsound, -, -, hsettings⟩ := create_ok hcreate
  have hmember (identifier : Identifier) (v : Variant) (hmem : (identifier, v) ∈ crowd) :
      ∃ (i : Nat) (d : DenoiserState), p.denoisers[i]? = some d ∧ d.identifier = identifier ∧
        d.variant = v ∧ d.settings = .ofFamily d.variant.family ∧ d.snapshot = none := by
    obtain ⟨d, hd, hid, hvariant, hfresh⟩ := exists_denoiser hcreate hmem
    obtain ⟨i, hi⟩ := Array.getElem?_of_mem hd
    exact ⟨i, d, hi, hid, hvariant, hfresh.1, hfresh.2.1⟩
  obtain ⟨i, a, hi, haid, havariant, hasettings, hasnapshot⟩ := hmember ⟨7⟩ .sigmaShadow (by decide)
  obtain ⟨j, b, hj, hbid, hbvariant, hbsettings, hbsnapshot⟩ := hmember ⟨3⟩ .reference (by decide)
  obtain ⟨k, c, hk, hcid, hcvariant, hcsettings, hcsnapshot⟩ := hmember ⟨5⟩ .reference (by decide)
  obtain ⟨frame, hframe⟩ := hsound.exists_frame .unlimited (hsound.positions_singleton hj)
  have hlevel := hsound.frame_level (.atMost none)
    (show p.Members [(j, b)] from ⟨by simpa using hj, by simp⟩)
  have hreachable := Reachable.frame (.atMost none) [b.identifier] (.created hcreate)
  have hsettings' : (p.frame (.atMost none) [b.identifier]).planner.settings = {} :=
    (hsound.serve_frame hframe).settings.trans hsettings
  have hspared {n : Nat} {d : DenoiserState} (hn : p.denoisers[n]? = some d)
      (hother : d.identifier ∉ [b.identifier]) :
      (p.frame (.atMost none) [b.identifier]).planner.denoisers[n]? = some d :=
    (hsound.frame_spares hn hother).denoiser
  have hi' := hspared hi (by simp [haid, hbid])
  have hk' := hspared hk (by simp [hcid, hbid])
  have hj' := hsound.frame_next hj (List.mem_singleton_self _) hframe
  rw [hsettings, DenoiserState.next, if_pos b.moves_default] at hj'
  have hdemand (d : DenoiserState) (v : Variant) (hvariant : d.variant = v)
      (hd : d.settings = .ofFamily d.variant.family) :
      d.demand {} =
        (DenoiserState.mk ⟨0⟩ v (.ofFamily v.family) default d.snapshot 0).demand {} :=
    DenoiserState.demand_congr hvariant (hvariant ▸ hd) rfl
  refine ⟨_, (i, a), (j, b.advance {}), (k, c), hreachable, .of_identifiers ?_ ?_, ?_, hasnapshot,
    ?_, rfl, ?_, ?_, ?_, ?_⟩
  · simp [hi', hj', hk']
  · simp [DenoiserState.advance, haid, hbid, hcid]
  · simp [DenoiserState.advance, haid, hbid, hcid]
  · rw [hsettings']
    exact a.moves_default
  · refine hlevel.buffer.capacity_eq.trans ?_
    simp only [List.flatMap_cons, List.flatMap_nil, hsettings, scratch_of_create hcreate,
      hdemand b _ hbvariant hbsettings, hbsnapshot]
    decide +kernel
  · rw [hsettings', hdemand a _ havariant hasettings, hasnapshot]
    decide +kernel
  · rw [hsettings', hdemand (b.advance {}) _ hbvariant hbsettings]
    simp only [DenoiserState.advance]
    decide +kernel
  · rw [hsettings', hdemand c _ hcvariant hcsettings, hcsnapshot]
    decide +kernel

-- With room for 4096 bytes the shadow is served in full, and of the average the first of its two
-- blocks is stored. The second asks for more, so the last denoiser is not reached.
theorem Reachable.exhausted_midway : ∃ p, Reachable crowd (fun _ _ => none) p ∧
    (∃ d ∈ p.denoisers, d.identifier = ⟨3⟩ ∧ d.snapshot.isSome) ∧
    (p.frame (.atMost (some 4096)) [⟨7⟩]).planner.scratch.length = 2992 ∧
    (p.frame (.atMost (some 4096)) [⟨7⟩, ⟨3⟩, ⟨5⟩]).planner.scratch.length = 3568 ∧
    (p.frame (.atMost (some 4096)) [⟨7⟩, ⟨3⟩, ⟨5⟩]).calls =
      [.reallocate ⟨2048, 16⟩ 4096 true, .reallocate ⟨4096, 16⟩ 8192 false] ∧
    (p.frame (.atMost (some 4096)) [⟨7⟩, ⟨3⟩, ⟨5⟩]).result = .error (.outOfMemory 8192) ∧
    p.StopsAt (.atMost (some 4096)) [⟨7⟩, ⟨3⟩, ⟨5⟩] 1 := by
  obtain ⟨p, a, b, c, hreachable, hmembers, hidentifiers, hasnapshot, hamoves, hbsnapshot,
    hcapacity, ha, hb, hc⟩ := exists_crowded
  obtain ⟨flipped, hsound⟩ := hreachable.sound
  obtain ⟨haid, hbid, -⟩ : a.2.identifier = ⟨7⟩ ∧ b.2.identifier = ⟨3⟩ ∧ c.2.identifier = ⟨5⟩ := by
    simpa using hidentifiers
  have hlevel (n : Nat) := hsound.frame_level (.atMost (some 4096)) (hmembers.take n)
  simp only [List.map_take, hidentifiers, hcapacity] at hlevel
  have hone := hlevel 1
  have htwo := hlevel 2
  have hall := hlevel 3
  simp only [List.take_succ_cons, List.take_zero, List.flatMap_cons, List.flatMap_nil, ha, hb, hc]
    at hone htwo hall
  have hfails := (hall.failure (.outOfMemory 8192)).mpr (by decide +kernel)
  obtain ⟨k, hk⟩ := exhausted hreachable hfails
  -- The shadow was not spared: the frame for it alone has a snapshot of it.
  have hk0 : k ≠ 0 := by
    rintro rfl
    have hfirst := hmembers.1 a List.mem_cons_self
    have hpositions := hsound.positions_eq hmembers
    rw [hidentifiers] at hpositions
    obtain ⟨frame, hframe⟩ := hone.exists_ok (by decide +kernel)
    have hmoved := hsound.frame_append hfirst (by simp [haid]) hframe [⟨3⟩, ⟨5⟩] hpositions
    have hspared := (hk.spares a.1 a.2 hfirst (by simp)).denoiser
    have hsame : a.2 = a.2.next p.settings := Option.some.inj (hspared.symm.trans hmoved)
    rw [DenoiserState.next, if_pos hamoves] at hsame
    have hnone := congrArg DenoiserState.snapshot hsame
    rw [hasnapshot] at hnone
    cases hnone
  have hk2 : k ≠ 2 := by
    rintro rfl
    obtain ⟨frame, hframe⟩ := hk.served
    have hfailed := (htwo.failure (.outOfMemory 8192)).mpr (by decide +kernel)
    cases hfailed.symm.trans hframe
  obtain rfl : k = 1 := by
    have hlt : k < 3 := hk.lt
    omega
  have hb' := Array.mem_of_getElem? (hmembers.1 b (by simp))
  exact ⟨p, hreachable, ⟨b.2, hb', hbid, hbsnapshot⟩,
    hone.buffer.length_eq.trans (by decide +kernel),
    hall.buffer.length_eq.trans (by decide +kernel), hall.calls.trans (by decide +kernel), hfails,
    hk⟩

end Planner

end DenoisePlanner
