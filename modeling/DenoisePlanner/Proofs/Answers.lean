import DenoisePlanner.Proofs.Calls

namespace DenoisePlanner

namespace ScratchBuffer

variable {b b' : ScratchBuffer} {policy policy' : MemoryPolicy}

theorem push_place {chunks : List ByteArray} {place : Span}
    (h : (b.push policy chunks).result = .ok place) :
    place = (if (join chunks).size = 0 then ⟨b.length, b.length⟩
      else ⟨alignUp b.length, alignUp b.length + (join chunks).size⟩) ∧
      (b.push policy chunks).buffer.length = place.stop := by
  unfold push at h ⊢
  dsimp only at h ⊢
  split at h
  · rename_i hempty
    cases h
    simp only [if_pos hempty, and_self]
  · rename_i hfull
    split at h
    · cases h
    · rename_i hroom
      cases h
      obtain ⟨capacity, hbuffer⟩ := reserve_buffer b policy (alignUp b.length + (join chunks).size)
      simp only [if_neg hfull, hbuffer, store, and_self]

-- Where blocks come to lie depends on nothing but the length of what is there before them.
theorem pushAll_places {blocks : List (List ByteArray)} {places places' : List Span}
    (hlength : b.length = b'.length) (h : (b.pushAll policy blocks).result = .ok places)
    (h' : (b'.pushAll policy' blocks).result = .ok places') :
    places = places' ∧
      (b.pushAll policy blocks).buffer.length = (b'.pushAll policy' blocks).buffer.length := by
  induction blocks generalizing b b' places places' with
  | nil =>
    cases h
    cases h'
    exact ⟨rfl, hlength⟩
  | cons block blocks ih =>
    obtain ⟨place, rest, hplace, hrest, rfl⟩ := exists_of_pushAll_cons h
    obtain ⟨place', rest', hplace', hrest', rfl⟩ := exists_of_pushAll_cons h'
    obtain ⟨hspan, hstop⟩ := push_place hplace
    obtain ⟨hspan', hstop'⟩ := push_place hplace'
    have hsame : place = place' := by rw [hspan, hspan', hlength]
    obtain ⟨rfl, hend⟩ := ih (by rw [hstop, hstop', hsame]) hrest hrest'
    rw [pushAll_cons_of_ok hplace, pushAll_cons_of_ok hplace', hsame]
    exact ⟨rfl, hend⟩

end ScratchBuffer

namespace Planner

-- All of a planner but its memory.
def bare (p : Planner) : Planner := { p with scratch := {} }

variable {p q : Planner} {store : ShaderStore} {flipped : Nat → Bool}
  {policy policy' : MemoryPolicy} {i : Nat} {d : DenoiserState} {indices : List Nat}
  {identifiers : List Identifier} {frame frame' : Frame}

theorem eq_withScratch_of_bare_eq (h : q.bare = p.bare) : q = { p with scratch := q.scratch } := by
  cases p
  cases q
  simpa [bare] using h

theorem advance_withScratch (p : Planner) (s : ScratchBuffer) (i : Nat) (d : DenoiserState)
    (plan : DenoiserPlan) :
    advance { p with scratch := s } i d plan = { p.advance i d plan with scratch := s } := by
  unfold Planner.advance
  split <;> rfl

-- What a denoiser leaves behind, memory apart, and where its constants went.
theorem runDenoiser_placed {placed : PlacedPlan}
    (h : (p.runDenoiser policy i d).result = .ok placed) :
    (p.scratch.pushAll policy ((p.plan d).dispatches.map (·.constants))).result =
        .ok placed.places ∧
      placed.plan = p.plan d ∧
      (p.runDenoiser policy i d).planner =
        { p.advance i d (p.plan d) with
          scratch :=
            (p.scratch.pushAll policy ((p.plan d).dispatches.map (·.constants))).buffer } := by
  unfold Planner.runDenoiser at h ⊢
  dsimp only at h ⊢
  split at h
  · cases h
  · rename_i places hplaces
    cases h
    exact ⟨hplaces, rfl, advance_withScratch ..⟩

theorem bare_runDenoiser_of_error {failure : Failure}
    (h : (p.runDenoiser policy i d).result = .error failure) :
    (p.runDenoiser policy i d).planner.bare = p.bare := by
  unfold Planner.runDenoiser at h ⊢
  dsimp only at h ⊢
  split at h
  · rfl
  · cases h

-- Two planners with the same state, where the memory of both is used up equally far.
theorem runDenoiser_congr (hbare : q.bare = p.bare)
    (hlength : q.scratch.length = p.scratch.length) {placed placed' : PlacedPlan}
    (h : (p.runDenoiser policy i d).result = .ok placed)
    (h' : (q.runDenoiser policy' i d).result = .ok placed') :
    placed' = placed ∧
      (q.runDenoiser policy' i d).planner.bare = (p.runDenoiser policy i d).planner.bare ∧
      (q.runDenoiser policy' i d).planner.scratch.length =
        (p.runDenoiser policy i d).planner.scratch.length := by
  have hplan : q.plan d = p.plan d := by
    rw [eq_withScratch_of_bare_eq hbare]
    rfl
  obtain ⟨hplaces, hfst, hplanner⟩ := runDenoiser_placed h
  obtain ⟨hplaces', hfst', hplanner'⟩ := runDenoiser_placed h'
  rw [hplan] at hplaces' hfst' hplanner'
  obtain ⟨hsame, hend⟩ := ScratchBuffer.pushAll_places hlength hplaces' hplaces
  have hadvance : (q.advance i d (p.plan d)).bare = (p.advance i d (p.plan d)).bare := by
    rw [eq_withScratch_of_bare_eq hbare, advance_withScratch]
    rfl
  refine ⟨?_, ?_, ?_⟩
  · cases placed
    cases placed'
    simp only [PlacedPlan.mk.injEq]
    exact ⟨hfst'.trans hfst.symm, hsame⟩
  · rw [hplanner, hplanner']
    exact hadvance
  · rw [hplanner, hplanner']
    exact hend

theorem runAll_congr (hbare : q.bare = p.bare) (hlength : q.scratch.length = p.scratch.length)
    {plans plans' : List PlacedPlan} (h : (p.runAll policy indices).result = .ok plans)
    (h' : (q.runAll policy' indices).result = .ok plans') :
    plans' = plans ∧ (q.runAll policy' indices).planner.bare =
      (p.runAll policy indices).planner.bare := by
  induction indices generalizing p q plans plans' with
  | nil =>
    cases h
    cases h'
    exact ⟨rfl, hbare⟩
  | cons i rest ih =>
    have hdenoisers : q.denoisers = p.denoisers := by rw [eq_withScratch_of_bare_eq hbare]
    cases hi : p.denoisers[i]? with
    | none =>
      have hi' : q.denoisers[i]? = none := hdenoisers ▸ hi
      rw [runAll_cons_of_none hi] at h ⊢
      rw [runAll_cons_of_none hi'] at h' ⊢
      exact ih hbare hlength h h'
    | some d =>
      have hi' : q.denoisers[i]? = some d := hdenoisers ▸ hi
      obtain ⟨placed, others, hfirst, hothers, rfl⟩ := exists_of_runAll_cons hi h
      obtain ⟨placed', others', hfirst', hothers', rfl⟩ := exists_of_runAll_cons hi' h'
      obtain ⟨rfl, hbare₁, hlength₁⟩ := runDenoiser_congr hbare hlength hfirst hfirst'
      obtain ⟨rfl, hbare₂⟩ := ih hbare₁ hlength₁ hothers hothers'
      rw [runAll_cons_of_ok hi hfirst, runAll_cons_of_ok hi' hfirst']
      exact ⟨rfl, hbare₂⟩

-- The constants of all plans stand in the memory at the end.
theorem runAll_stores (h : p.Sound store flipped) (hvalid : p.scratch.Valid)
    {plans : List PlacedPlan} (hrun : (p.runAll policy indices).result = .ok plans) :
    p.scratch.Keeps (p.runAll policy indices).planner.scratch ∧ ∀ placed ∈ plans,
      (p.runAll policy indices).planner.scratch.Stores placed.places
        (placed.plan.dispatches.map (·.constants)) := by
  induction indices generalizing p flipped plans with
  | nil =>
    cases hrun
    exact ⟨.refl hvalid, by simp⟩
  | cons i rest ih =>
    cases hi : p.denoisers[i]? with
    | none =>
      rw [runAll_cons_of_none hi] at hrun ⊢
      exact ih h hvalid hrun
    | some d =>
      obtain ⟨placed, others, hfirst, hothers, rfl⟩ := exists_of_runAll_cons hi hrun
      obtain ⟨hmoved, hkeeps, hplan, hstores⟩ := runDenoiser_ok h hvalid hi hfirst
      obtain ⟨hkeeps', hstored⟩ := ih hmoved.sound hkeeps.valid hothers
      rw [runAll_cons_of_ok hi hfirst]
      refine ⟨hkeeps.trans hkeeps', fun x hx => ?_⟩
      rcases List.mem_cons.mp hx with rfl | hx
      · exact hplan ▸ hstores.keeps hkeeps'
      · exact hstored x hx

-- What is read from either memory is what was stored in it.
theorem frameOf_congr (hbare : q.bare = p.bare) {plans : List PlacedPlan}
    (h : ∀ placed ∈ plans, p.scratch.Stores placed.places
      (placed.plan.dispatches.map (·.constants)))
    (h' : ∀ placed ∈ plans, q.scratch.Stores placed.places
      (placed.plan.dispatches.map (·.constants))) : q.frameOf plans = p.frameOf plans := by
  have hinventory : q.inventory = p.inventory := by rw [eq_withScratch_of_bare_eq hbare]
  have hdispatches : ∀ placed ∈ plans,
      List.zipWith (q.dispatch placed.plan.identifier) placed.plan.dispatches placed.places =
        List.zipWith (p.dispatch placed.plan.identifier) placed.plan.dispatches placed.places := by
    intro placed hplaced
    have hread : ∀ place ∈ placed.places, q.scratch.read place = p.scratch.read place :=
      List.map_inj_left.mp ((h' placed hplaced).read.trans (h placed hplaced).read.symm)
    rw [← List.map_uncurry_zip_eq_zipWith, ← List.map_uncurry_zip_eq_zipWith]
    refine List.map_congr_left fun ⟨planned, place⟩ hmem => ?_
    simp only [Function.uncurry_apply_pair, dispatch, hinventory,
      hread place (List.of_mem_zip hmem).2]
  simp only [frameOf, List.flatMap_congr hdispatches]

theorem positions_withScratch (p : Planner) (s : ScratchBuffer) (seen : List Nat)
    (identifiers : List Identifier) :
    positions { p with scratch := s } seen identifiers = p.positions seen identifiers := by
  induction identifiers generalizing seen with
  | nil => rfl
  | cons identifier rest ih =>
    unfold Planner.positions
    simp only [ih]
    rfl

theorem positions_congr (h : q.bare = p.bare) (seen : List Nat) (identifiers : List Identifier) :
    q.positions seen identifiers = p.positions seen identifiers := by
  rw [eq_withScratch_of_bare_eq h, positions_withScratch]

theorem Sound.congr (h : p.Sound store flipped) (hbare : q.bare = p.bare) :
    q.Sound store flipped := by
  rw [eq_withScratch_of_bare_eq hbare]
  exact h.withScratch _

-- A frame is the same whatever was in the memory before it, and leaves the same behind.
theorem Sound.frame_congr (hsound : p.Sound store flipped) (hbare : q.bare = p.bare)
    (h : (p.frame policy identifiers).result = .ok frame)
    (h' : (q.frame policy' identifiers).result = .ok frame') :
    frame' = frame ∧
      (q.frame policy' identifiers).planner.bare = (p.frame policy identifiers).planner.bare := by
  have hcleared : bare { q with scratch := q.scratch.clear } =
      bare { p with scratch := p.scratch.clear } := hbare
  have hvalid (s : ScratchBuffer) : s.clear.Valid := Nat.zero_le _
  unfold Planner.frame at h h' ⊢
  rw [positions_congr hbare] at h' ⊢
  cases hpositions : p.positions [] identifiers with
  | error e => simp [hpositions] at h
  | ok indices =>
    simp only [hpositions] at h h' ⊢
    cases hrun : (({ p with scratch := p.scratch.clear } : Planner).runAll policy indices).result with
    | error e => simp [hrun, Except.map] at h
    | ok plans =>
      cases hrun' :
          (({ q with scratch := q.scratch.clear } : Planner).runAll policy' indices).result with
      | error e => simp [hrun', Except.map] at h'
      | ok plans' =>
        obtain ⟨rfl, hstate⟩ := runAll_congr hcleared rfl hrun hrun'
        obtain ⟨-, hstores⟩ := runAll_stores (hsound.withScratch _) (hvalid _) hrun
        obtain ⟨-, hstores'⟩ :=
          runAll_stores ((hsound.congr hbare).withScratch _) (hvalid _) hrun'
        simp only [hrun, hrun', Except.map, Except.ok.injEq] at h h'
        exact ⟨by rw [← h, ← h', frameOf_congr hstate hstores hstores'], hstate⟩

-- All that a call tells the host: whether it was served, and the frame if it asked for one.
def answer (policy : MemoryPolicy) (p : Planner) : Call → Except Failure (Option Frame)
  | .setFrameSettings s => (p.setFrameSettings s).map fun _ => none
  | .setDenoiserSettings identifier s => (p.setDenoiserSettings identifier s).map fun _ => none
  | .frame identifiers => (p.frame policy identifiers).result.map some

-- What the calls of a run tell.
def answers (policy : MemoryPolicy) (p : Planner) : List Call → List (Except Failure (Option Frame))
  | [] => []
  | call :: calls => p.answer policy call :: answers policy (p.serve policy call).1 calls

theorem Sound.serve_congr (h : p.Sound store flipped) (hgrants : policy.Grants)
    (hbare : q.bare = p.bare) (call : Call) :
    q.answer policy call = p.answer policy call ∧
      (q.serve policy call).1.bare = (p.serve policy call).1.bare := by
  cases call with
  | setFrameSettings s =>
    rw [eq_withScratch_of_bare_eq hbare]
    simp only [answer, Planner.serve, Planner.setFrameSettings]
    cases s.validate <;> exact ⟨rfl, rfl⟩
  | setDenoiserSettings identifier s =>
    rw [eq_withScratch_of_bare_eq hbare]
    simp only [answer, Planner.serve, Planner.setDenoiserSettings]
    have hposition : position? { p with scratch := q.scratch } identifier =
        p.position? identifier := rfl
    rw [hposition]
    cases p.position? identifier with
    | none => exact ⟨rfl, rfl⟩
    | some i =>
      dsimp only
      split
      · exact ⟨rfl, rfl⟩
      · cases s.validate <;> exact ⟨rfl, rfl⟩
  | frame identifiers =>
    have hpositions := positions_congr hbare [] identifiers
    cases hknown : p.positions [] identifiers with
    | error failure =>
      rw [hknown] at hpositions
      simp only [answer, Planner.serve, Planner.frame, hknown, hpositions]
      exact ⟨trivial, hbare⟩
    | ok positions =>
      obtain ⟨frame, hframe⟩ := h.exists_frame hgrants hknown
      obtain ⟨frame', hframe'⟩ := (h.congr hbare).exists_frame hgrants (hpositions.trans hknown)
      obtain ⟨rfl, hstate⟩ := h.frame_congr hbare hframe hframe'
      exact ⟨by simp only [answer, hframe, hframe'], hstate⟩

-- As long as the memory suffices, what is in it shows in no answer.
theorem Sound.answers_congr (h : p.Sound store flipped) (hgrants : policy.Grants)
    (hbare : q.bare = p.bare) (calls : List Call) :
    q.answers policy calls = p.answers policy calls := by
  induction calls generalizing p q flipped with
  | nil => rfl
  | cons call calls ih =>
    obtain ⟨hanswer, hstate⟩ := h.serve_congr hgrants hbare call
    obtain ⟨flipped', h'⟩ := h.serve policy call
    rw [answers, answers, hanswer, ih h' hstate]

end Planner

end DenoisePlanner
