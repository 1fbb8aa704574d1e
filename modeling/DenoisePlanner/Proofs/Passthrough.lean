import DenoisePlanner.Proofs.Answers
import DenoisePlanner.Proofs.Emitted
import DenoisePlanner.Proofs.Scenes

namespace DenoisePlanner

-- A reference that leads to a texture of the host.
def Reference.isHost : Reference → Bool
  | .host kind => !kind.isPool
  | _ => false

-- Every variant can show its inputs, and needs no texture of its own for that.
theorem Variant.splitScreen_isHost (v : Variant) :
    (v.blueprint.schedule.find? (·.stage == .splitScreen)).any (fun pass =>
      let b := Emission.bindings ⟨pass, fun _ => false, none⟩
      (b.inputs ++ b.outputs).all Reference.isHost) = true := by
  cases v <;> decide +kernel

theorem Claims.isPool_of_mem_allBound {claims : Claims} {flipped : Bool} {b : Bindings}
    (h : (b.inputs ++ b.outputs).all Reference.isHost = true) {r : BoundResource}
    (hr : r ∈ claims.allBound flipped b) : r.kind.isPool = false := by
  have hbound (access : Access) (x : Reference) (hx : x ∈ b.inputs ++ b.outputs) :
      (claims.bound flipped access x).kind.isPool = false := by
    have hhost := List.all_eq_true.mp h x hx
    cases x with
    | host kind =>
      have hkind : kind.isPool = false := by simpa [Reference.isHost] using hhost
      exact hkind
    | pooled slot => cases hhost
    | swapping current other => cases hhost
  rcases List.mem_append.mp hr with hr | hr
  · obtain ⟨x, hx, rfl⟩ := List.mem_map.mp hr
    exact hbound .read x (List.mem_append_left _ hx)
  · obtain ⟨x, hx, rfl⟩ := List.mem_map.mp hr
    exact hbound .write x (List.mem_append_right _ hx)

theorem DenoiserState.moves_eq_false_iff {d : DenoiserState} {s : FrameSettings} :
    d.moves s = false ↔ 1 ≤ s.splitScreen := by
  rw [d.moves_eq, Bool.not_eq_false', Switches.isPassthrough, decide_eq_true_iff]
  rfl

theorem DenoiserState.exists_emissions_eq_singleton {d : DenoiserState} {s : FrameSettings}
    (h : d.moves s = false) : ∃ em, d.emissions s = [em] ∧ em.pass.stage = .splitScreen ∧
      (em.bindings.inputs ++ em.bindings.outputs).all Reference.isHost = true := by
  have hpassthrough : (d.switches s).isPassthrough = true := by simpa [moves] using h
  have hhost := d.variant.splitScreen_isHost
  cases hfind : d.variant.blueprint.schedule.find? (·.stage == .splitScreen) with
  | none =>
    rw [hfind] at hhost
    cases hhost
  | some pass =>
    rw [hfind] at hhost
    refine ⟨⟨pass, fun _ => false, none⟩, ?_, ?_, hhost⟩
    · rw [emissions, Emission.all, hpassthrough, if_pos rfl, Emission.passthrough, hfind]
      rfl
    · simpa using List.find?_some hfind

theorem Variant.exists_isRegular (v : Variant) :
    ∃ pass ∈ v.blueprint.passes, pass.stage.isRegular = true := by
  cases v <;> decide

-- Whatever a frame leaves out, a denoiser does not only clear.
theorem DenoiserState.exists_emission_ne_clear (d : DenoiserState) (s : FrameSettings) :
    ∃ em ∈ d.emissions s, em.pass.stage ≠ .clear := by
  cases hmoves : d.moves s with
  | false =>
    obtain ⟨em, hemissions, hstage, -⟩ := exists_emissions_eq_singleton hmoves
    exact ⟨em, by simp [hemissions], by simp [hstage]⟩
  | true =>
    obtain ⟨pass, hpass, hregular⟩ := d.variant.exists_isRegular
    obtain ⟨hatrous, henabled⟩ := (d.switches s).isEnabled_of_isRegular hregular
    exact ⟨_, mem_emissions_of_enabled hmoves hpass hatrous henabled,
      d.variant.stage_ne_clear pass hpass⟩

namespace Planner

variable {p q : Planner} {store : ShaderStore} {flipped : Nat → Bool} {policy : MemoryPolicy}
  {i : Nat} {d : DenoiserState} {indices : List Nat} {identifiers : List Identifier} {frame : Frame}
  {calls kept : List Call} {answers : List (Except Failure (Option Frame))}

theorem bare_runDenoiser_of_passthrough (h : d.moves p.settings = false) :
    (p.runDenoiser policy i d).planner.bare = p.bare := by
  cases hresult : (p.runDenoiser policy i d).result with
  | error failure => exact bare_runDenoiser_of_error hresult
  | ok placed =>
    obtain ⟨-, -, hplanner⟩ := runDenoiser_placed hresult
    have hpassthrough : (p.plan d).switches.isPassthrough = true := by
      simpa [DenoiserState.moves, plan] using h
    rw [hplanner, advance, if_pos hpassthrough]
    rfl

theorem bare_runAll_of_passthrough (h : 1 ≤ p.settings.splitScreen) :
    (p.runAll policy indices).planner.bare = p.bare := by
  induction indices generalizing p with
  | nil => rfl
  | cons i rest ih =>
    cases hi : p.denoisers[i]? with
    | none =>
      rw [runAll_cons_of_none hi]
      exact ih h
    | some d =>
      have hmoves : d.moves p.settings = false := DenoiserState.moves_eq_false_iff.mpr h
      have hfirst : (p.runDenoiser policy i d).planner.bare = p.bare :=
        bare_runDenoiser_of_passthrough hmoves
      have hsettings : (p.runDenoiser policy i d).planner.settings = p.settings := by
        rw [eq_withScratch_of_bare_eq hfirst]
      cases hresult : (p.runDenoiser policy i d).result with
      | error failure =>
        rw [runAll_cons_of_error hi hresult]
        exact hfirst
      | ok placed =>
        rw [runAll_cons_of_ok hi hresult]
        exact (ih (hsettings ▸ h)).trans hfirst

-- A frame that only shows inputs changes the memory at most.
theorem bare_frame_of_passthrough (h : 1 ≤ p.settings.splitScreen) :
    (p.frame policy identifiers).planner.bare = p.bare := by
  unfold Planner.frame
  split
  · rfl
  · exact bare_runAll_of_passthrough h

-- Known denoisers can be asked for, each once.
theorem Sound.exists_positions (h : p.Sound store flipped) {seen : List Nat}
    (hnodup : identifiers.Nodup)
    (hknown : ∀ identifier ∈ identifiers, ∃ (i : Nat) (d : DenoiserState),
      p.denoisers[i]? = some d ∧ d.identifier = identifier ∧ i ∉ seen) :
    ∃ positions, p.positions seen identifiers = .ok positions := by
  induction identifiers generalizing seen with
  | nil => exact ⟨[], rfl⟩
  | cons identifier rest ih =>
    obtain ⟨hfresh, hrest⟩ := List.nodup_cons.mp hnodup
    obtain ⟨i, d, hi, rfl, hunseen⟩ := hknown _ List.mem_cons_self
    have hothers : ∀ other ∈ rest, ∃ (j : Nat) (e : DenoiserState),
        p.denoisers[j]? = some e ∧ e.identifier = other ∧ j ∉ i :: seen := by
      intro other hother
      obtain ⟨j, e, hj, rfl, hother'⟩ := hknown other (List.mem_cons_of_mem _ hother)
      refine ⟨j, e, hj, rfl, fun hmem => ?_⟩
      rcases List.mem_cons.mp hmem with rfl | hmem
      · obtain rfl : e = d := Option.some.inj (hj.symm.trans hi)
        exact hfresh hother
      · exact hother' hmem
    obtain ⟨positions, hpositions⟩ := ih hrest hothers
    refine ⟨i :: positions, ?_⟩
    unfold Planner.positions
    simp [h.position?_eq hi, hunseen, hpositions, Except.map]

theorem Sound.exists_positions_of_mem (h : p.Sound store flipped) (hnodup : identifiers.Nodup)
    (hknown : ∀ identifier ∈ identifiers, ∃ d ∈ p.denoisers, d.identifier = identifier) :
    ∃ positions, p.positions [] identifiers = .ok positions := by
  refine h.exists_positions hnodup fun identifier hmem => ?_
  obtain ⟨d, hd, hid⟩ := hknown identifier hmem
  obtain ⟨i, hi⟩ := Array.getElem?_of_mem hd
  exact ⟨i, d, hi, hid, List.not_mem_nil⟩

theorem Shares.exists_eq_singleton (h : p.Shares store flipped frame i d)
    (hmoves : d.moves p.settings = false) :
    ∃ x, frame.share d.identifier = [x] ∧ x.identifier = d.identifier ∧ x.stage = .splitScreen ∧
      ∀ r ∈ x.resources, r.kind.isPool = false := by
  obtain ⟨em, hemissions, hstage, hhost⟩ := d.exists_emissions_eq_singleton hmoves
  have houtlines := h.outlines
  rw [hemissions, List.map_singleton] at houtlines
  obtain ⟨x, hshare, hx⟩ := List.map_eq_singleton_iff.mp houtlines
  refine ⟨x, hshare, congrArg Outline.identifier hx, (congrArg Outline.stage hx).trans hstage,
    fun r hr => ?_⟩
  have hresources : x.resources = d.layout.claims.allBound (flipped i) em.bindings :=
    congrArg Outline.resources hx
  exact Claims.isPool_of_mem_allBound hhost (hresources ▸ hr)

-- Every denoiser shows its inputs in one dispatch.
theorem Sound.dispatches_of_passthrough (h : p.Sound store flipped)
    (hpassthrough : 1 ≤ p.settings.splitScreen)
    (hframe : (p.frame policy identifiers).result = .ok frame) :
    frame.dispatches.map (·.identifier) = identifiers ∧ ∀ x ∈ frame.dispatches,
      x.stage = .splitScreen ∧ ∀ r ∈ x.resources, r.kind.isPool = false := by
  obtain ⟨-, hordered, hshares⟩ := h.frame_shares hframe
  have hone (identifier : Identifier) (hmem : identifier ∈ identifiers) :
      ∃ x, frame.share identifier = [x] ∧ x.identifier = identifier ∧ x.stage = .splitScreen ∧
        ∀ r ∈ x.resources, r.kind.isPool = false := by
    obtain ⟨i, d, rfl, hshare⟩ := hshares identifier hmem
    exact hshare.exists_eq_singleton (DenoiserState.moves_eq_false_iff.mpr hpassthrough)
  constructor
  · rw [hordered, List.map_flatMap, List.flatMap_congr (g := fun identifier => [identifier])]
    · exact List.flatMap_singleton' identifiers
    · intro identifier hmem
      obtain ⟨x, hshare, hid, -⟩ := hone identifier hmem
      rw [hshare, List.map_singleton, hid]
  · intro x hx
    rw [hordered] at hx
    obtain ⟨identifier, hmem, hx⟩ := List.mem_flatMap.mp hx
    obtain ⟨y, hshare, -, hy⟩ := hone identifier hmem
    rw [hshare] at hx
    exact List.mem_singleton.mp hx ▸ hy

-- A run, the same run without some of the frames that only showed inputs, and what the calls that
-- are left told in the first.
inductive Abridges (policy : MemoryPolicy) :
    Planner → List Call → List Call → List (Except Failure (Option Frame)) → Prop where
  | nil (p : Planner) : Abridges policy p [] [] []
  | drop {p : Planner} {calls kept : List Call} {answers : List (Except Failure (Option Frame))}
      (identifiers : List Identifier) (hpassthrough : 1 ≤ p.settings.splitScreen)
      (h : Abridges policy (p.serve policy (.frame identifiers)).1 calls kept answers) :
      Abridges policy p (.frame identifiers :: calls) kept answers
  | keep {p : Planner} {calls kept : List Call} {answers : List (Except Failure (Option Frame))}
      (call : Call) (h : Abridges policy (p.serve policy call).1 calls kept answers) :
      Abridges policy p (call :: calls) (call :: kept) (p.answer policy call :: answers)

theorem Abridges.answers_eq (h : Abridges policy p calls kept answers)
    (hsound : p.Sound store flipped) (hgrants : policy.Grants) (hbare : q.bare = p.bare) :
    q.answers policy kept = answers := by
  induction h generalizing q flipped with
  | nil => rfl
  | drop identifiers hpassthrough h ih =>
    obtain ⟨flipped', hsound'⟩ := hsound.serve policy (.frame identifiers)
    exact ih hsound' (hbare.trans (bare_frame_of_passthrough hpassthrough).symm)
  | keep call h ih =>
    obtain ⟨hanswer, hstate⟩ := hsound.serve_congr hgrants hbare call
    obtain ⟨flipped', hsound'⟩ := hsound.serve policy call
    rw [Planner.answers, hanswer, ih hsound' hstate]

-- Frames that only show inputs can be left out of a run, and nothing else in it changes. They
-- touch no texture but those of the host.
theorem Reachable.abridge {denoisers : List (Identifier × Variant)}
    (h : Reachable denoisers store p) (hgrants : policy.Grants) :
    (∀ calls kept answers, Abridges policy p calls kept answers →
        p.answers policy kept = answers) ∧
      (1 ≤ p.settings.splitScreen → ∀ identifiers : List Identifier, identifiers.Nodup →
        (∀ identifier ∈ identifiers, ∃ d ∈ p.denoisers, d.identifier = identifier) →
        ∃ frame, (p.frame policy identifiers).result = .ok frame ∧
          frame.dispatches.map (·.identifier) = identifiers ∧ ∀ x ∈ frame.dispatches,
            x.stage = .splitScreen ∧ ∀ r ∈ x.resources, r.kind.isPool = false) := by
  obtain ⟨flipped, hsound⟩ := h.sound
  constructor
  · exact fun calls kept answers habridges => habridges.answers_eq hsound hgrants rfl
  · intro hpassthrough identifiers hnodup hknown
    obtain ⟨positions, hpositions⟩ := hsound.exists_positions_of_mem hnodup hknown
    obtain ⟨frame, hframe⟩ := hsound.exists_frame hgrants hpositions
    exact ⟨frame, hframe, hsound.dispatches_of_passthrough hpassthrough hframe⟩

end Planner

-- Nothing but inputs, over the whole of the default rect.
def splitFrame : FrameSettings := { splitScreen := 1 }

theorem validate_splitFrame : splitFrame.validate = .ok () := by decide +kernel

-- A look at the inputs, and then a frame that denoises.
def peeking : List Call := [.frame [⟨3⟩], .setFrameSettings {}, .frame [⟨3⟩]]

namespace Planner

theorem Reachable.abridge_shadowAndReference : ∃ p answers,
    Reachable shadowAndReference (fun _ _ => none) p ∧ (MemoryPolicy.atMost none).Grants ∧
      Abridges (.atMost none) p peeking (peeking.drop 1) answers ∧
      p.answers (.atMost none) (peeking.drop 1) = answers ∧
      1 ≤ p.settings.splitScreen ∧
      ∃ frame, (p.frame (.atMost none) [⟨3⟩]).result = .ok frame ∧
        frame.dispatches.map (·.identifier) = [⟨3⟩] ∧ ∀ x ∈ frame.dispatches,
          x.stage = .splitScreen ∧ ∀ r ∈ x.resources, r.kind.isPool = false := by
  obtain ⟨p, -, hcreate, -⟩ := exists_frame_shadowAndReference
  obtain ⟨d, hd, hid, -⟩ := exists_denoiser hcreate (List.mem_cons_of_mem _ (List.mem_cons_self ..))
  have hserved := (create_ok hcreate).1.serve_setFrameSettings (.atMost none) splitFrame
  have hreachable := (Reachable.created hcreate).after ⟨.setFrameSettings splitFrame, .atMost none⟩
  have hsettings : (p.after ⟨.setFrameSettings splitFrame, .atMost none⟩).settings = splitFrame :=
    hserved.settings.trans (by simp [Call.settings, validate_splitFrame])
  have hd' : d ∈ (p.after ⟨.setFrameSettings splitFrame, .atMost none⟩).denoisers := by
    rw [Planner.after, hserved.denoisers]
    exact Array.mem_map.mpr ⟨d, hd, rfl⟩
  generalize p.after ⟨.setFrameSettings splitFrame, .atMost none⟩ = q at hreachable hsettings hd'
  have hpassthrough : 1 ≤ q.settings.splitScreen := by
    rw [hsettings]
    decide +kernel
  have habridges : Abridges (.atMost none) q peeking (peeking.drop 1) _ :=
    .drop [⟨3⟩] hpassthrough (.keep (.setFrameSettings {}) (.keep (.frame [⟨3⟩]) (.nil _)))
  obtain ⟨hanswers, hframes⟩ := hreachable.abridge .unlimited
  obtain ⟨frame, hframe, hids, hdispatches⟩ := hframes hpassthrough [⟨3⟩]
    (List.nodup_singleton _) fun _ hmem => ⟨d, hd', hid.trans (List.mem_singleton.mp hmem).symm⟩
  exact ⟨q, _, hreachable, .unlimited, habridges, hanswers _ _ _ habridges, hpassthrough, frame,
    hframe, hids, hdispatches⟩

end Planner

end DenoisePlanner
