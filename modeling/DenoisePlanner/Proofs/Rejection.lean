import DenoisePlanner.Proofs.Exhaustion
import DenoisePlanner.Proofs.Passthrough

namespace DenoisePlanner

theorem FrameSettings.validate_default : ({} : FrameSettings).validate = .ok () := by
  decide +kernel

-- Settings that a denoiser of the variant can work with.
def DenoiserSettings.Suits (s : DenoiserSettings) (v : Variant) : Prop :=
  s.family = v.family ∧ s.validate = .ok ()

theorem DenoiserSettings.suits_ofFamily (v : Variant) : (ofFamily v.family).Suits v := by
  refine ⟨family_ofFamily _, ?_⟩
  cases v.family <;> decide +kernel

namespace Planner

-- What is in store for the next frame are settings that have been checked.
structure Configured (p : Planner) : Prop where
  settings : p.settings.validate = .ok ()
  denoisers : ∀ d ∈ p.denoisers, d.settings.Suits d.variant

section Configured

variable {p p' : Planner} {store : ShaderStore} {i : Nat} {d : DenoiserState}

theorem Configured.of_create {denoisers : List (Identifier × Variant)}
    (h : (create denoisers store).result = .ok p) : p.Configured := by
  obtain ⟨-, -, hfresh, hsettings⟩ := create_ok h
  constructor
  · rw [hsettings]
    exact FrameSettings.validate_default
  · intro d hd
    rw [(hfresh d hd).1]
    exact DenoiserSettings.suits_ofFamily d.variant

theorem Configured.setFrameSettings (h : p.Configured) {s : FrameSettings}
    (hset : p.setFrameSettings s = .ok p') : p'.Configured := by
  obtain ⟨hvalid, rfl⟩ := setFrameSettings_ok hset
  exact ⟨hvalid, h.denoisers⟩

theorem Configured.setDenoiserSettings (h : p.Configured) {identifier : Identifier}
    {s : DenoiserSettings} (hset : p.setDenoiserSettings identifier s = .ok p') :
    p'.Configured := by
  obtain ⟨i, d, -, hi, -, hfamily, hvalid, rfl⟩ := setDenoiserSettings_ok hset
  refine ⟨h.settings, fun x hx => ?_⟩
  obtain ⟨j, hj⟩ := Array.getElem?_of_mem hx
  rw [Array.getElem?_modify] at hj
  by_cases hij : i = j
  · rw [if_pos hij, ← hij, hi] at hj
    obtain rfl := Option.some.inj hj
    exact ⟨hfamily, hvalid⟩
  · rw [if_neg hij] at hj
    exact h.denoisers x (Array.mem_of_getElem? hj)

-- A frame works with the settings and leaves them alone.
theorem Configured.advance (h : p.Configured) (hi : p.denoisers[i]? = some d)
    (plan : DenoiserPlan) : (p.advance i d plan).Configured := by
  unfold Planner.advance
  split
  · exact h
  · refine ⟨h.settings, fun x hx => ?_⟩
    rcases Array.mem_or_eq_of_mem_setIfInBounds hx with hx | rfl
    · exact h.denoisers x hx
    · exact h.denoisers d (Array.mem_of_getElem? hi)

theorem Configured.frame (h : p.Configured) (policy : MemoryPolicy)
    (identifiers : List Identifier) : (p.frame policy identifiers).planner.Configured :=
  frame_preserves (fun _ _ h => ⟨h.settings, h.denoisers⟩)
    (fun _ _ _ hi h => h.advance hi _) policy identifiers h

theorem Reachable.configured {denoisers : List (Identifier × Variant)}
    (h : Reachable denoisers store p) : p.Configured := by
  induction h with
  | created h => exact .of_create h
  | setFrameSettings s _ hset ih => exact ih.setFrameSettings hset
  | setDenoiserSettings identifier s _ hset ih => exact ih.setDenoiserSettings hset
  | frame policy identifiers _ ih => exact ih.frame policy identifiers

end Configured

-- The call names no denoiser that is unknown, none twice, and no settings that do not suit.
def Admits (p : Planner) : Call → Prop
  | .setFrameSettings s => s.validate = .ok ()
  | .setDenoiserSettings identifier s =>
    ∃ d ∈ p.denoisers, d.identifier = identifier ∧ s.Suits d.variant
  | .frame identifiers =>
    identifiers.Nodup ∧ ∀ identifier ∈ identifiers, ∃ d ∈ p.denoisers, d.identifier = identifier

-- The request is refused, and not for want of memory.
def Rejects (p : Planner) (request : Request) : Prop :=
  ∃ failure, p.answer request.policy request.call = .error failure ∧ ¬failure.IsOutOfMemory

-- What the requests of a run tell, each under its own policy.
def replies (p : Planner) : List Request → List (Except Failure (Option Frame))
  | [] => []
  | request :: requests =>
    p.answer request.policy request.call :: (p.after request).replies requests

section Rejects

variable {p : Planner} {store : ShaderStore} {flipped : Nat → Bool} {policy : MemoryPolicy}
  {identifiers : List Identifier} {request : Request}

theorem frame_eq_of_positions_error {failure : Failure}
    (h : p.positions [] identifiers = .error failure) :
    p.frame policy identifiers = ⟨p, [], [], .error failure⟩ := by
  simp only [Planner.frame, h]

theorem positions_error_of_rejects (h : p.Rejects ⟨.frame identifiers, policy⟩) :
    ∃ failure, p.positions [] identifiers = .error failure := by
  obtain ⟨failure, hanswer, hmemory⟩ := h
  cases hpositions : p.positions [] identifiers with
  | error failure => exact ⟨failure, rfl⟩
  | ok indices =>
    have hresult := map_eq_error_iff.mp hanswer
    simp only [Planner.frame, hpositions] at hresult
    exact absurd (runAll_error (map_eq_error_iff.mp hresult)) hmemory

-- Every check comes before the first change.
theorem after_of_rejects (h : p.Rejects request) : p.after request = p := by
  obtain ⟨call, policy⟩ := request
  cases call with
  | setFrameSettings s =>
    obtain ⟨failure, hanswer, -⟩ := h
    simp [Planner.after, serve, map_eq_error_iff.mp hanswer, Except.toOption]
  | setDenoiserSettings identifier s =>
    obtain ⟨failure, hanswer, -⟩ := h
    simp [Planner.after, serve, map_eq_error_iff.mp hanswer, Except.toOption]
  | frame identifiers =>
    obtain ⟨failure, hpositions⟩ := positions_error_of_rejects h
    simp only [Planner.after, serve, frame_eq_of_positions_error hpositions]

theorem not_isOutOfMemory_of_check {rules : List Rule} {failure : Failure}
    (h : Rule.check rules = .error failure) : ¬failure.IsOutOfMemory := by
  rintro ⟨size, rfl⟩
  induction rules with
  | nil => cases h
  | cons rule rules ih =>
    unfold Rule.check at h
    split at h
    · exact ih h
    · cases h

theorem rejects_setFrameSettings_iff {s : FrameSettings} :
    p.Rejects ⟨.setFrameSettings s, policy⟩ ↔ ¬p.Admits (.setFrameSettings s) := by
  constructor
  · rintro ⟨failure, hanswer, -⟩ hvalid
    have hvalid : s.validate = .ok () := hvalid
    simp [answer, Planner.setFrameSettings, hvalid, bind, Except.bind, pure, Except.pure,
      Except.map] at hanswer
  · intro hadmits
    cases hvalid : s.validate with
    | ok u => exact absurd hvalid hadmits
    | error failure =>
      refine ⟨failure, ?_, not_isOutOfMemory_of_check hvalid⟩
      simp [answer, Planner.setFrameSettings, hvalid, bind, Except.bind, Except.map]

theorem setDenoiserSettings_error {identifier : Identifier} {s : DenoiserSettings}
    {failure : Failure} (h : p.setDenoiserSettings identifier s = .error failure) :
    ¬failure.IsOutOfMemory := by
  unfold Planner.setDenoiserSettings at h
  split at h
  · cases h
    rintro ⟨size, ⟨⟩⟩
  · dsimp only at h
    split at h
    · cases h
      rintro ⟨size, ⟨⟩⟩
    · cases hvalid : s.validate with
      | ok u => simp [hvalid, bind, Except.bind, pure, Except.pure] at h
      | error failure' =>
        obtain rfl : failure' = failure := by simpa [hvalid, bind, Except.bind, pure, Except.pure] using h
        exact not_isOutOfMemory_of_check hvalid

theorem Sound.rejects_setDenoiserSettings_iff (h : p.Sound store flipped) {identifier : Identifier}
    {s : DenoiserSettings} : p.Rejects ⟨.setDenoiserSettings identifier s, policy⟩ ↔
      ¬p.Admits (.setDenoiserSettings identifier s) := by
  constructor
  · rintro ⟨failure, hanswer, -⟩ ⟨d, hd, rfl, hfamily, hvalid⟩
    obtain ⟨i, hi⟩ := Array.getElem?_of_mem hd
    obtain ⟨p', hset, -⟩ := h.exists_setDenoiserSettings hi hfamily hvalid
    simp [answer, hset, Except.map] at hanswer
  · intro hadmits
    cases hset : p.setDenoiserSettings identifier s with
    | ok p' =>
      obtain ⟨i, d, -, hi, hid, hfamily, hvalid, -⟩ := setDenoiserSettings_ok hset
      exact absurd ⟨d, Array.mem_of_getElem? hi, hid, hfamily, hvalid⟩ hadmits
    | error failure =>
      exact ⟨failure, by simp [answer, hset, Except.map], setDenoiserSettings_error hset⟩

theorem Sound.rejects_frame_iff (h : p.Sound store flipped) :
    p.Rejects ⟨.frame identifiers, policy⟩ ↔ ¬p.Admits (.frame identifiers) := by
  constructor
  · rintro hrejects ⟨hnodup, hknown⟩
    obtain ⟨failure, herror⟩ := positions_error_of_rejects hrejects
    obtain ⟨positions, hpositions⟩ := h.exists_positions_of_mem hnodup hknown
    rw [herror] at hpositions
    cases hpositions
  · intro hadmits
    cases hpositions : p.positions [] identifiers with
    | ok positions =>
      obtain ⟨members, hmembers, -, rfl, -⟩ := positions_ok hpositions
      refine absurd ⟨hmembers.identifiers_nodup h, fun identifier hmem => ?_⟩ hadmits
      obtain ⟨m, hm, rfl⟩ := List.mem_map.mp hmem
      exact ⟨m.2, Array.mem_of_getElem? (hmembers.1 m hm), rfl⟩
    | error failure =>
      refine ⟨failure, ?_, positions_error hpositions⟩
      simp [answer, frame_eq_of_positions_error hpositions, Except.map]

theorem Sound.rejects_iff (h : p.Sound store flipped) :
    p.Rejects request ↔ ¬p.Admits request.call := by
  obtain ⟨call, policy⟩ := request
  cases call with
  | setFrameSettings s => exact rejects_setFrameSettings_iff
  | setDenoiserSettings identifier s => exact h.rejects_setDenoiserSettings_iff
  | frame identifiers => exact h.rejects_frame_iff

-- A run in which rejected requests can be told from the others, and what the others tell.
inductive Winnows : Planner → List Request → List Request → List (Except Failure (Option Frame)) →
    Prop where
  | nil (p : Planner) : Winnows p [] [] []
  | drop {p : Planner} {requests kept : List Request} {answers : List (Except Failure (Option Frame))}
      (request : Request) (hrejects : p.Rejects request)
      (h : Winnows (p.after request) requests kept answers) :
      Winnows p (request :: requests) kept answers
  | keep {p : Planner} {requests kept : List Request} {answers : List (Except Failure (Option Frame))}
      (request : Request) (h : Winnows (p.after request) requests kept answers) :
      Winnows p (request :: requests) (request :: kept)
        (p.answer request.policy request.call :: answers)

theorem Winnows.replies_eq {requests kept : List Request}
    {answers : List (Except Failure (Option Frame))} (h : p.Winnows requests kept answers) :
    p.replies kept = answers := by
  induction h with
  | nil => rfl
  | drop request hrejects h ih => rwa [after_of_rejects hrejects] at ih
  | keep request h ih => rw [replies, ih]

theorem calls_of_rejects (h : p.Rejects ⟨.frame identifiers, policy⟩) :
    (p.frame policy identifiers).calls = [] := by
  obtain ⟨failure, hpositions⟩ := positions_error_of_rejects h
  rw [frame_eq_of_positions_error hpositions]

-- Whatever is rejected is as good as never asked for, and what is stored has been checked.
theorem Reachable.rejection_unnoticed {denoisers : List (Identifier × Variant)}
    (h : Reachable denoisers store p) :
    (∀ request, (p.Rejects request ↔ ¬p.Admits request.call) ∧
      (p.Rejects request → p.after request = p ∧
        (∀ identifiers, request.call = .frame identifiers →
          (p.frame request.policy identifiers).calls = []) ∧
        ∀ requests, (p.after request).replies requests = p.replies requests)) ∧
      (∀ requests kept answers, p.Winnows requests kept answers → p.replies kept = answers) ∧
      p.Configured := by
  obtain ⟨flipped, hsound⟩ := h.sound
  refine ⟨fun request => ⟨hsound.rejects_iff, fun hrejects => ?_⟩, ?_, h.configured⟩
  · have hafter := after_of_rejects hrejects
    refine ⟨hafter, fun identifiers hcall => ?_, fun requests => by rw [hafter]⟩
    obtain ⟨call, policy⟩ := request
    obtain rfl : call = .frame identifiers := hcall
    exact calls_of_rejects hrejects
  · exact fun requests kept answers hwinnows => hwinnows.replies_eq

-- A list that only its last identifier spoils.
theorem Reachable.rejection_unnoticed_shadowAndReference : ∃ p,
    Reachable shadowAndReference (fun _ _ => none) p ∧
      p.Rejects ⟨.frame [⟨3⟩, ⟨7⟩, ⟨3⟩], .atMost none⟩ ∧
      (∀ requests, (p.after ⟨.frame [⟨3⟩, ⟨7⟩, ⟨3⟩], .atMost none⟩).replies requests =
        p.replies requests) ∧ p.Configured := by
  obtain ⟨p, -, hcreate, -⟩ := exists_frame_shadowAndReference
  have hreachable := Reachable.created hcreate
  obtain ⟨hrequests, -, hconfigured⟩ := hreachable.rejection_unnoticed
  obtain ⟨hiff, hunnoticed⟩ := hrequests ⟨.frame [⟨3⟩, ⟨7⟩, ⟨3⟩], .atMost none⟩
  have hrejects := hiff.mpr fun hadmits => absurd hadmits.1 (by decide)
  exact ⟨p, hreachable, hrejects, (hunnoticed hrejects).2.2, hconfigured⟩

end Rejects

end Planner

end DenoisePlanner
