import DenoisePlanner.Proofs.Accumulation
import DenoisePlanner.Proofs.Exhaustion

namespace DenoisePlanner

-- What the history will be depends on no more of a denoiser than this.
theorem DenoiserState.history_congr {d e : DenoiserState} (hsnapshot : d.snapshot = e.snapshot)
    (haccumulated : d.accumulated = e.accumulated) (s : FrameSettings) :
    d.history s = e.history s := by
  have hreset : d.isReset s = e.isReset s := by
    unfold isReset
    rw [hsnapshot]
  rw [history, history, hreset, haccumulated]

-- A reset leaves a denoiser that goes on with one frame of history.
theorem DenoiserState.history_advance (d : DenoiserState) {s s' : FrameSettings}
    (hrestart : s.accumulation ≠ .proceed) (hproceeds : s'.accumulation = .proceed)
    (hrect : s'.rectSize = s.rectSize) : (d.advance s).history s' = ⟨false, 1⟩ := by
  have hreset : d.isReset s = true := by simp [isReset, hrestart]
  have hkept : (d.advance s).isReset s' = false := by simp [isReset, advance, hproceeds, hrect]
  have hcount : (d.advance s).accumulated = 0 := by simp [advance, history, hreset]
  simp [history, hkept, hcount, nextCount]

namespace Planner

-- The frame gets as far as to serve the denoiser, even if the memory does not last to its end.
def Serves (p : Planner) (request : Request) (identifier : Identifier) : Prop :=
  ∃ identifiers indices served frame, request.call = .frame identifiers ∧
    p.positions [] identifiers = .ok indices ∧ served <+: identifiers ∧ identifier ∈ served ∧
    (p.frame request.policy served).result = .ok frame

-- A run in which the denoiser has no part.
def Rests (p : Planner) (identifier : Identifier) : List Request → Prop
  | [] => True
  | request :: requests =>
    ¬p.Serves request identifier ∧ (p.after request).Rests identifier requests

variable {p : Planner} {store : ShaderStore} {flipped : Nat → Bool} {policy : MemoryPolicy} {i : Nat}
  {d : DenoiserState} {identifiers : List Identifier} {frame : Frame} {request : Request}
  {requests : List Request} {denoisers : List (Identifier × Variant)}

theorem Sound.spares_of_not_serves (h : p.Sound store flipped) (hi : p.denoisers[i]? = some d)
    {result : Except Failure Frame} (hframe : (p.frame policy identifiers).result = result)
    (hrests : ¬p.Serves ⟨.frame identifiers, policy⟩ d.identifier) :
    p.Spares (p.frame policy identifiers).planner i d := by
  cases hpositions : p.positions [] identifiers with
  | error failure =>
    have hsame : (p.frame policy identifiers).planner = p := by simp [Planner.frame, hpositions]
    rw [hsame]
    exact .refl hi
  | ok indices =>
    have hserved {served : List Identifier} {frame : Frame} (hserved : served <+: identifiers)
        (hok : (p.frame policy served).result = .ok frame) : d.identifier ∉ served :=
      fun hmem => hrests ⟨identifiers, indices, served, frame, rfl, hpositions, hserved, hmem, hok⟩
    cases result with
    | ok frame => exact h.frame_spares hi (hserved (List.prefix_refl _) hframe)
    | error failure =>
      rcases frame_error hframe with ⟨size, rfl⟩ | hsame
      · obtain ⟨k, -, frame, hok, hbare⟩ := frame_of_outOfMemory hframe
        exact (h.frame_spares hi (hserved (List.take_prefix k _) hok)).congr hbare
      · rw [hsame]
        exact .refl hi

-- Without its part in a frame, a denoiser changes in its settings at most.
theorem Sound.after_of_not_serves (h : p.Sound store flipped) (hi : p.denoisers[i]? = some d)
    (hrests : ¬p.Serves request d.identifier) :
    ∃ settings, (p.after request).denoisers[i]? = some { d with settings } := by
  obtain ⟨call, policy⟩ := request
  have hother (hserved : p.Served (p.after ⟨call, policy⟩) store flipped call)
      (hturns : d.turns p.settings call = false) :
      ∃ settings, (p.after ⟨call, policy⟩).denoisers[i]? = some { d with settings } := by
    obtain ⟨settings, hafter⟩ := d.exists_after_eq p.settings call
    refine ⟨settings, ?_⟩
    rw [hserved.getElem?_denoisers hi, hafter, hturns]
    rfl
  cases call with
  | setFrameSettings s => exact hother (h.serve_setFrameSettings policy s) rfl
  | setDenoiserSettings identifier s =>
    exact hother (h.serve_setDenoiserSettings policy identifier s) rfl
  | frame identifiers => exact ⟨d.settings, (h.spares_of_not_serves hi rfl hrests).denoiser⟩

theorem Sound.foldl_after_of_rests (h : p.Sound store flipped) (hi : p.denoisers[i]? = some d)
    (hrests : p.Rests d.identifier requests) :
    ∃ settings, (requests.foldl Planner.after p).denoisers[i]? = some { d with settings } := by
  induction requests generalizing p d flipped with
  | nil => exact ⟨d.settings, hi⟩
  | cons request requests ih =>
    obtain ⟨settings, hafter⟩ := h.after_of_not_serves hi hrests.1
    obtain ⟨flipped', h'⟩ := h.serve request.policy request.call
    obtain ⟨settings', hrest⟩ := ih h' hafter hrests.2
    exact ⟨settings', hrest⟩

theorem Reachable.heads (h : Reachable denoisers store p)
    (hframe : (p.frame policy identifiers).result = .ok frame) (hd : d ∈ p.denoisers)
    (hasked : d.identifier ∈ identifiers) :
    (d.shared p.settings).Heads (frame.share d.identifier) := by
  obtain ⟨s, htakes⟩ := h.exists_takes hframe hd hasked
  exact htakes.heads

-- What a frame makes of a denoiser lasts until it is served again.
theorem Reachable.exists_rested (h : Reachable denoisers store p)
    (hframe : (p.frame policy identifiers).result = .ok frame) (hd : d ∈ p.denoisers)
    (hasked : d.identifier ∈ identifiers)
    (hrests : (p.frame policy identifiers).planner.Rests d.identifier requests) :
    ∃ e ∈ (requests.foldl Planner.after (p.frame policy identifiers).planner).denoisers,
      e.identifier = d.identifier ∧ ∀ s, e.history s = (d.next p.settings).history s := by
  obtain ⟨flipped, hsound⟩ := h.sound
  obtain ⟨i, hi⟩ := Array.getElem?_of_mem hd
  obtain ⟨flipped', hsound', -⟩ := (hsound.serve_frame hframe).sound
  have hid : (d.next p.settings).identifier = d.identifier := by
    unfold DenoiserState.next
    split <;> rfl
  obtain ⟨settings, hrested⟩ := hsound'.foldl_after_of_rests
    (hsound.frame_next hi hasked hframe) (hid.symm ▸ hrests)
  exact ⟨_, Array.mem_of_getElem? hrested, hid, fun s => DenoiserState.history_congr rfl rfl s⟩

-- A reset is heeded in its own frame, and in the next one unless its own frame only showed inputs:
-- then the next one goes on with whatever history there was before.
theorem Reachable.restart_heeded (h : Reachable denoisers store p)
    (hframe : (p.frame policy identifiers).result = .ok frame) (hd : d ∈ p.denoisers)
    (hasked : d.identifier ∈ identifiers) (hrestart : p.settings.accumulation ≠ .proceed)
    (hrests : (p.frame policy identifiers).planner.Rests d.identifier requests) {q : Planner}
    (hq : q = requests.foldl Planner.after (p.frame policy identifiers).planner)
    (hproceeds : q.settings.accumulation = .proceed)
    (hrect : q.settings.rectSize = p.settings.rectSize) {policy' : MemoryPolicy}
    {identifiers' : List Identifier} {frame' : Frame}
    (hframe' : (q.frame policy' identifiers').result = .ok frame')
    (hasked' : d.identifier ∈ identifiers') :
    ∃ c c' : SharedConstants, c.Heads (frame.share d.identifier) ∧
      c'.Heads (frame'.share d.identifier) ∧
      c.frame.isHistoryReset = true ∧ c.frame.accumulated = 0 ∧
      (¬1 ≤ p.settings.splitScreen →
        c'.frame.isHistoryReset = false ∧ c'.frame.accumulated = 1) ∧
      (1 ≤ p.settings.splitScreen →
        c'.frame.isHistoryReset = (d.history q.settings).isReset ∧
          c'.frame.accumulated = (d.history q.settings).accumulated) := by
  obtain ⟨e, he, hid, hhistory⟩ := h.exists_rested hframe hd hasked hrests
  rw [← hq] at he
  have hreachable : Reachable denoisers store q := hq ▸ (h.frame policy identifiers).foldl_after _
  have hheads := hreachable.heads hframe' he (hid.symm ▸ hasked')
  rw [hid] at hheads
  have hreset : d.isReset p.settings = true := by simp [DenoiserState.isReset, hrestart]
  have hrestarts := DenoiserState.restarts_shared_iff.mpr hreset
  have hconstants : (e.shared q.settings).frame.isHistoryReset = (e.history q.settings).isReset ∧
      (e.shared q.settings).frame.accumulated = (e.history q.settings).accumulated :=
    ⟨FrameConstants.isHistoryReset_ofSettings _ _, rfl⟩
  rw [hhistory] at hconstants
  refine ⟨_, _, h.heads hframe hd hasked, hheads, hrestarts.isHistoryReset, hrestarts.accumulated,
    fun hdenoises => ?_, fun hpassthrough => ?_⟩
  · have hmoves : d.moves p.settings = true :=
      (Bool.not_eq_false _).mp (mt DenoiserState.moves_eq_false_iff.mp hdenoises)
    rw [DenoiserState.next, if_pos hmoves, d.history_advance hrestart hproceeds hrect] at hconstants
    exact hconstants
  · have hmoves : ¬d.moves p.settings = true := by
      simp [DenoiserState.moves_eq_false_iff.mpr hpassthrough]
    rw [DenoiserState.next, if_neg hmoves] at hconstants
    exact hconstants

end Planner

-- Two frames of plain averaging, and the settings of the next frame.
def restarting (s : FrameSettings) : List Request :=
  averaging ++ [⟨.setFrameSettings s, .atMost none⟩]

-- After it the default settings again.
def proceeding : List Request := [⟨.setFrameSettings {}, .atMost none⟩]

namespace Planner

variable {p : Planner} {store : ShaderStore} {flipped : Nat → Bool} {d : DenoiserState}

theorem Sound.settings_proceeding (h : p.Sound store flipped) :
    (proceeding.foldl Planner.after p).settings = {} := by
  have hdefault : ({} : FrameSettings).validate = .ok () := by decide +kernel
  have hserved := (h.serve_setFrameSettings (.atMost none) {}).settings
  simp only [Call.settings, hdefault] at hserved
  rw [proceeding, List.foldl_cons, List.foldl_nil, Planner.after, hserved]

theorem rests_proceeding (identifier : Identifier) : p.Rests identifier proceeding := by
  refine ⟨?_, trivial⟩
  rintro ⟨identifiers, -, -, -, hcall, -⟩
  cases hcall

theorem Reachable.exists_frame {denoisers : List (Identifier × Variant)} {policy : MemoryPolicy}
    (h : Reachable denoisers store p) (hgrants : policy.Grants) (hd : d ∈ p.denoisers) :
    ∃ frame, (p.frame policy [d.identifier]).result = .ok frame := by
  obtain ⟨flipped, hsound⟩ := h.sound
  obtain ⟨i, hi⟩ := Array.getElem?_of_mem hd
  exact hsound.exists_frame hgrants (hsound.positions_singleton hi)

-- A planner that has a history of one frame, and is about to do a frame with other settings.
theorem exists_restarting {s : FrameSettings} (hvalid : s.validate = .ok ()) :
    ∃ p, ∃ d ∈ p.denoisers, Reachable shadowAndReference (fun _ _ => none) p ∧
      p.settings = s ∧ d.identifier = ⟨3⟩ ∧ d.history {} = ⟨false, 2⟩ := by
  obtain ⟨p, -, hcreate, -⟩ := exists_frame_shadowAndReference
  obtain ⟨d, hd, hid, -, -, hnone, -⟩ :=
    exists_denoiser hcreate (List.mem_cons_of_mem _ (List.mem_cons_self ..))
  obtain ⟨i, h⟩ := stands_of_create hcreate hd
  have hsolo : ∀ request ∈ restarting s, request.Solo d.identifier := by
    simp [restarting, averaging, Request.Solo, MemoryPolicy.Grants.unlimited, hid]
  obtain ⟨standing, h', hcurrent⟩ := h.reached hsolo
  have hreached : d.reached p.settings ((restarting s).map Request.call) =
      (d.advance {}).advance {} := by
    rw [(create_ok hcreate).2.2.2]
    simp [restarting, averaging, DenoiserState.reached, DenoiserState.after, DenoiserState.next,
      Call.settings, DenoiserState.moves_default, hid, DenoiserState.advance]
  rw [hreached] at h'
  refine ⟨_, _, Array.mem_of_getElem? h'.member, .foldl_after (.created hcreate) (restarting s),
    ?_, hid, ?_⟩
  · rw [hcurrent]
    simp [restarting, averaging, Call.settings, hvalid]
  · have hfirst : d.isReset {} = true := by simp [DenoiserState.isReset, hnone]
    have hkept (e : DenoiserState) : (e.advance {}).isReset {} = false := by
      simp [DenoiserState.isReset, DenoiserState.advance]
    have hcount : (d.advance {}).accumulated = 0 := by
      simp [DenoiserState.advance, DenoiserState.history, hfirst]
    have hcount' : ((d.advance {}).advance {}).accumulated = 1 := by
      change ((d.advance {}).history {}).accumulated = 1
      simp [DenoiserState.history, hkept, hcount, DenoiserState.nextCount]
    simp [DenoiserState.history, hkept, hcount', DenoiserState.nextCount]

-- The two frames that follow.
theorem exists_restarted {s : FrameSettings} (hvalid : s.validate = .ok ()) :
    ∃ p q frame frame', ∃ d ∈ p.denoisers, Reachable shadowAndReference (fun _ _ => none) p ∧
      p.settings = s ∧ d.history {} = ⟨false, 2⟩ ∧ d.identifier ∈ [(⟨3⟩ : Identifier)] ∧
      (p.frame (.atMost none) [⟨3⟩]).result = .ok frame ∧
      q = proceeding.foldl Planner.after (p.frame (.atMost none) [⟨3⟩]).planner ∧
      q.settings = {} ∧ (q.frame (.atMost none) [⟨3⟩]).result = .ok frame' := by
  obtain ⟨p, d, hd, hreachable, hsettings, hid, hhistory⟩ := exists_restarting hvalid
  have hasked : d.identifier ∈ [(⟨3⟩ : Identifier)] := List.mem_singleton.mpr hid
  obtain ⟨frame, hframe⟩ := hreachable.exists_frame .unlimited hd
  rw [hid] at hframe
  obtain ⟨e, he, hid', -⟩ := hreachable.exists_rested hframe hd hasked (rests_proceeding _)
  have hreachable' := (hreachable.frame (.atMost none) [⟨3⟩]).foldl_after proceeding
  obtain ⟨frame', hframe'⟩ := hreachable'.exists_frame .unlimited he
  rw [hid', hid] at hframe'
  obtain ⟨flipped, hsound⟩ := (hreachable.frame (.atMost none) [⟨3⟩]).sound
  exact ⟨p, _, frame, frame', d, hd, hreachable, hsettings, hhistory, hasked, hframe, rfl,
    hsound.settings_proceeding, hframe'⟩

theorem Reachable.restart_heeded_reference : ∃ p q frame frame', ∃ d ∈ p.denoisers,
    Reachable shadowAndReference (fun _ _ => none) p ∧
      (p.frame (.atMost none) [⟨3⟩]).result = .ok frame ∧
      d.identifier ∈ [(⟨3⟩ : Identifier)] ∧ p.settings.accumulation ≠ .proceed ∧
      (p.frame (.atMost none) [⟨3⟩]).planner.Rests d.identifier proceeding ∧
      q = proceeding.foldl Planner.after (p.frame (.atMost none) [⟨3⟩]).planner ∧
      q.settings.accumulation = .proceed ∧ q.settings.rectSize = p.settings.rectSize ∧
      (q.frame (.atMost none) [⟨3⟩]).result = .ok frame' ∧
      ∃ c c' : SharedConstants, c.Heads (frame.share d.identifier) ∧
        c'.Heads (frame'.share d.identifier) ∧
        c.frame.isHistoryReset = true ∧ c.frame.accumulated = 0 ∧
        (¬1 ≤ p.settings.splitScreen →
          c'.frame.isHistoryReset = false ∧ c'.frame.accumulated = 1) ∧
        (1 ≤ p.settings.splitScreen →
          c'.frame.isHistoryReset = (d.history q.settings).isReset ∧
            c'.frame.accumulated = (d.history q.settings).accumulated) := by
  have hvalid : ({ accumulation := .restart } : FrameSettings).validate = .ok () := by
    decide +kernel
  obtain ⟨p, q, frame, frame', d, hd, hreachable, hsettings, -, hasked, hframe, hq, hcurrent,
    hframe'⟩ := exists_restarted hvalid
  have hrestart : p.settings.accumulation ≠ .proceed := by simp [hsettings]
  have hproceeds : q.settings.accumulation = .proceed := by rw [hcurrent]
  have hrect : q.settings.rectSize = p.settings.rectSize := by rw [hcurrent, hsettings]
  exact ⟨p, q, frame, frame', d, hd, hreachable, hframe, hasked, hrestart, rests_proceeding _, hq,
    hproceeds, hrect, hframe', restart_heeded hreachable hframe hd hasked hrestart
      (rests_proceeding _) hq hproceeds hrect hframe' hasked⟩

-- A reset that was asked of a frame that only showed inputs is lost: the next frame counts on.
theorem exists_lost_restart : ∃ p q frame frame', ∃ d ∈ p.denoisers,
    Reachable shadowAndReference (fun _ _ => none) p ∧
      (p.frame (.atMost none) [⟨3⟩]).result = .ok frame ∧
      d.identifier ∈ [(⟨3⟩ : Identifier)] ∧ p.settings.accumulation = .restart ∧
      q = proceeding.foldl Planner.after (p.frame (.atMost none) [⟨3⟩]).planner ∧
      q.settings.accumulation = .proceed ∧ q.settings.rectSize = p.settings.rectSize ∧
      (q.frame (.atMost none) [⟨3⟩]).result = .ok frame' ∧
      (∃ c : SharedConstants, c.Heads (frame'.share d.identifier)) ∧
      ∀ c : SharedConstants, c.Heads (frame'.share d.identifier) → c.frame.accumulated = 2 := by
  have hvalid : ({ accumulation := .restart, splitScreen := 1 } : FrameSettings).validate =
      .ok () := by decide +kernel
  obtain ⟨p, q, frame, frame', d, hd, hreachable, hsettings, hhistory, hasked, hframe, hq,
    hcurrent, hframe'⟩ := exists_restarted hvalid
  obtain ⟨e, he, hid, hrested⟩ := hreachable.exists_rested hframe hd hasked (rests_proceeding _)
  have hreachable' := (hreachable.frame (.atMost none) [⟨3⟩]).foldl_after proceeding
  rw [← hq] at he hreachable'
  have hheads := hreachable'.heads hframe' he (hid.symm ▸ hasked)
  rw [hid] at hheads
  have hmoves : ¬d.moves p.settings = true := by
    have hpassthrough : 1 ≤ p.settings.splitScreen := by
      rw [hsettings]
      decide +kernel
    simp [DenoiserState.moves_eq_false_iff.mpr hpassthrough]
  refine ⟨p, q, frame, frame', d, hd, hreachable, hframe, hasked, by rw [hsettings], hq,
    by rw [hcurrent], by rw [hcurrent, hsettings], hframe', ⟨_, hheads⟩, fun c hc => ?_⟩
  rw [FrameConstants.accumulated, hc.frame_eq hheads]
  change (e.history q.settings).accumulated = 2
  rw [hrested, DenoiserState.next, if_neg hmoves, hcurrent, hhistory]

end Planner

end DenoisePlanner
