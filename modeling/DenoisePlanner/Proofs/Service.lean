import DenoisePlanner.Proofs.Restart
import Mathlib.Data.List.Infix

namespace DenoisePlanner

def FrameSettings.snapshot (s : FrameSettings) : Snapshot := ⟨s.rectSize, s.resourceSize⟩

-- The textures hold nothing of use for a frame with these settings, given the settings of the
-- frames before it that denoised.
def FrameSettings.Clears (s : FrameSettings) (past : List FrameSettings) : Prop :=
  s.accumulation = .clearAndRestart ∨
    match past.getLast? with
    | none => True
    | some last => last.resourceSize ≠ s.resourceSize

instance (s : FrameSettings) (past : List FrameSettings) : Decidable (s.Clears past) := by
  unfold FrameSettings.Clears
  cases past.getLast? <;> exact inferInstanceAs (Decidable (_ ∨ _))

theorem DenoiserState.isCleared_iff {d : DenoiserState} {past : List FrameSettings}
    (h : d.snapshot = past.getLast?.map FrameSettings.snapshot) (s : FrameSettings) :
    d.isCleared s = true ↔ s.Clears past := by
  unfold isCleared FrameSettings.Clears
  rw [h]
  cases past.getLast? <;> simp [FrameSettings.snapshot]

namespace Planner

theorem serves_frame_iff {p : Planner} {policy : MemoryPolicy} {identifiers : List Identifier}
    {identifier : Identifier} :
    p.Serves ⟨.frame identifiers, policy⟩ identifier ↔
      (p.positions [] identifiers).toOption.isSome ∧ ∃ served ∈ identifiers.inits,
        identifier ∈ served ∧ (p.frame policy served).result.toOption.isSome := by
  have hok {α : Type} (result : Except Failure α) :
      result.toOption.isSome ↔ ∃ a, result = .ok a := by
    cases result <;> simp [Except.toOption]
  simp only [hok, List.mem_inits]
  constructor
  · rintro ⟨_, indices, served, frame, hcall, hpositions, hserved, hmem, hframe⟩
    obtain rfl := Call.frame.inj hcall
    exact ⟨⟨indices, hpositions⟩, served, hserved, hmem, frame, hframe⟩
  · rintro ⟨⟨indices, hpositions⟩, served, hserved, hmem, frame, hframe⟩
    exact ⟨identifiers, indices, served, frame, rfl, hpositions, hserved, hmem, hframe⟩

instance (p : Planner) : (request : Request) → (identifier : Identifier) →
    Decidable (p.Serves request identifier)
  | ⟨.frame _, _⟩, _ => decidable_of_iff' _ serves_frame_iff
  | ⟨.setFrameSettings _, _⟩, _ => isFalse fun ⟨_, _, _, _, hcall, _⟩ => by cases hcall
  | ⟨.setDenoiserSettings _ _, _⟩, _ => isFalse fun ⟨_, _, _, _, hcall, _⟩ => by cases hcall

-- A frame that denoises has a part for the denoiser. It counts even if the memory runs out later.
def Denoises (p : Planner) (request : Request) (identifier : Identifier) : Prop :=
  p.Serves request identifier ∧ ¬1 ≤ p.settings.splitScreen

instance (p : Planner) (request : Request) (identifier : Identifier) :
    Decidable (p.Denoises request identifier) :=
  inferInstanceAs (Decidable (_ ∧ _))

-- The settings of the frames of a run that denoised with a denoiser, the latest last.
def denoised (p : Planner) (identifier : Identifier) : List Request → List FrameSettings
  | [] => []
  | request :: requests =>
    (if p.Denoises request identifier then [p.settings] else []) ++
      (p.after request).denoised identifier requests

variable {p : Planner} {store : ShaderStore} {flipped : Nat → Bool} {policy : MemoryPolicy}
  {i : Nat} {d : DenoiserState} {identifiers : List Identifier} {frame : Frame} {request : Request}
  {requests : List Request} {denoisers : List (Identifier × Variant)}

-- In a frame that brings dispatches, the denoisers that are served are those asked for.
theorem serves_iff_of_ok (hframe : (p.frame policy identifiers).result = .ok frame)
    {identifier : Identifier} :
    p.Serves ⟨.frame identifiers, policy⟩ identifier ↔ identifier ∈ identifiers := by
  constructor
  · rintro ⟨_, indices, served, frame, hcall, -, hserved, hmem, -⟩
    obtain rfl := Call.frame.inj hcall
    exact hserved.subset hmem
  · intro hmem
    cases hpositions : p.positions [] identifiers with
    | error failure => simp [Planner.frame, hpositions] at hframe
    | ok indices =>
      exact ⟨identifiers, indices, identifiers, frame, rfl, hpositions, List.prefix_refl _, hmem,
        hframe⟩

-- A denoiser that has been served moves on, even if the memory ends after it.
theorem Sound.after_of_serves (h : p.Sound store flipped) (hi : p.denoisers[i]? = some d)
    (hserves : p.Serves request d.identifier) :
    (p.after request).denoisers[i]? = some (d.next p.settings) := by
  obtain ⟨call, policy⟩ := request
  obtain ⟨identifiers, indices, served, frame, rfl, hpositions, ⟨rest, rfl⟩, hmem, hframe⟩ :=
    hserves
  exact h.frame_append hi hmem hframe _ hpositions

-- A denoiser remembers the sizes of the last frame that denoised with it, and of no other.
theorem Sound.snapshot_after (h : p.Sound store flipped) (hi : p.denoisers[i]? = some d)
    (request : Request) :
    ∃ e, (p.after request).denoisers[i]? = some e ∧ e.identifier = d.identifier ∧
      e.snapshot = if p.Denoises request d.identifier then some p.settings.snapshot
        else d.snapshot := by
  by_cases hserves : p.Serves request d.identifier
  · refine ⟨_, h.after_of_serves hi hserves, ?_⟩
    unfold DenoiserState.next
    by_cases hpassthrough : 1 ≤ p.settings.splitScreen
    · rw [DenoiserState.moves_eq_false_iff.mpr hpassthrough]
      exact ⟨rfl, (if_neg fun hdenoises => hdenoises.2 hpassthrough).symm⟩
    · have hmoves : d.moves p.settings = true :=
        (Bool.not_eq_false _).mp (mt DenoiserState.moves_eq_false_iff.mp hpassthrough)
      rw [if_pos hmoves]
      exact ⟨rfl, (if_pos ⟨hserves, hpassthrough⟩).symm⟩
  · obtain ⟨settings, hafter⟩ := h.after_of_not_serves hi hserves
    exact ⟨_, hafter, rfl, (if_neg fun hdenoises => hserves hdenoises.1).symm⟩

theorem Sound.snapshot_foldl_after (h : p.Sound store flipped) (hi : p.denoisers[i]? = some d)
    (requests : List Request) :
    ∃ e, (requests.foldl Planner.after p).denoisers[i]? = some e ∧ e.identifier = d.identifier ∧
      e.snapshot = ((p.denoised d.identifier requests).getLast?.map FrameSettings.snapshot).or
        d.snapshot := by
  induction requests generalizing p d flipped with
  | nil => exact ⟨d, hi, rfl, rfl⟩
  | cons request requests ih =>
    obtain ⟨e, he, hid, hsnapshot⟩ := h.snapshot_after hi request
    obtain ⟨flipped', h'⟩ : ∃ flipped', (p.after request).Sound store flipped' :=
      h.serve request.policy request.call
    obtain ⟨e', he', hid', hsnapshot'⟩ := ih h' he
    refine ⟨e', he', hid'.trans hid, ?_⟩
    rw [hsnapshot', hsnapshot, hid, denoised, List.getLast?_append]
    cases ((p.after request).denoised d.identifier requests).getLast? with
    | some last => rfl
    | none => split <;> rfl

-- A frame that is refused for its identifiers serves nobody.
theorem not_serves_of_error {failure : Failure}
    (hframe : (p.frame policy identifiers).result = .error failure)
    (hroom : ¬failure.IsOutOfMemory) (identifier : Identifier) :
    ¬p.Serves ⟨.frame identifiers, policy⟩ identifier := by
  rintro ⟨_, indices, -, -, hcall, hpositions, -⟩
  obtain rfl := Call.frame.inj hcall
  unfold Planner.frame at hframe
  simp only [hpositions] at hframe
  exact hroom (runAll_error (map_eq_error_iff.mp hframe))

theorem Stands.denoises_eq {s : Standing} (h : p.Stands store i d s) (hroom : p.HasRoom request) :
    (if p.Denoises request d.identifier then [p.settings] else []) =
      ((p.turn? d.identifier request).toList.filter Turn.denoises).map Turn.settings := by
  by_cases hanswers : p.Answers request
  · obtain ⟨share, hturn, -⟩ := h.turn?_eq hanswers
    have hserves : p.Serves request d.identifier ↔ d.isAsked request.call = true := by
      obtain ⟨call, policy⟩ := request
      cases call with
      | frame identifiers =>
        obtain ⟨frame, hframe⟩ := hanswers identifiers rfl
        rw [serves_iff_of_ok hframe, DenoiserState.isAsked, decide_eq_true_iff]
      | _ => simp [Serves, DenoiserState.isAsked]
    have hmoves : ¬1 ≤ p.settings.splitScreen ↔ d.moves p.settings = true := by
      rw [← DenoiserState.moves_eq_false_iff (d := d), Bool.not_eq_false]
    have hdenoises : p.Denoises request d.identifier ↔
        d.isAsked request.call = true ∧ d.moves p.settings = true := and_congr hserves hmoves
    rw [hturn, if_congr hdenoises rfl rfl]
    by_cases hasked : d.isAsked request.call = true <;>
      by_cases hmoves : d.moves p.settings = true <;> simp [hasked, hmoves, Turn.denoises]
  · obtain ⟨-, hturn⟩ := after_of_not_answers hroom hanswers
    have hrests : ¬p.Serves request d.identifier := by
      obtain ⟨call, policy⟩ := request
      simp only [Answers, not_forall] at hanswers
      obtain ⟨identifiers, rfl, hnone⟩ := hanswers
      cases hframe : (p.frame policy identifiers).result with
      | ok frame => exact absurd ⟨frame, hframe⟩ hnone
      | error failure => exact not_serves_of_error hframe (hroom failure hframe) _
    rw [hturn, if_neg fun hdenoises => hrests hdenoises.1]
    rfl

-- As long as the memory suffices, these are the frames of the turns that denoise.
theorem Stands.denoised_eq {s : Standing} (h : p.Stands store i d s) (hlasts : p.Lasts requests) :
    p.denoised d.identifier requests =
      ((p.turns d.identifier requests).filter Turn.denoises).map Turn.settings := by
  induction requests generalizing p d s with
  | nil => rfl
  | cons request requests ih =>
    obtain ⟨d', ⟨hid, -, -⟩, h', -⟩ := h.step hlasts.1
    have hrest := ih h' hlasts.2
    rw [hid] at hrest
    rw [denoised, turns, List.filter_append, List.map_append, h.denoises_eq hlasts.1, hrest]

theorem size_denoisers_after (p : Planner) (request : Request) :
    (p.after request).denoisers.size = p.denoisers.size := by
  obtain ⟨call, policy⟩ := request
  cases call with
  | setFrameSettings s =>
    cases hset : p.setFrameSettings s with
    | error failure => simp [Planner.after, serve, hset, Except.toOption]
    | ok q =>
      obtain ⟨-, rfl⟩ := setFrameSettings_ok hset
      simp [Planner.after, serve, hset, Except.toOption]
  | setDenoiserSettings identifier s =>
    cases hset : p.setDenoiserSettings identifier s with
    | error failure => simp [Planner.after, serve, hset, Except.toOption]
    | ok q =>
      obtain ⟨i, d, -, -, -, -, -, rfl⟩ := setDenoiserSettings_ok hset
      simp [Planner.after, serve, hset, Except.toOption]
  | frame identifiers =>
    refine frame_preserves (P := fun q => q.denoisers.size = p.denoisers.size)
      (fun _ _ h => h) (fun q i d _ h => ?_) policy identifiers rfl
    unfold Planner.advance
    split
    · exact h
    · exact (Array.size_setIfInBounds ..).trans h

theorem size_denoisers_foldl_after (p : Planner) (requests : List Request) :
    (requests.foldl Planner.after p).denoisers.size = p.denoisers.size := by
  induction requests generalizing p with
  | nil => rfl
  | cons request requests ih => exact (ih _).trans (p.size_denoisers_after request)

-- A new planner remembers nothing.
theorem snapshot_of_create (hcreate : (create denoisers store).result = .ok p)
    (hd : d ∈ (requests.foldl Planner.after p).denoisers) :
    d.snapshot = (p.denoised d.identifier requests).getLast?.map FrameSettings.snapshot := by
  obtain ⟨hsound, -, hfresh, -⟩ := create_ok hcreate
  obtain ⟨i, hi⟩ := Array.getElem?_of_mem hd
  have hlt : i < p.denoisers.size := by
    rw [← size_denoisers_foldl_after p requests]
    exact (Array.getElem?_eq_some_iff.mp hi).1
  have hfirst := Array.getElem?_eq_getElem hlt
  obtain ⟨e, he, hid, hsnapshot⟩ := hsound.snapshot_foldl_after hfirst requests
  obtain rfl : e = d := Option.some.inj (he.symm.trans hi)
  have hnone : p.denoisers[i].snapshot = none := (hfresh _ (Array.getElem_mem hlt)).2.1
  rw [hsnapshot, hid, hnone, Option.or_none]

end Planner

end DenoisePlanner
