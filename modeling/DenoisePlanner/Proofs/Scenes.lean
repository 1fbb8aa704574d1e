import DenoisePlanner.Proofs.Flow
import DenoisePlanner.Proofs.Turns

namespace DenoisePlanner

theorem DenoiserState.moves_eq (d : DenoiserState) (s : FrameSettings) :
    d.moves s = !(Switches.ofSettings s).isPassthrough := by
  rw [moves, d.isPassthrough_switches]

theorem DenoiserState.moves_default (d : DenoiserState) : d.moves {} = true := by
  rw [d.moves_eq]
  decide +kernel

-- What a run that asks for one denoiser alone shows of it: the settings of each frame, and the
-- denoiser as the frame finds it.
def DenoiserState.scenes (d : DenoiserState) (s : FrameSettings) :
    List Call → List (FrameSettings × DenoiserState)
  | [] => []
  | .frame _ :: calls => (s, d) :: (d.next s).scenes s calls
  | call :: calls => (d.after s call).scenes (call.settings s) calls

-- The denoiser after such a run.
def DenoiserState.reached (d : DenoiserState) (s : FrameSettings) : List Call → DenoiserState
  | [] => d
  | call :: calls => (d.after s call).reached (call.settings s) calls

-- A request that is not refused for want of memory, and whose frame is for one denoiser alone.
def Request.Solo (identifier : Identifier) (request : Request) : Prop :=
  request.policy.Grants ∧
    ∀ identifiers, request.call = .frame identifiers → identifiers = [identifier]

namespace Planner

variable {p : Planner} {store : ShaderStore} {policy : MemoryPolicy} {i : Nat} {d : DenoiserState}
  {request : Request} {requests : List Request} {s : Standing}

theorem Stands.answers (h : p.Stands store i d s) (hsolo : request.Solo d.identifier) :
    p.Answers request := by
  intro identifiers hcall
  obtain rfl := hsolo.2 identifiers hcall
  obtain ⟨flipped, hsound, -⟩ := h.sound
  exact hsound.exists_frame hsolo.1 (hsound.positions_singleton h.member)

theorem Answers.hasRoom (h : p.Answers request) : p.HasRoom request := by
  unfold HasRoom
  split
  · rename_i identifiers hcall
    obtain ⟨frame, hframe⟩ := h identifiers hcall
    intro failure herror
    rw [hframe] at herror
    cases herror
  · trivial

-- A run for one denoiser alone shows what its calls make of the denoiser.
theorem Stands.scenes (h : p.Stands store i d s)
    (hsolo : ∀ request ∈ requests, request.Solo d.identifier) :
    p.Lasts requests ∧ (p.turns d.identifier requests).map (fun t => (t.settings, t.denoiser)) =
      d.scenes p.settings (requests.map Request.call) := by
  induction requests generalizing p d s with
  | nil => exact ⟨trivial, rfl⟩
  | cons request requests ih =>
    have hfirst := hsolo request List.mem_cons_self
    have hanswers := h.answers hfirst
    have hid := (d.after_eq p.settings request.call).1
    have h' := h.answered hanswers
    obtain ⟨share, hturn, -⟩ := h.turn?_eq hanswers
    obtain ⟨flipped, hsound, -⟩ := h.sound
    obtain ⟨hlasts, hscenes⟩ := ih h' fun r hr => hid ▸ hsolo r (List.mem_cons_of_mem _ hr)
    rw [hid, (hsound.served hanswers).settings] at hscenes
    refine ⟨⟨hanswers.hasRoom, hlasts⟩, ?_⟩
    rw [turns, List.map_append, hscenes, hturn]
    obtain ⟨call, policy⟩ := request
    cases call with
    | frame identifiers =>
      obtain rfl := hfirst.2 identifiers rfl
      simp [DenoiserState.isAsked, DenoiserState.scenes, DenoiserState.after, Call.settings]
    | _ => rfl

theorem Stands.reached (h : p.Stands store i d s)
    (hsolo : ∀ request ∈ requests, request.Solo d.identifier) :
    ∃ s', (requests.foldl after p).Stands store i
        (d.reached p.settings (requests.map Request.call)) s' ∧
      (requests.foldl after p).settings =
        (requests.map Request.call).foldl Call.settings p.settings := by
  induction requests generalizing p d s with
  | nil => exact ⟨s, h, rfl⟩
  | cons request requests ih =>
    have hanswers := h.answers (hsolo request List.mem_cons_self)
    have hid := (d.after_eq p.settings request.call).1
    obtain ⟨flipped, hsound, -⟩ := h.sound
    have hsettings := (hsound.served hanswers).settings
    obtain ⟨s', h', hsettings'⟩ := ih (h.answered hanswers) fun r hr =>
      hid ▸ hsolo r (List.mem_cons_of_mem _ hr)
    rw [hsettings] at h' hsettings'
    exact ⟨s', h', hsettings'⟩

theorem Reachable.after {denoisers : List (Identifier × Variant)} (h : Reachable denoisers store p)
    (request : Request) : Reachable denoisers store (p.after request) := by
  obtain ⟨call, policy⟩ := request
  cases call with
  | setFrameSettings settings =>
    cases hset : p.setFrameSettings settings with
    | error failure => simpa [Planner.after, serve, hset, Except.toOption] using h
    | ok p' => simpa [Planner.after, serve, hset, Except.toOption] using h.setFrameSettings _ hset
  | setDenoiserSettings identifier settings =>
    cases hset : p.setDenoiserSettings identifier settings with
    | error failure => simpa [Planner.after, serve, hset, Except.toOption] using h
    | ok p' =>
      simpa [Planner.after, serve, hset, Except.toOption] using h.setDenoiserSettings _ _ hset
  | frame identifiers => exact h.frame policy identifiers

theorem Reachable.foldl_after {denoisers : List (Identifier × Variant)}
    (h : Reachable denoisers store p) (requests : List Request) :
    Reachable denoisers store (requests.foldl Planner.after p) := by
  induction requests generalizing p with
  | nil => exact h
  | cons request requests ih => exact ih (h.after request)

end Planner

-- Two frames of plain averaging.
def averaging : List Request :=
  [⟨.frame [⟨3⟩], .atMost none⟩, ⟨.frame [⟨3⟩], .atMost none⟩]

namespace Planner

theorem exists_averaging : ∃ p, ∃ d ∈ p.denoisers, ∃ prev now : Turn,
    (create shadowAndReference fun _ _ => none).result = .ok p ∧ d.variant = .reference ∧
      p.Lasts averaging ∧ p.turns d.identifier averaging = [prev, now] ∧
      prev.denoises = true ∧ now.denoises = true := by
  obtain ⟨p, -, hcreate, -⟩ := exists_frame_shadowAndReference
  obtain ⟨d, hd, hid, hvariant, -⟩ :=
    exists_denoiser hcreate (List.mem_cons_of_mem _ (List.mem_cons_self ..))
  obtain ⟨i, h⟩ := stands_of_create hcreate hd
  have hsolo : ∀ request ∈ averaging, request.Solo d.identifier := by
    simp [averaging, Request.Solo, MemoryPolicy.Grants.unlimited, hid]
  obtain ⟨hlasts, hscenes⟩ := h.scenes hsolo
  have hsettings : (p.turns d.identifier averaging).map Turn.settings = [{}, {}] := by
    have hfirst := congrArg (List.map Prod.fst) hscenes
    rw [List.map_map, (create_ok hcreate).2.2.2] at hfirst
    exact hfirst
  obtain ⟨prev, rest, hturns, hprev, hrest⟩ := List.map_eq_cons_iff.mp hsettings
  obtain ⟨now, rest, rfl, hnow, hrest⟩ := List.map_eq_cons_iff.mp hrest
  obtain rfl := List.map_eq_nil_iff.mp hrest
  have hdenoises {t : Turn} (ht : t.settings = {}) : t.denoises = true := by
    rw [Turn.denoises, ht]
    exact t.denoiser.moves_default
  exact ⟨p, d, hd, prev, now, hcreate, hvariant, hlasts, hturns, hdenoises hprev, hdenoises hnow⟩

end Planner

end DenoisePlanner
