import DenoisePlanner.Proofs.Room
import DenoisePlanner.Proofs.Share

namespace DenoisePlanner

-- What a host asks of a planner once it exists.
inductive Call where
  | setFrameSettings (s : FrameSettings)
  | setDenoiserSettings (identifier : Identifier) (s : DenoiserSettings)
  | frame (identifiers : List Identifier)

namespace Call

-- The settings of the frames after a call.
def settings (s : FrameSettings) : Call → FrameSettings
  | .setFrameSettings s' => match s'.validate with
    | .ok _ => s'
    | .error _ => s
  | _ => s

-- What a call, together with the frame that it brought, comes to for one denoiser by itself.
def projected (identifier : Identifier) : Call × Option Frame → Option Call
  | (.setFrameSettings s, _) => some (.setFrameSettings s)
  | (.setDenoiserSettings other s, _) =>
    if other = identifier then some (.setDenoiserSettings identifier s) else none
  | (.frame identifiers, some _) =>
    if identifier ∈ identifiers then some (.frame [identifier]) else none
  | (.frame _, none) => none

-- The part that a denoiser has in a frame for which it was asked.
def share (identifier : Identifier) : Call × Option Frame → Option (List Dispatch)
  | (.frame identifiers, some result) =>
    if identifier ∈ identifiers then some (result.share identifier) else none
  | _ => none

end Call

namespace DenoiserState

def configure (d : DenoiserState) (s : DenoiserSettings) : DenoiserState :=
  if s.family = d.variant.family then
    match s.validate with
    | .ok _ => { d with settings := s }
    | .error _ => d
  else d

-- The state of a denoiser after a call.
def after (d : DenoiserState) (s : FrameSettings) : Call → DenoiserState
  | .setFrameSettings _ => d
  | .setDenoiserSettings identifier s' => if d.identifier = identifier then d.configure s' else d
  | .frame identifiers => if d.identifier ∈ identifiers then d.next s else d

-- Whether its pairs trade places in the course of it.
def turns (d : DenoiserState) (s : FrameSettings) : Call → Bool
  | .frame identifiers => decide (d.identifier ∈ identifiers) && d.moves s
  | _ => false

variable (e : DenoiserState) (layout : DenoiserLayout) (s : FrameSettings)

theorem configure_withLayout (s' : DenoiserSettings) :
    ({ e with layout } : DenoiserState).configure s' = { e.configure s' with layout } := by
  unfold configure
  dsimp only
  split
  · split <;> rfl
  · rfl

theorem next_withLayout :
    ({ e with layout } : DenoiserState).next s = { e.next s with layout } := by
  have hmoves : ({ e with layout } : DenoiserState).moves s = e.moves s := rfl
  unfold next
  rw [hmoves]
  split <;> rfl

theorem after_withLayout (call : Call) :
    ({ e with layout } : DenoiserState).after s call = { e.after s call with layout } := by
  cases call with
  | setFrameSettings s' => rfl
  | setDenoiserSettings identifier s' =>
    simp only [after]
    split
    · exact configure_withLayout e layout s'
    · rfl
  | frame identifiers =>
    simp only [after]
    split
    · exact next_withLayout e layout s
    · rfl

-- Where a denoiser comes from does not change.
theorem after_eq (call : Call) : (e.after s call).identifier = e.identifier ∧
    (e.after s call).variant = e.variant ∧ (e.after s call).layout = e.layout := by
  cases call with
  | setFrameSettings s' => exact ⟨rfl, rfl, rfl⟩
  | setDenoiserSettings identifier s' =>
    simp only [after, configure]
    split
    · split
      · split <;> exact ⟨rfl, rfl, rfl⟩
      · exact ⟨rfl, rfl, rfl⟩
    · exact ⟨rfl, rfl, rfl⟩
  | frame identifiers =>
    simp only [after, next]
    split
    · split <;> exact ⟨rfl, rfl, rfl⟩
    · exact ⟨rfl, rfl, rfl⟩

end DenoiserState

namespace Planner

-- The planner after a call, and the frame if it brought one. What is refused changes nothing.
def serve (policy : MemoryPolicy) (p : Planner) : Call → Planner × Option Frame
  | .setFrameSettings s => ((p.setFrameSettings s).toOption.getD p, none)
  | .setDenoiserSettings identifier s =>
    ((p.setDenoiserSettings identifier s).toOption.getD p, none)
  | .frame identifiers =>
    ((p.frame policy identifiers).planner, (p.frame policy identifiers).result.toOption)

-- All calls of a run, each with the frame that it brought.
def trace (policy : MemoryPolicy) (p : Planner) : List Call → List (Call × Option Frame)
  | [] => []
  | call :: calls =>
    (call, (p.serve policy call).2) :: trace policy (p.serve policy call).1 calls

-- What the frames of a run show, one list of outlines for each.
def frames (policy : MemoryPolicy) (p : Planner) (calls : List Call) : List (List Outline) :=
  ((p.trace policy calls).filterMap Prod.snd).map fun frame => frame.dispatches.map p.outline

-- The part that one denoiser has in the frames for which it was asked.
def shares (policy : MemoryPolicy) (p : Planner) (identifier : Identifier) (calls : List Call) :
    List (List Outline) :=
  ((p.trace policy calls).filterMap (Call.share identifier)).map fun share => share.map p.outline

-- A run as one denoiser sees it.
def projection (policy : MemoryPolicy) (p : Planner) (identifier : Identifier) (calls : List Call) :
    List Call :=
  (p.trace policy calls).filterMap (Call.projected identifier)

-- A planner after a call that was not refused altogether. The phases before the call decide.
structure Served (p p' : Planner) (store : ShaderStore) (flipped : Nat → Bool) (call : Call) :
    Prop where
  sound : ∃ flipped', p'.Sound store flipped' ∧ ∀ (i : Nat) d, p.denoisers[i]? = some d →
    flipped' i = (flipped i != d.turns p.settings call)
  denoisers : p'.denoisers = p.denoisers.map (·.after p.settings call)
  settings : p'.settings = call.settings p.settings
  inventory : p'.inventory = p.inventory

variable {p : Planner} {store : ShaderStore} {flipped : Nat → Bool} {policy : MemoryPolicy}
  {i : Nat} {d : DenoiserState} {identifiers : List Identifier} {frame : Frame}

theorem Served.getElem?_denoisers {p' : Planner} {call : Call}
    (h : p.Served p' store flipped call) (hi : p.denoisers[i]? = some d) :
    p'.denoisers[i]? = some (d.after p.settings call) := by
  rw [h.denoisers, Array.getElem?_map, hi, Option.map_some]

theorem Sound.serve_setFrameSettings (h : p.Sound store flipped) (policy : MemoryPolicy)
    (s : FrameSettings) :
    p.Served (p.serve policy (.setFrameSettings s)).1 store flipped (.setFrameSettings s) := by
  have hdenoisers : p.denoisers.map (·.after p.settings (.setFrameSettings s)) = p.denoisers :=
    Array.map_id _
  cases hset : p.setFrameSettings s with
  | error failure =>
    have hinvalid : ∃ failure, s.validate = .error failure := by
      cases hvalid : s.validate with
      | error failure => exact ⟨failure, rfl⟩
      | ok u => simp [Planner.setFrameSettings, hvalid, bind, Except.bind, pure, Except.pure] at hset
    obtain ⟨failure, hinvalid⟩ := hinvalid
    have hserve : (p.serve policy (.setFrameSettings s)).1 = p := by
      simp [serve, hset, Except.toOption]
    rw [hserve]
    exact ⟨⟨flipped, h, by simp [DenoiserState.turns]⟩, hdenoisers.symm,
      by simp [Call.settings, hinvalid], rfl⟩
  | ok p' =>
    have hserve : (p.serve policy (.setFrameSettings s)).1 = p' := by
      simp [serve, hset, Except.toOption]
    have hsound := h.setFrameSettings hset
    obtain ⟨hvalid, rfl⟩ := setFrameSettings_ok hset
    rw [hserve]
    exact ⟨⟨flipped, hsound, by simp [DenoiserState.turns]⟩, hdenoisers.symm,
      by simp [Call.settings, hvalid], rfl⟩

-- An identifier leads to the denoiser that has it.
theorem Sound.position?_eq (h : p.Sound store flipped) (hi : p.denoisers[i]? = some d) :
    p.position? d.identifier = some i := by
  obtain ⟨hlt, heq⟩ := Array.getElem?_eq_some_iff.mp hi
  refine Array.findIdx?_eq_some_iff_getElem.mpr ⟨hlt, by simp [heq], fun j hj => ?_⟩
  have hne : p.denoisers[j].identifier ≠ d.identifier := by
    intro hsame
    have hj' : j < p.denoisers.size := Nat.lt_trans hj hlt
    have := h.roster.distinct j i _ d (Array.getElem?_eq_getElem hj') hi hsame
    omega
  simpa using hne

-- Different denoisers are found by their identifiers.
theorem Sound.positions_of_unseen (h : p.Sound store flipped) {members : List (Nat × DenoiserState)}
    (hmembers : p.Members members) {seen : List Nat} (hunseen : ∀ m ∈ members, m.1 ∉ seen) :
    p.positions seen (members.map (·.2.identifier)) = .ok (members.map Prod.fst) := by
  induction members generalizing seen with
  | nil => rfl
  | cons m ms ih =>
    obtain ⟨hfresh, htail⟩ := hmembers.tail
    have hothers : ∀ x ∈ ms, x.1 ∉ m.1 :: seen := by
      intro x hx hmem
      rcases List.mem_cons.mp hmem with heq | hmem
      · exact hfresh (heq ▸ List.mem_map_of_mem hx)
      · exact hunseen x (List.mem_cons_of_mem _ hx) hmem
    have hm := hunseen m List.mem_cons_self
    rw [List.map_cons, List.map_cons, Planner.positions,
      h.position?_eq (hmembers.1 m List.mem_cons_self)]
    simp [hm, ih htail hothers, Except.map]

theorem Sound.positions_eq (h : p.Sound store flipped) {members : List (Nat × DenoiserState)}
    (hmembers : p.Members members) :
    p.positions [] (members.map (·.2.identifier)) = .ok (members.map Prod.fst) :=
  h.positions_of_unseen hmembers fun _ _ => List.not_mem_nil

theorem Sound.positions_singleton (h : p.Sound store flipped) (hi : p.denoisers[i]? = some d) :
    p.positions [] [d.identifier] = .ok [i] := by
  have hmembers : p.Members [(i, d)] := ⟨by simpa using hi, by simp⟩
  exact h.positions_eq hmembers

theorem Sound.configure_of_error (h : p.Sound store flipped) (hi : p.denoisers[i]? = some d)
    {s : DenoiserSettings} {failure : Failure}
    (hset : p.setDenoiserSettings d.identifier s = .error failure) : d.configure s = d := by
  unfold Planner.setDenoiserSettings at hset
  unfold DenoiserState.configure
  simp only [h.position?_eq hi, hi, Option.map_some, Option.getD_some] at hset
  split
  · rename_i hfamily
    cases hvalid : s.validate with
    | error failure => rfl
    | ok u => simp [hfamily, hvalid, bind, Except.bind, pure, Except.pure] at hset
  · rfl

theorem Sound.exists_setDenoiserSettings (h : p.Sound store flipped)
    (hi : p.denoisers[i]? = some d) {s : DenoiserSettings} (hfamily : s.family = d.variant.family)
    (hvalid : s.validate = .ok ()) :
    ∃ p', p.setDenoiserSettings d.identifier s = .ok p' ∧ p'.settings = p.settings ∧
      p'.denoisers = p.denoisers.modify i fun d => { d with settings := s } := by
  refine ⟨{ p with denoisers := p.denoisers.modify i fun d => { d with settings := s } }, ?_, rfl,
    rfl⟩
  simp [Planner.setDenoiserSettings, h.position?_eq hi, hi, hfamily, hvalid, bind, Except.bind,
    pure, Except.pure]

theorem Sound.serve_setDenoiserSettings (h : p.Sound store flipped) (policy : MemoryPolicy)
    (identifier : Identifier) (s : DenoiserSettings) :
    p.Served (p.serve policy (.setDenoiserSettings identifier s)).1 store flipped
      (.setDenoiserSettings identifier s) := by
  cases hset : p.setDenoiserSettings identifier s with
  | error failure =>
    have hserve : (p.serve policy (.setDenoiserSettings identifier s)).1 = p := by
      simp [serve, hset, Except.toOption]
    rw [hserve]
    refine ⟨⟨flipped, h, by simp [DenoiserState.turns]⟩, Array.ext_getElem? fun j => ?_, rfl, rfl⟩
    rw [Array.getElem?_map]
    cases hj : p.denoisers[j]? with
    | none => rfl
    | some x =>
      simp only [Option.map_some, DenoiserState.after]
      split
      · rename_i hx
        rw [h.configure_of_error hj (hx ▸ hset)]
      · rfl
  | ok p' =>
    have hserve : (p.serve policy (.setDenoiserSettings identifier s)).1 = p' := by
      simp [serve, hset, Except.toOption]
    have hsound := h.setDenoiserSettings hset
    obtain ⟨i, d, -, hi, hid, hfamily, hvalid, rfl⟩ := setDenoiserSettings_ok hset
    rw [hserve]
    refine ⟨⟨flipped, hsound, by simp [DenoiserState.turns]⟩, Array.ext_getElem? fun j => ?_, rfl,
      rfl⟩
    rw [Array.getElem?_modify, Array.getElem?_map]
    split
    · rename_i hij
      rw [← hij, hi]
      simp [DenoiserState.after, DenoiserState.configure, hid, hfamily, hvalid]
    · rename_i hij
      cases hj : p.denoisers[j]? with
      | none => rfl
      | some x =>
        have hx : x.identifier ≠ identifier :=
          fun heq => hij (h.roster.distinct i j d x hi hj (hid.trans heq.symm))
        simp [DenoiserState.after, hx]

theorem Members.mem_iff {members : List (Nat × DenoiserState)} (h : p.Sound store flipped)
    (hmembers : p.Members members) (hi : p.denoisers[i]? = some d) :
    (i, d) ∈ members ↔ d.identifier ∈ members.map (·.2.identifier) := by
  constructor
  · exact fun hmem => List.mem_map.mpr ⟨(i, d), hmem, rfl⟩
  · intro hmem
    obtain ⟨⟨j, x⟩, hx, hsame⟩ := List.mem_map.mp hmem
    have hj : p.denoisers[j]? = some x := hmembers.1 _ hx
    obtain rfl : j = i := h.roster.distinct j i x d hj hi hsame
    obtain rfl : x = d := Option.some.inj (hj.symm.trans hi)
    exact hx

-- A denoiser that a frame is not asked for is not among its members.
theorem Members.notMem_of_notMem {members : List (Nat × DenoiserState)}
    (hmembers : p.Members members) (hi : p.denoisers[i]? = some d)
    (h : d.identifier ∉ members.map (·.2.identifier)) : i ∉ members.map Prod.fst := by
  intro hmem
  obtain ⟨m, hm, rfl⟩ := List.mem_map.mp hmem
  obtain rfl : m.2 = d := Option.some.inj ((hmembers.1 m hm).symm.trans hi)
  exact h (List.mem_map_of_mem hm)

theorem Sound.serve_frame (h : p.Sound store flipped)
    (hframe : (p.frame policy identifiers).result = .ok frame) :
    p.Served (p.frame policy identifiers).planner store flipped (.frame identifiers) := by
  obtain ⟨members, plans, hmembers, rfl, hran, -⟩ := frame_ok h hframe
  obtain ⟨flipped', hsound, hin, hout⟩ := hran.sound
  refine ⟨⟨flipped', hsound, fun j x hj => ?_⟩, Array.ext_getElem? fun j => ?_, hran.settings,
    hran.inventory⟩
  · by_cases hx : x.identifier ∈ members.map (·.2.identifier)
    · rw [hin (j, x) ((hmembers.mem_iff h hj).mpr hx)]
      simp [DenoiserState.turns, hx]
    · rw [hout j (hmembers.notMem_of_notMem hj hx)]
      simp [DenoiserState.turns, hx]
  · rw [Array.getElem?_map]
    cases hj : p.denoisers[j]? with
    | none =>
      have hnone : j ∉ members.map Prod.fst := by
        intro hmem
        obtain ⟨m, hm, rfl⟩ := List.mem_map.mp hmem
        simp [hmembers.1 m hm] at hj
      exact (hran.others j hnone).trans hj
    | some x =>
      by_cases hx : x.identifier ∈ members.map (·.2.identifier)
      · have hmoved := hran.moved (j, x) ((hmembers.mem_iff h hj).mpr hx)
        simpa [DenoiserState.after, hx] using hmoved
      · have hkept := (hran.others j (hmembers.notMem_of_notMem hj hx)).trans hj
        simpa [DenoiserState.after, hx] using hkept

theorem Sound.frame_next (h : p.Sound store flipped) (hi : p.denoisers[i]? = some d)
    (hmem : d.identifier ∈ identifiers)
    (hframe : (p.frame policy identifiers).result = .ok frame) :
    (p.frame policy identifiers).planner.denoisers[i]? = some (d.next p.settings) := by
  rw [(h.serve_frame hframe).getElem?_denoisers hi, DenoiserState.after, if_pos hmem]

-- A frame that is refused for its identifiers has not begun.
theorem Sound.planner_frame_of_error (h : p.Sound store flipped) (hgrants : policy.Grants)
    {failure : Failure} (hframe : (p.frame policy identifiers).result = .error failure) :
    (p.frame policy identifiers).planner = p := by
  cases hpositions : p.positions [] identifiers with
  | error failure => simp [Planner.frame, hpositions]
  | ok positions =>
    obtain ⟨frame, hok⟩ := h.exists_frame hgrants hpositions
    rw [hok] at hframe
    cases hframe

theorem Sound.serve (h : p.Sound store flipped) (policy : MemoryPolicy) (call : Call) :
    ∃ flipped', (p.serve policy call).1.Sound store flipped' := by
  cases call with
  | setFrameSettings s =>
    obtain ⟨flipped', h', -⟩ := (h.serve_setFrameSettings policy s).sound
    exact ⟨flipped', h'⟩
  | setDenoiserSettings identifier s =>
    obtain ⟨flipped', h', -⟩ := (h.serve_setDenoiserSettings policy identifier s).sound
    exact ⟨flipped', h'⟩
  | frame identifiers => exact h.frame policy identifiers

theorem Sound.inventory_serve (h : p.Sound store flipped) (hgrants : policy.Grants) (call : Call) :
    (p.serve policy call).1.inventory = p.inventory := by
  cases call with
  | setFrameSettings s => exact (h.serve_setFrameSettings policy s).inventory
  | setDenoiserSettings identifier s =>
    exact (h.serve_setDenoiserSettings policy identifier s).inventory
  | frame identifiers =>
    cases hframe : (p.frame policy identifiers).result with
    | error failure =>
      exact congrArg Planner.inventory (h.planner_frame_of_error hgrants hframe)
    | ok frame => exact (h.serve_frame hframe).inventory

section Runs

variable {identifier : Identifier} {call : Call} {calls : List Call}

theorem shares_cons (h : (p.serve policy call).1.inventory = p.inventory) :
    p.shares policy identifier (call :: calls) =
      ((Call.share identifier (call, (p.serve policy call).2)).map (·.map p.outline)).toList ++
        (p.serve policy call).1.shares policy identifier calls := by
  simp only [shares, trace, List.filterMap_cons, outline_congr h]
  split <;> simp [*]

theorem frames_cons (h : (p.serve policy call).1.inventory = p.inventory) :
    p.frames policy (call :: calls) =
      ((p.serve policy call).2.map fun frame => frame.dispatches.map p.outline).toList ++
        (p.serve policy call).1.frames policy calls := by
  simp only [frames, trace, List.filterMap_cons, outline_congr h]
  split <;> simp [*]

theorem projection_cons : p.projection policy identifier (call :: calls) =
    (Call.projected identifier (call, (p.serve policy call).2)).toList ++
      (p.serve policy call).1.projection policy identifier calls := by
  simp only [projection, trace, List.filterMap_cons]
  split <;> simp [*]

end Runs

-- Every frame of a run is a frame of a sound planner with the same inventory.
theorem Sound.exists_of_mem_trace (h : p.Sound store flipped) (hgrants : policy.Grants)
    {calls : List Call} (hmem : (.frame identifiers, some frame) ∈ p.trace policy calls) :
    ∃ (p' : Planner) (flipped' : Nat → Bool), p'.Sound store flipped' ∧
      p'.inventory = p.inventory ∧ (p'.frame policy identifiers).result = .ok frame := by
  induction calls generalizing p flipped with
  | nil => cases hmem
  | cons call calls ih =>
    have hinventory := h.inventory_serve hgrants call
    rcases List.mem_cons.mp hmem with heq | hmem
    · obtain ⟨rfl, hframe⟩ := Prod.mk.inj heq
      refine ⟨p, flipped, h, rfl, ?_⟩
      cases hresult : (p.frame policy identifiers).result with
      | error failure => simp [Planner.serve, hresult, Except.toOption] at hframe
      | ok frame' => simpa [Planner.serve, hresult, Except.toOption] using hframe.symm
    · obtain ⟨flipped', h'⟩ := h.serve policy call
      obtain ⟨p', flipped'', hp', heq, hframe⟩ := ih h' hmem
      exact ⟨p', flipped'', hp', heq.trans hinventory, hframe⟩

theorem Sound.compiled (h : p.Sound store flipped) (hgrants : policy.Grants)
    {identifier : Identifier} {calls : List Call} :
    ∀ share ∈ p.shares policy identifier calls, ∀ x ∈ share, x.pipeline.isSome = true := by
  intro share hshare x hx
  obtain ⟨dispatches, hdispatches, rfl⟩ := List.mem_map.mp hshare
  obtain ⟨⟨call, result⟩, hserved, hcall⟩ := List.mem_filterMap.mp hdispatches
  cases call with
  | setFrameSettings s => cases hcall
  | setDenoiserSettings other s => cases hcall
  | frame identifiers =>
    cases result with
    | none => cases hcall
    | some frame =>
      simp only [Call.share, Option.ite_none_right_eq_some, Option.some.injEq] at hcall
      obtain ⟨hmem, rfl⟩ := hcall
      obtain ⟨p', flipped', h', hinventory, hframe⟩ := h.exists_of_mem_trace hgrants hserved
      obtain ⟨-, -, hshares⟩ := h'.frame_shares hframe
      obtain ⟨j, d, rfl, hd⟩ := hshares identifier hmem
      rw [← outline_congr hinventory, hd.outlines] at hx
      obtain ⟨em, -, rfl⟩ := List.mem_map.mp hx
      rfl

theorem Sound.share_eq_nil (h : p.Sound store flipped)
    (hframe : (p.frame policy identifiers).result = .ok frame) {identifier : Identifier}
    (hmem : identifier ∉ identifiers) : frame.share identifier = [] := by
  obtain ⟨-, hordered, -⟩ := h.frame_shares hframe
  refine List.filter_eq_nil_iff.mpr fun x hx => ?_
  rw [hordered] at hx
  obtain ⟨other, hother, hx⟩ := List.mem_flatMap.mp hx
  have hidentifier : x.identifier = other := by simpa using (List.mem_filter.mp hx).2
  simpa [hidentifier] using fun heq : other = identifier => hmem (heq ▸ hother)

end Planner

end DenoisePlanner
