import DenoisePlanner.Proofs.Calls
import DenoisePlanner.Proofs.Hazard
import DenoisePlanner.Proofs.Refusal
import Mathlib.Data.List.Induction

namespace DenoisePlanner

-- A call, and what the allocator grants while it is served.
structure Request where
  call : Call
  policy : MemoryPolicy

-- The part of a denoiser in a frame for which it was asked: the settings of the frame, the
-- denoiser as the frame found it, and its dispatches.
structure Turn where
  settings : FrameSettings
  denoiser : DenoiserState
  dispatches : List Dispatch

namespace Turn

-- The frame was more than a look at the inputs.
def denoises (t : Turn) : Bool := t.denoiser.moves t.settings

def emissions (t : Turn) : List (Emission ScheduledPass) := t.denoiser.emissions t.settings

def snapshot (t : Turn) : Snapshot := ⟨t.settings.rectSize, t.settings.resourceSize⟩

-- The last of the turns that denoised.
def last? (turns : List Turn) : Option Turn := (turns.filter denoises).getLast?

-- The dispatch stands for the emission.
def Emits (t : Turn) (em : Emission ScheduledPass) (x : Dispatch) : Prop :=
  (em, x) ∈ t.emissions.zip t.dispatches

-- A dispatch of the turn binds a texture for a reference of its pass.
def Binds (t : Turn) (x : Dispatch) (access : Access) (r : Reference)
    (texture : ResourceKind × Nat) : Prop :=
  ∃ em, t.Emits em x ∧ (r, (⟨texture.1, texture.2, access⟩ : BoundResource)) ∈
    (em.bindings.inputs ++ em.bindings.outputs).zip x.resources

end Turn

namespace Planner

def after (p : Planner) (request : Request) : Planner := (p.serve request.policy request.call).1

-- The request is not refused for want of memory.
def HasRoom (p : Planner) (request : Request) : Prop :=
  match request.call with
  | .frame identifiers =>
    ∀ failure, (p.frame request.policy identifiers).result = .error failure →
      ¬failure.IsOutOfMemory
  | _ => True

-- The request is not a frame that is refused.
def Answers (p : Planner) (request : Request) : Prop :=
  ∀ identifiers, request.call = .frame identifiers →
    ∃ frame, (p.frame request.policy identifiers).result = .ok frame

-- A run in which the memory always suffices.
def Lasts (p : Planner) : List Request → Prop
  | [] => True
  | request :: requests => p.HasRoom request ∧ (p.after request).Lasts requests

def turn? (p : Planner) (identifier : Identifier) (request : Request) : Option Turn :=
  (Call.share identifier (request.call, (p.serve request.policy request.call).2)).bind fun share =>
    (p.denoisers.find? (·.identifier == identifier)).map fun d => ⟨p.settings, d, share⟩

-- The turns of a denoiser in a run.
def turns (p : Planner) (identifier : Identifier) : List Request → List Turn
  | [] => []
  | request :: requests =>
    (p.turn? identifier request).toList ++ (p.after request).turns identifier requests

end Planner

-- Where a denoiser is between two frames: what it remembers of the last one that it denoised, and
-- the phase of its pairs.
structure Standing where
  snapshot : Option Snapshot
  flipped : Bool

namespace Standing

def fresh : Standing := ⟨none, false⟩

def next (s : Standing) (t : Turn) : Standing :=
  if t.denoises then ⟨some t.snapshot, !s.flipped⟩ else s

theorem foldl_next (s : Standing) (turns : List Turn) :
    turns.foldl next s =
      ⟨((Turn.last? turns).map Turn.snapshot).or s.snapshot,
        s.flipped != (turns.countP Turn.denoises % 2 == 1)⟩ := by
  induction turns using List.reverseRecOn with
  | nil => simp [Turn.last?]
  | append_singleton turns t ih =>
    rw [List.foldl_concat, ih, next]
    cases ht : t.denoises with
    | false => simp [Turn.last?, ht]
    | true =>
      have hparity (n : Nat) : ((n + 1) % 2 == 1) = !(n % 2 == 1) := by
        rcases Nat.mod_two_eq_zero_or_one n with h | h <;>
          simp [Nat.add_mod, h]
      simp [Turn.last?, ht, hparity]

end Standing

-- A call that asks the denoiser for its part in a frame.
def DenoiserState.isAsked (d : DenoiserState) : Call → Bool
  | .frame identifiers => decide (d.identifier ∈ identifiers)
  | _ => false

theorem DenoiserState.turns_eq (d : DenoiserState) (s : FrameSettings) (call : Call) :
    d.turns s call = (d.isAsked call && d.moves s) := by
  cases call <;> rfl

-- Its settings apart, a denoiser changes in the frames that denoise, and in nothing else.
theorem DenoiserState.exists_after_eq (d : DenoiserState) (s : FrameSettings) (call : Call) :
    ∃ settings, d.after s call = { (if d.turns s call then d.advance s else d) with settings } := by
  cases call with
  | setFrameSettings s' => exact ⟨d.settings, rfl⟩
  | setDenoiserSettings identifier s' =>
    simp only [after, configure, turns, Bool.false_eq_true, if_false]
    split
    · split
      · split
        · exact ⟨s', rfl⟩
        · exact ⟨d.settings, rfl⟩
      · exact ⟨d.settings, rfl⟩
    · exact ⟨d.settings, rfl⟩
  | frame identifiers =>
    refine ⟨d.settings, ?_⟩
    by_cases hmem : d.identifier ∈ identifiers <;> by_cases hmoves : d.moves s = true <;>
      simp [after, turns, next, advance, hmem, hmoves]

-- Only a frame that denoises is remembered.
theorem DenoiserState.snapshot_after (d : DenoiserState) (s : FrameSettings) (call : Call) :
    (d.after s call).snapshot =
      if d.turns s call then some ⟨s.rectSize, s.resourceSize⟩ else d.snapshot := by
  obtain ⟨settings, hafter⟩ := d.exists_after_eq s call
  rw [hafter]
  split <;> rfl

variable {p : Planner} {store : ShaderStore} {flipped : Nat → Bool} {policy : MemoryPolicy}
  {i : Nat} {d : DenoiserState} {identifiers : List Identifier} {failure : Failure}
  {request : Request} {requests : List Request} {s : Standing} {t : Turn}

namespace Planner

-- A denoiser of a planner, and where it is.
structure Stands (p : Planner) (store : ShaderStore) (i : Nat) (d : DenoiserState) (s : Standing) :
    Prop where
  sound : ∃ flipped, p.Sound store flipped ∧ flipped i = s.flipped
  member : p.denoisers[i]? = some d
  snapshot : d.snapshot = s.snapshot

-- A turn that a denoiser takes from where it is.
structure Takes (p : Planner) (store : ShaderStore) (d : DenoiserState) (s : Standing) (t : Turn) :
    Prop where
  identifier : t.denoiser.identifier = d.identifier
  variant : t.denoiser.variant = d.variant
  layout : t.denoiser.layout = d.layout
  snapshot : t.denoiser.snapshot = s.snapshot
  installed : ∃ tables, Installed tables d.variant d.layout s.flipped
  outlines : t.dispatches.map p.outline =
    t.emissions.map (t.denoiser.outline t.settings store s.flipped)

section Takes

variable {em : Emission ScheduledPass} {x : Dispatch} {r : Reference} {texture : ResourceKind × Nat}
  {before after : List Dispatch}

theorem Takes.length_eq (h : p.Takes store d s t) : t.emissions.length = t.dispatches.length := by
  simpa using (congrArg List.length h.outlines).symm

theorem Takes.outline_eq (h : p.Takes store d s t) (hx : t.Emits em x) :
    p.outline x = t.denoiser.outline t.settings store s.flipped em := by
  have houtlines : List.Forall₂ (· = ·)
      (t.emissions.map (t.denoiser.outline t.settings store s.flipped))
      (t.dispatches.map p.outline) := by
    rw [List.forall₂_eq_eq_eq]
    exact h.outlines.symm
  rw [List.forall₂_map_left_iff, List.forall₂_map_right_iff] at houtlines
  exact (List.forall₂_zip houtlines hx).symm

theorem Takes.pass_mem (h : p.Takes store d s t) (hx : t.Emits em x) :
    em.pass ∈ d.variant.blueprint.schedule :=
  h.variant ▸ Emission.pass_mem_of_mem_all (List.of_mem_zip hx).1

theorem Takes.stage_eq (h : p.Takes store d s t) (hx : t.Emits em x) : x.stage = em.pass.stage :=
  congrArg Outline.stage (h.outline_eq hx)

theorem Takes.resources_eq (h : p.Takes store d s t) (hx : t.Emits em x) :
    x.resources = d.layout.claims.allBound s.flipped em.bindings :=
  h.layout ▸ congrArg Outline.resources (h.outline_eq hx)

theorem Takes.reads_eq (h : p.Takes store d s t) (hx : t.Emits em x) :
    x.reads = em.bindings.inputs.map (d.layout.claims.texture s.flipped) :=
  h.layout ▸ reads_of_outline_eq (h.outline_eq hx)

theorem Takes.writes_eq (h : p.Takes store d s t) (hx : t.Emits em x) :
    x.writes = em.bindings.outputs.map (d.layout.claims.texture s.flipped) :=
  h.layout ▸ writes_of_outline_eq (h.outline_eq hx)

theorem Takes.exists_emission (h : p.Takes store d s t) (hx : x ∈ t.dispatches) :
    ∃ em ∈ t.emissions, t.Emits em x :=
  exists_mem_zip_right h.length_eq hx

theorem Takes.exists_dispatch (h : p.Takes store d s t) (hem : em ∈ t.emissions) :
    ∃ x ∈ t.dispatches, t.Emits em x :=
  exists_mem_zip_left h.length_eq hem

-- What is dispatched has the stages of what is emitted.
theorem Takes.exists_stage_iff (h : p.Takes store d s t) {stage : Stage} :
    (∃ x ∈ t.dispatches, x.stage = stage) ↔ ∃ em ∈ t.emissions, em.pass.stage = stage := by
  constructor
  · rintro ⟨x, hx, rfl⟩
    obtain ⟨em, hem, hx⟩ := h.exists_emission hx
    exact ⟨em, hem, (h.stage_eq hx).symm⟩
  · rintro ⟨em, hem, rfl⟩
    obtain ⟨x, hmem, hx⟩ := h.exists_dispatch hem
    exact ⟨x, hmem, h.stage_eq hx⟩

-- A reference is bound to the texture that it leads to.
theorem Takes.binds_iff (h : p.Takes store d s t) {access : Access} :
    t.Binds x access r texture ↔ ∃ em, t.Emits em x ∧
      d.layout.claims.texture s.flipped r = texture ∧
      r ∈ match access with
        | .read => em.bindings.inputs
        | .write => em.bindings.outputs := by
  refine exists_congr fun em => and_congr_right fun hx => ?_
  rw [h.resources_eq hx, Claims.allBound, List.zip_append (by simp), List.mem_append]
  have hself (refs : List Reference) (f : Reference → BoundResource) :
      refs.zip (refs.map f) = refs.map fun r => (r, f r) := List.map_prod_left_eq_zip.symm
  rw [hself, hself]
  cases access <;> simp [Claims.bound, Claims.texture, Prod.ext_iff, and_comm]

-- What comes before a dispatch in a turn comes of what was emitted before.
theorem Takes.exists_split (h : p.Takes store d s t)
    (hsplit : t.dispatches = before ++ x :: after) :
    ∃ pre em post, t.emissions = pre ++ em :: post ∧ t.Emits em x ∧
      ∀ e ∈ pre, ∃ y ∈ before, t.Emits e y := by
  have houtlines := h.outlines
  rw [hsplit, List.map_append, List.map_cons] at houtlines
  obtain ⟨pre, rest, hemissions, hpre, hrest⟩ := List.map_eq_append_iff.mp houtlines.symm
  obtain ⟨em, post, rfl, -, -⟩ := List.map_eq_cons_iff.mp hrest
  have hlength : pre.length = before.length := by simpa using congrArg List.length hpre
  have hzip : t.emissions.zip t.dispatches = pre.zip before ++ (em, x) :: post.zip after := by
    rw [hemissions, hsplit, List.zip_append hlength, List.zip_cons_cons]
  refine ⟨pre, em, post, hemissions, by simp [Turn.Emits, hzip], fun e he => ?_⟩
  obtain ⟨y, hy, hey⟩ := exists_mem_zip_left hlength he
  refine ⟨y, hy, ?_⟩
  rw [Turn.Emits, hzip]
  exact List.mem_append_left _ hey

end Takes

section Answers

theorem Sound.served (h : p.Sound store flipped) (hanswers : p.Answers request) :
    p.Served (p.after request) store flipped request.call := by
  obtain ⟨call, policy⟩ := request
  cases call with
  | setFrameSettings settings => exact h.serve_setFrameSettings policy settings
  | setDenoiserSettings identifier settings =>
    exact h.serve_setDenoiserSettings policy identifier settings
  | frame identifiers =>
    obtain ⟨frame, hframe⟩ := hanswers identifiers rfl
    exact h.serve_frame hframe

-- A frame that is refused for its identifiers does nothing, and shows nothing.
theorem after_of_not_answers (hroom : p.HasRoom request) (hrefused : ¬p.Answers request) :
    p.after request = p ∧ ∀ identifier, p.turn? identifier request = none := by
  obtain ⟨call, policy⟩ := request
  simp only [Answers, not_forall] at hrefused
  obtain ⟨identifiers, rfl, hnone⟩ := hrefused
  cases hframe : (p.frame policy identifiers).result with
  | ok frame => exact absurd ⟨frame, hframe⟩ hnone
  | error failure =>
    refine ⟨(frame_error hframe).resolve_left (hroom failure hframe), fun identifier => ?_⟩
    simp [turn?, Planner.serve, hframe, Except.toOption, Call.share]

theorem Sound.find?_eq (h : p.Sound store flipped) (hi : p.denoisers[i]? = some d) :
    p.denoisers.find? (·.identifier == d.identifier) = some d := by
  obtain ⟨hlt, -, hfirst⟩ := Array.findIdx?_eq_some_iff_getElem.mp (h.position?_eq hi)
  refine Array.find?_eq_some_iff_getElem.mpr ⟨beq_self_eq_true _, i, hlt, ?_, fun j hj => ?_⟩
  · exact Option.some.inj ((Array.getElem?_eq_getElem hlt).symm.trans hi)
  · simpa using hfirst j hj

theorem Sound.shares (h : p.Sound store flipped) (hi : p.denoisers[i]? = some d) {frame : Frame}
    (hframe : (p.frame policy identifiers).result = .ok frame) (hmem : d.identifier ∈ identifiers) :
    p.Shares store flipped frame i d := by
  obtain ⟨-, -, hshares⟩ := h.frame_shares hframe
  obtain ⟨j, e, hid, hshare⟩ := hshares _ hmem
  obtain rfl := h.roster.distinct j i e d hshare.denoiser hi hid
  obtain rfl : e = d := Option.some.inj (hshare.denoiser.symm.trans hi)
  exact hshare

theorem Stands.takes (h : p.Stands store i d s) {frame : Frame}
    (hframe : (p.frame policy identifiers).result = .ok frame) (hmem : d.identifier ∈ identifiers) :
    p.Takes store d s ⟨p.settings, d, frame.share d.identifier⟩ := by
  obtain ⟨flipped, hsound, hphase⟩ := h.sound
  refine ⟨rfl, rfl, rfl, h.snapshot, ⟨p.tables, ?_⟩, ?_⟩
  · exact hphase ▸ hsound.roster.installed i d h.member
  · exact hphase ▸ (hsound.shares h.member hframe hmem).outlines

theorem Reachable.exists_takes {denoisers : List (Identifier × Variant)}
    (h : Reachable denoisers store p) {frame : Frame}
    (hframe : (p.frame policy identifiers).result = .ok frame) (hd : d ∈ p.denoisers)
    (hasked : d.identifier ∈ identifiers) :
    ∃ s, p.Takes store d s ⟨p.settings, d, frame.share d.identifier⟩ := by
  obtain ⟨flipped, hsound⟩ := h.sound
  obtain ⟨i, hi⟩ := Array.getElem?_of_mem hd
  have hstands : p.Stands store i d ⟨d.snapshot, flipped i⟩ := ⟨⟨flipped, hsound, rfl⟩, hi, rfl⟩
  exact ⟨_, hstands.takes hframe hasked⟩

-- A denoiser takes a turn in the frames for which it is asked, and in nothing else.
theorem Stands.turn?_eq (h : p.Stands store i d s) (hanswers : p.Answers request) :
    ∃ share, p.turn? d.identifier request =
        (if d.isAsked request.call then some ⟨p.settings, d, share⟩ else none) ∧
      (d.isAsked request.call → p.Takes store d s ⟨p.settings, d, share⟩) := by
  obtain ⟨flipped, hsound, hphase⟩ := h.sound
  obtain ⟨call, policy⟩ := request
  cases call with
  | setFrameSettings settings => exact ⟨[], rfl, by simp [DenoiserState.isAsked]⟩
  | setDenoiserSettings identifier settings => exact ⟨[], rfl, by simp [DenoiserState.isAsked]⟩
  | frame identifiers =>
    obtain ⟨frame, hframe⟩ := hanswers identifiers rfl
    refine ⟨frame.share d.identifier, ?_, fun hasked => ?_⟩
    · simp only [turn?, Planner.serve, hframe, Except.toOption, Call.share,
        hsound.find?_eq h.member, DenoiserState.isAsked, decide_eq_true_eq]
      split <;> rfl
    · exact h.takes hframe (of_decide_eq_true hasked)

-- The turn that a denoiser takes, if it takes one, tells where it is afterwards.
theorem Stands.answered (h : p.Stands store i d s) (hanswers : p.Answers request) :
    (p.after request).Stands store i (d.after p.settings request.call)
      ((p.turn? d.identifier request).toList.foldl Standing.next s) := by
  obtain ⟨share, hturn, -⟩ := h.turn?_eq hanswers
  obtain ⟨flipped, hsound, hphase⟩ := h.sound
  have hserved := hsound.served hanswers
  obtain ⟨flipped', hsound', hturns⟩ := hserved.sound
  have hnext : (p.turn? d.identifier request).toList.foldl Standing.next s =
      if d.turns p.settings request.call then
        ⟨some ⟨p.settings.rectSize, p.settings.resourceSize⟩, !s.flipped⟩ else s := by
    rw [hturn, d.turns_eq]
    by_cases hasked : d.isAsked request.call = true <;>
      by_cases hmoves : d.moves p.settings = true <;>
      simp [hasked, hmoves, Standing.next, Turn.denoises, Turn.snapshot]
  rw [hnext]
  refine ⟨⟨flipped', hsound', ?_⟩, ?_, ?_⟩
  · rw [hturns i d h.member, hphase]
    cases d.turns p.settings request.call <;> simp
  · exact hserved.getElem?_denoisers h.member
  · rw [d.snapshot_after, h.snapshot]
    split <;> rfl

end Answers

-- What a request does to a denoiser is told by the turn that it takes, if it takes one.
theorem Stands.step (h : p.Stands store i d s) (hroom : p.HasRoom request) :
    ∃ d', (d'.identifier = d.identifier ∧ d'.variant = d.variant ∧ d'.layout = d.layout) ∧
      (p.after request).Stands store i d'
        ((p.turn? d.identifier request).toList.foldl Standing.next s) ∧
      (p.after request).inventory = p.inventory ∧
      ∀ t, p.turn? d.identifier request = some t → p.Takes store d s t := by
  by_cases hanswers : p.Answers request
  · obtain ⟨share, hturn, htakes⟩ := h.turn?_eq hanswers
    obtain ⟨flipped, hsound, -⟩ := h.sound
    refine ⟨_, d.after_eq p.settings request.call, h.answered hanswers,
      (hsound.served hanswers).inventory, fun t ht => ?_⟩
    rw [hturn] at ht
    split at ht
    · rename_i hasked
      exact Option.some.inj ht ▸ htakes hasked
    · cases ht
  · obtain ⟨hsame, hturn⟩ := after_of_not_answers hroom hanswers
    rw [hsame, hturn]
    exact ⟨d, ⟨rfl, rfl, rfl⟩, h, rfl, by simp⟩

-- So each turn in a run is taken from where the turns before it have led.
theorem Stands.takes_of_turns_eq (h : p.Stands store i d s) (hlasts : p.Lasts requests)
    {pre post : List Turn} (hturns : p.turns d.identifier requests = pre ++ t :: post) :
    p.Takes store d (pre.foldl Standing.next s) t := by
  induction requests generalizing p d s pre with
  | nil => simp [turns] at hturns
  | cons request requests ih =>
    obtain ⟨d', ⟨hid, hvariant, hlayout⟩, h', hinventory, htakes⟩ := h.step hlasts.1
    have hcongr (s : Standing) (ht : (p.after request).Takes store d' s t) : p.Takes store d s t :=
      ⟨ht.identifier.trans hid, ht.variant.trans hvariant, ht.layout.trans hlayout, ht.snapshot,
        hvariant ▸ hlayout ▸ ht.installed, outline_congr hinventory ▸ ht.outlines⟩
    rw [turns] at hturns
    cases hturn : p.turn? d.identifier request with
    | none =>
      rw [hturn] at hturns h'
      exact hcongr _ (ih h' hlasts.2 (hid ▸ hturns))
    | some first =>
      rw [hturn] at hturns h'
      cases pre with
      | nil =>
        obtain ⟨rfl, -⟩ := List.cons.inj hturns
        exact htakes _ hturn
      | cons first' pre =>
        obtain ⟨rfl, hrest⟩ := List.cons.inj hturns
        exact hcongr _ (ih h' hlasts.2 (hid ▸ hrest))

theorem stands_of_create {denoisers : List (Identifier × Variant)}
    (hcreate : (create denoisers store).result = .ok p) (hd : d ∈ p.denoisers) :
    ∃ i, p.Stands store i d .fresh := by
  obtain ⟨hsound, -, hfresh, -⟩ := create_ok hcreate
  obtain ⟨i, hi⟩ := Array.getElem?_of_mem hd
  exact ⟨i, ⟨_, hsound, rfl⟩, hi, (hfresh d hd).2.1⟩

theorem takes_of_turns_eq {denoisers : List (Identifier × Variant)}
    (hcreate : (create denoisers store).result = .ok p) (hlasts : p.Lasts requests)
    (hd : d ∈ p.denoisers) {pre post : List Turn}
    (hturns : p.turns d.identifier requests = pre ++ t :: post) :
    p.Takes store d (pre.foldl Standing.next .fresh) t := by
  obtain ⟨i, h⟩ := stands_of_create hcreate hd
  exact h.takes_of_turns_eq hlasts hturns

end Planner

end DenoisePlanner
