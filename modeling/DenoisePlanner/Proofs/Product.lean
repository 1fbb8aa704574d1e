import DenoisePlanner.Proofs.Calls
import DenoisePlanner.Proofs.Relocation

namespace DenoisePlanner.Planner

variable {p p' q q' : Planner} {store : ShaderStore} {policy : MemoryPolicy} {i : Nat}
  {e : DenoiserState} {layout : DenoiserLayout} {identifiers : List Identifier} {frame : Frame}

-- A denoiser with its neighbours in `p` and without them in `q`.
structure Twins (p q : Planner) (store : ShaderStore) (i : Nat) (layout : DenoiserLayout)
    (e : DenoiserState) : Prop where
  sound : ∃ flipped flipped', p.Sound store flipped ∧ q.Sound store flipped' ∧
    flipped' 0 = flipped i
  member : p.denoisers[i]? = some { e with layout }
  alone : q.denoisers = #[e]
  settings : q.settings = p.settings
  claims : e.layout.claims = e.variant.blueprint.claims

namespace Twins

-- The two planners may take different calls, as long as these mean the same to the denoiser.
theorem serve (h : Twins p q store i layout e) {call call' : Call}
    (hp : ∀ {flipped}, p.Sound store flipped → p.Served p' store flipped call)
    (hq : ∀ {flipped}, q.Sound store flipped → q.Served q' store flipped call')
    (hsettings : ∀ s, call'.settings s = call.settings s)
    (hafter : ∀ s, e.after s call' = e.after s call)
    (hturns : ∀ s, e.turns s call' = e.turns s call) :
    Twins p' q' store i layout (e.after p.settings call) := by
  obtain ⟨flipped, flipped', hsound, hsound', hphase⟩ := h.sound
  have hp := hp hsound
  have hq := hq hsound'
  obtain ⟨flipped₁, hsound₁, hflipped₁⟩ := hp.sound
  obtain ⟨flipped₂, hsound₂, hflipped₂⟩ := hq.sound
  obtain ⟨-, hvariant, hlayout⟩ := e.after_eq p.settings call
  have hzero : q.denoisers[0]? = some e := by rw [h.alone]; rfl
  refine ⟨⟨flipped₁, flipped₂, hsound₁, hsound₂, ?_⟩, ?_, ?_, ?_, ?_⟩
  · rw [hflipped₂ 0 e hzero, hflipped₁ i _ h.member, hphase, h.settings, hturns]
    cases call <;> rfl
  · rw [hp.getElem?_denoisers h.member, DenoiserState.after_withLayout]
  · rw [hq.denoisers, h.alone, h.settings, ← hafter]
    simp
  · rw [hq.settings, hp.settings, h.settings, hsettings]
  · rw [hlayout, hvariant, h.claims]

-- One planner may take a call that means nothing to the denoiser.
theorem serve_left (h : Twins p q store i layout e) {call : Call}
    (hp : ∀ {flipped}, p.Sound store flipped → p.Served p' store flipped call)
    (hsettings : ∀ s, call.settings s = s) (hafter : ∀ s, e.after s call = e)
    (hturns : ∀ s, e.turns s call = false) : Twins p' q store i layout e := by
  obtain ⟨flipped, flipped', hsound, hsound', hphase⟩ := h.sound
  have hp := hp hsound
  obtain ⟨flipped₁, hsound₁, hflipped₁⟩ := hp.sound
  have hturns' : ({ e with layout } : DenoiserState).turns p.settings call = false := by
    rw [← hturns p.settings]
    cases call <;> rfl
  refine ⟨⟨flipped₁, flipped', hsound₁, hsound', ?_⟩, ?_, h.alone, ?_, h.claims⟩
  · rw [hflipped₁ i _ h.member, hphase, hturns', Bool.bne_false]
  · rw [hp.getElem?_denoisers h.member, DenoiserState.after_withLayout, hafter]
  · rw [hp.settings, hsettings, h.settings]

-- In a frame for the denoiser both planners do the same for it.
theorem share_eq (h : Twins p q store i layout e) (hnodup : layout.claims.transient.toList.Nodup)
    {frame' : Frame} (hframe : (p.frame policy identifiers).result = .ok frame)
    (hmem : e.identifier ∈ identifiers)
    (hframe' : (q.frame policy [e.identifier]).result = .ok frame') :
    (frame.share e.identifier).map p.outline = (frame'.dispatches.map q.outline).map
      (layout.claims.relocation hnodup).outline := by
  obtain ⟨flipped, flipped', hsound, hsound', hphase⟩ := h.sound
  obtain ⟨-, -, hshares⟩ := hsound.frame_shares hframe
  obtain ⟨j, d, hid, hshare⟩ := hshares _ hmem
  obtain rfl : j = i :=
    hsound.roster.distinct j i d _ hshare.denoiser h.member hid
  obtain rfl : d = { e with layout } := Option.some.inj (hshare.denoiser.symm.trans h.member)
  obtain ⟨-, hordered, hshares'⟩ := hsound'.frame_shares hframe'
  obtain ⟨k, x, -, hshare'⟩ := hshares' _ (List.mem_singleton.mpr rfl)
  have hx := hshare'.denoiser
  rw [h.alone] at hx
  obtain ⟨rfl, rfl⟩ : k = 0 ∧ x = e := by
    obtain ⟨hlt, heq⟩ := Array.getElem?_eq_some_iff.mp hx
    have hk : k = 0 := Nat.lt_one_iff.mp hlt
    subst hk
    exact ⟨rfl, heq.symm⟩
  have hinstalled : Installed p.tables x.variant layout (flipped j) :=
    hsound.roster.installed j _ h.member
  rw [hordered, List.flatMap_singleton, hshare'.outlines, hphase, h.settings,
    DenoiserState.map_relocation_outline hinstalled h.claims]
  exact hshare.outlines

-- Alone, a denoiser gets every frame that it asks for.
theorem exists_frame (h : Twins p q store i layout e) (hgrants : policy.Grants) :
    ∃ frame, (q.frame policy [e.identifier]).result = .ok frame := by
  obtain ⟨flipped, flipped', -, hsound', -⟩ := h.sound
  have hzero : q.denoisers[0]? = some e := by rw [h.alone]; rfl
  have hpositions : q.positions [] [e.identifier] = .ok [0] := by
    simp [positions, hsound'.position?_eq hzero, Except.map]
  exact hsound'.exists_frame hgrants hpositions

-- A call is either nothing to the denoiser, or it has a counterpart that does the same for it.
theorem step (h : Twins p q store i layout e) (hgrants : policy.Grants)
    (hnodup : layout.claims.transient.toList.Nodup) (call : Call) :
    (Call.projected e.identifier (call, (p.serve policy call).2) = none ∧
      Call.share e.identifier (call, (p.serve policy call).2) = none ∧
      Twins (p.serve policy call).1 q store i layout e) ∨
    ∃ call', Call.projected e.identifier (call, (p.serve policy call).2) = some call' ∧
      Twins (p.serve policy call).1 (q.serve policy call').1 store i layout
        (e.after p.settings call) ∧
      (Call.share e.identifier (call, (p.serve policy call).2)).map (·.map p.outline) =
        (q.serve policy call').2.map fun frame =>
          (frame.dispatches.map q.outline).map (layout.claims.relocation hnodup).outline := by
  obtain ⟨flipped, flipped', hsound, hsound', -⟩ := h.sound
  cases call with
  | setFrameSettings s =>
    exact .inr ⟨.setFrameSettings s, rfl, h.serve (fun hs => hs.serve_setFrameSettings policy s)
      (fun hs => hs.serve_setFrameSettings policy s) (fun _ => rfl) (fun _ => rfl) (fun _ => rfl),
      rfl⟩
  | setDenoiserSettings other s =>
    by_cases hother : other = e.identifier
    · subst hother
      exact .inr ⟨.setDenoiserSettings e.identifier s, if_pos rfl,
        h.serve (fun hs => hs.serve_setDenoiserSettings policy _ s)
          (fun hs => hs.serve_setDenoiserSettings policy _ s) (fun _ => rfl) (fun _ => rfl)
          (fun _ => rfl), rfl⟩
    · exact .inl ⟨if_neg hother, rfl,
        h.serve_left (fun hs => hs.serve_setDenoiserSettings policy other s) (fun _ => rfl)
          (fun _ => if_neg (Ne.symm hother)) (fun _ => rfl)⟩
  | frame identifiers =>
    cases hframe : (p.frame policy identifiers).result with
    | error failure =>
      have hsame : (p.serve policy (.frame identifiers)).1 = p :=
        hsound.planner_frame_of_error hgrants hframe
      have hnone : (p.serve policy (.frame identifiers)).2 = none := by
        simp [Planner.serve, hframe, Except.toOption]
      rw [hsame, hnone]
      exact .inl ⟨rfl, rfl, h⟩
    | ok frame =>
      have hsome : (p.serve policy (.frame identifiers)).2 = some frame := by
        simp [Planner.serve, hframe, Except.toOption]
      rw [hsome]
      by_cases hmem : e.identifier ∈ identifiers
      · obtain ⟨frame', hframe'⟩ := h.exists_frame hgrants
        have hsome' : (q.serve policy (.frame [e.identifier])).2 = some frame' := by
          simp [Planner.serve, hframe', Except.toOption]
        refine .inr ⟨.frame [e.identifier], if_pos hmem, ?_, ?_⟩
        · exact h.serve (fun hs => hs.serve_frame hframe) (fun hs => hs.serve_frame hframe')
            (fun _ => rfl) (fun _ => by simp [DenoiserState.after, hmem])
            (fun _ => by simp [DenoiserState.turns, hmem])
        · rw [hsome', Option.map_some, ← h.share_eq hnodup hframe hmem hframe']
          simp only [Call.share, if_pos hmem, Option.map_some]
      · exact .inl ⟨if_neg hmem, if_neg hmem, h.serve_left (fun hs => hs.serve_frame hframe)
          (fun _ => rfl) (fun _ => if_neg hmem) (fun _ => by simp [DenoiserState.turns, hmem])⟩

-- So the frames of the denoiser are the same in both planners, however long the run.
theorem shares_eq (h : Twins p q store i layout e) (hgrants : policy.Grants)
    (hnodup : layout.claims.transient.toList.Nodup) {identifier : Identifier}
    (hid : e.identifier = identifier) (calls : List Call) :
    p.shares policy identifier calls =
      (q.frames policy (p.projection policy identifier calls)).map fun frame =>
        frame.map (layout.claims.relocation hnodup).outline := by
  induction calls generalizing p q e with
  | nil => rfl
  | cons call calls ih =>
    subst hid
    obtain ⟨flipped, flipped', hsound, hsound', -⟩ := h.sound
    rw [shares_cons (hsound.inventory_serve hgrants call), projection_cons]
    rcases h.step hgrants hnodup call with ⟨hcall, hshare, h'⟩ | ⟨call', hcall, h', hshare⟩
    · rw [hcall, hshare]
      exact ih h' rfl
    · rw [hcall, hshare, Option.toList_some, List.singleton_append,
        frames_cons (hsound'.inventory_serve hgrants call'), ih h' (e.after_eq p.settings call).1,
        List.map_append]
      cases (q.serve policy call').2 <;> rfl

end Twins

-- A planner that deals with one denoiser among others as another planner does with it alone. Of
-- the textures it is enough to know where they are.
structure Embeds (p q : Planner) (policy : MemoryPolicy) (identifier : Identifier) (m : Relocation)
    (calls : List Call) : Prop where
  shares : p.shares policy identifier calls =
    (q.frames policy (p.projection policy identifier calls)).map fun frame => frame.map m.outline
  compiled : ∀ share ∈ p.shares policy identifier calls, ∀ x ∈ share, x.pipeline.isSome = true
  others : ∀ identifiers frame, (.frame identifiers, some frame) ∈ p.trace policy calls →
    identifier ∉ identifiers → frame.share identifier = []

-- A denoiser among others is the denoiser alone, in every run.
theorem create_embeds {denoisers : List (Identifier × Variant)} {identifier : Identifier}
    {v : Variant} (hgrants : policy.Grants) (hcreate : (create denoisers store).result = .ok p)
    (hmem : (identifier, v) ∈ denoisers) :
    ∃ q m, (create [(identifier, v)] store).result = .ok q ∧
      ∀ calls, p.Embeds q policy identifier m calls := by
  obtain ⟨hsound, rfl, hfresh, hsettings⟩ := create_ok hcreate
  obtain ⟨q, e, hq, halone, hclaims, -⟩ := exists_create identifier v store
  obtain ⟨hsound', hroll, hfresh', hsettings'⟩ := create_ok hq
  obtain ⟨d, hd, heq⟩ := List.mem_map.mp hmem
  have hd : d ∈ p.denoisers := Array.mem_toList_iff.mp hd
  obtain ⟨i, hi⟩ := Array.getElem?_of_mem hd
  have he : (e.identifier, e.variant) = (identifier, v) := by
    simpa [roll, Roster.roll, halone] using hroll
  have hsame : d = { e with layout := d.layout } := by
    obtain ⟨hs, hsnapshot, haccumulated⟩ := hfresh d hd
    obtain ⟨hs', hsnapshot', haccumulated'⟩ := hfresh' e (by simp [halone])
    cases d
    cases e
    simp_all
  have htwins : p.Twins q store i d.layout e :=
    { sound := ⟨_, _, hsound, hsound', rfl⟩
      member := hi.trans (congrArg some hsame)
      alone := halone
      settings := hsettings'.trans hsettings.symm
      claims := by rw [hclaims, (Prod.mk.inj he).2] }
  have hnodup := (hsound.roster.installed i d hi).nodup
  refine ⟨q, d.layout.claims.relocation hnodup, hq, fun calls => ⟨?_, ?_, ?_⟩⟩
  · exact htwins.shares_eq hgrants hnodup (Prod.mk.inj he).1 calls
  · exact hsound.compiled hgrants
  · intro identifiers frame hserved hnot
    obtain ⟨p', flipped', h', -, hframe⟩ := hsound.exists_of_mem_trace hgrants hserved
    exact h'.share_eq_nil hframe hnot

theorem create_embeds_shadowAndReference :
    ∃ p q m, (MemoryPolicy.atMost none).Grants ∧
      (create shadowAndReference fun _ _ => none).result = .ok p ∧
      (⟨3⟩, .reference) ∈ shadowAndReference ∧
      (create [(⟨3⟩, .reference)] fun _ _ => none).result = .ok q ∧
      (p.shares (.atMost none) ⟨3⟩ [.frame [⟨3⟩, ⟨7⟩], .frame [⟨7⟩]]).length = 1 ∧
      ∀ calls, p.Embeds q (.atMost none) ⟨3⟩ m calls := by
  obtain ⟨p, frame, hp, hframe⟩ := exists_frame_shadowAndReference
  have hmem : ((⟨3⟩, .reference) : Identifier × Variant) ∈ shadowAndReference := by decide
  obtain ⟨q, m, hq, hembeds⟩ := create_embeds .unlimited hp hmem
  refine ⟨p, q, m, .unlimited, hp, hmem, hq, ?_, hembeds⟩
  have hsome : (p.serve (.atMost none) (.frame [⟨3⟩, ⟨7⟩])).2 = some frame := by
    simp [serve, hframe, Except.toOption]
  have hsecond (p' : Planner) : Call.share ⟨3⟩ (.frame [⟨7⟩],
      (p'.serve (.atMost none) (.frame [⟨7⟩])).2) = none := by
    cases (p'.serve (.atMost none) (.frame [⟨7⟩])).2 <;> rfl
  simp only [shares, trace, hsome, List.filterMap_cons, hsecond]
  rfl

end DenoisePlanner.Planner
