import DenoisePlanner.Proofs.Phase
import DenoisePlanner.Proofs.Scenes

namespace DenoisePlanner

-- The lengths that the constants allow a history.
def FamilyConstants.limits : FamilyConstants → List UInt32
  | .reblur c => [c.limit.main, c.limit.fast]
  | .relax c => [c.diffuseLimit.main, c.diffuseLimit.fast, c.specularLimit.main, c.specularLimit.fast]
  | .sigma c => [c.maxStabilized]
  | .reference _ => []

-- The constants tell a shader that there is no history.
structure SharedConstants.Restarts (c : SharedConstants) : Prop where
  isHistoryReset : c.frame.isHistoryReset = true
  accumulated : c.frame.accumulated = 0
  limits : ∀ limit ∈ c.family.limits, limit = 0

-- The constants of the dispatch begin with those that its denoiser shares.
def Dispatch.Carries (x : Dispatch) (c : SharedConstants) : Prop :=
  ∃ rest, x.constants = (rowBytes c.rows).toByteArray ++ rest

-- A history without length has none in any family.
theorem FamilyConstants.limits_ofSettings (settings : DenoiserSettings) (signals : Signals)
    (switches : Switches) {frame : FrameConstants} (h : frame.isHistoryReset = true) :
    ∀ limit ∈ (ofSettings settings signals switches frame).limits, limit = 0 := by
  cases settings <;>
    simp [ofSettings, limits, Reblur.constants, Relax.constants, Sigma.constants,
      ReblurConstants.limit, RelaxConstants.diffuseLimit, RelaxConstants.specularLimit,
      SigmaConstants.maxStabilized, HistoryLimit.of, h]

theorem Variant.hasShared (v : Variant) : ∀ pass ∈ v.blueprint.passes, pass.data.hasShared = true := by
  cases v <;> decide

namespace DenoiserState

variable {d : DenoiserState} {s : FrameSettings}

-- The history goes on in the old rect, but in a resource of another size.
def OnlyResourceResized (d : DenoiserState) (s : FrameSettings) : Prop :=
  s.accumulation = .proceed ∧
    ∃ last, d.snapshot = some last ∧ last.rectSize = s.rectSize ∧ last.resourceSize ≠ s.resourceSize

theorem restarts_shared_iff : (d.shared s).Restarts ↔ d.isReset s = true := by
  have hreset : (d.shared s).frame.isHistoryReset = d.isReset s :=
    FrameConstants.isHistoryReset_ofSettings s (d.history s)
  constructor
  · exact fun h => hreset.symm.trans h.isHistoryReset
  · intro h
    refine ⟨hreset.trans h, ?_, FamilyConstants.limits_ofSettings _ _ _ (hreset.trans h)⟩
    change (d.history s).accumulated = 0
    simp [history, h]

-- Of the frames with clears, it is these that do not start over.
theorem isReset_iff (hcleared : d.isCleared s = true) :
    d.isReset s = true ↔ ¬d.OnlyResourceResized s := by
  unfold isCleared isReset OnlyResourceResized at *
  cases hsnapshot : d.snapshot with
  | none => simp
  | some last =>
    rw [hsnapshot] at hcleared
    cases haccumulation : s.accumulation <;> simp_all

theorem carries_of_outline_eq {p : Planner} {store : ShaderStore} {flipped : Bool} {x : Dispatch}
    {em : Emission ScheduledPass} (hem : em ∈ d.emissions s) (hstage : x.stage ≠ .clear)
    (hx : p.outline x = d.outline s store flipped em) : x.Carries (d.shared s) := by
  have hconstants : x.constants = ScratchBuffer.join
      (em.pass.pass.data.chunks (d.sharedBytes s) s.frameIndex em.atrous) :=
    congrArg Outline.constants hx
  have hname : em.pass.stage ≠ .clear := by
    rwa [← show x.stage = em.pass.stage from congrArg Outline.stage hx]
  have hshared := d.variant.hasShared _
    (Blueprint.pass_mem_of_mem_schedule (Emission.pass_mem_of_mem_all hem) hname)
  unfold Dispatch.Carries
  rw [hconstants]
  cases hdata : em.pass.pass.data with
  | none => simp [hdata, PassData.hasShared] at hshared
  | shared => exact ⟨.empty, by simp [PassData.chunks, ScratchBuffer.join, sharedBytes]⟩
  | blur phase => exact ⟨_, by simp [PassData.chunks, ScratchBuffer.join, sharedBytes]; rfl⟩
  | atrous => exact ⟨_, by simp [PassData.chunks, ScratchBuffer.join, sharedBytes]; rfl⟩

end DenoiserState

namespace Planner

variable {p : Planner} {store : ShaderStore} {frame : Frame}

-- Cleared textures are no history. The constants say so, unless the resource alone has changed
-- its size.
theorem Reachable.restarts_iff {denoisers : List (Identifier × Variant)} {policy : MemoryPolicy}
    {identifiers : List Identifier} (h : Reachable denoisers store p)
    (hframe : (p.frame policy identifiers).result = .ok frame) {d : DenoiserState}
    (hd : d ∈ p.denoisers) (hasked : d.identifier ∈ identifiers)
    (hclears : ∃ x ∈ frame.share d.identifier, x.stage = .clear) :
    (∀ x ∈ frame.share d.identifier, x.stage ≠ .clear → x.Carries (d.shared p.settings)) ∧
      ((d.shared p.settings).Restarts ↔ ¬d.OnlyResourceResized p.settings) := by
  obtain ⟨s, htakes⟩ := h.exists_takes hframe hd hasked
  refine ⟨fun x hx hstage => ?_, ?_⟩
  · obtain ⟨em, hem, hx⟩ := htakes.exists_emission hx
    exact DenoiserState.carries_of_outline_eq hem hstage (htakes.outline_eq hx)
  · obtain ⟨-, hcleared⟩ := Bool.and_eq_true_iff.mp (htakes.exists_clear_iff.mp hclears)
    exact DenoiserState.restarts_shared_iff.trans (DenoiserState.isReset_iff hcleared)

end Planner

-- The whole of a small resource, and then the same rect of a larger one.
def smallFrame : FrameSettings :=
  { rectSize := ⟨64, 64⟩, rectSizePrev := ⟨64, 64⟩
    resourceSize := ⟨64, 64⟩, resourceSizePrev := ⟨64, 64⟩ }

def largerFrame : FrameSettings := { smallFrame with resourceSize := ⟨128, 128⟩ }

def resizing : List Request :=
  [⟨.setFrameSettings smallFrame, .atMost none⟩, ⟨.frame [⟨7⟩], .atMost none⟩,
    ⟨.setFrameSettings largerFrame, .atMost none⟩]

namespace Planner

-- A planner that has done a frame in the small resource and is about to go on in the larger one.
theorem exists_resized : ∃ p frame, ∃ d ∈ p.denoisers,
    Reachable shadowAndReference (fun _ _ => none) p ∧
      (p.frame (.atMost none) [⟨7⟩]).result = .ok frame ∧ d.identifier = ⟨7⟩ ∧
      (∃ x ∈ frame.share d.identifier, x.stage = .clear) ∧
      (∃ x ∈ frame.share d.identifier, x.stage = .classifyTiles) ∧
      d.accumulated = 0 ∧ d.OnlyResourceResized p.settings := by
  obtain ⟨p, -, hcreate, -⟩ := exists_frame_shadowAndReference
  obtain ⟨d, hd, hid, hvariant, -, hnone, -⟩ := exists_denoiser hcreate (List.mem_cons_self ..)
  obtain ⟨i, h⟩ := stands_of_create hcreate hd
  have hsolo : ∀ request ∈ resizing, request.Solo d.identifier := by
    simp [resizing, Request.Solo, MemoryPolicy.Grants.unlimited, hid]
  have hsmall : smallFrame.validate = .ok () := by decide +kernel
  have hlarger : largerFrame.validate = .ok () := by decide +kernel
  have hmoves (e : DenoiserState) : e.moves smallFrame = true ∧ e.moves largerFrame = true := by
    rw [e.moves_eq, e.moves_eq]
    decide +kernel
  obtain ⟨s, h', hcurrent⟩ := h.reached hsolo
  have hreached : d.reached p.settings (resizing.map Request.call) = d.advance smallFrame := by
    simp [resizing, DenoiserState.reached, DenoiserState.after, DenoiserState.next, Call.settings,
      hsmall, hmoves, hid]
  have hcurrent : (resizing.foldl after p).settings = largerFrame := by
    rw [hcurrent]
    simp [resizing, Call.settings, hlarger]
  have hreachable := Reachable.foldl_after (.created hcreate) resizing
  rw [hreached] at h'
  generalize resizing.foldl after p = q at h' hcurrent hreachable
  have hid' : (d.advance smallFrame).identifier = ⟨7⟩ := hid
  have hanswers : q.Answers ⟨.frame [⟨7⟩], .atMost none⟩ :=
    h'.answers ⟨.unlimited, fun _ heq => hid' ▸ (Call.frame.inj heq).symm⟩
  obtain ⟨frame, hframe⟩ := hanswers _ rfl
  have htakes := h'.takes hframe (List.mem_singleton.mpr hid')
  have hdenoises : (d.advance smallFrame).moves q.settings = true := hcurrent ▸ (hmoves _).2
  refine ⟨q, frame, _, Array.mem_of_getElem? h'.member, hreachable, hframe, hid, ?_, ?_, ?_, ?_⟩
  · have hcleared : (d.advance smallFrame).isCleared largerFrame = true := by
      simp [DenoiserState.isCleared, DenoiserState.advance, smallFrame, largerFrame]
    exact htakes.exists_clear_iff.mpr
      (Bool.and_eq_true_iff.mpr ⟨hdenoises, hcurrent ▸ hcleared⟩)
  · have hpass : Sigma.classifyTiles false ∈
        (d.advance smallFrame).variant.blueprint.passes := by
      rw [show (d.advance smallFrame).variant = .sigmaShadow from hvariant]
      exact List.mem_cons_self
    obtain ⟨x, hx, hem⟩ := htakes.exists_dispatch
      (DenoiserState.mem_emissions_of_enabled hdenoises hpass rfl rfl)
    exact ⟨x, hx, htakes.stage_eq hem⟩
  · simp [DenoiserState.advance, DenoiserState.history, DenoiserState.isReset, hnone]
  · rw [hcurrent]
    exact ⟨rfl, _, rfl, rfl, by decide⟩

theorem Reachable.restarts_iff_resized : ∃ p frame, ∃ d ∈ p.denoisers,
    Reachable shadowAndReference (fun _ _ => none) p ∧
      (p.frame (.atMost none) [⟨7⟩]).result = .ok frame ∧ d.identifier ∈ [⟨7⟩] ∧
      (∃ x ∈ frame.share d.identifier, x.stage = .clear) ∧
      (∀ x ∈ frame.share d.identifier, x.stage ≠ .clear → x.Carries (d.shared p.settings)) ∧
      ((d.shared p.settings).Restarts ↔ ¬d.OnlyResourceResized p.settings) := by
  obtain ⟨p, frame, d, hd, hreachable, hframe, hid, hclears, -⟩ := exists_resized
  have hasked : d.identifier ∈ [(⟨7⟩ : Identifier)] := List.mem_singleton.mpr hid
  exact ⟨p, frame, d, hd, hreachable, hframe, hasked, hclears,
    restarts_iff hreachable hframe hd hasked hclears⟩

-- After the change of the resource alone, cleared textures go for a history of one frame.
theorem exists_cleared_history : ∃ p frame, ∃ d ∈ p.denoisers,
    Reachable shadowAndReference (fun _ _ => none) p ∧
      (p.frame (.atMost none) [⟨7⟩]).result = .ok frame ∧ d.identifier ∈ [⟨7⟩] ∧
      (∃ x ∈ frame.share d.identifier, x.stage = .clear) ∧
      ∃ x ∈ frame.share d.identifier, ∃ c, x.Carries c ∧
        c.frame.isHistoryReset = false ∧ c.frame.accumulated = 1 := by
  obtain ⟨p, frame, d, hd, hreachable, hframe, hid, hclears, ⟨x, hx, hstage⟩, haccumulated,
    hresized⟩ := exists_resized
  have hasked : d.identifier ∈ [(⟨7⟩ : Identifier)] := List.mem_singleton.mpr hid
  obtain ⟨s, htakes⟩ := hreachable.exists_takes hframe hd hasked
  obtain ⟨-, hcleared⟩ := Bool.and_eq_true_iff.mp (htakes.exists_clear_iff.mp hclears)
  have hproceeds : d.isReset p.settings = false :=
    Bool.eq_false_iff.mpr fun hreset => (d.isReset_iff hcleared).mp hreset hresized
  obtain ⟨em, hem, hx'⟩ := htakes.exists_emission hx
  refine ⟨p, frame, d, hd, hreachable, hframe, hasked, hclears, x, hx, d.shared p.settings,
    DenoiserState.carries_of_outline_eq hem (by simp [hstage]) (htakes.outline_eq hx'), ?_, ?_⟩
  · exact (FrameConstants.isHistoryReset_ofSettings _ _).trans hproceeds
  · change (d.history p.settings).accumulated = 1
    simp [DenoiserState.history, hproceeds, haccumulated, DenoiserState.nextCount]

end Planner

end DenoisePlanner
