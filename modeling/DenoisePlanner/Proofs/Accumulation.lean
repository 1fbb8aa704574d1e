import DenoisePlanner.Proofs.Clearing
import DenoisePlanner.Proofs.Passthrough
import DenoisePlanner.Proofs.Reset

namespace DenoisePlanner

-- A fast history is no longer than the main one, and that no longer than the ceiling.
def HistoryLimit.Within (limit : HistoryLimit) (ceiling : UInt32) : Prop :=
  limit.fast ≤ limit.main ∧ limit.main ≤ ceiling

theorem HistoryLimit.within_of (ceiling main fast : UInt32) :
    (HistoryLimit.of false ceiling main fast).Within ceiling := by
  have hmin (a b : UInt32) : min a b ≤ b := by
    rw [UInt32.le_iff_toNat_le]
    simp only [UInt32.toNat_min]
    omega
  exact ⟨hmin _ _, hmin _ _⟩

namespace FamilyConstants

def kind : FamilyConstants → Family
  | .reblur _ => .reblur
  | .relax _ => .relax
  | .sigma _ => .sigma
  | .reference _ => .reference

-- The lengths that the constants allow a history stay below what the family can hold.
def Limited : FamilyConstants → Prop
  | .reblur c => c.limit.Within 63
  | .relax c => c.diffuseLimit.Within 255 ∧ c.specularLimit.Within 255
  | .sigma c => c.maxStabilized ≤ 7
  | .reference _ => True

variable (settings : DenoiserSettings) (signals : Signals) (switches : Switches)
  {frame : FrameConstants}

theorem kind_ofSettings : (ofSettings settings signals switches frame).kind = settings.family := by
  cases settings <;> rfl

-- They do so for any settings at all.
theorem limited_ofSettings (h : frame.isHistoryReset = false) :
    (ofSettings settings signals switches frame).Limited := by
  cases settings with
  | reblur s =>
    have hlimit := HistoryLimit.within_of Reblur.maxHistory s.maxAccumulated s.maxFastAccumulated
    rw [← h] at hlimit
    exact hlimit
  | relax s =>
    have hdiffuse := HistoryLimit.within_of Relax.maxHistory s.diffuseMaxAccumulated
      s.diffuseMaxFastAccumulated
    have hspecular := HistoryLimit.within_of Relax.maxHistory s.specularMaxAccumulated
      s.specularMaxFastAccumulated
    rw [← h] at hdiffuse hspecular
    exact ⟨hdiffuse, hspecular⟩
  | sigma s =>
    have hlimit := (HistoryLimit.within_of Sigma.maxHistory s.maxStabilized 0).2
    have hmain : (Sigma.constants s signals frame).maxStabilized =
        (HistoryLimit.of false Sigma.maxHistory s.maxStabilized 0).main := by
      simp [Sigma.constants, SigmaConstants.maxStabilized, HistoryLimit.of, h]
    rw [← hmain] at hlimit
    exact hlimit
  | reference s => trivial

end FamilyConstants

-- The dispatches begin with these constants, clears apart, and are not all clears.
structure SharedConstants.Heads (c : SharedConstants) (xs : List Dispatch) : Prop where
  exists_mem : ∃ x ∈ xs, x.stage ≠ .clear
  carries : ∀ x ∈ xs, x.stage ≠ .clear → x.Carries c

theorem wordBytes_inj {a b : UInt32} (h : wordBytes a = wordBytes b) : a = b := by
  simp only [wordBytes, List.cons.injEq, and_true, ← UInt8.toNat_inj, UInt32.toNat_toUInt8,
    UInt32.toNat_shiftRight] at h
  simp only [UInt32.reduceToNat, Nat.reduceMod, Nat.reducePow] at h
  have ha := a.toNat_lt
  have hb := b.toNat_lt
  rw [← UInt32.toNat_inj]
  omega

theorem Row.bytes_inj {a b : Row} (h : a.bytes = b.bytes) : a = b := by
  cases a
  cases b
  simp only [Row.bytes, Row.words, List.flatMap_cons, List.flatMap_nil, List.append_nil] at h
  obtain ⟨hx, h⟩ := List.append_inj h rfl
  obtain ⟨hy, h⟩ := List.append_inj h rfl
  obtain ⟨hz, hw⟩ := List.append_inj h rfl
  rw [wordBytes_inj hx, wordBytes_inj hy, wordBytes_inj hz, wordBytes_inj hw]

theorem rowBytes_append_inj {rows rows' : List Row} {xs ys : List UInt8}
    (hlength : rows.length = rows'.length) (h : rowBytes rows ++ xs = rowBytes rows' ++ ys) :
    rows = rows' := by
  induction rows generalizing rows' with
  | nil => exact (List.length_eq_zero_iff.mp hlength.symm).symm
  | cons row rows ih =>
    cases rows' with
    | nil => cases hlength
    | cons row' rows' =>
      simp only [rowBytes, List.flatMap_cons, List.append_assoc] at h
      obtain ⟨hrow, hrest⟩ := List.append_inj h rfl
      rw [Row.bytes_inj hrow, ih (Nat.succ.inj hlength) hrest]

-- The bytes of a dispatch leave no doubt about the history that they tell of.
theorem Dispatch.Carries.frame_eq {x : Dispatch} {c c' : SharedConstants} (h : x.Carries c)
    (h' : x.Carries c') : c.frame.frame = c'.frame.frame := by
  obtain ⟨rest, hrest⟩ := h
  obtain ⟨rest', hrest'⟩ := h'
  have hbytes := congrArg (fun b => b.data.toList) (hrest.symm.trans hrest')
  simp only [ByteArray.data_append, Array.toList_append, List.data_toByteArray,
    SharedConstants.rows, rowBytes, List.flatMap_append, List.append_assoc] at hbytes
  have hrows : c.frame.rows = c'.frame.rows := rowBytes_append_inj rfl hbytes
  have hlast := congrArg List.getLast? hrows
  simpa [FrameConstants.rows] using hlast

theorem SharedConstants.Heads.frame_eq {xs : List Dispatch} {c c' : SharedConstants}
    (h : c.Heads xs) (h' : c'.Heads xs) : c.frame.frame = c'.frame.frame := by
  obtain ⟨x, hx, hstage⟩ := h.exists_mem
  exact (h.carries x hx hstage).frame_eq (h'.carries x hx hstage)

theorem Planner.Takes.heads {p : Planner} {store : ShaderStore} {d : DenoiserState} {s : Standing}
    {t : Turn} (h : p.Takes store d s t) : (t.denoiser.shared t.settings).Heads t.dispatches where
  exists_mem := by
    obtain ⟨em, hem, hstage⟩ := t.denoiser.exists_emission_ne_clear t.settings
    obtain ⟨x, hx, hemits⟩ := h.exists_dispatch hem
    exact ⟨x, hx, by rwa [h.stage_eq hemits]⟩
  carries := fun x hx hstage => by
    obtain ⟨em, hem, hemits⟩ := h.exists_emission hx
    exact DenoiserState.carries_of_outline_eq hem hstage (h.outline_eq hemits)

namespace Turn

variable {past turns newer : List Turn} {now t : Turn}

-- The frame begins a new history: it was told to, there has been none, or the rect has not the
-- size that it had when the denoiser last denoised.
def Resets (past : List Turn) (t : Turn) : Prop :=
  t.denoises = true ∧ (t.settings.accumulation ≠ .proceed ∨ last? past = none ∨
    ∃ last, last? past = some last ∧ last.settings.rectSize ≠ t.settings.rectSize)

-- The turns after the last one that began a new history.
def Since (turns newer : List Turn) : Prop :=
  ∃ older reset, turns = older ++ reset :: newer ∧ reset.Resets older ∧
    ∀ before t after, newer = before ++ t :: after → ¬t.Resets (older ++ reset :: before)

-- The count that a denoiser keeps, and what a turn makes of it.
def tally (n : UInt32) (t : Turn) : UInt32 :=
  if t.denoises then (t.denoiser.history t.settings).accumulated else n

-- The turn finds the denoiser as the turns before it have left it.
structure Follows (past : List Turn) (t : Turn) : Prop where
  snapshot : t.denoiser.snapshot = (last? past).map Turn.snapshot
  accumulated : t.denoiser.accumulated = past.foldl tally 0

theorem Follows.resets_iff (h : t.Follows past) (hdenoises : t.denoises = true) :
    t.Resets past ↔ t.denoiser.isReset t.settings = true := by
  have hsnapshot := h.snapshot
  unfold Resets DenoiserState.isReset
  cases hlast : last? past with
  | none => simp [hdenoises, hsnapshot, hlast]
  | some last => simp [hdenoises, hsnapshot, hlast, Turn.snapshot]

theorem Since.concat_of_resets (h : t.Resets past) : Since (past ++ [t]) [] :=
  ⟨past, t, rfl, h, by simp⟩

theorem Since.concat (h : Since past newer) (ht : ¬t.Resets past) :
    Since (past ++ [t]) (newer ++ [t]) := by
  obtain ⟨older, reset, rfl, hreset, hnewer⟩ := h
  refine ⟨older, reset, by simp, hreset, fun before u after hsplit => ?_⟩
  rcases List.eq_nil_or_concat after with rfl | ⟨rest, w, rfl⟩
  · obtain ⟨rfl, hu⟩ := List.append_inj' hsplit rfl
    obtain rfl := List.singleton_inj.mp hu
    exact ht
  · have hconcat : newer ++ [t] = (before ++ u :: rest) ++ [w] := by simp [hsplit]
    obtain ⟨hrest, -⟩ := List.append_inj' hconcat rfl
    exact hnewer before u rest hrest

-- The last turn began a new history if and only if none has been counted since.
theorem Since.resets_iff (h : Since (past ++ [now]) newer) (hdenoises : now.denoises = true) :
    now.Resets past ↔ newer.countP denoises = 0 := by
  obtain ⟨older, reset, hturns, hreset, hnewer⟩ := h
  rcases List.eq_nil_or_concat newer with rfl | ⟨rest, w, rfl⟩
  · obtain ⟨rfl, hnow⟩ := List.append_inj' hturns rfl
    obtain rfl := List.singleton_inj.mp hnow
    exact iff_of_true hreset rfl
  · have hconcat : past ++ [now] = (older ++ reset :: rest) ++ [w] := by simp [hturns]
    obtain ⟨rfl, hnow⟩ := List.append_inj' hconcat rfl
    obtain rfl := List.singleton_inj.mp hnow
    refine iff_of_false (hnewer rest now [] (List.concat_eq_append ..)) ?_
    simp [hdenoises]

theorem toNat_nextCount {n : UInt32} {k : Nat} (h : n.toNat = min (2 ^ 32 - 1) k) :
    (DenoiserState.nextCount n).toNat = min (2 ^ 32 - 1) (k + 1) := by
  have hbound := n.toNat_lt
  unfold DenoiserState.nextCount
  split
  · rename_i hmax
    subst hmax
    have htop : (0xffffffff : UInt32).toNat = 2 ^ 32 - 1 := rfl
    omega
  · rename_i hlow
    have hlow : n.toNat ≠ 2 ^ 32 - 1 := fun heq => hlow (UInt32.toNat_inj.mp heq)
    rw [UInt32.toNat_add, UInt32.toNat_one]
    omega

-- The count is the number of turns that denoised since the last new history.
theorem exists_since (hturns : ∀ before t after, turns = before ++ t :: after → t.Follows before)
    (hlast : last? turns ≠ none) : ∃ newer, Since turns newer ∧
      (turns.foldl tally 0).toNat = min (2 ^ 32 - 1) (newer.countP denoises) := by
  induction turns using List.reverseRecOn with
  | nil => exact absurd rfl hlast
  | append_singleton past t ih =>
    have hpast : ∀ before u after, past = before ++ u :: after → u.Follows before :=
      fun before u after hsplit => hturns before u (after ++ [t]) (by simp [hsplit])
    have hfollows := hturns past t [] rfl
    rw [List.foldl_concat, tally]
    cases hdenoises : t.denoises with
    | false =>
      have hbefore : last? past ≠ none := by simpa [last?, hdenoises] using hlast
      obtain ⟨newer, hsince, hcount⟩ := ih hpast hbefore
      have hkeeps : ¬t.Resets past := fun hresets => by simp [Resets, hdenoises] at hresets
      exact ⟨newer ++ [t], hsince.concat hkeeps, by simpa [hdenoises] using hcount⟩
    | true =>
      have hresets := hfollows.resets_iff hdenoises
      cases hreset : t.denoiser.isReset t.settings with
      | true =>
        have hbegins : t.Resets past := hresets.mpr hreset
        exact ⟨[], .concat_of_resets hbegins, by simp [DenoiserState.history, hreset]⟩
      | false =>
        have hkeeps : ¬t.Resets past := by simp [hresets, hreset]
        have hbefore : last? past ≠ none := fun hnone => hkeeps ⟨hdenoises, .inr (.inl hnone)⟩
        obtain ⟨newer, hsince, hcount⟩ := ih hpast hbefore
        refine ⟨newer ++ [t], hsince.concat hkeeps, ?_⟩
        rw [← hfollows.accumulated] at hcount
        simpa [DenoiserState.history, hreset, hdenoises] using toNat_nextCount hcount

end Turn

-- The constants of a turn tell of the turns since the last new history.
structure SharedConstants.Tells (c : SharedConstants) (d : DenoiserState) (past newer : List Turn)
    (now : Turn) : Prop where
  heads : c.Heads now.dispatches
  kind : c.family.kind = d.variant.family
  accumulated : c.frame.accumulated.toNat = min (2 ^ 32 - 1) (newer.countP Turn.denoises)
  isHistoryReset : c.frame.isHistoryReset = true ↔ now.Resets past
  resets_iff : now.Resets past ↔ newer.countP Turn.denoises = 0
  limits : now.Resets past → ∀ limit ∈ c.family.limits, limit = 0
  limited : ¬now.Resets past → c.family.Limited

namespace Planner

variable {p : Planner} {store : ShaderStore} {i : Nat} {d : DenoiserState} {s : Standing}
  {request : Request} {requests : List Request} {t now : Turn} {past later pre post : List Turn}

-- A turn finds the denoiser as it is, and the denoiser counts it.
theorem Stands.counts (h : p.Stands store i d s) (hroom : p.HasRoom request) :
    ∃ d' s', (d'.identifier = d.identifier ∧ d'.variant = d.variant) ∧
      (p.after request).Stands store i d' s' ∧
      d'.accumulated = (p.turn? d.identifier request).toList.foldl Turn.tally d.accumulated ∧
      ∀ t, p.turn? d.identifier request = some t → t.denoiser = d := by
  by_cases hanswers : p.Answers request
  · obtain ⟨share, hturn, -⟩ := h.turn?_eq hanswers
    obtain ⟨hid, hvariant, -⟩ := d.after_eq p.settings request.call
    obtain ⟨settings, hafter⟩ := d.exists_after_eq p.settings request.call
    refine ⟨_, _, ⟨hid, hvariant⟩, h.answered hanswers, ?_, fun t ht => ?_⟩
    · rw [hturn, hafter, d.turns_eq]
      by_cases hasked : d.isAsked request.call = true <;>
        by_cases hmoves : d.moves p.settings = true <;>
        simp [hasked, hmoves, Turn.tally, Turn.denoises, DenoiserState.advance]
    · rw [hturn] at ht
      split at ht
      · exact (congrArg Turn.denoiser (Option.some.inj ht)).symm
      · cases ht
  · obtain ⟨hsame, hturn⟩ := after_of_not_answers hroom hanswers
    rw [hsame, hturn]
    exact ⟨d, s, ⟨rfl, rfl⟩, h, rfl, by simp⟩

theorem Stands.counts_of_turns_eq (h : p.Stands store i d s) (hlasts : p.Lasts requests)
    (hturns : p.turns d.identifier requests = pre ++ t :: post) :
    t.denoiser.settings.family = d.variant.family ∧
      t.denoiser.accumulated = pre.foldl Turn.tally d.accumulated := by
  induction requests generalizing p d s pre with
  | nil => simp [turns] at hturns
  | cons request requests ih =>
    obtain ⟨d', s', ⟨hid, hvariant⟩, h', hcounted, hdenoiser⟩ := h.counts hlasts.1
    rw [turns] at hturns
    cases hturn : p.turn? d.identifier request with
    | none =>
      rw [hturn] at hturns hcounted
      obtain ⟨hfamily, haccumulated⟩ := ih h' hlasts.2 (hid ▸ hturns)
      exact ⟨hvariant ▸ hfamily, by rw [haccumulated, hcounted]; rfl⟩
    | some first =>
      rw [hturn] at hturns hcounted
      cases pre with
      | nil =>
        obtain ⟨rfl, -⟩ := List.cons.inj hturns
        obtain ⟨flipped, hsound, -⟩ := h.sound
        rw [hdenoiser _ hturn]
        exact ⟨hsound.roster.family i d h.member, rfl⟩
      | cons first' pre =>
        obtain ⟨rfl, hrest⟩ := List.cons.inj hturns
        obtain ⟨hfamily, haccumulated⟩ := ih h' hlasts.2 (hid ▸ hrest)
        exact ⟨hvariant ▸ hfamily, by rw [haccumulated, hcounted]; rfl⟩

theorem follows_of_turns_eq {denoisers : List (Identifier × Variant)}
    (hcreate : (create denoisers store).result = .ok p) (hlasts : p.Lasts requests)
    (hd : d ∈ p.denoisers) (hturns : p.turns d.identifier requests = pre ++ t :: post) :
    t.Follows pre ∧ t.denoiser.settings.family = d.variant.family := by
  obtain ⟨i, h⟩ := stands_of_create hcreate hd
  obtain ⟨-, -, hfresh, -⟩ := create_ok hcreate
  obtain ⟨hfamily, haccumulated⟩ := h.counts_of_turns_eq hlasts hturns
  have hsnapshot := (takes_of_turns_eq hcreate hlasts hd hturns).snapshot_eq
  rw [(hfresh d hd).2.2] at haccumulated
  exact ⟨⟨hsnapshot, haccumulated⟩, hfamily⟩

-- In every frame that denoises, the constants tell how many frames there have been since the
-- history began anew, and how much of it may be used.
theorem accumulates {denoisers : List (Identifier × Variant)}
    (hcreate : (create denoisers store).result = .ok p) (hlasts : p.Lasts requests)
    (hd : d ∈ p.denoisers) (hturns : p.turns d.identifier requests = past ++ now :: later)
    (hdenoises : now.denoises = true) :
    ∃ newer, ∃ c : SharedConstants, Turn.Since (past ++ [now]) newer ∧ c.Tells d past newer now := by
  have hfollows (before : List Turn) (t : Turn) (after : List Turn)
      (hsplit : past ++ [now] = before ++ t :: after) : t.Follows before := by
    have hturns' : p.turns d.identifier requests = before ++ t :: (after ++ later) := by
      rw [hturns, List.append_cons, hsplit, List.append_assoc, List.cons_append]
    exact (follows_of_turns_eq hcreate hlasts hd hturns').1
  have hlast : Turn.last? (past ++ [now]) ≠ none := by simp [Turn.last?, hdenoises]
  obtain ⟨newer, hsince, hcount⟩ := Turn.exists_since hfollows hlast
  have hresets := (hfollows past now [] rfl).resets_iff hdenoises
  have hreset : (now.denoiser.shared now.settings).frame.isHistoryReset =
      now.denoiser.isReset now.settings := FrameConstants.isHistoryReset_ofSettings _ _
  have haccumulated : (now.denoiser.shared now.settings).frame.accumulated =
      (past ++ [now]).foldl Turn.tally 0 := by
    rw [List.foldl_concat, Turn.tally, if_pos hdenoises]
    rfl
  refine ⟨newer, now.denoiser.shared now.settings, hsince, ?_⟩
  exact
    { heads := (takes_of_turns_eq hcreate hlasts hd hturns).heads
      kind := by
        rw [← (follows_of_turns_eq hcreate hlasts hd hturns).2]
        exact FamilyConstants.kind_ofSettings ..
      accumulated := by rw [haccumulated, hcount]
      isHistoryReset := by rw [hreset, hresets]
      resets_iff := hsince.resets_iff hdenoises
      limits := fun h => (DenoiserState.restarts_shared_iff.mpr (hresets.mp h)).limits
      limited := fun h => by
        have hkept : now.denoiser.isReset now.settings = false := by simpa [hresets] using h
        exact FamilyConstants.limited_ofSettings _ _ _ (hreset.trans hkept) }

-- The second of two frames of plain averaging goes on with the history of the first.
theorem accumulates_averaging : ∃ p, ∃ d ∈ p.denoisers, ∃ prev now : Turn,
    (create shadowAndReference fun _ _ => none).result = .ok p ∧ p.Lasts averaging ∧
      p.turns d.identifier averaging = [prev] ++ now :: [] ∧ now.denoises = true ∧
      ∃ newer, ∃ c : SharedConstants,
        Turn.Since ([prev] ++ [now]) newer ∧ c.Tells d [prev] newer now := by
  obtain ⟨p, d, hd, prev, now, hcreate, -, hlasts, hturns, -, hnow⟩ := exists_averaging
  exact ⟨p, d, hd, prev, now, hcreate, hlasts, hturns, hnow,
    accumulates hcreate hlasts hd hturns hnow⟩

end Planner

end DenoisePlanner
