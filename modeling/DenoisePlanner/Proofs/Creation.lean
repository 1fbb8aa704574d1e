import DenoisePlanner.Proofs.Alone
import DenoisePlanner.Proofs.Reuse
import Mathlib.Algebra.GroupWithZero.Nat

namespace DenoisePlanner

-- The part of a shader's name before the first underscore.
def shaderDomain (shader : String) : List Char := shader.toList.takeWhile (· != '_')

-- The shaders of a family bear its name.
def Family.domain (family : Family) : List Char := family.name.toList.map Char.toUpper

theorem Family.domain_inj {f g : Family} (h : f.domain = g.domain) : f = g := by
  revert h
  cases f <;> cases g <;> decide +kernel

theorem shaderDomain_clear (slot : Slot) (texture : Texture) (family : Family) :
    shaderDomain (Pass.clear slot texture).shader ≠ family.domain := by
  have hshader : (Pass.clear slot texture).shader ∈ ["Clear_ui", "Clear_f"] := by
    unfold Pass.clear
    cases texture.format.isInteger <;> simp
  have hdomain : ∀ shader ∈ ["Clear_ui", "Clear_f"], shaderDomain shader ≠ family.domain := by
    cases family <;> decide +kernel
  exact hdomain _ hshader

namespace Variant

theorem shaderDomain_eq (v : Variant) : ∀ pass ∈ v.blueprint.passes,
    shaderDomain pass.shader = v.family.domain := by
  cases v <;> decide +kernel

-- The members of a family can be told apart by their defines.
theorem defines_inj (v w : Variant) (h : v.family = w.family) :
    v.blueprint.defines.length = w.blueprint.defines.length ∧
      (v.blueprint.defines = w.blueprint.defines → v = w) := by
  have hall : ∀ v ∈ all, ∀ w ∈ all, v.family = w.family →
      v.blueprint.defines.length = w.blueprint.defines.length ∧
        (v.blueprint.defines = w.blueprint.defines → v = w) := by
    decide +kernel
  exact hall v v.mem_all w w.mem_all h

-- Whatever any denoiser declares.
def catalogue : List ScheduledPass := all.flatMap fun v => v.blueprint.schedule

-- One texture for each time that any denoiser asks for it.
def stock : List Texture := all.flatMap fun v => v.blueprint.transient

theorem schedule_subset_catalogue (v : Variant) : v.blueprint.schedule ⊆ catalogue :=
  fun _ he => List.mem_flatMap.mpr ⟨v, v.mem_all, he⟩

theorem count_transient_le (v : Variant) (texture : Texture) :
    v.blueprint.transient.count texture ≤ stock.count texture := by
  have hsublist : v.blueprint.transient.Sublist stock :=
    List.sublist_flatten_of_mem (List.mem_map_of_mem v.mem_all)
  exact hsublist.count_le texture

theorem catalogue_fits : ScheduledPass.dispatchCount catalogue < PipelineTable.capacity := by
  decide +kernel

theorem stock_fits : stock.length < Pools.capacity := by decide +kernel

end Variant

-- Only clears are shared between variants, and all clears are bound alike.
theorem Variant.consistent_catalogue : ScheduledPass.Consistent catalogue := by
  intro e he e' he' s hs s' hs' hidentifier
  obtain ⟨v, -, he⟩ := List.mem_flatMap.mp he
  obtain ⟨w, -, he'⟩ := List.mem_flatMap.mp he'
  have hkey : e.key s = e'.key s' := ScheduledPass.key_inj he he' hidentifier
  have hshader : e.pass.shader = e'.pass.shader := congrArg ShaderKey.name hkey
  have hdefines : e.defines ++ s.defines = e'.defines ++ s'.defines :=
    congrArg ShaderKey.defines hkey
  rcases Blueprint.of_mem_schedule he with ⟨slot, texture, rfl⟩ | ⟨hown, hpass⟩ <;>
    rcases Blueprint.of_mem_schedule he' with ⟨slot', texture', rfl⟩ | ⟨hown', hpass'⟩
  · rfl
  · exact absurd (hshader ▸ w.shaderDomain_eq _ hpass') (shaderDomain_clear slot texture _)
  · exact absurd (hshader ▸ v.shaderDomain_eq _ hpass) (shaderDomain_clear slot' texture' _)
  · have hfamily : v.family = w.family := by
      apply Family.domain_inj
      rw [← v.shaderDomain_eq _ hpass, ← w.shaderDomain_eq _ hpass', hshader]
    obtain ⟨hlength, hsame⟩ := v.defines_inj w hfamily
    rw [hown, hown'] at hdefines
    obtain rfl := hsame (List.append_inj_left hdefines hlength)
    exact v.consistent e he e' he' s hs s' hs' hidentifier

-- Tables that take any denoiser for whom there are permanent textures.
structure Declarations.Roomy (t : Declarations) : Prop where
  pipelines : ∀ p ∈ t.pipelines.pipelines, ScheduledPass.Asks Variant.catalogue p
  distinct : t.pipelines.Distinct
  pairs : t.swaps.Below t.pools.permanent.size
  pairCount : 2 * t.swaps.size ≤ t.pools.permanent.size
  transient : ∀ texture, t.pools.copies texture ≤ Variant.stock.count texture

theorem Declarations.Roomy.empty : Roomy {} where
  pipelines := fun _ hp => absurd hp (Array.not_mem_empty _)
  distinct := List.nodup_nil
  pairs := fun _ hp => absurd hp (Array.not_mem_empty _)
  pairCount := Nat.le_refl _
  transient := fun _ => Nat.zero_le _

namespace Declaring

variable {d : Draft}

theorem addPermanent_overflow (hfull : Pools.capacity ≤ d.tables.pools.permanent.size)
    (texture : Texture) : addPermanent texture d = .error (.overflow .permanent) d := by
  have hpools : Allotting.addPermanent texture ⟨d.tables.pools, d.denoiser.claims⟩ =
      .error (.overflow .permanent) ⟨d.tables.pools, d.denoiser.claims⟩ := by
    apply bind_eq_error_iff.mpr
    exact .inr ⟨_, _, rfl, by rw [if_pos hfull]; rfl⟩
  simp only [addPermanent, onPools, hpools]

-- The textures are added one by one until there is no room for the next.
theorem forM_addPermanent_overflow {textures : List Texture}
    (hroom : d.tables.pools.permanent.size ≤ Pools.capacity)
    (hover : Pools.capacity < d.tables.pools.permanent.size + textures.length) :
    ∃ d', textures.forM (fun t => discard (addPermanent t)) d =
      .error (.overflow .permanent) d' := by
  induction textures generalizing d with
  | nil =>
    simp only [List.length_nil] at hover
    omega
  | cons texture textures ih =>
    by_cases hfull : Pools.capacity ≤ d.tables.pools.permanent.size
    · refine ⟨d, bind_eq_error_iff.mpr (.inl ?_)⟩
      exact discard_eq_error_iff.mpr (addPermanent_overflow hfull texture)
    · obtain ⟨slot, hfirst⟩ := exists_addPermanent (Nat.lt_of_not_le hfull) texture
      rw [List.length_cons] at hover
      obtain ⟨d', hrest⟩ := ih (d := withPools d
        { d.tables.pools with permanent := d.tables.pools.permanent.push texture }
        { d.denoiser.claims with permanentCount := d.denoiser.claims.permanentCount + 1 })
        (by simp only [withPools, Array.size_push]; omega)
        (by simp only [withPools, Array.size_push]; omega)
      exact ⟨d', bind_eq_error_iff.mpr
        (.inr ⟨⟨⟩, _, discard_eq_ok_iff.mpr ⟨slot, hfirst⟩, hrest⟩)⟩

end Declaring

namespace Declarations

variable {t : Declarations}

theorem addVariant_overflow (v : Variant) (hroom : t.pools.permanent.size ≤ Pools.capacity)
    (hover : Pools.capacity < t.pools.permanent.size + v.blueprint.permanent.length) :
    ∃ t', addVariant v t = .error (.overflow .permanent) t' := by
  obtain ⟨d', hpermanent⟩ := Declaring.forM_addPermanent_overflow
    (d := t.draft v.name v.blueprint.defines v.family.sharedSize) hroom hover
  have hblueprint : Declaring.declareBlueprint v.blueprint
      (t.draft v.name v.blueprint.defines v.family.sharedSize) =
      .error (.overflow .permanent) d' :=
    Declaring.bind_eq_error_iff.mpr (.inl hpermanent)
  unfold addVariant
  simp only [hblueprint]
  exact ⟨_, rfl⟩

-- The draft of a variant whose textures have been allotted.
def allotted (t : Declarations) (v : Variant) (transient : Array Texture) (claimed : Array Nat) :
    Draft :=
  Declaring.withPools (t.draft v.name v.blueprint.defines v.family.sharedSize)
    ⟨t.pools.permanent ++ v.blueprint.permanent.toArray, transient⟩
    ⟨t.pools.permanent.size, v.blueprint.permanent.length, claimed⟩

theorem Roomy.exists_allotted (h : t.Roomy) (v : Variant)
    (hroom : t.pools.permanent.size + v.blueprint.permanent.length ≤ Pools.capacity) :
    ∃ transient claimed, claimed.size = v.blueprint.transient.length ∧
      (∀ texture, (t.allotted v transient claimed).tables.pools.copies texture ≤
        Variant.stock.count texture) ∧
      ∀ d, Declaring.declare v.blueprint.passes (t.allotted v transient claimed) = .ok ⟨⟩ d →
        Declaring.declareBlueprint v.blueprint
          (t.draft v.name v.blueprint.defines v.family.sharedSize) = .ok ⟨⟩ d := by
  let start := t.draft v.name v.blueprint.defines v.family.sharedSize
  have hpermanent := Declaring.exists_forM_addPermanent v.blueprint.permanent (d := start) hroom
  obtain ⟨d₂, htransient, hcopies⟩ := Declaring.exists_forM_reuse
    (d := Declaring.withPools start
      { t.pools with permanent := t.pools.permanent ++ v.blueprint.permanent.toArray }
      { base := t.pools.permanent.size, permanentCount := 0 + v.blueprint.permanent.length })
    rfl h.transient v.count_transient_le Variant.stock_fits
  have hgranted := Declaring.forM_addTransient_ok (by exact List.nodup_nil)
    (fun i hi => absurd hi (Array.not_mem_empty _)) htransient
  obtain ⟨transient, claimed, rfl⟩ := hgranted.eq
  refine ⟨transient, claimed, ?_, hcopies, fun d hdeclare => ?_⟩
  · have hsize := hgranted.size
    simpa [Declaring.withPools] using hsize
  · simp only [Declaring.declareBlueprint, Declaring.bind_eq_ok_iff]
    refine ⟨⟨⟩, _, hpermanent, ⟨⟩, _, htransient, ?_⟩
    simpa [allotted, Declaring.withPools, start, Declarations.draft] using hdeclare

theorem texture?_allotted (v : Variant) (transient : Array Texture) (claimed : Array Nat) {i : Nat}
    (hi : i < v.blueprint.permanent.length) :
    (t.allotted v transient claimed).tables.pools.texture?
      (t.allotted v transient claimed).denoiser.claims (.permanent i) =
        some v.blueprint.permanent[i] := by
  simp [allotted, Declaring.withPools, Pools.texture?, Claims.resolve, hi]

theorem Roomy.exists_addVariant (h : t.Roomy) (v : Variant)
    (hroom : t.pools.permanent.size + v.blueprint.permanent.length ≤ Pools.capacity) :
    ∃ layout t', addVariant v t = .ok layout t' ∧ t'.Roomy ∧
      t'.pools.permanent.size = t.pools.permanent.size + v.blueprint.permanent.length := by
  obtain ⟨transient, claimed, hclaimed, hcopies, hblueprint⟩ := h.exists_allotted v hroom
  -- alone the variant can be bound, so it can be bound behind others
  obtain ⟨own, hown, hbelow, hcount⟩ := v.rehearsed
  have hpairCount := h.pairCount
  have hrelocates : v.blueprint.claims.Relocates
      (t.allotted v transient claimed).denoiser.claims t.pools.permanent.size := by
    refine ⟨⟨rfl, rfl⟩, rfl, hclaimed.trans ?_⟩
    simp [Blueprint.claims]
  obtain ⟨-, hlift⟩ := hrelocates.lifts_rehearsal h.pairs v.blueprint.passes {} own hown
  have hpasses := hlift (by simp only [Pools.capacity, SwapTable.capacity] at hroom ⊢; omega)
  have hnothing : t.swaps.behind t.pools.permanent.size {} = t.swaps := by
    simp [SwapTable.behind]
  rw [hnothing] at hpasses
  have hschedule : (t.allotted v transient claimed).schedule v.blueprint.passes =
      v.blueprint.schedule :=
    schedule_withPools (t.draft v.name v.blueprint.defines v.family.sharedSize) v.blueprint
      transient claimed rfl
  obtain ⟨d, hdeclare, hd⟩ := (t.allotted v transient claimed).exists_declare rfl h.pipelines
    h.distinct Variant.consistent_catalogue Variant.catalogue_fits
    (hschedule ▸ v.schedule_subset_catalogue)
    (by
      intro slot hslot
      obtain ⟨i, hi, rfl⟩ := List.mem_map.mp hslot
      exact ⟨_, texture?_allotted v transient claimed (List.mem_range.mp hi),
        v.downsample_ne_zero _ (List.getElem_mem _)⟩) hpasses
  have hsize : d.tables.pools.permanent.size =
      t.pools.permanent.size + v.blueprint.permanent.length := by
    rw [hd.pools]
    simp [allotted, Declaring.withPools]
  have hfinish := Draft.finish_declare rfl rfl hdeclare
  unfold addVariant
  simp only [hblueprint d hdeclare, hfinish]
  refine ⟨_, _, rfl, ⟨hd.pipelines, hd.distinct, ?_, ?_, ?_⟩, hsize⟩
  · rw [hd.swaps, hsize]
    exact h.pairs.behind hbelow
  · rw [hd.swaps, hsize, SwapTable.size_behind]
    omega
  · rw [hd.pools]
    exact hcopies

end Declarations

-- The permanent textures that a list of denoisers asks for.
def permanentTotal (denoisers : List (Identifier × Variant)) : Nat :=
  (denoisers.map fun entry => entry.2.blueprint.permanent.length).sum

theorem permanentTotal_append (l₁ l₂ : List (Identifier × Variant)) :
    permanentTotal (l₁ ++ l₂) = permanentTotal l₁ + permanentTotal l₂ := by
  simp [permanentTotal]

theorem permanentTotal_concat (denoisers : List (Identifier × Variant))
    (entry : Identifier × Variant) : permanentTotal (denoisers ++ [entry]) =
      permanentTotal denoisers + entry.2.blueprint.permanent.length := by
  simp [permanentTotal]

-- Denoisers that can be declared together.
structure Declarable (denoisers : List (Identifier × Variant)) : Prop where
  nodup : (denoisers.map Prod.fst).Nodup
  room : permanentTotal denoisers ≤ 65535

-- Why a denoiser cannot follow others.
def Refuses (before : List (Identifier × Variant)) (entry : Identifier × Variant)
    (failure : Failure) : Prop :=
  entry.1 ∈ before.map Prod.fst ∧ failure = .duplicateIdentifier entry.1 ∨
    entry.1 ∉ before.map Prod.fst ∧ 65535 < permanentTotal (before ++ [entry]) ∧
      failure = .overflow .permanent

section Refuses

variable {before before' after after' denoisers : List (Identifier × Variant)}
  {entry entry' : Identifier × Variant} {failure failure' : Failure}

theorem Declarable.of_append (h : Declarable (before ++ after)) : Declarable before where
  nodup := by
    have hnodup := h.nodup
    rw [List.map_append] at hnodup
    exact hnodup.of_append_left
  room := by
    have hroom := h.room
    rw [permanentTotal_append] at hroom
    omega

theorem Refuses.not_declarable (h : Refuses before entry failure) :
    ¬Declarable (before ++ entry :: after) := by
  intro hdeclarable
  rw [← List.singleton_append, ← List.append_assoc] at hdeclarable
  have hboth : Declarable (before ++ [entry]) := hdeclarable.of_append
  rcases h with ⟨hmem, -⟩ | ⟨-, hover, -⟩
  · have hnodup := hboth.nodup
    rw [List.map_append] at hnodup
    exact List.disjoint_of_nodup_append hnodup hmem (List.mem_singleton_self _)
  · have hroom := hboth.room
    omega

theorem Refuses.failure_unique (h : Refuses before entry failure)
    (h' : Refuses before entry failure') : failure = failure' := by
  rcases h with ⟨hmem, rfl⟩ | ⟨hnew, -, rfl⟩ <;> rcases h' with ⟨hmem', rfl⟩ | ⟨hnew', -, rfl⟩
  · rfl
  · exact absurd hmem hnew'
  · exact absurd hmem' hnew
  · rfl

-- At most one denoiser of a list is refused after others that can be declared together.
theorem Refuses.split_unique (h : Refuses before entry failure)
    (h' : Refuses before' entry' failure') (hbefore : Declarable before)
    (hbefore' : Declarable before') (heq : before ++ entry :: after = before' ++ entry' :: after') :
    failure = failure' := by
  rcases List.append_eq_append_iff.mp heq with ⟨rest, rfl, hrest⟩ | ⟨rest, rfl, hrest⟩ <;>
    cases rest with
    | nil => ?_
    | cons first rest => ?_
  all_goals simp only [List.nil_append, List.cons_append, List.cons.injEq] at hrest
  · obtain ⟨rfl, -⟩ := hrest
    rw [List.append_nil] at h'
    exact h.failure_unique h'
  · obtain ⟨rfl, -⟩ := hrest
    exact absurd hbefore' h.not_declarable
  · obtain ⟨rfl, -⟩ := hrest
    rw [List.append_nil] at h
    exact h.failure_unique h'
  · obtain ⟨rfl, -⟩ := hrest
    exact absurd hbefore h'.not_declarable

end Refuses

namespace Roster

variable {r : Roster} {flipped : Nat → Bool} {done : List (Identifier × Variant)}

theorem taken_iff (r : Roster) (identifier : Identifier) :
    r.denoisers.any (·.identifier == identifier) = true ↔ identifier ∈ r.roll.map Prod.fst := by
  rw [Array.any_eq_true', roll, List.map_map, List.mem_map]
  simp

theorem Sound.nodup_roll (h : r.Sound flipped) : (r.roll.map Prod.fst).Nodup := by
  rw [roll, List.map_map, List.nodup_iff_getElem?_ne_getElem?]
  intro i j hij hj heq
  rw [List.length_map] at hj
  have hi := Nat.lt_trans hij hj
  simp only [List.getElem?_map, List.getElem?_eq_getElem hi, List.getElem?_eq_getElem hj,
    Option.map_some, Function.comp_apply, Option.some.injEq, Array.getElem_toList] at heq
  have hsame := h.distinct i j _ _ (Array.getElem?_eq_getElem hi) (Array.getElem?_eq_getElem hj) heq
  omega

-- The roster of the denoisers declared so far, with tables that take more.
structure Holds (r : Roster) (done : List (Identifier × Variant)) : Prop where
  sound : r.Sound fun _ => false
  roomy : r.tables.Roomy
  roll : r.roll = done
  size : r.tables.pools.permanent.size = permanentTotal done

theorem Holds.empty : Holds {} [] := ⟨.empty, .empty, rfl, rfl⟩

theorem Holds.declarable (h : r.Holds done) : Declarable done where
  nodup := h.roll ▸ h.sound.nodup_roll
  room := h.size ▸ h.sound.room

-- A denoiser is refused or joins the others.
theorem Holds.enlist (h : r.Holds done) (entry : Identifier × Variant) :
    (∃ failure r', Roster.enlist entry.1 entry.2 r = .error failure r' ∧
      Refuses done entry failure) ∨
    ∃ r', Roster.enlist entry.1 entry.2 r = .ok ⟨⟩ r' ∧ r'.Holds (done ++ [entry]) := by
  have htaken := r.taken_iff entry.1
  rw [h.roll] at htaken
  by_cases hmem : entry.1 ∈ done.map Prod.fst
  · refine .inl ⟨.duplicateIdentifier entry.1, r, ?_, .inl ⟨hmem, rfl⟩⟩
    simp only [Roster.enlist, if_pos (htaken.mpr hmem)]
  · have hfree := mt htaken.mp hmem
    have hsize := h.size
    have htotal := permanentTotal_concat done entry
    by_cases hover : 65535 < permanentTotal (done ++ [entry])
    · obtain ⟨tables, hadd⟩ := Declarations.addVariant_overflow entry.2 h.sound.room
        (by simp only [Pools.capacity]; omega)
      refine .inl ⟨_, ⟨tables, r.denoisers⟩, ?_, .inr ⟨hmem, hover, rfl⟩⟩
      simp only [Roster.enlist, if_neg hfree, hadd]
    · obtain ⟨layout, tables, hadd, hroomy, hgrown⟩ := h.roomy.exists_addVariant entry.2
        (by simp only [Pools.capacity]; omega)
      have henlist : Roster.enlist entry.1 entry.2 r = .ok ⟨⟩ ⟨tables, r.denoisers.push
          { identifier := entry.1, layout, variant := entry.2,
            settings := .ofFamily entry.2.family }⟩ := by
        simp only [Roster.enlist, if_neg hfree, hadd]
      refine .inr ⟨_, henlist, (enlist_ok h.sound henlist).1, hroomy, ?_, ?_⟩
      · rw [Roster.roll, Array.toList_push, List.map_append, ← h.roll]
        rfl
      · rw [hgrown, hsize, htotal]

-- The first denoiser that is refused ends the declaration.
theorem Holds.enlistAll (h : r.Holds done) (rest : List (Identifier × Variant)) :
    (∃ failure r', Roster.enlistAll rest r = .error failure r' ∧
      ∃ before entry after, rest = before ++ entry :: after ∧ Declarable (done ++ before) ∧
        Refuses (done ++ before) entry failure) ∨
    ∃ r', Roster.enlistAll rest r = .ok ⟨⟩ r' ∧ r'.Holds (done ++ rest) := by
  induction rest generalizing r done with
  | nil => exact .inr ⟨r, rfl, by simpa using h⟩
  | cons entry rest ih =>
    rcases h.enlist entry with ⟨failure, r', herror, hrefuses⟩ | ⟨r₁, hok, h₁⟩
    · refine .inl ⟨failure, r', Declaring.bind_eq_error_iff.mpr (.inl herror), [], entry, rest,
        rfl, ?_⟩
      rw [List.append_nil]
      exact ⟨h.declarable, hrefuses⟩
    · rcases ih h₁ with ⟨failure, r', herror, before, last, after, rfl, hrefused⟩ | ⟨r', hrest, h'⟩
      · refine .inl ⟨failure, r', Declaring.bind_eq_error_iff.mpr (.inr ⟨_, _, hok, herror⟩),
          entry :: before, last, after, rfl, ?_⟩
        simpa using hrefused
      · refine .inr ⟨r', Declaring.bind_eq_ok_iff.mpr ⟨_, _, hok, hrest⟩, ?_⟩
        simpa using h'

end Roster

namespace Planner

-- A declaration either stops at a denoiser that is refused or comes to its end.
theorem create_cases (denoisers : List (Identifier × Variant)) (store : ShaderStore) :
    denoisers = [] ∧ (create denoisers store).result = .error .noDenoisers ∨
    (∃ failure, (create denoisers store).result = .error failure ∧
      ∃ before entry after, denoisers = before ++ entry :: after ∧ Declarable before ∧
        Refuses before entry failure) ∨
    denoisers ≠ [] ∧ Declarable denoisers ∧
      ∃ p, (create denoisers store).result = .ok p := by
  by_cases hempty : denoisers = []
  · subst hempty
    exact .inl ⟨rfl, rfl⟩
  · have hsome : ¬denoisers.isEmpty = true := by simpa using hempty
    unfold create
    simp only [if_neg hsome]
    rcases Roster.Holds.empty.enlistAll denoisers with
      ⟨failure, r, herror, hrefused⟩ | ⟨r, hok, h⟩
    · rw [herror]
      exact .inr (.inl ⟨failure, rfl, hrefused⟩)
    · rw [hok]
      exact .inr (.inr ⟨hempty, h.declarable, _, rfl⟩)

theorem exists_create_of_declarable {denoisers : List (Identifier × Variant)}
    (h : Declarable denoisers) (hsome : denoisers ≠ []) (store : ShaderStore) :
    ∃ p, (create denoisers store).result = .ok p := by
  rcases create_cases denoisers store with ⟨hempty, -⟩ |
    ⟨failure, -, before, entry, after, rfl, -, hrefuses⟩ | ⟨-, -, hcreate⟩
  · exact absurd hempty hsome
  · exact absurd h hrefuses.not_declarable
  · exact hcreate

-- Creation fails without denoisers, and else for the first denoiser that repeats an identifier
-- or finds no room for its permanent textures. Nothing else can go wrong.
theorem create_decides (denoisers : List (Identifier × Variant)) (store : ShaderStore) :
    (∀ failure, (create denoisers store).result = .error failure ↔
      denoisers = [] ∧ failure = .noDenoisers ∨
      ∃ before entry after, denoisers = before ++ entry :: after ∧ Declarable before ∧
        Refuses before entry failure) ∧
    ((∃ p, (create denoisers store).result = .ok p) ↔ denoisers ≠ [] ∧ Declarable denoisers) ∧
    ∀ failure, (create denoisers store).result = .error failure →
      failure = .noDenoisers ∨ (∃ identifier, failure = .duplicateIdentifier identifier) ∨
        failure = .overflow .permanent := by
  rcases create_cases denoisers store with ⟨rfl, hresult⟩ |
    ⟨failure, hresult, before, entry, after, rfl, hbefore, hrefuses⟩ |
    ⟨hsome, hdeclarable, p, hresult⟩ <;>
    simp only [hresult, Except.error.injEq, reduceCtorEq]
  · refine ⟨fun failure => ?_, by simp, fun failure h => .inl h.symm⟩
    simp [eq_comm]
  · refine ⟨fun failure' => ⟨?_, ?_⟩, ?_, ?_⟩
    · rintro rfl
      exact .inr ⟨before, entry, after, rfl, hbefore, hrefuses⟩
    · rintro (⟨hempty, -⟩ | ⟨before', entry', after', heq, hbefore', hrefuses'⟩)
      · simp at hempty
      · exact hrefuses.split_unique hrefuses' hbefore hbefore' heq
    · simp [hrefuses.not_declarable]
    · rintro _ rfl
      rcases hrefuses with ⟨-, rfl⟩ | ⟨-, -, rfl⟩
      · exact .inr (.inl ⟨entry.1, rfl⟩)
      · exact .inr (.inr rfl)
  · refine ⟨fun failure => ?_, by simp [hsome, hdeclarable], by simp⟩
    simp only [hsome, false_and, false_or, false_iff]
    rintro ⟨before, entry, after, rfl, -, hrefuses⟩
    exact hrefuses.not_declarable hdeclarable

end Planner

end DenoisePlanner
