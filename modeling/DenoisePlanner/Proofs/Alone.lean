import DenoisePlanner.Proofs.Identifier
import DenoisePlanner.Proofs.Reachable
import DenoisePlanner.Proofs.Translation

namespace DenoisePlanner

-- The claims of the first denoiser, who has to share nothing.
def Blueprint.claims (b : Blueprint) : Claims where
  base := 0
  permanentCount := b.permanent.length
  transient := .range b.transient.length

-- The pools of a denoiser who stays alone.
def Blueprint.pools (b : Blueprint) : Pools where
  permanent := b.permanent.toArray
  transient := b.transient.toArray

namespace Declaring

variable {d : Draft}

theorem exists_addPermanent (hroom : d.tables.pools.permanent.size < Pools.capacity)
    (texture : Texture) :
    ∃ slot, addPermanent texture d = .ok slot (withPools d
      { d.tables.pools with permanent := d.tables.pools.permanent.push texture }
      { d.denoiser.claims with permanentCount := d.denoiser.claims.permanentCount + 1 }) := by
  refine ⟨.permanent d.denoiser.claims.permanentCount, onPools_eq_ok ?_⟩
  simp only [Allotting.addPermanent, bind_eq_ok_iff, get_eq_ok_iff, guard_eq_ok_iff]
  exact ⟨_, _, ⟨rfl, rfl⟩, Nat.not_le_of_lt hroom, rfl⟩

-- A denoiser who has claimed the whole pool gets a new texture.
theorem exists_addTransient
    (hclaimed : d.denoiser.claims.transient = .range d.tables.pools.transient.size)
    (hroom : d.tables.pools.transient.size < Pools.capacity) (texture : Texture) :
    ∃ slot, addTransient texture d = .ok slot (withPools d
      { d.tables.pools with transient := d.tables.pools.transient.push texture }
      { d.denoiser.claims with transient := .range (d.tables.pools.transient.size + 1) }) := by
  have hreuse : d.tables.pools.firstReusable d.denoiser.claims texture = none := by
    refine List.find?_eq_none.mpr fun i hi => ?_
    simpa [Pools.reusable, hclaimed] using fun _ => List.mem_range.mp hi
  refine ⟨.transient d.denoiser.claims.transient.size, onPools_eq_ok ?_⟩
  simp only [Allotting.addTransient, bind_eq_ok_iff, get_eq_ok_iff]
  refine ⟨_, _, ⟨rfl, rfl⟩, ?_⟩
  simp only [hreuse, guard_eq_ok_iff, bind_eq_ok_iff, modify_eq_ok_iff]
  refine ⟨Nat.not_le_of_lt hroom, ⟨⟩, _, rfl, ?_⟩
  simp only [Allotting.claimTransient, modifyGet_eq_ok_iff, hclaimed, Array.range_succ,
    Array.push_eq_append]

theorem exists_forM_addPermanent (textures : List Texture)
    (hroom : d.tables.pools.permanent.size + textures.length ≤ Pools.capacity) :
    textures.forM (fun t => discard (addPermanent t)) d = .ok ⟨⟩ (withPools d
      { d.tables.pools with permanent := d.tables.pools.permanent ++ textures.toArray }
      { d.denoiser.claims with
        permanentCount := d.denoiser.claims.permanentCount + textures.length }) := by
  induction textures generalizing d with
  | nil => simp [withPools, pure_eq_ok_iff]
  | cons texture textures ih =>
    rw [List.length_cons] at hroom
    obtain ⟨slot, hadd⟩ := exists_addPermanent (d := d) (by omega) texture
    have hrest := ih (d := withPools d
      { d.tables.pools with permanent := d.tables.pools.permanent.push texture }
      { d.denoiser.claims with permanentCount := d.denoiser.claims.permanentCount + 1 })
      (by simp only [withPools, Array.size_push]; omega)
    refine bind_eq_ok_iff.mpr ⟨⟨⟩, _, discard_eq_ok_iff.mpr ⟨slot, hadd⟩, hrest.trans ?_⟩
    simp [withPools, Nat.add_assoc, Nat.add_comm 1]

theorem exists_forM_addTransient (textures : List Texture)
    (hclaimed : d.denoiser.claims.transient = .range d.tables.pools.transient.size)
    (hroom : d.tables.pools.transient.size + textures.length ≤ Pools.capacity) :
    textures.forM (fun t => discard (addTransient t)) d = .ok ⟨⟩ (withPools d
      { d.tables.pools with transient := d.tables.pools.transient ++ textures.toArray }
      { d.denoiser.claims with
        transient := .range (d.tables.pools.transient.size + textures.length) }) := by
  induction textures generalizing d with
  | nil => simp [withPools, pure_eq_ok_iff, ← hclaimed]
  | cons texture textures ih =>
    rw [List.length_cons] at hroom
    obtain ⟨slot, hadd⟩ := exists_addTransient (d := d) hclaimed (by omega) texture
    have hrest := ih (d := withPools d
      { d.tables.pools with transient := d.tables.pools.transient.push texture }
      { d.denoiser.claims with transient := .range (d.tables.pools.transient.size + 1) })
      (by simp [withPools]) (by simp only [withPools, Array.size_push]; omega)
    refine bind_eq_ok_iff.mpr ⟨⟨⟩, _, discard_eq_ok_iff.mpr ⟨slot, hadd⟩, hrest.trans ?_⟩
    simp [withPools, Nat.add_assoc, Nat.add_comm 1]

end Declaring

-- Two passes with one shader differ in nothing that the shader knows of.
def ScheduledPass.Agrees (e e' : ScheduledPass) : Prop :=
  e.pass.conditions = e'.pass.conditions ∧ e.defines = e'.defines ∧
    ∀ s ∈ Specialization.all e.pass.conditions, e.layout s = e'.layout s

instance (e e' : ScheduledPass) : Decidable (e.Agrees e') :=
  inferInstanceAs (Decidable (_ ∧ _ ∧ _))

namespace Variant

theorem agrees (v : Variant) : ∀ e ∈ v.blueprint.schedule, e.pass.conditions.Nodup ∧
    ∀ e' ∈ v.blueprint.schedule, e.pass.shader = e'.pass.shader → e.Agrees e' := by
  cases v <;> decide +kernel

theorem consistent (v : Variant) : ScheduledPass.Consistent v.blueprint.schedule := by
  intro e he e' he' s hs s' hs' hidentifier
  have hkey : e.key s = e'.key s' := ScheduledPass.key_inj he he' hidentifier
  obtain ⟨hnodup, hagrees⟩ := v.agrees e he
  obtain ⟨hconditions, hdefines, hlayout⟩ := hagrees e' he' (congrArg ShaderKey.name hkey)
  have happend : e.defines ++ s.defines = e'.defines ++ s'.defines :=
    congrArg ShaderKey.defines hkey
  rw [← hdefines] at happend
  obtain rfl : s = s' :=
    Specialization.defines_inj hnodup hs (hconditions ▸ hs') (List.append_cancel_left happend)
  exact hlayout s hs

-- By itself, every variant can be bound. Its pairs are of textures of its own, and no two of them
-- share one.
theorem rehearsed (v : Variant) : ∃ swaps,
    v.blueprint.passes.foldlM v.blueprint.claims.rehearsePass {} = some swaps ∧
      swaps.Below v.blueprint.permanent.length ∧
      2 * swaps.size ≤ v.blueprint.permanent.length := by
  have h : (v.blueprint.passes.foldlM v.blueprint.claims.rehearsePass {}).any (fun swaps =>
      swaps.pairs.all (fun p => p.first < v.blueprint.permanent.length &&
        p.second < v.blueprint.permanent.length) &&
        decide (2 * swaps.size ≤ v.blueprint.permanent.length)) = true := by
    cases v <;> decide +kernel
  cases hswaps : v.blueprint.passes.foldlM v.blueprint.claims.rehearsePass {} with
  | none => simp [hswaps] at h
  | some swaps =>
    simp only [hswaps, Option.any_some, Bool.and_eq_true, Array.all_eq_true', decide_eq_true_eq] at h
    exact ⟨swaps, rfl, h.1, h.2⟩

-- The textures and dispatches of one variant are far from filling the tables.
theorem fits (v : Variant) : v.blueprint.permanent.length ≤ Pools.capacity ∧
    v.blueprint.transient.length ≤ Pools.capacity ∧
    ScheduledPass.dispatchCount v.blueprint.schedule < PipelineTable.capacity := by
  cases v <;> decide +kernel

theorem downsample_ne_zero (v : Variant) : ∀ t ∈ v.blueprint.permanent, t.downsample ≠ 0 := by
  cases v <;> decide +kernel

end Variant

-- A draft in which the textures of a blueprint have been allotted, and nothing else.
def Blueprint.start (b : Blueprint) (name : String) (sharedSize : Nat) : Draft :=
  Declaring.withPools (Declarations.draft {} name b.defines sharedSize) b.pools b.claims

namespace Blueprint

variable {b : Blueprint} {name : String} {sharedSize : Nat}

theorem declareBlueprint_start {d : Draft} (hpermanent : b.permanent.length ≤ Pools.capacity)
    (htransient : b.transient.length ≤ Pools.capacity)
    (h : Declaring.declare b.passes (b.start name sharedSize) = .ok ⟨⟩ d) :
    Declaring.declareBlueprint b (Declarations.draft {} name b.defines sharedSize) =
      .ok ⟨⟩ d := by
  have hfirst := Declaring.exists_forM_addPermanent b.permanent
    (d := Declarations.draft {} name b.defines sharedSize)
    (by simpa [Declarations.draft] using hpermanent)
  have hsecond := Declaring.exists_forM_addTransient b.transient
    (d := Declaring.withPools (Declarations.draft {} name b.defines sharedSize)
      ⟨b.permanent.toArray, #[]⟩ ⟨0, b.permanent.length, #[]⟩)
    (by simp [Declaring.withPools]) (by simpa [Declaring.withPools] using htransient)
  simp only [Declaring.declareBlueprint, Declaring.bind_eq_ok_iff]
  refine ⟨⟨⟩, _, hfirst, ⟨⟩, b.start name sharedSize, ?_, h⟩
  simpa [start, Declarations.draft, Declaring.withPools, Pools.claims, claims, pools] using hsecond

theorem schedule_start : (b.start name sharedSize).schedule b.passes = b.schedule := by
  have h := Declarations.schedule_withPools (Declarations.draft {} name b.defines sharedSize) b
    b.transient.toArray (.range b.transient.length) rfl
  simpa [start, Declarations.draft, pools, claims] using h

theorem texture?_start {i : Nat} (hi : i < b.permanent.length) :
    b.pools.texture? b.claims (.permanent i) = some b.permanent[i] := by
  simp [Pools.texture?, Claims.resolve, claims, pools, hi]

end Blueprint

-- Every variant can be declared where nothing has been declared before.
theorem Declarations.exists_addVariant (v : Variant) :
    ∃ layout tables, addVariant v {} = .ok layout tables ∧
      layout.claims = v.blueprint.claims ∧ tables.pools = v.blueprint.pools := by
  obtain ⟨hpermanent, htransient, hcount⟩ := v.fits
  obtain ⟨swaps, hswaps, -⟩ := v.rehearsed
  have hschedule : (v.blueprint.start v.name v.family.sharedSize).schedule v.blueprint.passes ⊆
      v.blueprint.schedule := by
    rw [Blueprint.schedule_start]
    exact fun _ he => he
  obtain ⟨d, hdeclare, -⟩ := Draft.exists_declare
    (v.blueprint.start v.name v.family.sharedSize) rfl
    (fun _ hp => absurd hp (Array.not_mem_empty _)) List.nodup_nil v.consistent hcount hschedule
    (by
      intro slot hslot
      obtain ⟨i, hi, rfl⟩ := List.mem_map.mp hslot
      exact ⟨_, Blueprint.texture?_start (List.mem_range.mp hi),
        v.downsample_ne_zero _ (List.getElem_mem _)⟩) hswaps
  have hallot := Blueprint.declareBlueprint_start hpermanent htransient hdeclare
  have hfinish := Draft.finish_declare rfl rfl hdeclare
  have hpools := (Draft.declare_ok rfl hdeclare).1.extends_tables.pools
  unfold addVariant
  simp only [hallot, hfinish]
  exact ⟨_, _, rfl, rfl, hpools⟩

-- So there is a planner for every variant on its own.
theorem Planner.exists_create (identifier : Identifier) (v : Variant) (store : ShaderStore) :
    ∃ q e, (create [(identifier, v)] store).result = .ok q ∧ q.denoisers = #[e] ∧
      e.layout.claims = v.blueprint.claims ∧
      q.inventory.transient.size = v.blueprint.transient.length := by
  obtain ⟨layout, tables, hadd, hclaims, hpools⟩ := Declarations.exists_addVariant v
  let e : DenoiserState := { identifier, layout, variant := v, settings := .ofFamily v.family }
  have henlist : Roster.enlist identifier v {} = .ok ⟨⟩ ⟨tables, #[e]⟩ := by
    unfold Roster.enlist
    simp [hadd, e]
  have hall : Roster.enlistAll [(identifier, v)] {} = .ok ⟨⟩ ⟨tables, #[e]⟩ :=
    Declaring.bind_eq_ok_iff.mpr ⟨⟨⟩, _, henlist, rfl⟩
  refine ⟨{ tables, inventory := tables.inventory store, denoisers := #[e] }, e, ?_, rfl, hclaims, ?_⟩
  · unfold create
    simp only [hall]
    rfl
  · simp [Declarations.inventory, hpools, Blueprint.pools]

end DenoisePlanner
