import DenoisePlanner.Proofs.Outline
import Mathlib.Data.List.Perm.Subperm

namespace DenoisePlanner

-- An allocator that refuses nothing.
def MemoryPolicy.Grants (policy : MemoryPolicy) : Prop := ∀ size, policy size = true

theorem MemoryPolicy.Grants.unlimited : (atMost none).Grants := fun _ => rfl

namespace ScratchBuffer

theorem powerOfTwo_le {n k : Nat} (h : n ≤ 1 <<< k) : powerOfTwo n ≤ 1 <<< k := by
  unfold powerOfTwo
  simp only [Nat.one_shiftLeft] at h ⊢
  split
  · exact Nat.one_le_two_pow
  · have hlog : (n - 1).log2 < k := (Nat.log2_lt (by omega)).mpr (by omega)
    exact Nat.pow_le_pow_right (by decide) hlog

-- Up to here the buffer can grow.
def limit : Nat := 1 <<< 62

theorem exists_grownCapacity {required : Nat} (h : required ≤ limit) :
    ∃ size, grownCapacity required = .ok size := by
  have hsize : powerOfTwo required ≤ 1 <<< 62 := powerOfTwo_le h
  have hpower : ¬maxPowerOfTwo < powerOfTwo required := by
    simp only [maxPowerOfTwo]
    omega
  have hlayout : ¬maxLayoutSize < max (powerOfTwo required) minCapacity := by
    simp only [maxLayoutSize, alignment, minCapacity]
    omega
  exact ⟨_, by rw [grownCapacity, if_neg hpower, if_neg hlayout]⟩

variable {b : ScratchBuffer} {policy : MemoryPolicy}

theorem reserve_result (hgrants : policy.Grants) {required : Nat} (h : required ≤ limit) :
    (b.reserve policy required).result = .ok () := by
  obtain ⟨size, hsize⟩ := exists_grownCapacity h
  unfold reserve
  split
  · rfl
  · simp only [hsize, hgrants size, if_true]

theorem exists_push (hgrants : policy.Grants) {chunks : List ByteArray}
    (h : b.length + alignment + (join chunks).size ≤ limit) :
    ∃ place, (b.push policy chunks).result = .ok place ∧
      (b.push policy chunks).buffer.length ≤ b.length + alignment + (join chunks).size := by
  have halign := alignUp_lt b.length
  unfold push
  dsimp only
  split
  · exact ⟨_, rfl, by dsimp only; omega⟩
  · have hroom : (b.reserve policy (alignUp b.length + (join chunks).size)).result = .ok () :=
      reserve_result hgrants (by omega)
    obtain ⟨capacity, hbuffer⟩ := reserve_buffer b policy (alignUp b.length + (join chunks).size)
    simp only [hroom, hbuffer, store]
    exact ⟨_, rfl, by omega⟩

-- Blocks of bounded size find room as long as their number is bounded as well.
theorem exists_pushAll (hgrants : policy.Grants) {blocks : List (List ByteArray)} {bound : Nat}
    (hblocks : ∀ block ∈ blocks, (join block).size ≤ bound)
    (h : b.length + blocks.length * (alignment + bound) ≤ limit) :
    ∃ places, (b.pushAll policy blocks).result = .ok places ∧
      (b.pushAll policy blocks).buffer.length ≤
        b.length + blocks.length * (alignment + bound) := by
  induction blocks generalizing b with
  | nil => exact ⟨[], rfl, by simp [pushAll]⟩
  | cons block blocks ih =>
    have hblock := hblocks block List.mem_cons_self
    rw [List.length_cons, Nat.succ_mul] at h ⊢
    have hfits : b.length + alignment + (join block).size ≤ limit := by omega
    obtain ⟨place, hplace, hlength⟩ := exists_push hgrants hfits
    obtain ⟨places, hplaces, hlength'⟩ := ih (b := (b.push policy block).buffer)
      (fun x hx => hblocks x (List.mem_cons_of_mem _ hx)) (by omega)
    rw [pushAll_cons_of_ok hplace]
    exact ⟨place :: places, by simp only [hplaces, Except.map], by dsimp only; omega⟩

end ScratchBuffer

-- More than a denoiser ever dispatches in a frame.
def DenoiserState.maxDispatches : Nat := 256

-- More than the constants of any dispatch.
def DenoiserState.maxBlock : Nat := 1008

namespace Emission

theorem length_ofPass_le {α : Type} (stage : α → Stage) (passes : List α) (switches : Switches)
    (pass : α) : (ofPass stage passes switches pass).length ≤ 8 := by
  unfold ofPass
  split
  · exact Nat.zero_le _
  · exact Nat.zero_le _
  · refine Nat.le_trans (List.length_filterMap_le _ _) ?_
    rw [List.length_range]
    exact switches.atrousCount_le
  · split
    · exact Nat.le_of_ble_eq_true rfl
    · exact Nat.zero_le _

theorem length_all_le {α : Type} (stage : α → Stage) (passes : List α) (switches : Switches) :
    (all stage passes switches).length ≤ 8 * passes.length + 1 := by
  unfold all
  split
  · have hone : (passthrough stage passes).length ≤ 1 := Option.length_toList_le
    omega
  · suffices ∀ l : List α, (l.flatMap (ofPass stage passes switches)).length ≤ 8 * l.length from
      Nat.le_succ_of_le (this passes)
    intro l
    induction l with
    | nil => exact Nat.le_refl _
    | cons pass l ih =>
      have hpass := length_ofPass_le stage passes switches pass
      rw [List.flatMap_cons, List.length_append, List.length_cons]
      omega

end Emission

theorem Variant.length_schedule_le (v : Variant) : v.blueprint.schedule.length ≤ 31 := by
  cases v <;> decide

namespace DenoiserState

variable (d : DenoiserState) (s : FrameSettings)

theorem length_emissions_le : (d.emissions s).length ≤ maxDispatches := by
  have hall := Emission.length_all_le ScheduledPass.stage d.variant.blueprint.schedule
    (d.switches s)
  have hschedule := d.variant.length_schedule_le
  simp only [emissions, maxDispatches]
  omega

theorem size_sharedBytes : (d.sharedBytes s).size = d.settings.family.sharedSize := by
  rw [sharedBytes, List.size_toByteArray, length_rowBytes, SharedConstants.rows,
    List.length_append, FrameConstants.length_rows, shared,
    FamilyConstants.length_rows_ofSettings]
  rfl

theorem size_constants (store : ShaderStore) (flipped : Bool) (em : Emission ScheduledPass) :
    (d.outline s store flipped em).constants.size =
      if em.pass.pass.data.hasShared then
        d.settings.family.sharedSize + em.pass.pass.data.extraSize else 0 := by
  have hshared := d.size_sharedBytes s
  simp only [outline]
  cases em.pass.pass.data <;>
    simp only [PassData.chunks, ScratchBuffer.join, List.foldl_cons, List.foldl_nil,
      ByteArray.size_append, List.size_toByteArray, Row.length_bytes, ByteArray.size_empty,
      PassData.hasShared, PassData.extraSize, hshared, Nat.zero_add, if_true] <;>
    rfl

theorem size_constants_le (store : ShaderStore) (flipped : Bool) (em : Emission ScheduledPass) :
    (d.outline s store flipped em).constants.size ≤ maxBlock := by
  have hshared : d.settings.family.sharedSize ≤ 656 := by
    cases d.settings.family <;> decide
  have hextra : em.pass.pass.data.extraSize ≤ 16 := by
    cases em.pass.pass.data <;> simp [PassData.extraSize]
  rw [size_constants, maxBlock]
  split <;> omega

end DenoiserState

namespace Planner

variable {p : Planner} {store : ShaderStore} {flipped : Nat → Bool} {policy : MemoryPolicy}

-- The room that a denoiser needs at most.
def maxShare : Nat := DenoiserState.maxDispatches * (ScratchBuffer.alignment + DenoiserState.maxBlock)

theorem Sound.plan_fits (h : p.Sound store flipped) {i : Nat} {d : DenoiserState}
    (hi : p.denoisers[i]? = some d) :
    (p.plan d).dispatches.length ≤ DenoiserState.maxDispatches ∧
      ∀ block ∈ (p.plan d).dispatches.map (·.constants),
        (ScratchBuffer.join block).size ≤ DenoiserState.maxBlock := by
  have hplan := h.map_sketch_plan hi
  constructor
  · have hlength := congrArg List.length hplan
    rw [List.length_map, List.length_map] at hlength
    rw [hlength]
    exact d.length_emissions_le p.settings
  · intro block hblock
    obtain ⟨planned, hplanned, rfl⟩ := List.mem_map.mp hblock
    have hsketch : p.sketch d.identifier planned ∈
        (d.emissions p.settings).map (d.outline p.settings store (flipped i)) :=
      hplan ▸ List.mem_map_of_mem hplanned
    obtain ⟨em, -, hem⟩ := List.mem_map.mp hsketch
    have hconstants : (ScratchBuffer.join planned.constants) =
        (d.outline p.settings store (flipped i) em).constants := by rw [hem]; rfl
    rw [hconstants]
    exact d.size_constants_le p.settings store (flipped i) em

theorem Sound.exists_runDenoiser (h : p.Sound store flipped) (hgrants : policy.Grants) {i : Nat}
    {d : DenoiserState} (hi : p.denoisers[i]? = some d)
    (hroom : p.scratch.length + maxShare ≤ ScratchBuffer.limit) :
    ∃ placed, (p.runDenoiser policy i d).result = .ok placed ∧
      (p.runDenoiser policy i d).planner.scratch.length ≤ p.scratch.length + maxShare := by
  obtain ⟨hcount, hblocks⟩ := h.plan_fits hi
  have hshare : ((p.plan d).dispatches.map (·.constants)).length *
      (ScratchBuffer.alignment + DenoiserState.maxBlock) ≤ maxShare := by
    rw [List.length_map]
    exact Nat.mul_le_mul_right _ hcount
  obtain ⟨places, hplaces, hlength⟩ := ScratchBuffer.exists_pushAll (b := p.scratch) hgrants hblocks
    (by omega)
  unfold Planner.runDenoiser
  simp only [hplaces, scratch_advance]
  exact ⟨_, rfl, by omega⟩

theorem Sound.exists_runAll (h : p.Sound store flipped) (hgrants : policy.Grants)
    {positions : List Nat}
    (hroom : p.scratch.length + positions.length * maxShare ≤ ScratchBuffer.limit) :
    ∃ plans, (p.runAll policy positions).result = .ok plans := by
  induction positions generalizing p flipped with
  | nil => exact ⟨[], rfl⟩
  | cons i rest ih =>
    rw [List.length_cons, Nat.succ_mul] at hroom
    cases hi : p.denoisers[i]? with
    | none =>
      rw [runAll_cons_of_none hi]
      exact ih h (by omega)
    | some d =>
      obtain ⟨placed, hplaced, hlength⟩ := h.exists_runDenoiser hgrants hi (by omega)
      obtain ⟨flipped', h'⟩ := h.runDenoiser policy hi
      obtain ⟨plans, hplans⟩ := ih h' (by omega)
      rw [runAll_cons_of_ok hi hplaced]
      exact ⟨placed :: plans, by simp only [hplans, Except.map]⟩

-- A frame for known and distinct denoisers does not fail for want of memory.
theorem Sound.exists_frame (h : p.Sound store flipped) (hgrants : policy.Grants)
    {identifiers : List Identifier} {positions : List Nat}
    (hpositions : p.positions [] identifiers = .ok positions) :
    ∃ frame, (p.frame policy identifiers).result = .ok frame := by
  obtain ⟨members, hmembers, rfl, -, -⟩ := positions_ok hpositions
  have hcount : (members.map Prod.fst).length ≤ p.denoisers.size := by
    have hsubset : members.map Prod.fst ⊆ List.range p.denoisers.size := by
      intro i hi
      obtain ⟨m, hm, rfl⟩ := List.mem_map.mp hi
      exact List.mem_range.mpr (Array.getElem?_eq_some_iff.mp (hmembers.1 m hm)).1
    simpa using (hmembers.2.subperm hsubset).length_le
  have hsize : p.denoisers.size ≤ 65535 := Nat.le_trans h.roster.count h.roster.room
  have hroom : 0 + (members.map Prod.fst).length * maxShare ≤ ScratchBuffer.limit := by
    rw [Nat.zero_add]
    exact Nat.le_trans (Nat.mul_le_mul_right _ (Nat.le_trans hcount hsize)) (by decide)
  obtain ⟨plans, hplans⟩ := (h.withScratch p.scratch.clear).exists_runAll hgrants hroom
  unfold Planner.frame
  simp only [hpositions, hplans, Except.map]
  exact ⟨_, rfl⟩

def shadowAndReference : List (Identifier × Variant) := [(⟨7⟩, .sigmaShadow), (⟨3⟩, .reference)]

-- A small planner, and a frame in which the second denoiser goes first.
theorem exists_frame_shadowAndReference :
    ∃ p frame, (create shadowAndReference fun _ _ => none).result = .ok p ∧
      (p.frame (.atMost none) [⟨3⟩, ⟨7⟩]).result = .ok frame := by
  have hcreate : (create shadowAndReference fun _ _ => none).result.toOption.map
      (fun p => (p.positions [] [⟨3⟩, ⟨7⟩]).toOption) = some (some [1, 0]) := by decide +kernel
  cases hresult : (create shadowAndReference fun _ _ => none).result with
  | error e => simp [hresult, Except.toOption] at hcreate
  | ok p =>
    have hpositions : p.positions [] [⟨3⟩, ⟨7⟩] = .ok [1, 0] := by
      cases h : p.positions [] [⟨3⟩, ⟨7⟩] <;> simp_all [Except.toOption]
    obtain ⟨frame, hframe⟩ := (create_ok hresult).1.exists_frame .unlimited hpositions
    exact ⟨p, frame, rfl, hframe⟩

end Planner

end DenoisePlanner
