import DenoisePlanner.Proofs.Clearing
import DenoisePlanner.Proofs.Rejection
import DenoisePlanner.Proofs.Reset
import DenoisePlanner.Proofs.Tiling
import Mathlib.Algebra.Order.Floor.Div

namespace DenoisePlanner

-- Arithmetic on 32 bits that stops where it would divide by zero or wrap.
namespace Checked

def div (a b : UInt32) : Option UInt32 := if b = 0 then none else some (a / b)

def mod (a b : UInt32) : Option UInt32 := if b = 0 then none else some (a % b)

def add (a b : UInt32) : Option UInt32 :=
  if 2 ^ 32 ≤ a.toNat + b.toNat then none else some (a + b)

def sub (a b : UInt32) : Option UInt32 := if a.toNat < b.toNat then none else some (a - b)

end Checked

namespace Extent

section Division

variable {a b : UInt32}

-- The quotient rounded up, each of its steps checked.
def ceilDiv? (a b : UInt32) : Option UInt32 := do
  let rest ← Checked.mod a b
  let quotient ← Checked.div a b
  Checked.add quotient (if rest = 0 then 0 else 1)

-- A quotient that leaves a rest is at most half as long as a 32-bit number can be.
theorem quotient_add_carry_lt (hb : b ≠ 0) :
    (a / b).toNat + (if a % b = 0 then 0 else 1 : UInt32).toNat < 2 ^ 32 := by
  have hlt : a.toNat < 2 ^ 32 := a.toNat_lt
  split
  · have hquotient : a.toNat / b.toNat ≤ a.toNat := Nat.div_le_self ..
    simp only [UInt32.toNat_div, UInt32.toNat_zero]
    omega
  · next hrest =>
    have hpos : b.toNat ≠ 0 := fun h => hb (UInt32.toNat.inj h)
    have hne : b.toNat ≠ 1 := by
      intro hone
      exact hrest (UInt32.toNat.inj (by rw [UInt32.toNat_mod, hone, Nat.mod_one]; rfl))
    have hquotient : a.toNat / b.toNat ≤ a.toNat / 2 := Nat.div_le_div_left (by omega) (by omega)
    simp only [UInt32.toNat_div, UInt32.toNat_one]
    omega

theorem ceilDiv?_eq (hb : b ≠ 0) : ceilDiv? a b = some (ceilDiv a b) := by
  simp only [ceilDiv?, Checked.mod, Checked.div, Checked.add, if_neg hb, Option.bind_eq_bind,
    Option.bind_some, if_neg (Nat.not_le_of_lt (quotient_add_carry_lt hb)), ceilDiv]

theorem toNat_ceilDiv (hb : b ≠ 0) :
    (ceilDiv a b).toNat = a.toNat / b.toNat + if a.toNat % b.toNat = 0 then 0 else 1 := by
  have hrest : a % b = 0 ↔ a.toNat % b.toNat = 0 := by
    rw [← UInt32.toNat_inj, UInt32.toNat_mod, UInt32.toNat_zero]
  rw [ceilDiv, UInt32.toNat_add, Nat.mod_eq_of_lt (quotient_add_carry_lt hb), UInt32.toNat_div,
    apply_ite UInt32.toNat, if_congr hrest rfl rfl]
  rfl

-- It is the lower adjoint of multiplication, so that two of them are one.
theorem toNat_ceilDiv_le_iff (hb : b ≠ 0) (g : Nat) :
    (ceilDiv a b).toNat ≤ g ↔ a.toNat ≤ g * b.toNat := by
  have hpos : 0 < b.toNat := Nat.pos_of_ne_zero fun h => hb (UInt32.toNat.inj h)
  rw [toNat_ceilDiv hb]
  split
  · next hrest =>
    have hdvd : b.toNat ∣ a.toNat := Nat.dvd_of_mod_eq_zero hrest
    calc a.toNat / b.toNat + 0 ≤ g
      _ ↔ a.toNat / b.toNat * b.toNat ≤ g * b.toNat := (Nat.mul_le_mul_right_iff hpos).symm
      _ ↔ a.toNat ≤ g * b.toNat := by rw [Nat.div_mul_cancel hdvd]
  · next hrest =>
    have hne : a.toNat ≠ g * b.toNat := fun h => hrest (by rw [h, Nat.mul_mod_left])
    calc a.toNat / b.toNat + 1 ≤ g
      _ ↔ a.toNat < g * b.toNat := Nat.div_lt_iff_lt_mul hpos
      _ ↔ a.toNat ≤ g * b.toNat := by omega

end Division

-- The thread groups, each step checked.
def groups? (extent : Extent) (downsample : UInt16) (threads : Extent) : Option Extent := do
  let width ← ceilDiv? extent.x downsample.toUInt32
  let height ← ceilDiv? extent.y downsample.toUInt32
  let x ← ceilDiv? width threads.x
  let y ← ceilDiv? height threads.y
  return ⟨x, y⟩

-- The thread groups reach the far ends of an area, and would not with one group less. Each thread
-- answers for as many texels a side as the downsampling says.
structure Covers (grid threads : Extent) (downsample : UInt16) (area : Extent) : Prop where
  x : IsLeast {g : Nat | area.x.toNat ≤ g * threads.x.toNat * downsample.toNat} grid.x.toNat
  y : IsLeast {g : Nat | area.y.toNat ≤ g * threads.y.toNat * downsample.toNat} grid.y.toNat

-- The same of a pooled texture, with a thread for each of its texels.
structure Fills (grid threads : Extent) (texture : Texture) (resource : Extent) : Prop where
  x : IsLeast {g : Nat | resource.x.toNat ⌈/⌉ texture.downsample.toNat ≤ g * threads.x.toNat}
    grid.x.toNat
  y : IsLeast {g : Nat | resource.y.toNat ⌈/⌉ texture.downsample.toNat ≤ g * threads.y.toNat}
    grid.y.toNat

variable {extent threads grid area : Extent} {downsample : UInt16}

theorem toUInt32_ne_zero (h : downsample ≠ 0) : downsample.toUInt32 ≠ 0 := by
  intro hzero
  have htoNat := congrArg UInt32.toNat hzero
  rw [UInt16.toNat_toUInt32] at htoNat
  exact h (UInt16.toNat.inj htoNat)

theorem groups?_eq (hdownsample : downsample ≠ 0) (hx : threads.x ≠ 0) (hy : threads.y ≠ 0) :
    groups? extent downsample threads = some (groups extent downsample threads) := by
  have hdownsample := toUInt32_ne_zero hdownsample
  simp only [groups?, ceilDiv?_eq hdownsample, ceilDiv?_eq hx, ceilDiv?_eq hy, Option.bind_eq_bind,
    Option.bind_some, Option.pure_def, groups]

theorem isLeast_ceilDiv {a t : UInt32} (hdownsample : downsample ≠ 0) (ht : t ≠ 0) :
    IsLeast {g : Nat | a.toNat ≤ g * t.toNat * downsample.toNat}
      (ceilDiv (ceilDiv a downsample.toUInt32) t).toNat := by
  have hadjoint (g : Nat) : (ceilDiv (ceilDiv a downsample.toUInt32) t).toNat ≤ g ↔
      a.toNat ≤ g * t.toNat * downsample.toNat := by
    rw [toNat_ceilDiv_le_iff ht, toNat_ceilDiv_le_iff (toUInt32_ne_zero hdownsample),
      UInt16.toNat_toUInt32]
  exact ⟨(hadjoint _).mp (Nat.le_refl _), fun g hg => (hadjoint g).mpr hg⟩

theorem covers_groups (hdownsample : downsample ≠ 0) (hx : threads.x ≠ 0) (hy : threads.y ≠ 0) :
    (groups extent downsample threads).Covers threads downsample extent :=
  ⟨isLeast_ceilDiv hdownsample hx, isLeast_ceilDiv hdownsample hy⟩

-- To reach the far end of a downsampled texture is to reach that of the resource.
theorem Covers.fills {texture : Texture} (h : grid.Covers threads texture.downsample area)
    (hdownsample : texture.downsample ≠ 0) : grid.Fills threads texture area := by
  have hpos : 0 < texture.downsample.toNat :=
    Nat.pos_of_ne_zero fun hzero => hdownsample (UInt16.toNat.inj hzero)
  have hside (n t : UInt32) :
      {g : Nat | n.toNat ⌈/⌉ texture.downsample.toNat ≤ g * t.toNat} =
        {g : Nat | n.toNat ≤ g * t.toNat * texture.downsample.toNat} := by
    ext g
    rw [Set.mem_ofPred_eq, ceilDiv_le_iff_le_mul hpos, Nat.mul_comm]
    rfl
  exact ⟨hside .. ▸ h.x, hside .. ▸ h.y⟩

-- The difference, each side checked.
def sub? (a b : Extent) : Option Extent := do
  let x ← Checked.sub a.x b.x
  let y ← Checked.sub a.y b.y
  return ⟨x, y⟩

theorem sub?_eq {a b : Extent} (h : b.fits a = true) : a.sub? b = some (a.sub b) := by
  obtain ⟨hx, hy⟩ := (fits_iff b a).mp h
  have hx : ¬a.x.toNat < b.x.toNat := Nat.not_lt_of_le hx
  have hy : ¬a.y.toNat < b.y.toNat := Nat.not_lt_of_le hy
  simp only [sub?, Checked.sub, if_neg hx, if_neg hy, Option.bind_eq_bind, Option.bind_some,
    Option.pure_def, sub]

end Extent

namespace FrameSettings

-- The check of the rect, its subtraction checked in turn.
def rectFits? (s : FrameSettings) : Option Bool :=
  if s.rectSize.fits s.resourceSize then do
    let free ← s.resourceSize.sub? s.rectSize
    return s.rectOrigin.fits free
  else return false

-- One side of an area, from its offset on, is no longer than that of a resource.
structure Inside (offset area resource : UInt32) : Prop where
  area : offset.toNat + area.toNat ≤ resource.toNat
  resource : resource.toNat ≤ 65535

-- The rects lie within their resources.
structure Framed (s : FrameSettings) : Prop where
  x : Inside s.rectOrigin.x s.rectSize.x s.resourceSize.x
  y : Inside s.rectOrigin.y s.rectSize.y s.resourceSize.y
  xPrev : Inside 0 s.rectSizePrev.x s.resourceSizePrev.x
  yPrev : Inside 0 s.rectSizePrev.y s.resourceSizePrev.y

variable {s : FrameSettings}

theorem rectFits?_eq (s : FrameSettings) : s.rectFits? = some s.rectFits := by
  unfold rectFits? rectFits
  split
  · next hfits =>
    rw [Extent.sub?_eq hfits, hfits]
    rfl
  · next hfits =>
    rw [Bool.eq_false_iff.mpr hfits]
    rfl

theorem inside_of_le {offset area resource : UInt32} (harea : area ≤ resource)
    (hoffset : offset ≤ resource - area) (hresource : resource ≤ maxSide) :
    Inside offset area resource := by
  have hle : area.toNat ≤ resource.toNat := harea
  have hfree : offset.toNat ≤ (resource - area).toNat := hoffset
  rw [UInt32.toNat_sub_of_le _ _ harea] at hfree
  exact ⟨by omega, hresource⟩

theorem framed_of_validate (h : s.validate = .ok ()) : s.Framed := by
  have hrules := (Rule.check_eq_ok_iff s.rules).mp h
  simp only [rules, List.forall_mem_cons, Bool.and_eq_true, rectFits, Extent.fits_iff] at hrules
  obtain ⟨⟨hmax, hmaxPrev⟩, ⟨hrect, horigin⟩, hrectPrev, -⟩ := hrules
  have hprev {area resource : UInt32} (harea : area ≤ resource) (hresource : resource ≤ maxSide) :
      Inside 0 area resource := by
    have hle : area.toNat ≤ resource.toNat := harea
    exact ⟨by simpa using hle, hresource⟩
  exact ⟨inside_of_le hrect.1 horigin.1 hmax.1, inside_of_le hrect.2 horigin.2 hmax.2,
    hprev hrectPrev.1 hmaxPrev.1, hprev hrectPrev.2 hmaxPrev.2⟩

end FrameSettings

theorem Variant.positive (v : Variant) : ∀ e ∈ v.blueprint.schedule,
    e.pass.downsample ≠ 0 ∧ e.pass.threads.x ≠ 0 ∧ e.pass.threads.y ≠ 0 := by
  cases v <;> decide +kernel

namespace Planner

variable {p p' : Planner} {store : ShaderStore} {denoisers : List (Identifier × Variant)}
  {d : DenoiserState} {standing : Standing} {t : Turn} {x : Dispatch} {policy : MemoryPolicy}
  {identifiers : List Identifier} {frame : Frame}

-- What a planner is made of, its settings and its state apart.
structure Succeeds (p p' : Planner) : Prop where
  members : p'.members = p.members
  inventory : p'.inventory = p.inventory

-- No call adds a denoiser or takes one away, and none changes what the host was told.
theorem Reachable.exists_create (h : Reachable denoisers store p) :
    ∃ p₀, (create denoisers store).result = .ok p₀ ∧ p₀.Succeeds p := by
  induction h with
  | @created p h => exact ⟨p, h, rfl, rfl⟩
  | setFrameSettings s _ hset ih =>
    obtain ⟨-, rfl⟩ := setFrameSettings_ok hset
    exact ih.imp fun _ ⟨h, hmembers, hinventory⟩ => ⟨h, hmembers, hinventory⟩
  | setDenoiserSettings identifier s _ hset ih =>
    obtain ⟨p₀, h, hsucceeds⟩ := ih
    obtain ⟨hmembers, hinventory⟩ := members_setDenoiserSettings hset
    exact ⟨p₀, h, hmembers.trans hsucceeds.members, hinventory.trans hsucceeds.inventory⟩
  | frame policy identifiers _ ih =>
    obtain ⟨p₀, h, hsucceeds⟩ := ih
    refine ⟨p₀, h, frame_preserves (P := p₀.Succeeds) (fun _ _ h => ⟨h.members, h.inventory⟩)
      (fun q i d hi h => ?_) policy identifiers hsucceeds⟩
    obtain ⟨hmembers, hinventory⟩ := members_advance hi (q.plan d)
    exact ⟨hmembers.trans h.members, hinventory.trans h.inventory⟩

theorem Reachable.stocked (h : Reachable denoisers store p) :
    ∀ d ∈ p.denoisers, d.Stocked p.inventory.permanent := by
  intro d hd
  obtain ⟨p₀, hcreate, hsucceeds⟩ := h.exists_create
  have hmember : d.member ∈ p₀.members :=
    hsucceeds.members ▸ List.mem_map_of_mem (Array.mem_toList_iff.mpr hd)
  obtain ⟨d₀, hd₀, hsame⟩ := List.mem_map.mp hmember
  obtain ⟨-, hvariant, hlayout⟩ := Member.mk.inj hsame
  have hstocked := create_stocked hcreate d₀ (Array.mem_toList_iff.mp hd₀)
  rw [DenoiserState.Stocked, hvariant, hlayout] at hstocked
  rwa [hsucceeds.inventory]

-- A clear reaches the whole of the one texture that it writes, and every other dispatch the whole
-- rect, both with as few groups as the threads of their pipeline allow.
structure Reaches (p : Planner) (x : Dispatch) : Prop where
  clear : x.stage = .clear → ∃ n texture compiled, p.Clears n x ∧
    p.inventory.permanent[n]? = some texture ∧
    p.inventory.pipelines[x.pipeline]? = some compiled ∧
    x.grid.Fills compiled.pipeline.layout.threads texture p.settings.resourceSize
  rect : x.stage ≠ .clear → ∃ compiled, p.inventory.pipelines[x.pipeline]? = some compiled ∧
    x.grid.Covers compiled.pipeline.layout.threads x.downsample p.settings.rectSize

theorem Takes.covers {em : Emission ScheduledPass} (h : p.Takes store d standing t)
    (hx : t.Emits em x) :
    ∃ compiled, p.inventory.pipelines[x.pipeline]? = some compiled ∧
      x.grid.Covers compiled.pipeline.layout.threads x.downsample
        (extent t.settings em.pass.stage) := by
  obtain ⟨hdownsample, hthreads⟩ := d.variant.positive _ (h.pass_mem hx)
  have houtline := h.outline_eq hx
  have hgrid : x.grid = _ := congrArg Outline.grid houtline
  have hscale : x.downsample = _ := congrArg Outline.downsample houtline
  refine ⟨_, congrArg Outline.pipeline houtline, ?_⟩
  rw [hgrid, hscale]
  exact Extent.covers_groups hdownsample hthreads.1 hthreads.2

-- What clears is one of the wipes of a frame that denoises.
theorem Takes.exists_wipe {em : Emission ScheduledPass} (h : p.Takes store d standing t)
    (hx : t.Emits em x) (hclear : x.stage = .clear) :
    ∃ k texture, d.variant.blueprint.permanent[k]? = some texture ∧
      em = t.denoiser.wipe t.settings k texture := by
  have hstage : em.pass.stage = .clear := (h.stage_eq hx).symm.trans hclear
  have hdenoises : t.denoises = true :=
    Turn.denoises_of_stage_ne hx (hstage ▸ Stage.noConfusion)
  obtain ⟨rest, hemissions, hrest⟩ := DenoiserState.exists_emissions_eq hdenoises
  have hem := (List.of_mem_zip hx).1
  rw [Turn.emissions, hemissions] at hem
  rcases List.mem_append.mp hem with hem | hem
  · split at hem
    · obtain ⟨k, hk, rfl⟩ := List.mem_mapIdx.mp hem
      exact ⟨k, _, h.variant ▸ List.getElem?_eq_getElem hk, rfl⟩
    · cases hem
  · exact absurd hstage (hrest em hem)

theorem Takes.reaches (h : p.Takes store d standing t) (hstocked : d.Stocked p.inventory.permanent)
    (hsettings : t.settings = p.settings) (hx : x ∈ t.dispatches) : p.Reaches x := by
  obtain ⟨em, -, hx⟩ := h.exists_emission hx
  obtain ⟨compiled, hpipeline, hcovers⟩ := h.covers hx
  rw [← h.stage_eq hx, extent, hsettings] at hcovers
  constructor
  · intro hclear
    obtain ⟨k, texture, hk, rfl⟩ := h.exists_wipe hx hclear
    have hclears := clears_of_outline_eq hstocked h hk (h.outline_eq hx)
    have hscale : x.downsample = texture.downsample := congrArg Outline.downsample (h.outline_eq hx)
    rw [if_pos hclear, hscale] at hcovers
    exact ⟨_, texture, compiled, hclears, hstocked k texture hk, hpipeline,
      hcovers.fills (d.variant.positive _ (h.pass_mem hx)).1⟩
  · intro hstage
    rw [if_neg hstage] at hcovers
    exact ⟨compiled, hpipeline, hcovers⟩

theorem Reachable.reaches (h : Reachable denoisers store p)
    (hframe : (p.frame policy identifiers).result = .ok frame) :
    ∀ x ∈ frame.dispatches, p.Reaches x := by
  intro x hx
  obtain ⟨flipped, hsound⟩ := h.sound
  obtain ⟨i, d, hidentifier, -, hshare, hx⟩ := hsound.exists_shares_of_mem hframe hx
  have hd := Array.mem_of_getElem? hshare.denoiser
  obtain ⟨standing, htakes⟩ := h.exists_takes hframe hd hidentifier
  exact htakes.reaches (h.stocked d hd) rfl hx

end Planner

-- The thread groups are the fewest that cover an area of any size, and no step of their
-- computation divides by zero or wraps. Nor does the check of the rect, and settings that pass it
-- have their rects within their resources. So the frames of every planner clear whole textures and
-- reach the whole rect, with no group to spare.
theorem grids_cover :
    (∀ (extent threads : Extent) (downsample : UInt16),
      downsample ≠ 0 → threads.x ≠ 0 → threads.y ≠ 0 →
        Extent.groups? extent downsample threads = some (extent.groups downsample threads) ∧
        (extent.groups downsample threads).Covers threads downsample extent) ∧
    (∀ s : FrameSettings, s.rectFits? = some s.rectFits ∧ (s.validate = .ok () → s.Framed)) ∧
    ∀ denoisers store p, Planner.Reachable denoisers store p → p.settings.Framed ∧
      ∀ policy identifiers frame, (p.frame policy identifiers).result = .ok frame →
        ∀ x ∈ frame.dispatches, p.Reaches x := by
  refine ⟨fun extent threads downsample hdownsample hx hy => ?_, fun s => ?_,
    fun denoisers store p h => ?_⟩
  · exact ⟨Extent.groups?_eq hdownsample hx hy, Extent.covers_groups hdownsample hx hy⟩
  · exact ⟨s.rectFits?_eq, FrameSettings.framed_of_validate⟩
  · exact ⟨FrameSettings.framed_of_validate h.configured.settings,
      fun policy identifiers frame hframe => h.reaches hframe⟩

-- A frame after its resource has grown, with clears and with dispatches for the rect.
theorem grids_cover_resized :
    (Extent.groups ⟨127, 65⟩ 2 ⟨16, 16⟩ = ⟨4, 3⟩ ∧
      Extent.Covers ⟨4, 3⟩ ⟨16, 16⟩ 2 ⟨127, 65⟩) ∧
    (largerFrame.validate = .ok () ∧ largerFrame.Framed) ∧
    ∃ p frame, Planner.Reachable Planner.shadowAndReference (fun _ _ => none) p ∧
      (p.frame (.atMost none) [⟨7⟩]).result = .ok frame ∧
      (∃ x ∈ frame.dispatches, x.stage = .clear ∧ p.Reaches x) ∧
      ∃ x ∈ frame.dispatches, x.stage = .classifyTiles ∧ p.Reaches x := by
  obtain ⟨hgroups, hsettings, hframes⟩ := grids_cover
  have hvalid : largerFrame.validate = .ok () := by decide +kernel
  obtain ⟨p, frame, d, -, h, hframe, -, ⟨x, hx, hclear⟩, ⟨y, hy, htiles⟩, -⟩ :=
    Planner.exists_resized
  obtain ⟨-, hreaches⟩ := hframes _ _ p h
  have hx := List.mem_of_mem_filter hx
  have hy := List.mem_of_mem_filter hy
  exact ⟨⟨by decide, (hgroups ⟨127, 65⟩ ⟨16, 16⟩ 2 (by decide) (by decide) (by decide)).2⟩,
    ⟨hvalid, (hsettings largerFrame).2 hvalid⟩, p, frame, h, hframe,
    ⟨x, hx, hclear, hreaches _ _ frame hframe x hx⟩, y, hy, htiles,
    hreaches _ _ frame hframe y hy⟩

end DenoisePlanner
