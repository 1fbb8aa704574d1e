import DenoisePlanner.Proofs.Emitted
import DenoisePlanner.Proofs.Turns
import Mathlib.Algebra.Group.Nat.Even

namespace DenoisePlanner

namespace Reference

def isSwapping : Reference → Bool
  | .swapping _ _ => true
  | _ => false

-- What is current to a frame is previous to the next one, and the other way about.
def opposite : Reference → Reference
  | .swapping current other => .swapping other current
  | r => r

theorem location_opposite (r : Reference) (flipped : Bool) :
    r.opposite.location flipped = r.location (!flipped) := by
  cases r with
  | host kind => rfl
  | pooled slot => rfl
  | swapping current other => cases flipped <;> rfl

end Reference

theorem Claims.texture_opposite (claims : Claims) (flipped : Bool) (r : Reference) :
    claims.texture flipped r.opposite = claims.texture (!flipped) r :=
  congrArg claims.place (r.location_opposite flipped)

namespace Standing

-- Each frame that denoises turns the pairs over.
theorem flipped_foldl (s : Standing) (turns : List Turn) :
    (turns.foldl next s).flipped = if Even (turns.countP Turn.denoises) then s.flipped
      else !s.flipped := by
  rw [foldl_next]
  split
  · rename_i heven
    simp [Nat.even_iff.mp heven]
  · rename_i hodd
    simp [Nat.not_even_iff.mp hodd]

theorem next_of_denoises {t : Turn} (s : Standing) (h : t.denoises = true) :
    s.next t = ⟨some t.snapshot, !s.flipped⟩ := if_pos h

end Standing

namespace Turn

-- The frame starts from empty textures.
def clears (t : Turn) : Bool := t.denoises && t.denoiser.isCleared t.settings

variable {t : Turn} {em : Emission ScheduledPass} {x : Dispatch}

-- A frame that shows nothing but inputs runs the split screen alone.
theorem denoises_of_stage_ne (hx : t.Emits em x) (hstage : em.pass.stage ≠ .splitScreen) :
    t.denoises = true := by
  cases hdenoises : t.denoises with
  | true => rfl
  | false =>
    exact absurd (DenoiserState.stage_of_not_moves hdenoises em (List.of_mem_zip hx).1) hstage

end Turn

-- The number of the permanent texture that is there.
def Location.permanent? : Location → Option Nat
  | .slot (.permanent k) => some k
  | _ => none

namespace Planner

variable {p : Planner} {store : ShaderStore} {d : DenoiserState} {s : Standing} {t : Turn}
  {em : Emission ScheduledPass} {x : Dispatch} {r : Reference} {n : Nat}

-- A permanent texture is bound by a slot of its denoiser.
theorem Takes.permanent?_eq (h : p.Takes store d s t) (hx : t.Emits em x)
    (hr : r ∈ em.bindings.inputs ++ em.bindings.outputs)
    (htexture : d.layout.claims.texture s.flipped r = (.permanentPool, n)) :
    ∃ k < d.layout.claims.permanentCount, (r.location s.flipped).permanent? = some k ∧
      n = d.layout.claims.base + k := by
  obtain ⟨tables, hinstalled⟩ := h.installed
  have hholds : d.layout.claims.Holds (r.location s.flipped) :=
    hinstalled.holds (h.pass_mem hx) hr
  rw [Claims.texture] at htexture
  cases hlocation : r.location s.flipped with
  | host kind =>
    rw [hlocation] at hholds htexture
    cases (Prod.mk.inj htexture).1 ▸ hholds
  | slot slot =>
    rw [hlocation] at hholds htexture
    cases slot with
    | permanent k => exact ⟨k, hholds, rfl, (Prod.mk.inj htexture).2.symm⟩
    | transient k => cases (Prod.mk.inj htexture).1

theorem Takes.exists_clear_iff (h : p.Takes store d s t) :
    (∃ x ∈ t.dispatches, x.stage = .clear) ↔ t.clears = true := by
  rw [Turn.clears, Bool.and_eq_true, Turn.denoises, ← DenoiserState.exists_clear_iff]
  exact h.exists_stage_iff

-- A frame of plain averaging reads the average so far.
theorem Takes.exists_average (h : p.Takes store d s t) (hvariant : d.variant = .reference)
    (hdenoises : t.denoises = true) :
    ∃ em, ∃ x ∈ t.dispatches, ∃ n, t.Emits em x ∧ x.stage ≠ .clear ∧
      Averaging.historyPrev ∈ em.bindings.inputs ∧
      d.layout.claims.texture s.flipped Averaging.historyPrev = (.permanentPool, n) ∧
      (.permanentPool, n) ∈ x.reads := by
  have hpass : Averaging.temporalAccumulation ∈ t.denoiser.variant.blueprint.passes := by
    rw [h.variant, hvariant]
    exact List.mem_cons_self
  obtain ⟨x, hx, hem⟩ := h.exists_dispatch
    (DenoiserState.mem_emissions_of_enabled hdenoises hpass rfl rfl)
  obtain ⟨n, htexture⟩ : ∃ n, d.layout.claims.texture s.flipped Averaging.historyPrev =
      (.permanentPool, n) := by
    cases s.flipped <;> exact ⟨_, rfl⟩
  have hr : Averaging.historyPrev ∈ (Averaging.temporalAccumulation.bindings
      (.select [] (t.denoiser.switches t.settings).holds)).inputs := by
    simp [Averaging.temporalAccumulation]
  refine ⟨_, x, hx, n, hem, ?_, hr, htexture, ?_⟩
  · rw [h.stage_eq hem]
    exact Stage.noConfusion
  · rw [h.reads_eq hem, ← htexture]
    exact List.mem_map_of_mem hr

end Planner

end DenoisePlanner
