import DenoisePlanner.Proofs.Canonical
import DenoisePlanner.Proofs.Installed

namespace DenoisePlanner

-- A define whose text can be taken apart again.
structure Define.Plain (d : Define) : Prop where
  name_blank : ' ' ∉ d.name.toList
  name_equals : '=' ∉ d.name.toList
  value_blank : ' ' ∉ d.value.toList

instance (d : Define) : Decidable d.Plain :=
  decidable_of_iff (' ' ∉ d.name.toList ∧ '=' ∉ d.name.toList ∧ ' ' ∉ d.value.toList)
    ⟨fun ⟨hname, hequals, hvalue⟩ => ⟨hname, hequals, hvalue⟩,
      fun ⟨hname, hequals, hvalue⟩ => ⟨hname, hequals, hvalue⟩⟩

namespace Define

theorem toList_text (d : Define) : d.text.toList = d.name.toList ++ '=' :: d.value.toList := by
  simp [text]

theorem Plain.not_mem_text {d : Define} (h : d.Plain) : ' ' ∉ d.text.toList := by
  have := h.name_blank
  have := h.value_blank
  simp_all [toList_text]

theorem text_inj {d d' : Define} (h : d.Plain) (h' : d'.Plain)
    (heq : d.text.toList = d'.text.toList) : d = d' := by
  rw [toList_text, toList_text] at heq
  obtain ⟨hname, hvalue⟩ := append_cons_inj h.name_equals h'.name_equals heq
  obtain ⟨name, value⟩ := d
  obtain ⟨name', value'⟩ := d'
  obtain rfl : name = name' := String.toList_injective hname
  obtain rfl : value = value' := String.toList_injective hvalue
  rfl

end Define

-- A key whose identifier can be taken apart again.
structure ShaderKey.Plain (key : ShaderKey) : Prop where
  name : ' ' ∉ key.name.toList
  defines : ∀ d ∈ key.defines, d.Plain

instance (key : ShaderKey) : Decidable key.Plain :=
  decidable_of_iff (' ' ∉ key.name.toList ∧ ∀ d ∈ key.defines, d.Plain)
    ⟨fun ⟨hname, hdefines⟩ => ⟨hname, hdefines⟩, fun ⟨hname, hdefines⟩ => ⟨hname, hdefines⟩⟩

namespace ShaderKey

-- What follows the name in an identifier.
def tail (defines : List Define) : List Char := defines.flatMap fun d => ' ' :: d.text.toList

theorem toList_identifier (key : ShaderKey) :
    key.identifier.toList = key.name.toList ++ tail key.defines := by
  obtain ⟨name, defines⟩ := key
  simp only [identifier]
  induction defines generalizing name with
  | nil => simp [tail]
  | cons d ds ih =>
    rw [List.foldl_cons, ih]
    simp [tail]

theorem append_tail_inj {xs ys : List Char} {ds es : List Define} (hx : ' ' ∉ xs) (hy : ' ' ∉ ys)
    (h : xs ++ tail ds = ys ++ tail es) : xs = ys ∧ tail ds = tail es := by
  cases ds with
  | nil =>
    cases es with
    | nil => exact ⟨by simpa [tail] using h, rfl⟩
    | cons e es =>
      have : ' ' ∈ xs := by
        have h : xs = ys ++ tail (e :: es) := by simpa [tail] using h
        rw [h]
        simp [tail]
      exact absurd this hx
  | cons d ds =>
    cases es with
    | nil =>
      have : ' ' ∈ ys := by
        have h : xs ++ tail (d :: ds) = ys := by simpa [tail] using h
        rw [← h]
        simp [tail]
      exact absurd this hy
    | cons e es =>
      obtain ⟨hxy, htail⟩ := append_cons_inj hx hy h
      exact ⟨hxy, congrArg (' ' :: ·) htail⟩

theorem tail_inj {ds es : List Define} (hd : ∀ d ∈ ds, d.Plain) (he : ∀ d ∈ es, d.Plain)
    (h : tail ds = tail es) : ds = es := by
  induction ds generalizing es with
  | nil =>
    cases es with
    | nil => rfl
    | cons e es => simp [tail] at h
  | cons d ds ih =>
    cases es with
    | nil => simp [tail] at h
    | cons e es =>
      have hd' := hd d List.mem_cons_self
      have he' := he e List.mem_cons_self
      have h : d.text.toList ++ tail ds = e.text.toList ++ tail es := (List.cons.inj h).2
      obtain ⟨htext, htail⟩ := append_tail_inj hd'.not_mem_text he'.not_mem_text h
      rw [Define.text_inj hd' he' htext, ih (fun x hx => hd x (List.mem_cons_of_mem _ hx))
        (fun x hx => he x (List.mem_cons_of_mem _ hx)) htail]

-- Different shaders, or one shader with different defines, never share an identifier.
theorem identifier_inj {key key' : ShaderKey} (hk : key.Plain) (hk' : key'.Plain)
    (h : key.identifier = key'.identifier) : key = key' := by
  have htext := congrArg String.toList h
  rw [toList_identifier, toList_identifier] at htext
  obtain ⟨hname, htail⟩ := append_tail_inj hk.name hk'.name htext
  have hdefines := tail_inj hk.defines hk'.defines htail
  obtain ⟨name, defines⟩ := key
  obtain ⟨name', defines'⟩ := key'
  obtain rfl : name = name' := String.toList_injective hname
  obtain rfl : defines = defines' := hdefines
  rfl

theorem identifier_eq_iff {key key' : ShaderKey} (hk : key.Plain) (hk' : key'.Plain) :
    key.identifier = key'.identifier ↔ key.name = key'.name ∧ key.defines = key'.defines := by
  constructor
  · intro h
    rw [identifier_inj hk hk' h]
    exact ⟨rfl, rfl⟩
  · rintro ⟨hname, hdefines⟩
    rw [identifier, identifier, hname, hdefines]

-- An identifier keeps the order of the defines, a canonical form all but that.
theorem told_apart (a b : ShaderKey) :
    (a.Plain → b.Plain →
      (a.identifier = b.identifier ↔ a.name = b.name ∧ a.defines = b.defines)) ∧
      a.canonical.canonical = a.canonical ∧
      (a.canonical = b.canonical ↔ a.name = b.name ∧ a.defines.Perm b.defines) := by
  refine ⟨identifier_eq_iff, a.canonical_canonical, canonical_eq_iff.trans ⟨fun h => ?_, fun h => ?_⟩⟩
  · exact ⟨h.name, h.defines⟩
  · exact ⟨h.1, h.2⟩

-- Empty texts and an equals sign within a value do no harm.
theorem told_apart_reordered :
    let mode : Define := ⟨"MODE", "A=B"⟩
    let empty : Define := ⟨"", ""⟩
    let a : ShaderKey := ⟨"", [mode, empty, empty]⟩
    let b : ShaderKey := ⟨"", [empty, mode, empty]⟩
    a.Plain ∧ b.Plain ∧ a.identifier ≠ b.identifier ∧ a.canonical.canonical = a.canonical ∧
      a.canonical = b.canonical := by
  intro mode empty a b
  have ha : a.Plain := by decide
  have hb : b.Plain := by decide
  obtain ⟨hidentifier, hcanonical, halike⟩ := told_apart a b
  refine ⟨ha, hb, fun h => ?_, hcanonical, halike.mpr ⟨rfl, by decide⟩⟩
  have hdefines : a.defines = b.defines := ((hidentifier ha hb).mp h).2
  exact absurd hdefines (by decide)

end ShaderKey

theorem Define.plain_flag {name : String} (hblank : ' ' ∉ name.toList) (hequals : '=' ∉ name.toList)
    (enabled : Bool) : (Define.flag name enabled).Plain :=
  ⟨hblank, hequals, by cases enabled <;> simp [Define.flag]⟩

theorem Condition.plain_define (c : Condition) (enabled : Bool) :
    (Define.flag c.define enabled).Plain := by
  cases c <;> exact Define.plain_flag (by decide) (by decide) enabled

namespace Variant

theorem plain_shader (v : Variant) : ∀ pass ∈ v.blueprint.passes, ' ' ∉ pass.shader.toList := by
  unfold blueprint
  cases v.family with
  | reblur =>
    simp only [Reblur.blueprint, Reblur.passes, List.forall_mem_append, List.forall_mem_cons,
      Reblur.classifyTiles, Reblur.hitDistReconstruction, Reblur.prePass,
      Reblur.temporalAccumulation, Reblur.historyFix, Reblur.blur, Reblur.postBlur,
      Reblur.splitScreen, Reblur.validation]
    refine ⟨⟨by decide +kernel, ?_⟩, by decide +kernel⟩
    split
    · simp only [List.forall_mem_cons, Reblur.temporalStabilization]
      decide +kernel
    · exact fun _ h => absurd h List.not_mem_nil
  | relax =>
    simp only [Relax.blueprint, Relax.passes, List.forall_mem_cons, Relax.classifyTiles,
      Relax.hitDistReconstruction, Relax.prePass, Relax.temporalAccumulation, Relax.historyFix,
      Relax.historyClamping, Relax.copy, Relax.antiFirefly, Relax.atrousFirst, Relax.atrous,
      Relax.atrousLast, Relax.splitScreen, Relax.validation]
    decide +kernel
  | sigma =>
    simp only [Sigma.blueprint, Sigma.passes, List.forall_mem_cons, Sigma.classifyTiles,
      Sigma.smoothing, Sigma.blur, Sigma.postBlur, Sigma.temporalStabilization, Sigma.splitScreen]
    decide +kernel
  | reference =>
    simp only [Averaging.blueprint]
    decide +kernel

theorem plain_define (v : Variant) : ∀ d ∈ v.blueprint.defines, d.Plain := by
  unfold blueprint
  cases v.family <;>
    simp [Reblur.blueprint, Relax.blueprint, Sigma.blueprint, Averaging.blueprint,
      Define.plain_flag]

end Variant

namespace ScheduledPass

theorem plain_key_of {e : ScheduledPass} (hshader : ' ' ∉ e.pass.shader.toList)
    (hdefines : ∀ d ∈ e.defines, d.Plain) (s : Specialization) : (e.key s).Plain := by
  refine ⟨hshader, List.forall_mem_append.mpr ⟨hdefines, fun d hd => ?_⟩⟩
  obtain ⟨c, -, rfl⟩ := List.mem_map.mp hd
  exact c.plain_define _

theorem plain_shader_clear (slot : Slot) (texture : Texture) :
    ' ' ∉ (clear slot texture).pass.shader.toList := by
  simp only [clear, Pass.clear]
  split <;> decide +kernel

-- The key of every pipeline that a variant asks for is plain.
theorem plain_key {v : Variant} {e : ScheduledPass} (he : e ∈ v.blueprint.schedule)
    (s : Specialization) : (e.key s).Plain := by
  rcases List.mem_append.mp he with he | he
  · obtain ⟨i, hi, rfl⟩ := List.mem_mapIdx.mp he
    exact plain_key_of (plain_shader_clear _ _) (fun d hd => by cases hd) s
  · obtain ⟨pass, hpass, rfl⟩ := List.mem_map.mp he
    exact plain_key_of (v.plain_shader pass hpass) v.plain_define s

-- So the identifier of a pipeline tells what it was asked for, whichever variants ask.
theorem key_inj {v w : Variant} {e e' : ScheduledPass} (he : e ∈ v.blueprint.schedule)
    (he' : e' ∈ w.blueprint.schedule) {s s' : Specialization}
    (h : (e.key s).identifier = (e'.key s').identifier) : e.key s = e'.key s' :=
  ShaderKey.identifier_inj (plain_key he s) (plain_key he' s') h

end ScheduledPass

end DenoisePlanner
