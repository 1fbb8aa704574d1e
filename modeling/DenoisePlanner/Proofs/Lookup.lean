import DenoisePlanner.Proofs.Canonical
import DenoisePlanner.Shader.Library
import Mathlib.Data.Finset.Card
import Mathlib.Data.Finset.Dedup
import Mathlib.Data.List.Forall2
import Mathlib.Data.List.Induction

namespace DenoisePlanner

-- A shader as it is put into a library.
structure Compiled where
  format : ShaderFormat
  key : ShaderKey
  code : ByteArray

namespace Compiled

-- It is what a search for a format and a key is after.
def Answers (c : Compiled) (format : ShaderFormat) (key : ShaderKey) : Prop :=
  c.format = format ∧ c.key.Alike key

instance (c : Compiled) (format : ShaderFormat) (key : ShaderKey) :
    Decidable (c.Answers format key) :=
  inferInstanceAs (Decidable (_ ∧ _))

-- The same shader, its defines in whatever order.
structure Reordered (c c' : Compiled) : Prop where
  format : c.format = c'.format
  key : c.key.Alike c'.key
  code : c.code = c'.code

-- What is one and the same to a library: the format, the name, and the defines with their
-- multiplicities.
def kind (c : Compiled) : ShaderFormat × String × Multiset Define :=
  (c.format, c.key.name, (c.key.defines : Multiset Define))

theorem kind_eq_iff {c c' : Compiled} : c.kind = c'.kind ↔ c.Answers c'.format c'.key := by
  simp only [kind, Prod.mk.injEq, Multiset.coe_eq_coe, Answers]
  exact ⟨fun ⟨hformat, hname, hdefines⟩ => ⟨hformat, hname, hdefines⟩,
    fun ⟨hformat, hkey⟩ => ⟨hformat, hkey.name, hkey.defines⟩⟩

end Compiled

namespace ShaderLibrary

-- The library after a history of inserts.
def holding (shaders : List Compiled) : ShaderLibrary :=
  shaders.foldl (fun library c => library.insert c.format c.key c.code) {}

-- The last of the shaders that answer a search is one with this code.
def Latest (shaders : List Compiled) (format : ShaderFormat) (key : ShaderKey) (code : ByteArray) :
    Prop :=
  ∃ older c newer, shaders = older ++ c :: newer ∧ c.Answers format key ∧ c.code = code ∧
    ∀ later ∈ newer, ¬later.Answers format key

variable {shaders shaders' : List Compiled} {c c' : Compiled} {format : ShaderFormat}
  {key key' : ShaderKey} {code : ByteArray}

theorem Latest.append_cases (h : Latest (shaders ++ [c]) format key code) :
    c.Answers format key ∧ c.code = code ∨
      ¬c.Answers format key ∧ Latest shaders format key code := by
  obtain ⟨older, found, newer, hsplit, hfound, hcode, hnewer⟩ := h
  rcases List.eq_nil_or_concat newer with rfl | ⟨rest, last, rfl⟩
  · obtain ⟨-, hlast⟩ := List.append_inj' hsplit rfl
    obtain rfl : c = found := List.singleton_inj.mp hlast
    exact .inl ⟨hfound, hcode⟩
  · have hsplit' : shaders ++ [c] = (older ++ found :: rest) ++ [last] := by simpa using hsplit
    obtain ⟨hshaders, hlast⟩ := List.append_inj' hsplit' rfl
    obtain rfl : c = last := List.singleton_inj.mp hlast
    refine .inr ⟨hnewer c (by simp), older, found, rest, hshaders, hfound, hcode, ?_⟩
    exact fun later hlater => hnewer later (by simp [hlater])

theorem Latest.append (h : Latest shaders format key code) (hc : ¬c.Answers format key) :
    Latest (shaders ++ [c]) format key code := by
  obtain ⟨older, found, newer, hsplit, hfound, hcode, hnewer⟩ := h
  refine ⟨older, found, newer ++ [c], by rw [hsplit]; simp, hfound, hcode, ?_⟩
  intro later hlater
  rcases List.mem_append.mp hlater with hlater | hlater
  · exact hnewer later hlater
  · exact List.mem_singleton.mp hlater ▸ hc

theorem latest_append_of_answers (hc : c.Answers format key) :
    Latest (shaders ++ [c]) format key c.code :=
  ⟨shaders, c, [], rfl, hc, rfl, fun _ h => absurd h List.not_mem_nil⟩

theorem holding_append (shaders : List Compiled) (c : Compiled) :
    holding (shaders ++ [c]) = (holding shaders).insert c.format c.key c.code :=
  List.foldl_append

theorem find?_insert (library : ShaderLibrary) (c : Compiled) (format : ShaderFormat)
    (key : ShaderKey) :
    (library.insert c.format c.key c.code).find? format key =
      if c.Answers format key then some c.code else library.find? format key := by
  have hkey : ((c.format, c.key.canonical) == (format, key.canonical)) = true ↔
      c.Answers format key := by
    rw [beq_iff_eq, Prod.mk.injEq, ShaderKey.canonical_eq_iff, Compiled.Answers]
  rw [find?, find?, insert, Std.HashMap.getElem?_insert]
  exact if_congr hkey rfl rfl

-- Each insert overwrites what answers it and leaves every other search alone, so the induction is
-- on the history from its end.
theorem find?_eq_some_iff :
    (holding shaders).find? format key = some code ↔ Latest shaders format key code := by
  induction shaders using List.reverseRecOn generalizing code with
  | nil =>
    have hempty : (holding []).find? format key = none := Std.HashMap.getElem?_empty
    rw [hempty]
    refine iff_of_false (Option.some_ne_none code).symm ?_
    rintro ⟨older, c, newer, hsplit, -⟩
    exact absurd hsplit.symm (by simp)
  | append_singleton shaders c ih =>
    rw [holding_append, find?_insert]
    constructor
    · intro h
      split at h
      · next hc => exact Option.some.inj h ▸ latest_append_of_answers hc
      · next hc => exact (ih.mp h).append hc
    · intro h
      rcases h.append_cases with ⟨hc, hcode⟩ | ⟨hc, hlatest⟩
      · rw [if_pos hc, hcode]
      · rw [if_neg hc, ih.mpr hlatest]

theorem find?_eq_none_iff :
    (holding shaders).find? format key = none ↔ ∀ c ∈ shaders, ¬c.Answers format key := by
  induction shaders using List.reverseRecOn with
  | nil =>
    have hempty : (holding []).find? format key = none := Std.HashMap.getElem?_empty
    exact iff_of_true hempty fun _ h => absurd h List.not_mem_nil
  | append_singleton shaders c ih =>
    rw [holding_append, find?_insert]
    by_cases hc : c.Answers format key
    · rw [if_pos hc]
      exact ⟨fun h => (nomatch h), fun h => absurd hc (h c (by simp))⟩
    · rw [if_neg hc, ih]
      simp [or_imp, forall_and, hc]

theorem mem_kinds_iff :
    c.kind ∈ (shaders.map Compiled.kind).toFinset ↔
      (c.format, c.key.canonical) ∈ (holding shaders).entries := by
  rw [Std.HashMap.mem_iff_isSome_getElem?]
  change _ ↔ ((holding shaders).find? c.format c.key).isSome
  rw [Option.isSome_iff_ne_none, ne_eq, find?_eq_none_iff]
  simp only [List.mem_toFinset, List.mem_map, Compiled.kind_eq_iff]
  push Not
  rfl

theorem size_eq_card : (holding shaders).size = (shaders.map Compiled.kind).toFinset.card := by
  induction shaders using List.reverseRecOn with
  | nil => rfl
  | append_singleton shaders c ih =>
    have hsize : (holding (shaders ++ [c])).size =
        if (c.format, c.key.canonical) ∈ (holding shaders).entries
        then (holding shaders).size else (holding shaders).size + 1 := by
      rw [holding_append]
      exact Std.HashMap.size_insert
    have hkinds : ((shaders ++ [c]).map Compiled.kind).toFinset =
        Insert.insert c.kind (shaders.map Compiled.kind).toFinset := by
      ext kind
      simp
    rw [hsize, hkinds, ih]
    by_cases hc : (c.format, c.key.canonical) ∈ (holding shaders).entries
    · rw [if_pos hc, Finset.insert_eq_of_mem (mem_kinds_iff.mpr hc)]
    · rw [if_neg hc, Finset.card_insert_of_notMem (fun h => hc (mem_kinds_iff.mp h))]

theorem find?_congr (library : ShaderLibrary) (h : key.Alike key') :
    library.find? format key = library.find? format key' := by
  rw [find?, find?, ShaderKey.canonical_eq_iff.mpr h]

theorem insert_congr (library : ShaderLibrary) (h : c.Reordered c') :
    library.insert c.format c.key c.code = library.insert c'.format c'.key c'.code := by
  rw [insert, insert, h.format, h.code, ShaderKey.canonical_eq_iff.mpr h.key]

theorem foldl_insert_congr (h : List.Forall₂ Compiled.Reordered shaders shaders')
    (library : ShaderLibrary) :
    shaders.foldl (fun library c => library.insert c.format c.key c.code) library =
      shaders'.foldl (fun library c => library.insert c.format c.key c.code) library := by
  induction h generalizing library with
  | nil => rfl
  | cons hc _ ih => rw [List.foldl_cons, List.foldl_cons, library.insert_congr hc, ih]

theorem store_bytecode_get (library : ShaderLibrary) (key : ShaderKey) (format : ShaderFormat) :
    (library.store.bytecode key).get format = (library.find? format key).getD .empty := by
  cases format <;> rfl

-- A search finds the last shader put in with its format and name whose defines are a permutation
-- of its own, and nothing is found where there is none. The library counts the kinds of shader
-- ever put in. The code of a shader has what is found for each format. Nothing of it depends on
-- the order that the defines come in, be it of what is put in or of what is searched.
theorem find?_latest (shaders : List Compiled) :
    (∀ format key code,
      (holding shaders).find? format key = some code ↔ Latest shaders format key code) ∧
    (∀ format key,
      (holding shaders).find? format key = none ↔ ∀ c ∈ shaders, ¬c.Answers format key) ∧
    (holding shaders).size = (shaders.map Compiled.kind).toFinset.card ∧
    (∀ format key, ((holding shaders).store.bytecode key).get format =
      ((holding shaders).find? format key).getD .empty) ∧
    ∀ shaders' key key', List.Forall₂ Compiled.Reordered shaders shaders' → key.Alike key' →
      (holding shaders').size = (holding shaders).size ∧
      (∀ format, (holding shaders').find? format key' = (holding shaders).find? format key) ∧
      (holding shaders').store.bytecode key' = (holding shaders).store.bytecode key := by
  refine ⟨fun _ _ _ => find?_eq_some_iff, fun _ _ => find?_eq_none_iff, size_eq_card,
    fun format key => store_bytecode_get _ key format, fun shaders' key key' h hkey => ?_⟩
  have hholding : holding shaders = holding shaders' := foldl_insert_congr h {}
  have hfind (format : ShaderFormat) :
      (holding shaders').find? format key' = (holding shaders).find? format key := by
    rw [hholding]
    exact ((holding shaders').find?_congr hkey).symm
  refine ⟨by rw [hholding], hfind, ?_⟩
  simp only [ShaderStore.bytecode, store, hfind]

-- One shader put in with two defines, with two again under new code, and with but one.
def blurs (both again one : List Define) : List Compiled :=
  [⟨.spirv, ⟨"Blur", both⟩, ⟨#[1]⟩⟩, ⟨.spirv, ⟨"Blur", again⟩, ⟨#[2]⟩⟩,
    ⟨.spirv, ⟨"Blur", one⟩, ⟨#[3]⟩⟩]

theorem find?_latest_blurs :
    let wide : Define := ⟨"RADIUS", "1"⟩
    let tight : Define := ⟨"RADIUS", "0"⟩
    let library := holding (blurs [wide, tight] [tight, wide] [wide])
    library.size = 2 ∧
    library.find? .spirv ⟨"Blur", [wide, tight]⟩ = some ⟨#[2]⟩ ∧
    library.find? .spirv ⟨"Blur", [wide, wide]⟩ = none ∧
    (library.store.bytecode ⟨"Blur", [wide]⟩).get .dxil = .empty ∧
    (holding (blurs [tight, wide] [wide, tight] [wide])).find? .spirv ⟨"Blur", [tight, wide]⟩ =
      some ⟨#[2]⟩ := by
  intro wide tight library
  obtain ⟨hsome, hnone, hsize, hcode, hcongr⟩ :=
    find?_latest (blurs [wide, tight] [tight, wide] [wide])
  have hlatest : library.find? .spirv ⟨"Blur", [wide, tight]⟩ = some ⟨#[2]⟩ :=
    (hsome _ _ _).mpr ⟨[_], _, [_], rfl, by decide, rfl, by decide⟩
  have hreordered : List.Forall₂ Compiled.Reordered (blurs [wide, tight] [tight, wide] [wide])
      (blurs [tight, wide] [wide, tight] [wide]) :=
    .cons ⟨rfl, by decide, rfl⟩ (.cons ⟨rfl, by decide, rfl⟩ (.cons ⟨rfl, by decide, rfl⟩ .nil))
  obtain ⟨-, hfind, -⟩ := hcongr _ ⟨"Blur", [wide, tight]⟩ ⟨"Blur", [tight, wide]⟩ hreordered
    (by decide)
  refine ⟨hsize.trans (by decide), hlatest, (hnone _ _).mpr (by decide), ?_,
    (hfind .spirv).trans hlatest⟩
  rw [hcode, (hnone _ _).mpr (by decide)]
  rfl

end ShaderLibrary

end DenoisePlanner
