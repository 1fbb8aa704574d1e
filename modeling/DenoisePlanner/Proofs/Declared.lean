import DenoisePlanner.Proofs.Binding
import DenoisePlanner.Proofs.Specialization

namespace DenoisePlanner

-- A pass together with the defines that come before those of its specialisation.
structure ScheduledPass where
  pass : Pass
  defines : List Define

-- The pass that clears one permanent texture.
def Pass.clear (slot : Slot) (texture : Texture) : Pass where
  stage := .clear
  shader := if texture.format.isInteger then "Clear_ui" else "Clear_f"
  bindings := fun _ => ⟨[], [.pooled slot]⟩
  downsample := texture.downsample
  data := .none

-- What a dispatch takes over from the denoiser that declares it.
structure Author where
  name : String
  sharedSize : Nat
  claims : Claims

def OpenDenoiser.author (denoiser : OpenDenoiser) : Author :=
  ⟨denoiser.name, denoiser.sharedSize, denoiser.claims⟩

namespace ScheduledPass

def stage (e : ScheduledPass) : Stage := e.pass.stage

def clear (slot : Slot) (texture : Texture) : ScheduledPass := ⟨.clear slot texture, []⟩

def key (e : ScheduledPass) (s : Specialization) : ShaderKey :=
  ⟨e.pass.shader, e.defines ++ s.defines⟩

def layout (e : ScheduledPass) (s : Specialization) : PipelineLayout where
  threads := e.pass.threads
  textures := (e.pass.bindings s).inputs.length
  storageTextures := (e.pass.bindings s).outputs.length
  hasConstants := e.pass.data.hasShared

def args (e : ScheduledPass) : DispatchArgs where
  threads := e.pass.threads
  downsample := e.pass.downsample
  repeats := e.pass.repeats
  data := e.pass.data

def dispatch (e : ScheduledPass) (author : Author) (pipeline : Nat) (bindings : Span) :
    DeclaredDispatch where
  name := author.name ++ " - " ++ e.pass.stage.name
  stage := e.pass.stage
  pipeline := pipeline
  bindings := bindings
  data := e.pass.data
  constantsSize :=
    if e.pass.data.hasShared then author.sharedSize + e.pass.data.extraSize else 0
  threads := e.pass.threads
  downsample := e.pass.downsample
  repeats := e.pass.repeats

-- The pass as it is recorded when its first dispatch is `base`.
def declared (e : ScheduledPass) (base : Nat) : DeclaredPass :=
  ⟨e.pass.stage, e.pass.conditions, base⟩

def dispatchCount : List ScheduledPass → Nat
  | [] => 0
  | e :: es => Specialization.count e.pass.conditions + dispatchCount es

-- The passes one behind the other, each with its first dispatch.
def place (base : Nat) : List ScheduledPass → List (Nat × ScheduledPass)
  | [] => []
  | e :: es => (base, e) :: place (base + Specialization.count e.pass.conditions) es

def recorded (base : Nat) (table : List ScheduledPass) : List DeclaredPass :=
  (place base table).map fun (base, e) => e.declared base

-- The pipelines that a table asks for.
def Asks (table : List ScheduledPass) (pipeline : Pipeline) : Prop :=
  ∃ e ∈ table, ∃ s ∈ Specialization.all e.pass.conditions,
    pipeline = ⟨e.key s, (e.key s).identifier, e.layout s⟩

theorem place_append (base : Nat) (xs ys : List ScheduledPass) :
    place base (xs ++ ys) = place base xs ++ place (base + dispatchCount xs) ys := by
  induction xs generalizing base with
  | nil => simp [place, dispatchCount]
  | cons x xs ih => simp [place, ih, dispatchCount, Nat.add_assoc]

theorem recorded_append (base : Nat) (xs ys : List ScheduledPass) :
    recorded base (xs ++ ys) = recorded base xs ++ recorded (base + dispatchCount xs) ys := by
  simp [recorded, place_append]

theorem dispatchCount_append (xs ys : List ScheduledPass) :
    dispatchCount (xs ++ ys) = dispatchCount xs + dispatchCount ys := by
  induction xs with
  | nil => simp [dispatchCount]
  | cons x xs ih => simp [dispatchCount, ih, Nat.add_assoc]

theorem snd_place (base : Nat) (table : List ScheduledPass) :
    (place base table).map Prod.snd = table := by
  induction table generalizing base with
  | nil => rfl
  | cons e es ih => simp [place, ih]

theorem mem_of_mem_place {base b : Nat} {table : List ScheduledPass} {e : ScheduledPass}
    (h : (b, e) ∈ place base table) : e ∈ table := by
  rw [← snd_place base table]
  exact List.mem_map_of_mem h

theorem exists_mem_place (base : Nat) {table : List ScheduledPass} {e : ScheduledPass}
    (h : e ∈ table) : ∃ b, (b, e) ∈ place base table := by
  rw [← snd_place base table] at h
  obtain ⟨⟨b, e⟩, hmem, rfl⟩ := List.mem_map.mp h
  exact ⟨b, hmem⟩

theorem Asks.mono {xs ys : List ScheduledPass} (h : xs ⊆ ys) {pipeline : Pipeline}
    (hp : Asks xs pipeline) : Asks ys pipeline := by
  obtain ⟨e, he, s, hs, rfl⟩ := hp
  exact ⟨e, h he, s, hs, rfl⟩

end ScheduledPass

-- Tables that grew by pairs with the property `P` and pipelines with the property `Q`.
structure Declarations.Extends (P : SwapPair → Prop) (Q : Pipeline → Prop)
    (old new : Declarations) : Prop where
  pools : new.pools = old.pools
  swaps : Grows P old.swaps.pairs new.swaps.pairs
  bindings : Grows (fun _ => True) old.bindings new.bindings
  dispatches : Grows (fun _ => True) old.dispatches new.dispatches
  pipelines : Grows Q old.pipelines.pipelines new.pipelines.pipelines

namespace Declarations.Extends

variable {P P' : SwapPair → Prop} {Q Q' : Pipeline → Prop} {t t' t'' : Declarations}

theorem refl (t : Declarations) : Extends P Q t t :=
  ⟨rfl, .refl _, .refl _, .refl _, .refl _⟩

theorem trans (h : Extends P Q t t') (h' : Extends P Q t' t'') : Extends P Q t t'' :=
  ⟨h'.pools.trans h.pools, h.swaps.trans h'.swaps, h.bindings.trans h'.bindings,
    h.dispatches.trans h'.dispatches, h.pipelines.trans h'.pipelines⟩

theorem mono (h : Extends P Q t t') (hP : ∀ x, P x → P' x) (hQ : ∀ x, Q x → Q' x) :
    Extends P' Q' t t' :=
  ⟨h.pools, h.swaps.mono hP, h.bindings, h.dispatches, h.pipelines.mono hQ⟩

end Declarations.Extends

-- Dispatch `n` is the one that was built for specialisation `s` of a pass.
def Declarations.Realizes (tables : Declarations) (author : Author) (e : ScheduledPass)
    (s : Specialization) (n : Nat) : Prop :=
  ∃ position span pipeline,
    tables.dispatches[n]? = some (e.dispatch author position span) ∧
    tables.pipelines.pipelines[position]? = some pipeline ∧
    pipeline.identifier = (e.key s).identifier ∧ pipeline.layout = e.layout s ∧
    span.stop ≤ tables.bindings.size ∧
    (span.slice tables.bindings).map some =
      author.claims.bindings tables.swaps (e.pass.bindings s)

theorem Claims.map_binding?_grows {claims : Claims} {P : SwapPair → Prop}
    {swaps swaps' : SwapTable} {access : Access} {refs : List Reference} {bs : List Binding}
    (hg : Grows P swaps.pairs swaps'.pairs)
    (h : bs.map some = refs.map (claims.binding? swaps access)) :
    bs.map some = refs.map (claims.binding? swaps' access) := by
  rw [h]
  refine List.map_congr_left fun r hr => ?_
  have hmem : claims.binding? swaps access r ∈ bs.map some := h ▸ List.mem_map_of_mem hr
  obtain ⟨binding, -, hb⟩ := List.mem_map.mp hmem
  rw [← hb, binding?_grows hg hb.symm]

theorem Claims.bindings_grows {claims : Claims} {P : SwapPair → Prop} {swaps swaps' : SwapTable}
    {b : Bindings} {bs : List Binding} (hg : Grows P swaps.pairs swaps'.pairs)
    (h : bs.map some = claims.bindings swaps b) : bs.map some = claims.bindings swaps' b := by
  unfold bindings at h ⊢
  obtain ⟨xs, ys, rfl, hx, hy⟩ := List.map_eq_append_iff.mp h
  rw [List.map_append, map_binding?_grows hg hx, map_binding?_grows hg hy]

-- A dispatch stays what it is however the tables grow.
theorem Declarations.Realizes.extends {P : SwapPair → Prop} {Q : Pipeline → Prop}
    {t t' : Declarations} {author : Author} {e : ScheduledPass} {s : Specialization} {n : Nat}
    (h : t.Realizes author e s n) (ht : Extends P Q t t') : t'.Realizes author e s n := by
  obtain ⟨position, span, pipeline, hdispatch, hpipeline, hid, hlayout, hspan, hbindings⟩ := h
  refine ⟨position, span, pipeline, ht.dispatches.getElem? hdispatch,
    ht.pipelines.getElem? hpipeline, hid, hlayout, Nat.le_trans hspan ht.bindings.size_le, ?_⟩
  rw [ht.bindings.slice hspan]
  exact Claims.bindings_grows ht.swaps hbindings

end DenoisePlanner
