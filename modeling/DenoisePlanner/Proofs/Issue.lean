import DenoisePlanner.Proofs.Multiplicity
import DenoisePlanner.Proofs.Room
import DenoisePlanner.Proofs.Share
import Mathlib.Data.List.Forall2

namespace DenoisePlanner

-- The accesses that the ranges of a pipeline announce, one for each binding.
def PipelineLayout.accesses (l : PipelineLayout) : List Access :=
  l.ranges.flatMap fun range => List.replicate range.count range.access

theorem PipelineLayout.accesses_eq (l : PipelineLayout) :
    l.accesses = List.replicate l.textures .read ++ List.replicate l.storageTextures .write := by
  have hfilter (ranges : List ResourceRange) :
      (ranges.filter (0 < ·.count)).flatMap (fun r => List.replicate r.count r.access) =
        ranges.flatMap fun r => List.replicate r.count r.access := by
    induction ranges with
    | nil => rfl
    | cons r rs ih =>
      by_cases hr : 0 < r.count
      · rw [List.filter_cons_of_pos (by simpa using hr), List.flatMap_cons, List.flatMap_cons, ih]
      · have hzero : r.count = 0 := by omega
        rw [List.filter_cons_of_neg (by simpa using hr), List.flatMap_cons, ih, hzero]
        rfl
  rw [accesses, ranges, hfilter]
  simp

theorem Claims.map_access_allBound (claims : Claims) (flipped : Bool) (b : Bindings) :
    (claims.allBound flipped b).map BoundResource.access =
      List.replicate b.inputs.length .read ++ List.replicate b.outputs.length .write := by
  have hside (access : Access) (refs : List Reference) :
      (refs.map (claims.bound flipped access)).map BoundResource.access =
        List.replicate refs.length access := by
    rw [List.map_map]
    exact List.map_const'
  rw [allBound, List.map_append, hside, hside]

namespace Declarations

variable {tables : Declarations} {v : Variant} {claims : Claims} {e : ScheduledPass}
  {s : Specialization} {n : Nat} {declared : DeclaredDispatch}

theorem constantsSize_le (hdeclared : tables.dispatches[n]? = some declared) :
    declared.constantsSize ≤ tables.maxConstantsSize := by
  have hle (l : List DeclaredDispatch) (init : Nat) :
      init ≤ l.foldl (fun size x => max size x.constantsSize) init ∧
        ∀ x ∈ l, x.constantsSize ≤ l.foldl (fun size x => max size x.constantsSize) init := by
    induction l generalizing init with
    | nil => exact ⟨Nat.le_refl _, fun _ hx => absurd hx List.not_mem_nil⟩
    | cons y ys ih =>
      obtain ⟨hinit, hrest⟩ := ih (max init y.constantsSize)
      rw [List.foldl_cons]
      refine ⟨by omega, fun x hx => ?_⟩
      rcases List.mem_cons.mp hx with rfl | hx
      · omega
      · exact hrest x hx
  rw [maxConstantsSize, ← Array.foldl_toList]
  exact (hle _ 0).2 declared (Array.mem_toList_iff.mpr (Array.mem_of_getElem? hdeclared))

-- A declared dispatch binds what its pipeline announces, and has constants if the pipeline has.
structure Suits (tables : Declarations) (declared : DeclaredDispatch) : Prop where
  pipeline : ∃ pipeline, tables.pipelines.pipelines[declared.pipeline]? = some pipeline
  accesses : (tables.resources declared).map BoundResource.access =
    (tables.layoutOf declared).accesses
  constants : 0 < declared.constantsSize ↔ (tables.layoutOf declared).hasConstants = true

theorem Realizes.layoutOf_eq (h : tables.Realizes (v.author claims) e s n)
    (hdeclared : tables.dispatches[n]? = some declared) : tables.layoutOf declared = e.layout s := by
  obtain ⟨position, span, pipeline, hdispatch, hpipeline, -, hlayout, -⟩ := h
  obtain rfl := Option.some.inj (hdispatch.symm.trans hdeclared)
  have hget : tables.pipelines.pipelines[(e.dispatch (v.author claims) position span).pipeline]? =
      some pipeline := hpipeline
  simp only [layoutOf, hget, hlayout]

theorem Realizes.suits {flipped : Bool} (h : tables.Realizes (v.author claims) e s n)
    (hphase : claims.InPhase tables.swaps flipped)
    (hdeclared : tables.dispatches[n]? = some declared) : tables.Suits declared := by
  have hlayoutOf := h.layoutOf_eq hdeclared
  obtain ⟨position, span, pipeline, hdispatch, hpipeline, -, -, -, hbindings⟩ := h
  obtain rfl := Option.some.inj (hdispatch.symm.trans hdeclared)
  refine ⟨⟨pipeline, hpipeline⟩, ?_, ?_⟩
  · have hresources : tables.resources (e.dispatch (v.author claims) position span) =
        claims.allBound flipped (e.pass.bindings s) := Claims.resolve_bindings hphase hbindings
    rw [hresources, hlayoutOf, Claims.map_access_allBound, PipelineLayout.accesses_eq]
    rfl
  · rw [hlayoutOf]
    have hshared : 0 < v.family.sharedSize := by cases v.family <;> decide
    change 0 < (if e.pass.data.hasShared then v.family.sharedSize + e.pass.data.extraSize else 0) ↔
      e.pass.data.hasShared = true
    split
    · exact iff_of_true (by omega) ‹_›
    · exact iff_of_false (Nat.lt_irrefl 0) ‹_›

end Declarations

-- How many textures a dispatch binds for a given access.
def Dispatch.boundFor (x : Dispatch) (access : Access) : Nat :=
  (x.resources.map BoundResource.access).count access

-- A dispatch of a frame keeps to what the inventory says.
structure Dispatch.Conforms (x : Dispatch) (inventory : Inventory) : Prop where
  constants_le : x.constants.size ≤ inventory.maxConstantsSize
  pipeline : ∃ compiled, inventory.pipelines[x.pipeline]? = some compiled ∧
    (0 < x.constants.size ↔ compiled.pipeline.layout.hasConstants = true) ∧
    x.resources.map BoundResource.access = compiled.pipeline.layout.accesses

namespace Planner

variable {p : Planner} {store : ShaderStore} {flipped : Nat → Bool} {i n : Nat}
  {d : DenoiserState} {x : Dispatch} {declared : DeclaredDispatch}

-- A dispatch of a frame is a declared one, bound as the tables have it.
structure Issues (p : Planner) (declared : DeclaredDispatch) (x : Dispatch) : Prop where
  name : x.name = declared.name
  stage : x.stage = declared.stage
  pipeline : p.inventory.pipelines[x.pipeline]? = p.inventory.pipelines[declared.pipeline]?
  resources : x.resources = p.tables.resources declared
  constants : x.constants.size = declared.constantsSize
  downsample : x.downsample = declared.downsample
  repeats : x.repeats = declared.repeats

-- The same of the declared dispatch at a position.
def IssuesAt (p : Planner) (n : Nat) (x : Dispatch) : Prop :=
  ∃ declared, p.tables.dispatches[n]? = some declared ∧ p.Issues declared x

theorem Sound.exists_realizes (h : p.Sound store flipped) (hlasting : p.Lasting store)
    (hdeclared : p.tables.dispatches[n]? = some declared) :
    ∃ (i : Nat) (d : DenoiserState), p.denoisers[i]? = some d ∧
      ∃ e ∈ d.variant.blueprint.schedule, ∃ s ∈ Specialization.all e.pass.conditions,
        p.tables.Realizes (d.variant.author d.layout.claims) e s n := by
  have hlt := (Array.getElem?_eq_some_iff.mp hdeclared).1
  obtain ⟨m, hm, hwithin⟩ := hlasting.tiled.exists_within (Nat.zero_le n) hlt
  obtain ⟨d, hd, rfl⟩ := List.mem_map.mp hm
  obtain ⟨i, hi⟩ := Array.getElem?_of_mem (Array.mem_toList_iff.mp hd)
  have hinstalled := h.roster.installed i d hi
  obtain ⟨w, hw, hwithin⟩ := hinstalled.tiles_passes.exists_within hwithin.1 hwithin.2
  obtain ⟨e, he, s, hs, -, hrealizes⟩ := hinstalled.exists_realizes hw hwithin
  exact ⟨i, d, hi, e, he, s, hs, hrealizes⟩

theorem Sound.suits (h : p.Sound store flipped) (hlasting : p.Lasting store)
    (hdeclared : p.tables.dispatches[n]? = some declared) : p.tables.Suits declared := by
  obtain ⟨i, d, hi, e, -, s, -, hrealizes⟩ := h.exists_realizes hlasting hdeclared
  exact hrealizes.suits (h.roster.installed i d hi).inPhase hdeclared

theorem Sound.issuesAt (h : p.Sound store flipped) (hi : p.denoisers[i]? = some d)
    {em : Emission (Nat × ScheduledPass)} (hem : em ∈ d.placements p.settings)
    (hx : p.outline x = d.outline p.settings store (flipped i) (em.map Prod.snd)) :
    p.IssuesAt (em.map fun y => y.2.declared y.1).selected.dispatch x := by
  have hplace := Emission.pass_mem_of_mem_all hem
  obtain ⟨⟨base, e⟩, active, atrous⟩ := em
  have hinstalled := h.roster.installed i d hi
  have he : e ∈ d.variant.blueprint.schedule := ScheduledPass.mem_of_mem_place hplace
  obtain ⟨position, span, pipeline, hdispatch, hpipeline, hid, hlayout, -, hbindings⟩ :=
    hinstalled.realizes base e hplace _ (Specialization.select_mem_all _ active)
  have hcompiled := h.pipeline_eq he hpipeline hid hlayout
  refine ⟨_, hdispatch, ⟨congrArg Outline.name hx, congrArg Outline.stage hx, ?_, ?_, ?_,
    congrArg Outline.downsample hx, congrArg Outline.repeats hx⟩⟩
  · exact (congrArg Outline.pipeline hx).trans hcompiled.symm
  · exact (congrArg Outline.resources hx).trans
      (Claims.resolve_bindings hinstalled.inPhase hbindings).symm
  · have hfamily : d.settings.family = d.variant.family := h.roster.family i d hi
    have hconstants : x.constants =
      (d.outline p.settings store (flipped i) ⟨e, active, atrous⟩).constants :=
        congrArg Outline.constants hx
    rw [hconstants, d.size_constants, hfamily]
    rfl

-- The dispatches of a denoiser are those that the selector picks, one by one.
theorem Sound.issues_share (h : p.Sound store flipped) {frame : Frame}
    (hshares : p.Shares store flipped frame i d) :
    List.Forall₂ p.IssuesAt (p.picksOf d.identifier) (frame.share d.identifier) := by
  have hi := hshares.denoiser
  have houtlines := hshares.outlines
  rw [d.emissions_eq_placements, List.map_map] at houtlines
  rw [h.picksOf_eq hi, DenoiserState.picks, h.select_eq hi, List.map_map,
    List.forall₂_map_left_iff]
  exact forall₂_of_map_eq houtlines fun em hem x hx => h.issuesAt hi hem hx

theorem Sound.issues_frame (h : p.Sound store flipped) {policy : MemoryPolicy}
    {identifiers : List Identifier} {frame : Frame}
    (hframe : (p.frame policy identifiers).result = .ok frame) :
    List.Forall₂ p.IssuesAt (p.picks identifiers) frame.dispatches := by
  obtain ⟨-, hdispatches, hshares⟩ := h.frame_shares hframe
  have hissues : List.Forall₂ (fun x y => List.Forall₂ p.IssuesAt (p.picksOf x) (frame.share y))
      identifiers identifiers := by
    refine List.forall₂_same.mpr fun identifier hmem => ?_
    obtain ⟨i, d, rfl, hshare⟩ := hshares identifier hmem
    exact h.issues_share hshare
  rw [hdispatches]
  exact List.rel_flatMap hissues fun _ _ hxy => hxy

-- What a declared dispatch agrees with, its issues agree with.
theorem Sound.conforms (h : p.Sound store flipped) (hlasting : p.Lasting store)
    (hx : p.IssuesAt n x) : x.Conforms p.inventory := by
  obtain ⟨declared, hdeclared, hissues⟩ := hx
  have hsuits := h.suits hlasting hdeclared
  obtain ⟨pipeline, hpipeline⟩ := hsuits.pipeline
  have hlayout : p.tables.layoutOf declared = pipeline.layout := by
    simp only [Declarations.layoutOf, hpipeline]
  have hcompiled : p.inventory.pipelines[x.pipeline]? =
      some ⟨pipeline, store.bytecode pipeline.key⟩ := by
    rw [hissues.pipeline, h.inventory, Array.getElem?_map, hpipeline]
    rfl
  refine ⟨?_, _, hcompiled, ?_, ?_⟩
  · rw [hissues.constants, hlasting.inventory]
    exact Declarations.constantsSize_le hdeclared
  · rw [hissues.constants, hsuits.constants, hlayout]
  · rw [hissues.resources, hsuits.accesses, hlayout]

end Planner

end DenoisePlanner
