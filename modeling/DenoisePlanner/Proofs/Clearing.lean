import DenoisePlanner.Proofs.Phase
import DenoisePlanner.Proofs.Scenes

namespace DenoisePlanner

-- The textures of a denoiser are those that its blueprint asked for.
def DenoiserState.Stocked (d : DenoiserState) (permanent : Array Texture) : Prop :=
  ∀ k texture, d.variant.blueprint.permanent[k]? = some texture →
    permanent[d.layout.claims.base + k]? = some texture

namespace Roster

variable {r r' : Roster} {identifier : Identifier} {v : Variant}

theorem enlist_stocked (h : r.Sound fun _ => false)
    (hstocked : ∀ d ∈ r.denoisers, d.Stocked r.tables.pools.permanent)
    (henlist : enlist identifier v r = .ok ⟨⟩ r') :
    ∀ d ∈ r'.denoisers, d.Stocked r'.tables.pools.permanent := by
  obtain ⟨-, layout, tables, hadd, rfl⟩ := exists_of_enlist henlist
  obtain ⟨transient, hext, -, hbase, -⟩ := Declarations.addVariant_ok h.room h.pairs hadd
  intro d hd k texture hk
  rw [hext.pools]
  rcases Array.mem_push.mp hd with hd | rfl
  · have hold := hstocked d hd k texture hk
    rwa [Array.getElem?_append_left (Array.getElem?_eq_some_iff.mp hold).1]
  · rw [hbase, Array.getElem?_append_right (Nat.le_add_right ..), Nat.add_sub_cancel_left]
    simpa using hk

theorem enlistAll_stocked {denoisers : List (Identifier × Variant)}
    (h : enlistAll denoisers {} = .ok ⟨⟩ r) :
    ∀ d ∈ r.denoisers, d.Stocked r.tables.pools.permanent := by
  refine (Declaring.forM_ok (P := fun _ r => (r.Sound fun _ => false) ∧
    ∀ d ∈ r.denoisers, d.Stocked r.tables.pools.permanent) ?_ ⟨.empty, by simp⟩ h).2
  rintro done ⟨identifier, v⟩ r₁ r₂ ⟨hsound, hstocked⟩ henlist
  exact ⟨(enlist_ok hsound henlist).1, enlist_stocked hsound hstocked henlist⟩

end Roster

theorem Planner.create_stocked {denoisers : List (Identifier × Variant)} {store : ShaderStore}
    {p : Planner} (h : (create denoisers store).result = .ok p) :
    ∀ d ∈ p.denoisers, d.Stocked p.inventory.permanent := by
  unfold create at h
  split at h
  · cases h
  · split at h
    · cases h
    · rename_i tables members henlist
      cases h
      exact Roster.enlistAll_stocked henlist

namespace Variant

-- The split screen shows textures of the host.
theorem splitScreen_reads (v : Variant) (flipped : Bool) : ∀ pass ∈ v.blueprint.passes,
    pass.stage = .splitScreen → ∀ s ∈ Specialization.all pass.conditions,
      ∀ r ∈ (pass.bindings s).inputs, (r.location flipped).permanent? = none := by
  cases v <;> cases flipped <;> decide +kernel

end Variant

namespace Turn

-- The resource has not the size that it had when the denoiser last denoised.
def Resizes (past : List Turn) (t : Turn) : Prop :=
  t.denoises = true ∧
    ∃ last, last? past = some last ∧ last.settings.resourceSize ≠ t.settings.resourceSize

-- The resource keeps its size from here on.
def Settled (past turns : List Turn) : Prop :=
  ∀ before t after, turns = before ++ t :: after → ¬t.Resizes (past ++ before)

-- The texture has been written, by one of the dispatches before or since the resource has its size.
def Defines (past : List Turn) (now : Turn) (before : List Dispatch)
    (texture : ResourceKind × Nat) : Prop :=
  (∃ y ∈ before, texture ∈ y.writes) ∨
    ∃ older t newer, past = older ++ t :: newer ∧ Settled (older ++ [t]) (newer ++ [now]) ∧
      ∃ y ∈ t.dispatches, texture ∈ y.writes

end Turn

namespace Planner

-- The dispatch does nothing but clear a permanent texture, as its format asks for.
structure Clears (p : Planner) (n : Nat) (x : Dispatch) : Prop where
  stage : x.stage = .clear
  reads : x.reads = []
  writes : x.writes = [(.permanentPool, n)]
  shader : ∃ texture pipeline, p.inventory.permanent[n]? = some texture ∧
    p.inventory.pipelines[x.pipeline]? = some pipeline ∧
    pipeline.pipeline.key = ⟨if texture.format.isInteger then "Clear_ui" else "Clear_f", []⟩

variable {p : Planner} {store : ShaderStore} {d : DenoiserState} {s : Standing} {t now : Turn}
  {past later before after : List Turn} {n : Nat}

section Clears

variable {x : Dispatch}

theorem Takes.snapshot_eq (h : p.Takes store d (past.foldl Standing.next .fresh) t) :
    t.denoiser.snapshot = (Turn.last? past).map Turn.snapshot := by
  rw [h.snapshot, Standing.foldl_next]
  simp [Standing.fresh]

-- The textures are cleared when there is no history, and when the resource changes its size.
theorem Takes.clears_of_first (h : p.Takes store d (past.foldl Standing.next .fresh) t)
    (hdenoises : t.denoises = true) (hfirst : Turn.last? past = none) : t.clears = true := by
  have hsnapshot := h.snapshot_eq
  rw [hfirst] at hsnapshot
  simp [Turn.clears, hdenoises, DenoiserState.isCleared, hsnapshot]

theorem Takes.clears_of_resizes (h : p.Takes store d (past.foldl Standing.next .fresh) t)
    (hresizes : t.Resizes past) : t.clears = true := by
  obtain ⟨hdenoises, last, hlast, hsize⟩ := hresizes
  have hsnapshot := h.snapshot_eq
  rw [hlast] at hsnapshot
  simp [Turn.clears, hdenoises, DenoiserState.isCleared, hsnapshot, Turn.snapshot, hsize]

theorem Takes.exists_wipes (h : p.Takes store d s t) (hclears : t.clears = true) :
    ∃ rest, t.emissions =
        d.variant.blueprint.permanent.mapIdx (t.denoiser.wipe t.settings) ++ rest ∧
      ∀ em ∈ rest, em.pass.stage ≠ .clear := by
  obtain ⟨hdenoises, hcleared⟩ := Bool.and_eq_true_iff.mp hclears
  obtain ⟨rest, hemissions, hrest⟩ := DenoiserState.exists_emissions_eq hdenoises
  rw [if_pos hcleared, h.variant] at hemissions
  exact ⟨rest, hemissions, hrest⟩

theorem clears_of_outline_eq (hstocked : d.Stocked p.inventory.permanent) (h : p.Takes store d s t)
    {k : Nat} {texture : Texture} (hk : d.variant.blueprint.permanent[k]? = some texture)
    (hx : p.outline x =
      t.denoiser.outline t.settings store s.flipped (t.denoiser.wipe t.settings k texture)) :
    p.Clears (d.layout.claims.base + k) x where
  stage := congrArg Outline.stage hx
  reads := reads_of_outline_eq hx
  writes := h.layout ▸ writes_of_outline_eq hx
  shader := ⟨texture, _, hstocked k texture hk, congrArg Outline.pipeline hx, rfl⟩

-- A frame with clears begins with them, one for each texture.
theorem Takes.exists_clears (hstocked : d.Stocked p.inventory.permanent) (h : p.Takes store d s t)
    (hclears : t.clears = true) :
    ∃ clears rest, t.dispatches = clears ++ rest ∧ (∀ x ∈ rest, x.stage ≠ .clear) ∧
      List.Forall₂ p.Clears
        (List.range' d.layout.claims.base d.layout.claims.permanentCount) clears := by
  obtain ⟨rest, hemissions, hrest⟩ := h.exists_wipes hclears
  have houtlines := h.outlines
  rw [hemissions, List.map_append] at houtlines
  obtain ⟨clears, others, hdispatches, hwipes, hothers⟩ := List.map_eq_append_iff.mp houtlines
  refine ⟨clears, others, hdispatches, fun x hx hstage => ?_, ?_⟩
  · have hmem := List.mem_map_of_mem (f := p.outline) hx
    rw [hothers] at hmem
    obtain ⟨em, hem, heq⟩ := List.mem_map.mp hmem
    exact hrest em hem ((congrArg Outline.stage heq).trans hstage)
  · obtain ⟨tables, hinstalled⟩ := h.installed
    have hlength := congrArg List.length hwipes
    rw [List.length_map, List.length_map, List.length_mapIdx, ← hinstalled.permanentCount] at hlength
    refine List.forall₂_iff_get.mpr ⟨by simp [hlength], fun k hk hk' => ?_⟩
    have hk : k < d.variant.blueprint.permanent.length := by
      rw [← hinstalled.permanentCount, ← hlength]
      exact hk'
    have hx : p.outline clears[k] = t.denoiser.outline t.settings store s.flipped
        (t.denoiser.wipe t.settings k d.variant.blueprint.permanent[k]) := by
      simpa [hk, hk'] using congrArg (·[k]?) hwipes
    simpa using clears_of_outline_eq hstocked h (List.getElem?_eq_getElem hk) hx

end Clears

section Defines

variable {x y : Dispatch} {k : Nat} {texture : Texture} {pre post : List Dispatch}

-- So they leave none of the textures out, and no reader is among them.
theorem Takes.exists_wipe_split (h : p.Takes store d s t) (hclears : t.clears = true)
    (hk : k < d.layout.claims.permanentCount) :
    ∃ as texture bs, t.emissions = as ++ t.denoiser.wipe t.settings k texture :: bs ∧
      ∀ em ∈ as ++ [t.denoiser.wipe t.settings k texture], em.bindings.inputs = [] := by
  obtain ⟨tables, hinstalled⟩ := h.installed
  rw [hinstalled.permanentCount] at hk
  obtain ⟨rest, hemissions, -⟩ := h.exists_wipes hclears
  obtain ⟨as, bs, hwipes⟩ := List.append_of_mem (List.mem_mapIdx.mpr ⟨k, hk, rfl⟩)
  refine ⟨as, _, bs ++ rest, by rw [hemissions, hwipes, List.append_assoc, List.cons_append],
    fun em hem => ?_⟩
  have hem : em ∈ d.variant.blueprint.permanent.mapIdx (t.denoiser.wipe t.settings) := by
    rw [hwipes, List.append_cons]
    exact List.mem_append_left _ hem
  obtain ⟨i, hi, rfl⟩ := List.mem_mapIdx.mp hem
  rfl

theorem Takes.mem_writes_of_wipe (h : p.Takes store d s t)
    (hy : t.Emits (t.denoiser.wipe t.settings k texture) y) :
    (.permanentPool, d.layout.claims.base + k) ∈ y.writes := by
  rw [h.writes_eq hy]
  exact List.mem_singleton_self _

theorem Takes.exists_clear_before (h : p.Takes store d s t) (hclears : t.clears = true)
    (hk : k < d.layout.claims.permanentCount) (hsplit : t.dispatches = pre ++ x :: post)
    (hreads : x.reads ≠ []) : ∃ y ∈ pre, (.permanentPool, d.layout.claims.base + k) ∈ y.writes := by
  obtain ⟨before, em, after, hemissions, hx, hbefore⟩ := h.exists_split hsplit
  obtain ⟨as, texture, bs, hwipes, hinputs⟩ := h.exists_wipe_split hclears hk
  have hem : em.bindings.inputs ≠ [] := by
    intro hnil
    rw [h.reads_eq hx, hnil] at hreads
    exact hreads rfl
  obtain ⟨y, hy, hwipe⟩ := hbefore _ (mem_left_of_split (hemissions.symm.trans hwipes) hem
    fun c hc => not_not_intro (hinputs c hc))
  exact ⟨y, hy, h.mem_writes_of_wipe hwipe⟩

theorem Takes.exists_clear (h : p.Takes store d s t) (hclears : t.clears = true)
    (hk : k < d.layout.claims.permanentCount) :
    ∃ y ∈ t.dispatches, (.permanentPool, d.layout.claims.base + k) ∈ y.writes := by
  obtain ⟨as, texture, bs, hwipes, -⟩ := h.exists_wipe_split hclears hk
  obtain ⟨y, hy, hwipe⟩ := h.exists_dispatch
    (hwipes ▸ List.mem_append_right _ List.mem_cons_self)
  exact ⟨y, hy, h.mem_writes_of_wipe hwipe⟩

-- Only a frame that denoises reads permanent textures, and only those of its denoiser.
theorem Takes.exists_of_reads (h : p.Takes store d s t) (hx : x ∈ t.dispatches)
    (hreads : (.permanentPool, n) ∈ x.reads) :
    t.denoises = true ∧ ∃ k < d.layout.claims.permanentCount, n = d.layout.claims.base + k := by
  obtain ⟨em, -, hx⟩ := h.exists_emission hx
  rw [h.reads_eq hx] at hreads
  obtain ⟨r, hr, htexture⟩ := List.mem_map.mp hreads
  obtain ⟨k, hk, hpermanent, rfl⟩ := h.permanent?_eq hx (List.mem_append_left _ hr) htexture
  refine ⟨Turn.denoises_of_stage_ne hx fun hstage => ?_, k, hk, rfl⟩
  have hpass := Blueprint.pass_mem_of_mem_schedule (h.pass_mem hx)
    (hstage ▸ Stage.noConfusion)
  have hnone := d.variant.splitScreen_reads s.flipped _ hpass hstage _
    (Specialization.select_mem_all _ em.active) r hr
  rw [hnone] at hpermanent
  cases hpermanent

-- The first frame that denoises clears the textures, so a last one does.
theorem exists_last_clear (hpast : ∀ before t after, past = before ++ t :: after →
      p.Takes store d (before.foldl Standing.next .fresh) t) (hlast : Turn.last? past ≠ none) :
    ∃ older t newer, past = older ++ t :: newer ∧ t.clears = true ∧
      ∀ u ∈ newer, u.clears = false := by
  induction past using List.reverseRecOn with
  | nil => exact absurd rfl hlast
  | append_singleton past t ih =>
    cases hclears : t.clears with
    | true => exact ⟨past, t, [], rfl, hclears, by simp⟩
    | false =>
      have hbefore : Turn.last? past ≠ none := by
        intro hnone
        have hdenoises : t.denoises = true := by
          by_contra hpasses
          exact hlast (by simpa [Turn.last?, hpasses] using hnone)
        rw [(hpast past t [] rfl).clears_of_first hdenoises hnone] at hclears
        cases hclears
      obtain ⟨older, u, newer, rfl, hu, hnewer⟩ :=
        ih (fun before u after hsplit => hpast before u (after ++ [t]) (by simp [hsplit])) hbefore
      refine ⟨older, u, newer ++ [t], by simp, hu, fun w hw => ?_⟩
      rcases List.mem_append.mp hw with hw | hw
      · exact hnewer w hw
      · exact List.mem_singleton.mp hw ▸ hclears

-- Where nothing is cleared, the resource keeps its size.
theorem settled_of_kept {older turns : List Turn}
    (hturns : ∀ before t after, turns = before ++ t :: after →
      p.Takes store d ((older ++ before).foldl Standing.next .fresh) t)
    (hkept : ∀ t ∈ turns, t.clears = false) : Turn.Settled older turns := by
  intro before t after hsplit hresizes
  have ht := hkept t (hsplit ▸ List.mem_append_right _ List.mem_cons_self)
  rw [(hturns before t after hsplit).clears_of_resizes hresizes] at ht
  cases ht

end Defines

variable {requests : List Request}

-- No permanent texture is read before it is written, and none goes by with what a resource of
-- another size has left in it. A frame with clears begins with them and clears each texture once.
theorem defines_and_clears {denoisers : List (Identifier × Variant)}
    (hcreate : (create denoisers store).result = .ok p) (hlasts : p.Lasts requests)
    (hd : d ∈ p.denoisers) (hturns : p.turns d.identifier requests = past ++ now :: later) :
    (∀ before x after n, now.dispatches = before ++ x :: after → (.permanentPool, n) ∈ x.reads →
      d.layout.claims.Owns n ∧ now.Defines past before (.permanentPool, n)) ∧
    ((∃ x ∈ now.dispatches, x.stage = .clear) →
      ∃ clears rest, now.dispatches = clears ++ rest ∧ (∀ x ∈ rest, x.stage ≠ .clear) ∧
        List.Forall₂ p.Clears
          (List.range' d.layout.claims.base d.layout.claims.permanentCount) clears) := by
  have htakes (before : List Turn) (t : Turn) (after : List Turn)
      (hsplit : past ++ [now] = before ++ t :: after) :
      p.Takes store d (before.foldl Standing.next .fresh) t := by
    have hturns' : p.turns d.identifier requests = before ++ t :: (after ++ later) := by
      rw [hturns, List.append_cons, hsplit, List.append_assoc, List.cons_append]
    exact takes_of_turns_eq hcreate hlasts hd hturns'
  have h := htakes past now [] rfl
  refine ⟨fun before x after n hsplit hreads => ?_, fun hclear => ?_⟩
  · have hx : x ∈ now.dispatches := hsplit ▸ List.mem_append_right _ List.mem_cons_self
    obtain ⟨hdenoises, k, hk, rfl⟩ := h.exists_of_reads hx hreads
    refine ⟨Claims.owns_base_add hk, ?_⟩
    cases hclears : now.clears with
    | true => exact .inl (h.exists_clear_before hclears hk hsplit (List.ne_nil_of_mem hreads))
    | false =>
      have hlast : Turn.last? past ≠ none := fun hfirst => by
        rw [h.clears_of_first hdenoises hfirst] at hclears
        cases hclears
      obtain ⟨older, t, newer, rfl, ht, hnewer⟩ := exists_last_clear
        (fun before t after hpast => htakes before t (after ++ [now]) (by simp [hpast])) hlast
      have hwritten := (htakes older t (newer ++ [now]) (by simp)).exists_clear ht hk
      have hsettled : Turn.Settled (older ++ [t]) (newer ++ [now]) := settled_of_kept
        (fun before u after hrest => htakes (older ++ [t] ++ before) u after (by simp [← hrest]))
        (List.forall_mem_append.mpr ⟨hnewer, List.forall_mem_singleton.mpr hclears⟩)
      exact .inr ⟨older, t, newer, rfl, hsettled, hwritten⟩
  · exact h.exists_clears (create_stocked hcreate d hd) (h.exists_clear_iff.mp hclear)

-- The first of two frames of plain averaging clears what the second one reads.
theorem defines_and_clears_averaging : ∃ p, ∃ d ∈ p.denoisers, ∃ prev now : Turn,
    (create shadowAndReference fun _ _ => none).result = .ok p ∧ p.Lasts averaging ∧
      p.turns d.identifier averaging = [] ++ prev :: [now] ∧
      p.turns d.identifier averaging = [prev] ++ now :: [] ∧
      (∃ clears rest, prev.dispatches = clears ++ rest ∧ (∀ x ∈ rest, x.stage ≠ .clear) ∧
        List.Forall₂ p.Clears
          (List.range' d.layout.claims.base d.layout.claims.permanentCount) clears) ∧
      ∃ before x after n, now.dispatches = before ++ x :: after ∧ (.permanentPool, n) ∈ x.reads ∧
        d.layout.claims.Owns n ∧ now.Defines [prev] before (.permanentPool, n) := by
  obtain ⟨p, d, hd, prev, now, hcreate, hvariant, hlasts, hturns, hprev, hnow⟩ := exists_averaging
  have hfirst : p.turns d.identifier averaging = [] ++ prev :: [now] := hturns
  have hsecond : p.turns d.identifier averaging = [prev] ++ now :: [] := hturns
  have h := takes_of_turns_eq hcreate hlasts hd hfirst
  have h' := takes_of_turns_eq hcreate hlasts hd hsecond
  obtain ⟨-, x, hx, n, -, -, -, -, hread⟩ := h'.exists_average hvariant hnow
  obtain ⟨before, after, hdispatches⟩ := List.append_of_mem hx
  exact ⟨p, d, hd, prev, now, hcreate, hlasts, hfirst, hsecond,
    (defines_and_clears hcreate hlasts hd hfirst).2
      (h.exists_clear_iff.mpr (h.clears_of_first hprev rfl)),
    before, x, after, n, hdispatches, hread,
    (defines_and_clears hcreate hlasts hd hsecond).1 before x after n hdispatches hread⟩

end Planner

end DenoisePlanner
