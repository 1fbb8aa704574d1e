import DenoisePlanner.Proofs.Identifier
import Mathlib.Data.List.Induction

namespace DenoisePlanner

-- The pipeline at a position that is taken.
def PipelineTable.entry (t : PipelineTable) (i : Fin t.pipelines.size) : Pipeline :=
  getElem t.pipelines i.val i.isLt

-- What a dispatch is declared with: its shader, and what the shader expects to be bound.
structure DispatchOrder where
  key : ShaderKey
  layout : PipelineLayout
  deriving DecidableEq

namespace Declarations

variable {t t' : Declarations} {orders : List DispatchOrder} {key : ShaderKey}
  {layout : PipelineLayout}

theorem addPipeline_of_find? {i : Fin t.pipelines.pipelines.size}
    (h : t.pipelines.find? key.identifier = some i) :
    addPipeline key layout t =
      if (t.pipelines.entry i).layout = layout then .ok i t
      else .error
        (.mismatchedBindings key.identifier (t.pipelines.entry i).layout layout) t := by
  unfold addPipeline
  dsimp only
  split
  · rename_i j hfound
    cases h.symm.trans hfound
    rfl
  · rename_i hnone
    cases h.symm.trans hnone

theorem addPipeline_of_new (h : t.pipelines.find? key.identifier = none) :
    addPipeline key layout t =
      if PipelineTable.capacity ≤ t.pipelines.size then .error .tooManyPipelines t
      else .ok t.pipelines.size
        { t with
          pipelines := t.pipelines.push ⟨key, key.identifier, layout⟩ h
          journal := t.journal.push (.pipelineDeclared t.pipelines.size key.identifier) } := by
  unfold addPipeline
  dsimp only
  split
  · rename_i j hfound
    cases h.symm.trans hfound
  · rfl

theorem addPipeline_mismatched_iff {identifier : String} {expected given : PipelineLayout} :
    addPipeline key layout t = .error (.mismatchedBindings identifier expected given) t' ↔
      (∃ i, t.pipelines.find? key.identifier = some i ∧
        (t.pipelines.entry i).layout = expected) ∧
      identifier = key.identifier ∧ given = layout ∧ expected ≠ given ∧ t' = t := by
  cases hfind : t.pipelines.find? key.identifier with
  | none =>
    rw [addPipeline_of_new hfind]
    refine iff_of_false ?_ (by simp)
    split <;> exact fun h => by cases h
  | some i =>
    rw [addPipeline_of_find? hfind]
    constructor
    · intro h
      split at h
      · cases h
      · rename_i hlayout
        cases h
        exact ⟨⟨i, rfl, rfl⟩, rfl, rfl, hlayout, rfl⟩
    · rintro ⟨⟨_, ⟨⟩, rfl⟩, rfl, rfl, hlayout, rfl⟩
      rw [if_neg hlayout]

-- A dispatch has the pipeline that it was declared with.
def Fills (t : Declarations) (n : Nat) (order : DispatchOrder) : Prop :=
  ∃ dispatch pipeline, t.dispatches[n]? = some dispatch ∧
    t.pipelines.pipelines[dispatch.pipeline]? = some pipeline ∧
    pipeline.key = order.key ∧ pipeline.layout = order.layout

-- The dispatches are those that were ordered, and there are no pipelines but theirs.
structure Fulfils (t : Declarations) (orders : List DispatchOrder) : Prop where
  plain : ∀ order ∈ orders, order.key.Plain
  size : t.dispatches.size = orders.length
  fills : ∀ (n : Nat) order, orders[n]? = some order → t.Fills n order
  keys : t.pipelines.pipelines.toList.map Pipeline.key =
    (orders.map DispatchOrder.key).eraseDups
  identified : ∀ p ∈ t.pipelines.pipelines, p.identifier = p.key.identifier

namespace Fulfils

theorem empty : Fulfils {} [] where
  plain order h := by cases h
  size := rfl
  fills n order h := by cases h
  keys := rfl
  identified p h := absurd h (Array.not_mem_empty p)

theorem exists_order (h : t.Fulfils orders) {p : Pipeline} (hp : p ∈ t.pipelines.pipelines) :
    ∃ order ∈ orders, order.key = p.key := by
  have hkey := List.mem_map_of_mem (f := Pipeline.key) (Array.mem_toList_iff.mpr hp)
  rw [h.keys, List.mem_eraseDups] at hkey
  exact List.mem_map.mp hkey

theorem exists_pipeline (h : t.Fulfils orders) {order : DispatchOrder} (horder : order ∈ orders) :
    ∃ (i : Nat) (p : Pipeline), t.pipelines.pipelines[i]? = some p ∧ p.key = order.key ∧
      p.layout = order.layout := by
  obtain ⟨n, hn⟩ := List.getElem?_of_mem horder
  obtain ⟨dispatch, pipeline, -, hpipeline, hkey, hlayout⟩ := h.fills n order hn
  exact ⟨_, pipeline, hpipeline, hkey, hlayout⟩

-- A shader has one pipeline.
theorem eq_of_key_eq (h : t.Fulfils orders) {i j : Nat} {p q : Pipeline}
    (hi : t.pipelines.pipelines[i]? = some p) (hj : t.pipelines.pipelines[j]? = some q)
    (hkey : p.key = q.key) : i = j := by
  have hnodup : (t.pipelines.pipelines.toList.map Pipeline.key).Nodup := by
    rw [h.keys]
    exact nodup_eraseDups _
  have hi' : (t.pipelines.pipelines.toList.map Pipeline.key)[i]? = some p.key := by
    rw [List.getElem?_map, Array.getElem?_toList, hi, Option.map_some]
  have hj' : (t.pipelines.pipelines.toList.map Pipeline.key)[j]? = some q.key := by
    rw [List.getElem?_map, Array.getElem?_toList, hj, Option.map_some]
  have hlt := (List.getElem?_eq_some_iff.mp hi').1
  exact (List.getElem?_inj hlt hnodup).mp (by rw [hi', hj', hkey])

-- Identifiers tell shaders apart, so the pipeline that is found is the one of the shader.
theorem key_of_find? (h : t.Fulfils orders) (hkey : key.Plain)
    {i : Fin t.pipelines.pipelines.size} (hfind : t.pipelines.find? key.identifier = some i) :
    (t.pipelines.entry i).key = key := by
  have hmem : t.pipelines.entry i ∈ t.pipelines.pipelines := Array.getElem_mem _
  obtain ⟨order, horder, heq⟩ := h.exists_order hmem
  have hplain := h.plain order horder
  rw [heq] at hplain
  apply ShaderKey.identifier_inj hplain hkey
  rw [← h.identified _ hmem]
  exact PipelineTable.identifier_of_find? hfind

theorem notMem_of_find? (h : t.Fulfils orders)
    (hfind : t.pipelines.find? key.identifier = none) : key ∉ orders.map DispatchOrder.key := by
  intro hmem
  obtain ⟨order, horder, rfl⟩ := List.mem_map.mp hmem
  obtain ⟨i, p, hi, hkey, -⟩ := h.exists_pipeline horder
  have hfresh := t.pipelines.map_find? order.key.identifier
  rw [hfind, Option.map_none, eq_comm, Array.findIdx?_eq_none_iff] at hfresh
  have hp := Array.mem_of_getElem? hi
  have hidentifier := hfresh p hp
  rw [h.identified p hp, hkey, beq_self_eq_true] at hidentifier
  cases hidentifier

-- A shader that is ordered again is bound as before.
theorem exists_find?_iff (h : t.Fulfils orders) (hkey : key.Plain) :
    (∃ i, t.pipelines.find? key.identifier = some i ∧
      (t.pipelines.entry i).layout = layout) ↔
      ∃ order ∈ orders, order.key = key ∧ order.layout = layout := by
  constructor
  · rintro ⟨i, hfind, rfl⟩
    have hfound := h.key_of_find? hkey hfind
    have hi : t.pipelines.pipelines[i.val]? = some (t.pipelines.entry i) :=
      Array.getElem?_eq_getElem i.isLt
    obtain ⟨order, horder, heq⟩ := h.exists_order (Array.mem_of_getElem? hi)
    obtain ⟨j, p, hj, hpkey, hplayout⟩ := h.exists_pipeline horder
    obtain rfl := h.eq_of_key_eq hi hj (heq.symm.trans hpkey.symm)
    cases hi.symm.trans hj
    exact ⟨order, horder, heq.trans hfound, hplayout.symm⟩
  · rintro ⟨order, horder, rfl, rfl⟩
    cases hfind : t.pipelines.find? order.key.identifier with
    | none => exact absurd (List.mem_map_of_mem horder) (h.notMem_of_find? hfind)
    | some i =>
      obtain ⟨j, p, hj, hpkey, hplayout⟩ := h.exists_pipeline horder
      have hi : t.pipelines.pipelines[i.val]? = some (t.pipelines.entry i) :=
        Array.getElem?_eq_getElem i.isLt
      obtain rfl := h.eq_of_key_eq hi hj ((h.key_of_find? hkey hfind).trans hpkey.symm)
      cases hi.symm.trans hj
      exact ⟨i, rfl, hplayout⟩

-- The pipeline of a shader is found, or comes behind all others.
theorem addPipeline (h : t.Fulfils orders) (hkey : key.Plain) {i : Nat}
    (hadd : addPipeline key layout t = .ok i t') :
    ∃ pipelines journal pipeline, t' = { t with pipelines := pipelines, journal := journal } ∧
      Grows (fun _ => True) t.pipelines.pipelines pipelines.pipelines ∧
      pipelines.pipelines[i]? = some pipeline ∧ pipeline.key = key ∧ pipeline.layout = layout ∧
      pipelines.pipelines.toList.map Pipeline.key =
        (orders.map DispatchOrder.key ++ [key]).eraseDups ∧
      ∀ p ∈ pipelines.pipelines, p.identifier = p.key.identifier := by
  cases hfind : t.pipelines.find? key.identifier with
  | some j =>
    rw [addPipeline_of_find? hfind] at hadd
    split at hadd
    case isFalse => cases hadd
    rename_i hlayout
    cases hadd
    have hfound := h.key_of_find? hkey hfind
    refine ⟨t.pipelines, t.journal, _, rfl, .refl _, Array.getElem?_eq_getElem j.isLt, hfound,
      hlayout, ?_, h.identified⟩
    obtain ⟨order, horder, hknown⟩ := h.exists_order (Array.getElem_mem j.isLt)
    have hmem : key ∈ orders.map DispatchOrder.key :=
      List.mem_map.mpr ⟨order, horder, hknown.trans hfound⟩
    rw [eraseDups_concat_of_mem hmem, h.keys]
  | none =>
    rw [addPipeline_of_new hfind] at hadd
    split at hadd
    case isTrue => cases hadd
    cases hadd
    refine ⟨_, _, ⟨key, key.identifier, layout⟩, rfl, .push trivial, Array.getElem?_push_size,
      rfl, rfl, ?_, fun p hp => ?_⟩
    · rw [eraseDups_concat_of_notMem (h.notMem_of_find? hfind), ← h.keys,
        PipelineTable.pipelines_push, Array.toList_push, List.map_append, List.map_singleton]
    · rcases Array.mem_push.mp hp with hp | rfl
      · exact h.identified p hp
      · rfl

-- One more dispatch is declared, with the pipeline of its shader.
theorem concat (h : t.Fulfils orders) (hkey : key.Plain) {i : Nat}
    (hadd : Declarations.addPipeline key layout t = .ok i t') {bindings : Array Binding}
    {dispatch : DeclaredDispatch} (hdispatch : dispatch.pipeline = i) :
    Fulfils { t' with bindings := bindings, dispatches := t'.dispatches.push dispatch }
      (orders ++ [⟨key, layout⟩]) := by
  obtain ⟨pipelines, journal, pipeline, rfl, hgrows, hi, hpkey, hplayout, hkeys, hidentified⟩ :=
    h.addPipeline hkey hadd
  refine ⟨?_, by simp [h.size], ?_, ?_, hidentified⟩
  · refine List.forall_mem_append.mpr ⟨h.plain, fun order horder => ?_⟩
    rw [List.mem_singleton.mp horder]
    exact hkey
  · intro n order hn
    rcases Nat.lt_or_ge n orders.length with hlt | hge
    · rw [List.getElem?_append_left hlt] at hn
      obtain ⟨x, p, hx, hp, hfilled⟩ := h.fills n order hn
      have hpushed : Grows (fun _ => True) t.dispatches (t.dispatches.push dispatch) :=
        .push trivial
      exact ⟨x, p, hpushed.getElem? hx, hgrows.getElem? hp, hfilled⟩
    · rw [List.getElem?_append_right hge] at hn
      obtain ⟨hlast, rfl⟩ := List.getElem?_eq_some_iff.mp hn
      obtain rfl : n = t.dispatches.size := by
        rw [List.length_singleton] at hlast
        have := h.size
        omega
      exact ⟨dispatch, pipeline, Array.getElem?_push_size, hdispatch ▸ hi, by simpa using hpkey,
        by simpa using hplayout⟩
  · rw [List.map_append]
    exact hkeys

theorem pipeline_eq_iff (h : t.Fulfils orders) {m n : Nat} {x y : DispatchOrder}
    {dispatch dispatch' : DeclaredDispatch} (hx : orders[m]? = some x) (hy : orders[n]? = some y)
    (hm : t.dispatches[m]? = some dispatch) (hn : t.dispatches[n]? = some dispatch') :
    dispatch.pipeline = dispatch'.pipeline ↔ x.key = y.key := by
  obtain ⟨_, p, hm', hp, hpkey, -⟩ := h.fills m x hx
  obtain ⟨_, q, hn', hq, hqkey, -⟩ := h.fills n y hy
  cases hm.symm.trans hm'
  cases hn.symm.trans hn'
  constructor
  · intro hpipeline
    rw [hpipeline] at hp
    cases hp.symm.trans hq
    rw [← hpkey, hqkey]
  · intro hkey
    exact h.eq_of_key_eq hp hq (by rw [hpkey, hqkey, hkey])

theorem congr (h : t.Fulfils orders) (hpipelines : t'.pipelines = t.pipelines)
    (hdispatches : t'.dispatches = t.dispatches) : t'.Fulfils orders where
  plain := h.plain
  size := hdispatches ▸ h.size
  fills n order hn := by
    obtain ⟨dispatch, pipeline, hfilled⟩ := h.fills n order hn
    exact ⟨dispatch, pipeline, by rwa [hpipelines, hdispatches]⟩
  keys := hpipelines ▸ h.keys
  identified := hpipelines ▸ h.identified

-- What declares no dispatch and no pipeline changes nothing.
theorem append_nil (h : t.Fulfils orders) (hpipelines : t'.pipelines = t.pipelines)
    (hdispatches : t'.dispatches = t.dispatches) : t'.Fulfils (orders ++ []) := by
  rw [List.append_nil]
  exact h.congr hpipelines hdispatches

end Fulfils

end Declarations

end DenoisePlanner
