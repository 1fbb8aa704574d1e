import DenoisePlanner.Pipeline.Layout
import DenoisePlanner.Shader.Key
import Std.Data.TreeMap

namespace DenoisePlanner

structure Pipeline where
  key : ShaderKey
  identifier : String
  layout : PipelineLayout
  deriving DecidableEq, Inhabited

-- Pipelines in the order of their first declaration. The map is an index by identifier: it
-- knows nothing that a search through the array would not find.
structure PipelineTable where
  pipelines : Array Pipeline
  positions : Std.TreeMap String Nat
  positions_eq : ∀ identifier,
    positions[identifier]? = pipelines.findIdx? (·.identifier == identifier)

namespace PipelineTable

theorem positions_empty (identifier : String) :
    (∅ : Std.TreeMap String Nat)[identifier]? =
      (#[] : Array Pipeline).findIdx? (·.identifier == identifier) := by simp

def empty : PipelineTable := ⟨#[], ∅, positions_empty⟩

instance : Inhabited PipelineTable := ⟨empty⟩

-- Positions are 16-bit numbers.
def capacity : Nat := 65536

def size (t : PipelineTable) : Nat := t.pipelines.size

def find? (t : PipelineTable) (identifier : String) : Option (Fin t.pipelines.size) :=
  match h : t.positions[identifier]? with
  | some i => some ⟨i, by
      rw [t.positions_eq] at h
      exact (Array.findIdx?_eq_some_iff_getElem.mp h).1⟩
  | none => none

theorem find?_eq_none_iff (t : PipelineTable) (identifier : String) :
    t.find? identifier = none ↔ t.positions[identifier]? = none := by
  unfold find?
  split <;> simp_all

theorem map_find? (t : PipelineTable) (identifier : String) :
    (t.find? identifier).map Fin.val = t.pipelines.findIdx? (·.identifier == identifier) := by
  rw [← t.positions_eq]
  unfold find?
  split <;> simp_all

-- Appends a pipeline whose identifier is new.
def push (t : PipelineTable) (p : Pipeline) (h : t.find? p.identifier = none) : PipelineTable :=
  let position := t.pipelines.size
  { pipelines := t.pipelines.push p
    positions := t.positions.insert p.identifier position
    positions_eq := by
      intro identifier
      have hn := (t.find?_eq_none_iff p.identifier).mp h
      rw [t.positions_eq] at hn
      rw [Std.TreeMap.getElem?_insert, Array.findIdx?_push, t.positions_eq]
      by_cases he : p.identifier = identifier
      · subst he
        simp [hn, position]
      · simp [he] }

theorem pipelines_push (t : PipelineTable) (p : Pipeline) (h : t.find? p.identifier = none) :
    (t.push p h).pipelines = t.pipelines.push p := rfl

end PipelineTable

end DenoisePlanner
