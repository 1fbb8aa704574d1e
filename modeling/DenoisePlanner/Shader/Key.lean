namespace DenoisePlanner

-- A preprocessor define that a shader was compiled with.
structure Define where
  name : String
  value : String
  deriving DecidableEq, Hashable, Inhabited

namespace Define

def flag (name : String) (enabled : Bool) : Define := ⟨name, if enabled then "1" else "0"⟩

-- By name, then by value; strings compare by code points.
def le (a b : Define) : Bool :=
  decide (a.name < b.name) || (a.name == b.name && decide (a.value ≤ b.value))

def text (d : Define) : String := d.name ++ "=" ++ d.value

end Define

-- A shader together with the defines of one of its permutations.
structure ShaderKey where
  name : String
  defines : List Define := []
  deriving DecidableEq, Hashable, Inhabited

namespace ShaderKey

-- The defines in the order in which they were declared, each after a blank.
def identifier (key : ShaderKey) : String :=
  key.defines.foldl (fun text d => text ++ " " ++ d.text) key.name

-- The form that forgets the order of the defines.
def canonical (key : ShaderKey) : ShaderKey := { key with defines := key.defines.mergeSort Define.le }

end ShaderKey

end DenoisePlanner
