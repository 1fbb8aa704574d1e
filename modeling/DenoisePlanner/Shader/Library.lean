import DenoisePlanner.Shader.Key
import DenoisePlanner.Text.Record
import Std.Data.HashMap

namespace DenoisePlanner

inductive ShaderFormat where
  | dxbc | dxil | spirv
  deriving DecidableEq, Hashable, Inhabited

namespace ShaderFormat

def all : List ShaderFormat := [.dxbc, .dxil, .spirv]

def name : ShaderFormat → String
  | .dxbc => "Dxbc"
  | .dxil => "Dxil"
  | .spirv => "Spirv"

end ShaderFormat

-- The code of one shader in every format; a format without code has no bytes.
structure Bytecode where
  dxbc : ByteArray := .empty
  dxil : ByteArray := .empty
  spirv : ByteArray := .empty
  deriving Inhabited

namespace Bytecode

def get (code : Bytecode) : ShaderFormat → ByteArray
  | .dxbc => code.dxbc
  | .dxil => code.dxil
  | .spirv => code.spirv

def isEmpty (code : Bytecode) : Bool := ShaderFormat.all.all fun format => (code.get format).isEmpty

def text (code : Bytecode) : String :=
  recordText "ShaderBytecode" [("dxbc", toString code.dxbc.size),
    ("dxil", toString code.dxil.size), ("spirv", toString code.spirv.size)]

end Bytecode

-- Where a planner looks compiled shaders up, by format and key.
abbrev ShaderStore := ShaderFormat → ShaderKey → Option ByteArray

namespace ShaderStore

-- The formats that the store has no code in.
def missing (store : ShaderStore) (key : ShaderKey) : List ShaderFormat :=
  ShaderFormat.all.filter fun format => (store format key).isNone

def bytecode (store : ShaderStore) (key : ShaderKey) : Bytecode :=
  let code (format : ShaderFormat) := (store format key).getD .empty
  ⟨code .dxbc, code .dxil, code .spirv⟩

end ShaderStore

-- Compiled shaders, found by format, name and set of defines.
structure ShaderLibrary where
  entries : Std.HashMap (ShaderFormat × ShaderKey) ByteArray := ∅
  deriving Inhabited

namespace ShaderLibrary

def insert (library : ShaderLibrary) (format : ShaderFormat) (key : ShaderKey) (code : ByteArray) :
    ShaderLibrary :=
  ⟨library.entries.insert (format, key.canonical) code⟩

def size (library : ShaderLibrary) : Nat := library.entries.size

def find? (library : ShaderLibrary) (format : ShaderFormat) (key : ShaderKey) : Option ByteArray :=
  library.entries[(format, key.canonical)]?

-- The library as a place to look shaders up.
def store (library : ShaderLibrary) : ShaderStore := library.find?

end ShaderLibrary

end DenoisePlanner
