import DenoisePlanner.Extent
import DenoisePlanner.Geometry

namespace DenoisePlanner

-- Sixteen bytes of a constant block: four lanes of 32 bits. A lane holds the bits of a float,
-- or an integer or truth value as it is; NaN has one pattern among floats and all of its
-- patterns among integers.
structure Row where
  x : UInt32
  y : UInt32
  z : UInt32
  w : UInt32
  deriving DecidableEq, Inhabited

-- A truth value as a lane.
def flagWord (b : Bool) : UInt32 := if b then 1 else 0

-- The truth value of a lane.
def isSet (word : UInt32) : Bool := word != 0

theorem isSet_flagWord (b : Bool) : isSet (flagWord b) = b := by cases b <;> rfl

namespace Row

def floats (x y z w : Float32) : Row := ⟨x.toBits, y.toBits, z.toBits, w.toBits⟩

def ofVec (v : Vec4) : Row := floats v.x v.y v.z v.w

def words (row : Row) : List UInt32 := [row.x, row.y, row.z, row.w]

end Row

-- The bytes of a word, lowest first.
def wordBytes (word : UInt32) : List UInt8 :=
  [word.toUInt8, (word >>> 8).toUInt8, (word >>> 16).toUInt8, (word >>> 24).toUInt8]

def Row.bytes (row : Row) : List UInt8 := row.words.flatMap wordBytes

def rowBytes (rows : List Row) : List UInt8 := rows.flatMap Row.bytes

theorem Row.length_bytes (row : Row) : row.bytes.length = 16 := rfl

theorem length_rowBytes (rows : List Row) : (rowBytes rows).length = 16 * rows.length := by
  induction rows with
  | nil => rfl
  | cons row rows ih =>
    simp only [rowBytes, List.flatMap_cons, List.length_append, Row.length_bytes,
      List.length_cons] at ih ⊢
    omega

end DenoisePlanner
