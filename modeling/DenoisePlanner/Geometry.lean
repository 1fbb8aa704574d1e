namespace DenoisePlanner

structure Vec2 where
  x : Float32
  y : Float32
  deriving BEq, Inhabited

structure Vec3 where
  x : Float32
  y : Float32
  z : Float32
  deriving BEq, Inhabited

structure Vec4 where
  x : Float32
  y : Float32
  z : Float32
  w : Float32
  deriving BEq, Inhabited

inductive Lane where
  | x | y | z | w

namespace Vec2

def zero : Vec2 := ⟨0, 0⟩

def isFinite (v : Vec2) : Bool := v.x.isFinite && v.y.isFinite

def sub (a b : Vec2) : Vec2 := ⟨a.x - b.x, a.y - b.y⟩

def length (v : Vec2) : Float32 := (v.x * v.x + v.y * v.y).sqrt

end Vec2

namespace Vec3

def zero : Vec3 := ⟨0, 0, 0⟩

def isFinite (v : Vec3) : Bool := v.x.isFinite && v.y.isFinite && v.z.isFinite

def sub (a b : Vec3) : Vec3 := ⟨a.x - b.x, a.y - b.y, a.z - b.z⟩

def extend (v : Vec3) (w : Float32) : Vec4 := ⟨v.x, v.y, v.z, w⟩

end Vec3

namespace Vec4

def isFinite (v : Vec4) : Bool :=
  v.x.isFinite && v.y.isFinite && v.z.isFinite && v.w.isFinite

def lane (v : Vec4) : Lane → Float32
  | .x => v.x
  | .y => v.y
  | .z => v.z
  | .w => v.w

def add (a b : Vec4) : Vec4 := ⟨a.x + b.x, a.y + b.y, a.z + b.z, a.w + b.w⟩

def sub (a b : Vec4) : Vec4 := ⟨a.x - b.x, a.y - b.y, a.z - b.z, a.w - b.w⟩

def mul (a b : Vec4) : Vec4 := ⟨a.x * b.x, a.y * b.y, a.z * b.z, a.w * b.w⟩

def scale (a : Vec4) (s : Float32) : Vec4 := ⟨a.x * s, a.y * s, a.z * s, a.w * s⟩

def truncate (v : Vec4) : Vec3 := ⟨v.x, v.y, v.z⟩

-- Rounding follows this order: even lanes and odd lanes are summed apart.
def dot (a b : Vec4) : Float32 := (a.x * b.x + a.z * b.z) + (a.y * b.y + a.w * b.w)

end Vec4

-- A matrix by its columns.
structure Mat4 where
  x : Vec4
  y : Vec4
  z : Vec4
  w : Vec4
  deriving BEq, Inhabited

namespace Mat4

def identity : Mat4 := ⟨⟨1, 0, 0, 0⟩, ⟨0, 1, 0, 0⟩, ⟨0, 0, 1, 0⟩, ⟨0, 0, 0, 1⟩⟩

def columns (m : Mat4) : List Vec4 := [m.x, m.y, m.z, m.w]

def isFinite (m : Mat4) : Bool := m.columns.all Vec4.isFinite

def mulVec (m : Mat4) (v : Vec4) : Vec4 :=
  (((m.x.scale v.x).add (m.y.scale v.y)).add (m.z.scale v.z)).add (m.w.scale v.w)

def mul (m n : Mat4) : Mat4 := ⟨m.mulVec n.x, m.mulVec n.y, m.mulVec n.z, m.mulVec n.w⟩

-- A point's image before the division by its last lane. The last column is added last.
def transform (m : Mat4) (p : Vec3) : Vec4 :=
  m.w.add ((m.z.scale p.z).add ((m.y.scale p.y).add (m.x.scale p.x)))

def transformPoint (m : Mat4) (p : Vec3) : Vec3 := (m.transform p).truncate

def projectPoint (m : Mat4) (p : Vec3) : Vec3 :=
  let v := m.transform p
  (v.scale (1 / v.w)).truncate

-- The 2x2 minors of rows `p` and `q`, laid out for the cofactors of `inverse`.
def minors (m : Mat4) (p q : Lane) : Vec4 :=
  let zw := m.z.lane p * m.w.lane q - m.w.lane p * m.z.lane q
  ⟨zw, zw,
    m.y.lane p * m.w.lane q - m.w.lane p * m.y.lane q,
    m.y.lane p * m.z.lane q - m.z.lane p * m.y.lane q⟩

-- Row `i`, with the first column standing in for every column but its own.
def crossRow (m : Mat4) (i : Lane) : Vec4 :=
  ⟨m.y.lane i, m.x.lane i, m.x.lane i, m.x.lane i⟩

def evenSigns : Vec4 := ⟨1, -1, 1, -1⟩

def oddSigns : Vec4 := ⟨-1, 1, -1, 1⟩

-- The signed sum `a * f - b * g + c * h` of one column of cofactors.
def cofactors (signs a f b g c h : Vec4) : Vec4 :=
  signs.mul (((a.mul f).sub (b.mul g)).add (c.mul h))

-- Cofactors over the determinant; a singular matrix gives infinities and NaNs.
def inverse (m : Mat4) : Mat4 :=
  let xy := m.minors .x .y
  let xz := m.minors .x .z
  let xw := m.minors .x .w
  let yz := m.minors .y .z
  let yw := m.minors .y .w
  let zw := m.minors .z .w
  let rx := m.crossRow .x
  let ry := m.crossRow .y
  let rz := m.crossRow .z
  let rw := m.crossRow .w
  let i0 := cofactors evenSigns ry zw rz yw rw yz
  let i1 := cofactors oddSigns rx zw rz xw rw xz
  let i2 := cofactors evenSigns rx yw ry xw rw xy
  let i3 := cofactors oddSigns rx yz ry xz rz xy
  let r := 1 / m.x.dot ⟨i0.x, i1.x, i2.x, i3.x⟩
  ⟨i0.scale r, i1.scale r, i2.scale r, i3.scale r⟩

def determinant (m : Mat4) : Float32 :=
  let minor (p q : Lane) : Float32 := m.z.lane p * m.w.lane q - m.z.lane q * m.w.lane p
  let zw := minor .z .w
  let yw := minor .y .w
  let yz := minor .y .z
  let xw := minor .x .w
  let xz := minor .x .z
  let xy := minor .x .y
  let y := m.y
  let a : Vec4 := ⟨y.y * zw, y.x * zw, y.x * yw, y.x * yz⟩
  let b : Vec4 := ⟨y.z * yw, y.z * xw, y.y * xw, y.y * xz⟩
  let c : Vec4 := ⟨y.w * yz, y.w * xz, y.w * xy, y.z * xy⟩
  m.x.dot (((a.sub b).add c).mul evenSigns)

end Mat4

end DenoisePlanner
