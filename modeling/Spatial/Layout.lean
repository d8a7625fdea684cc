import Spatial.Form
import Spatial.Plane

/-!
# Memory layout

Each of the seven kinds of value is a run of binary32 numbers of four bytes each, without gaps.
The order of the run is described several times over: by the record that is declared, whose parts
stand in memory one after another, by the list of names, by the array a value is converted to, and
by the values made from arrays and from memory.

The list of names is in memory order.  The parts of a plane are named by their paths `normal.x`,
`normal.y`, `normal.z` and `d`.  The field at place `i` starts at byte `4 · i` and is little-endian;
its bytes are those of its bits, so that a value in memory is one of bits and not of numbers.
-/

namespace Spatial

/-- A componentwise value that is declared as a record and whose components have names. -/
class Layout (F : Type → Type) extends Components F where
  /-- The record as it is declared: its name, and its parts in the order of declaration. -/
  form {α : Type} : F α → Form α
  /-- The names of the components, in memory order. -/
  fieldNames : List String
  /-- The component of a name. -/
  field? {α : Type} : F α → String → Option α
  /-- The value that a memory holds, if it has the right size. -/
  ofMemory? {α : Type} : List α → Option (F α)

instance : Layout Vec2 where
  form v := .record "Vector2" (.ofScalars [("x", v.x), ("y", v.y)])
  fieldNames := ["x", "y"]
  field? v
    | "x" => some v.x
    | "y" => some v.y
    | _ => none
  ofMemory?
    | [x, y] => some { x, y }
    | _ => none

instance : Layout Vec3 where
  form v := .record "Vector3" (.ofScalars [("x", v.x), ("y", v.y), ("z", v.z)])
  fieldNames := ["x", "y", "z"]
  field? v
    | "x" => some v.x
    | "y" => some v.y
    | "z" => some v.z
    | _ => none
  ofMemory?
    | [x, y, z] => some { x, y, z }
    | _ => none

instance : Layout Vec4 where
  form v := .record "Vector4" (.ofScalars [("x", v.x), ("y", v.y), ("z", v.z), ("w", v.w)])
  fieldNames := ["x", "y", "z", "w"]
  field? v
    | "x" => some v.x
    | "y" => some v.y
    | "z" => some v.z
    | "w" => some v.w
    | _ => none
  ofMemory?
    | [x, y, z, w] => some { x, y, z, w }
    | _ => none

instance : Layout Quaternion where
  form q := .record "Quaternion" (.ofScalars [("x", q.x), ("y", q.y), ("z", q.z), ("w", q.w)])
  fieldNames := ["x", "y", "z", "w"]
  field? q
    | "x" => some q.x
    | "y" => some q.y
    | "z" => some q.z
    | "w" => some q.w
    | _ => none
  ofMemory?
    | [x, y, z, w] => some { x, y, z, w }
    | _ => none

instance : Layout Plane where
  form p := .record "Plane"
    (.cons "normal" (Layout.form p.normal) (.cons "d" (.scalar p.d) .nil))
  fieldNames := ["normal.x", "normal.y", "normal.z", "d"]
  field? p
    | "normal.x" => some p.normal.x
    | "normal.y" => some p.normal.y
    | "normal.z" => some p.normal.z
    | "d" => some p.d
    | _ => none
  ofMemory?
    | [x, y, z, d] => some { normal := { x, y, z }, d }
    | _ => none

instance : Layout Affine2 where
  form m := .record "Matrix3x2" (.ofScalars
    [("m11", m.r1.x), ("m12", m.r1.y), ("m21", m.r2.x), ("m22", m.r2.y),
      ("m31", m.r3.x), ("m32", m.r3.y)])
  fieldNames := ["m11", "m12", "m21", "m22", "m31", "m32"]
  field? m
    | "m11" => some m.r1.x
    | "m12" => some m.r1.y
    | "m21" => some m.r2.x
    | "m22" => some m.r2.y
    | "m31" => some m.r3.x
    | "m32" => some m.r3.y
    | _ => none
  ofMemory?
    | [m11, m12, m21, m22, m31, m32] =>
      some { r1 := ⟨m11, m12⟩, r2 := ⟨m21, m22⟩, r3 := ⟨m31, m32⟩ }
    | _ => none

instance : Layout Matrix4 where
  form m := .record "Matrix4x4" (.ofScalars
    [("m11", m.r1.x), ("m12", m.r1.y), ("m13", m.r1.z), ("m14", m.r1.w),
      ("m21", m.r2.x), ("m22", m.r2.y), ("m23", m.r2.z), ("m24", m.r2.w),
      ("m31", m.r3.x), ("m32", m.r3.y), ("m33", m.r3.z), ("m34", m.r3.w),
      ("m41", m.r4.x), ("m42", m.r4.y), ("m43", m.r4.z), ("m44", m.r4.w)])
  fieldNames :=
    ["m11", "m12", "m13", "m14",
      "m21", "m22", "m23", "m24",
      "m31", "m32", "m33", "m34",
      "m41", "m42", "m43", "m44"]
  field? m
    | "m11" => some m.r1.x
    | "m12" => some m.r1.y
    | "m13" => some m.r1.z
    | "m14" => some m.r1.w
    | "m21" => some m.r2.x
    | "m22" => some m.r2.y
    | "m23" => some m.r2.z
    | "m24" => some m.r2.w
    | "m31" => some m.r3.x
    | "m32" => some m.r3.y
    | "m33" => some m.r3.z
    | "m34" => some m.r3.w
    | "m41" => some m.r4.x
    | "m42" => some m.r4.y
    | "m43" => some m.r4.z
    | "m44" => some m.r4.w
    | _ => none
  ofMemory?
    | [m11, m12, m13, m14, m21, m22, m23, m24, m31, m32, m33, m34, m41, m42, m43, m44] =>
      some
        { r1 := ⟨m11, m12, m13, m14⟩, r2 := ⟨m21, m22, m23, m24⟩
          r3 := ⟨m31, m32, m33, m34⟩, r4 := ⟨m41, m42, m43, m44⟩ }
    | _ => none

/-- An index that names no component of a kind of value. -/
structure OutOfBounds where
  /-- The kind of value. -/
  typeName : String
  /-- The index asked for. -/
  index : Nat
deriving BEq, DecidableEq

/-- The text of a failed access. -/
def OutOfBounds.message (e : OutOfBounds) : String :=
  e.typeName ++ " index out of bounds: " ++ toString e.index

/-- The four bytes of the bits of a number, least significant first. -/
def littleEndian (bits : UInt32) : List UInt8 :=
  [bits.toUInt8, (bits >>> 8).toUInt8, (bits >>> 16).toUInt8, (bits >>> 24).toUInt8]

namespace Layout

/-- The number of bytes of one component. -/
def fieldSize : Nat := 4

section

variable (F : Type → Type) [Layout F]

/-- The form of the kind of value, without its scalars. -/
def shape : Form Unit := form (Components.splat () : F Unit)

/-- The name of the kind of value. -/
def typeName : String := (shape F).name

/-- The number of components. -/
def fieldCount : Nat := (fieldNames F).length

/-- The number of bytes of a value. -/
def size : Nat := fieldSize * (shape F).leaves.length

/-- A value has a component for each name and no byte besides. -/
def isTightlyPacked : Bool := size F == fieldCount F * fieldSize

/-- The place of the first byte of the component with a given name. -/
def fieldOffset? (name : String) : Option Nat :=
  ((fieldNames F).findIdx? (· == name)).map (· * fieldSize)

end

variable {F : Type → Type} [Layout F]

/-- What stands in memory: the parts of the record one after another, as they are declared. -/
def memory {α : Type} (v : F α) : List α := (form v).leaves

/-- The bytes of a value, given by its bits. -/
def bytes (v : F UInt32) : List UInt8 := (memory v).flatMap littleEndian

/-- The bytes of a run of values, one after another. -/
def sliceBytes (vs : List (F UInt32)) : List UInt8 := vs.flatMap bytes

/-- The component at an index. -/
def get {α : Type} (v : F α) (index : Nat) : Except OutOfBounds α :=
  match (Components.toList v)[index]? with
  | some a => .ok a
  | none => .error ⟨typeName F, index⟩

/-- The same value with another component at an index. -/
def set {α : Type} (v : F α) (index : Nat) (a : α) : Except OutOfBounds (F α) :=
  let components := Components.toList v
  if index < components.length then
    .ok ((Components.ofList? (components.set index a)).getD v)
  else .error ⟨typeName F, index⟩

end Layout

end Spatial
