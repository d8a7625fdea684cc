import Spatial.Columns
import Spatial.Diagnostics
import Spatial.Json.Library
import Spatial.Number.Tolerance
import Spatial.Text
import Spatial.Viewing

/-!
# Operations

Every operation of the library with its arguments, as data.  The operations come in families, those
that several kinds of value share and those of a single kind, and `answer` says what each gives.

Nothing happens during an operation of these families.  The ones during which something may happen
stand beside them in `Operation`, and `run` gives the answer of any operation with its events.
-/

namespace Spatial

/-- The operations on numbers. -/
inductive NumberCall : Type → Type where
  | lerp (a b t : Float32) : NumberCall Float32
  | min (a b : Float32) : NumberCall Float32
  | max (a b : Float32) : NumberCall Float32
  | clamp (value lo hi : Float32) : NumberCall Float32
  | remainder (x y : Float) : NumberCall Float
  | wrapAngle (radians : Float32) : NumberCall Float

def NumberCall.answer {ρ : Type} : NumberCall ρ → ρ
  | .lerp a b t => Scalar.lerp a b t
  | .min a b => Scalar.min a b
  | .max a b => Scalar.max a b
  | .clamp value lo hi => Scalar.clamp value lo hi
  | .remainder x y => Spatial.remainder x y
  | .wrapAngle radians => Spatial.wrapAngle radians

/-- The operations on failures. -/
inductive FailureCall : Type → Type where
  | singularMatrix (determinant : Float32) : FailureCall (Failure Float32)
  | invalidProjection (name : String) (value : Float32) (reason : String) :
    FailureCall (Failure Float32)
  | notDecomposable (residual : Float32) : FailureCall (Failure Float32)
  | eq (a b : Failure Float32) : FailureCall Bool
  | message (failure : Failure Float32) : FailureCall String
  | inline (failure : Failure Float32) : FailureCall String
  | isSingular (failure : Failure Float32) : FailureCall Bool
  | isArgumentError (failure : Failure Float32) : FailureCall Bool

def FailureCall.answer {ρ : Type} : FailureCall ρ → ρ
  | .singularMatrix determinant => .singularMatrix determinant
  | .invalidProjection name value reason => .invalidProjection name value reason
  | .notDecomposable residual => .notDecomposable residual
  | .eq a b => a == b
  | .message failure => failure.message
  | .inline failure => failure.inline
  | .isSingular failure => failure.isSingular
  | .isArgumentError failure => failure.isArgumentError

/-- The operations of every kind of value. -/
inductive ValueCall (F : Type → Type) : Type → Type where
  | eq (u v : F Float32) : ValueCall F Bool
  | ne (u v : F Float32) : ValueCall F Bool
  | absDiffEq (epsilon : Float32) (u v : F Float32) : ValueCall F Bool
  | relativeEq (epsilon maxRelative : Float32) (u v : F Float32) : ValueCall F Bool
  | ulpsEq (epsilon : Float32) (maxUlps : Nat) (u v : F Float32) : ValueCall F Bool
  | toList (v : F Float32) : ValueCall F (List Float32)
  | ofList? (l : List Float32) : ValueCall F (Option (F Float32))
  | memory (v : F Float32) : ValueCall F (List Float32)
  | ofMemory? (l : List Float32) : ValueCall F (Option (F Float32))
  | inline (v : F Float32) : ValueCall F String
  | block (v : F Float32) : ValueCall F String
  | toJson (library : Json.Library) (v : F Float32) : ValueCall F String
  | ofJson (library : Json.Library) (text : String) : ValueCall F (Except Json.Fault (F Float32))
  | fieldNames : ValueCall F (List String)
  | fieldCount : ValueCall F Nat
  | fieldOffset? (name : String) : ValueCall F (Option Nat)
  | size : ValueCall F Nat
  | isTightlyPacked : ValueCall F Bool
  | bytes (v : F Float32) : ValueCall F (List UInt8)
  | sliceBytes (vs : List (F Float32)) : ValueCall F (List UInt8)

def ValueCall.answer {F : Type → Type} [Layout F] [BEq (F Float32)] {ρ : Type} :
    ValueCall F ρ → ρ
  | .eq u v => u == v
  | .ne u v => u != v
  | .absDiffEq epsilon u v => Tolerance.everyPair (Tolerance.absDiffEq epsilon) u v
  | .relativeEq epsilon maxRelative u v =>
    Tolerance.everyPair (Tolerance.relativeEq epsilon maxRelative) u v
  | .ulpsEq epsilon maxUlps u v => Tolerance.everyPair (Tolerance.ulpsEq epsilon maxUlps) u v
  | .toList v => Components.toList v
  | .ofList? l => Components.ofList? l
  | .memory v => Layout.memory v
  | .ofMemory? l => Layout.ofMemory? l
  | .inline v => Layout.inline v
  | .block v => Layout.block v
  | .toJson library v => library.toJson v
  | .ofJson library text => library.ofJson F text
  | .fieldNames => Layout.fieldNames F
  | .fieldCount => Layout.fieldCount F
  | .fieldOffset? name => Layout.fieldOffset? F name
  | .size => Layout.size F
  | .isTightlyPacked => Layout.isTightlyPacked F
  | .bytes v => Layout.bytes (Components.map Float32.toBits v)
  | .sliceBytes vs => Layout.sliceBytes (vs.map (Components.map Float32.toBits))

/-- The operations of every kind of value that can be added. -/
inductive LinearCall (F : Type → Type) : Type → Type where
  | add (u v : F Float32) : LinearCall F (F Float32)
  | sub (u v : F Float32) : LinearCall F (F Float32)
  | neg (u : F Float32) : LinearCall F (F Float32)
  | mulRight (u : F Float32) (s : Float32) : LinearCall F (F Float32)
  | mulLeft (s : Float32) (u : F Float32) : LinearCall F (F Float32)
  | divRight (u : F Float32) (s : Float32) : LinearCall F (F Float32)

def LinearCall.answer {F : Type → Type} [Components F] {ρ : Type} : LinearCall F ρ → ρ
  | .add u v => Components.add u v
  | .sub u v => Components.sub u v
  | .neg u => Components.neg u
  | .mulRight u s => Components.mulRight u s
  | .mulLeft s u => Components.mulLeft s u
  | .divRight u s => Components.divRight u s

/-- The operations of every kind of value whose components are accessed by index. -/
inductive IndexedCall (F : Type → Type) : Type → Type where
  | get (v : F Float32) (index : Nat) : IndexedCall F (Except OutOfBounds Float32)
  | set (v : F Float32) (index : Nat) (a : Float32) : IndexedCall F (Except OutOfBounds (F Float32))

def IndexedCall.answer {F : Type → Type} [Layout F] {ρ : Type} : IndexedCall F ρ → ρ
  | .get v index => Layout.get v index
  | .set v index a => Layout.set v index a

/-- The operations of vectors of every dimension. -/
inductive VectorCall (F : Type → Type) : Type → Type where
  | splat (a : Float32) : VectorCall F (F Float32)
  | mul (u v : F Float32) : VectorCall F (F Float32)
  | div (u v : F Float32) : VectorCall F (F Float32)
  | dot (u v : F Float32) : VectorCall F Float32
  | length (u : F Float32) : VectorCall F Float32
  | lengthSquared (u : F Float32) : VectorCall F Float32
  | distance (u v : F Float32) : VectorCall F Float32
  | distanceSquared (u v : F Float32) : VectorCall F Float32
  | normalize (u : F Float32) : VectorCall F (F Float32)
  | min (u v : F Float32) : VectorCall F (F Float32)
  | max (u v : F Float32) : VectorCall F (F Float32)
  | clamp (u lo hi : F Float32) : VectorCall F (F Float32)
  | lerp (u v : F Float32) (t : Float32) : VectorCall F (F Float32)
  | reflect (u normal : F Float32) : VectorCall F (F Float32)
  | abs (u : F Float32) : VectorCall F (F Float32)
  | sqrt (u : F Float32) : VectorCall F (F Float32)
  | isNaN (u : F Float32) : VectorCall F Bool
  | isFinite (u : F Float32) : VectorCall F Bool

def VectorCall.answer {F : Type → Type} [Components F] {ρ : Type} : VectorCall F ρ → ρ
  | .splat a => Components.splat a
  | .mul u v => Components.mul u v
  | .div u v => Components.div u v
  | .dot u v => Components.dot u v
  | .length u => Components.length u
  | .lengthSquared u => Components.lengthSquared u
  | .distance u v => Components.distance u v
  | .distanceSquared u v => Components.distanceSquared u v
  | .normalize u => Components.normalize u
  | .min u v => Components.min u v
  | .max u v => Components.max u v
  | .clamp u lo hi => Components.clamp u lo hi
  | .lerp u v t => Components.lerp u v t
  | .reflect u normal => Components.reflect u normal
  | .abs u => Components.abs u
  | .sqrt u => Components.sqrt u
  | .isNaN u => Components.isNaN u
  | .isFinite u => Components.isFinite u

/-- The other operations of vectors of the plane. -/
inductive Vec2Call : Type → Type where
  | make (x y : Float32) : Vec2Call (Vec2 Float32)
  | zero : Vec2Call (Vec2 Float32)
  | one : Vec2Call (Vec2 Float32)
  | unitX : Vec2Call (Vec2 Float32)
  | unitY : Vec2Call (Vec2 Float32)
  | transform (v : Vec2 Float32) (m : Affine2 Float32) : Vec2Call (Vec2 Float32)
  | transformDirection (v : Vec2 Float32) (m : Affine2 Float32) : Vec2Call (Vec2 Float32)
  | transform4 (v : Vec2 Float32) (m : Matrix4 Float32) : Vec2Call (Vec2 Float32)
  | transformDirection4 (v : Vec2 Float32) (m : Matrix4 Float32) : Vec2Call (Vec2 Float32)
  | rotate (v : Vec2 Float32) (q : Quaternion Float32) : Vec2Call (Vec2 Float32)

def Vec2Call.answer {ρ : Type} : Vec2Call ρ → ρ
  | .make x y => ⟨x, y⟩
  | .zero => Vec2.zero
  | .one => Vec2.one
  | .unitX => Vec2.unitX
  | .unitY => Vec2.unitY
  | .transform v m => m.transformPoint v
  | .transformDirection v m => m.transformDirection v
  | .transform4 v m => m.transformPoint2 v
  | .transformDirection4 v m => m.transformDirection2 v
  | .rotate v q => q.rotate2 v

/-- The other operations of vectors of space. -/
inductive Vec3Call : Type → Type where
  | make (x y z : Float32) : Vec3Call (Vec3 Float32)
  | zero : Vec3Call (Vec3 Float32)
  | one : Vec3Call (Vec3 Float32)
  | unitX : Vec3Call (Vec3 Float32)
  | unitY : Vec3Call (Vec3 Float32)
  | unitZ : Vec3Call (Vec3 Float32)
  | ofVec2 (v : Vec2 Float32) (z : Float32) : Vec3Call (Vec3 Float32)
  | cross (u v : Vec3 Float32) : Vec3Call (Vec3 Float32)
  | transform (v : Vec3 Float32) (m : Matrix4 Float32) : Vec3Call (Vec3 Float32)
  | transformDirection (v : Vec3 Float32) (m : Matrix4 Float32) : Vec3Call (Vec3 Float32)
  | rotate (v : Vec3 Float32) (q : Quaternion Float32) : Vec3Call (Vec3 Float32)

def Vec3Call.answer {ρ : Type} : Vec3Call ρ → ρ
  | .make x y z => ⟨x, y, z⟩
  | .zero => Vec3.zero
  | .one => Vec3.one
  | .unitX => Vec3.unitX
  | .unitY => Vec3.unitY
  | .unitZ => Vec3.unitZ
  | .ofVec2 v z => v.extend z
  | .cross u v => u.cross v
  | .transform v m => m.transformPoint v
  | .transformDirection v m => m.transformDirection v
  | .rotate v q => q.rotate v

/-- The other operations of vectors of four dimensions. -/
inductive Vec4Call : Type → Type where
  | make (x y z w : Float32) : Vec4Call (Vec4 Float32)
  | zero : Vec4Call (Vec4 Float32)
  | one : Vec4Call (Vec4 Float32)
  | unitX : Vec4Call (Vec4 Float32)
  | unitY : Vec4Call (Vec4 Float32)
  | unitZ : Vec4Call (Vec4 Float32)
  | unitW : Vec4Call (Vec4 Float32)
  | ofVec2 (v : Vec2 Float32) (z w : Float32) : Vec4Call (Vec4 Float32)
  | ofVec3 (v : Vec3 Float32) (w : Float32) : Vec4Call (Vec4 Float32)
  | ofPlane (p : Plane Float32) : Vec4Call (Vec4 Float32)
  | xyz (v : Vec4 Float32) : Vec4Call (Vec3 Float32)
  | transform (v : Vec4 Float32) (m : Matrix4 Float32) : Vec4Call (Vec4 Float32)
  | transform2 (v : Vec2 Float32) (m : Matrix4 Float32) : Vec4Call (Vec4 Float32)
  | transform2With (v : Vec2 Float32) (z w : Float32) (m : Matrix4 Float32) :
    Vec4Call (Vec4 Float32)
  | transform3 (v : Vec3 Float32) (m : Matrix4 Float32) : Vec4Call (Vec4 Float32)
  | transform3With (v : Vec3 Float32) (w : Float32) (m : Matrix4 Float32) : Vec4Call (Vec4 Float32)
  | rotate (v : Vec4 Float32) (q : Quaternion Float32) : Vec4Call (Vec4 Float32)
  | rotate2 (v : Vec2 Float32) (q : Quaternion Float32) : Vec4Call (Vec4 Float32)
  | rotate3 (v : Vec3 Float32) (q : Quaternion Float32) : Vec4Call (Vec4 Float32)

def Vec4Call.answer {ρ : Type} : Vec4Call ρ → ρ
  | .make x y z w => ⟨x, y, z, w⟩
  | .zero => Vec4.zero
  | .one => Vec4.one
  | .unitX => Vec4.unitX
  | .unitY => Vec4.unitY
  | .unitZ => Vec4.unitZ
  | .unitW => Vec4.unitW
  | .ofVec2 v z w => v.extend2 z w
  | .ofVec3 v w => v.extend w
  | .ofPlane p => p.toVec4
  | .xyz v => v.xyz
  | .transform v m => m.transform v
  | .transform2 v m => m.transformHomogeneous2 v
  | .transform2With v z w m => m.transformExtended2 v z w
  | .transform3 v m => m.transformHomogeneous v
  | .transform3With v w m => m.transformExtended v w
  | .rotate v q => q.rotate4 v
  | .rotate2 v q => q.rotateHomogeneous2 v
  | .rotate3 v q => q.rotateHomogeneous v

/-- The other operations of quaternions. -/
inductive QuaternionCall : Type → Type where
  | make (x y z w : Float32) : QuaternionCall (Quaternion Float32)
  | identity : QuaternionCall (Quaternion Float32)
  | ofParts (v : Vec3 Float32) (w : Float32) : QuaternionCall (Quaternion Float32)
  | xyz (q : Quaternion Float32) : QuaternionCall (Vec3 Float32)
  | isIdentity (q : Quaternion Float32) : QuaternionCall Bool
  | isNaN (q : Quaternion Float32) : QuaternionCall Bool
  | dot (p q : Quaternion Float32) : QuaternionCall Float32
  | length (q : Quaternion Float32) : QuaternionCall Float32
  | lengthSquared (q : Quaternion Float32) : QuaternionCall Float32
  | normalize (q : Quaternion Float32) : QuaternionCall (Quaternion Float32)
  | conjugate (q : Quaternion Float32) : QuaternionCall (Quaternion Float32)
  | inverse (q : Quaternion Float32) : QuaternionCall (Quaternion Float32)
  | mul (p q : Quaternion Float32) : QuaternionCall (Quaternion Float32)
  | div (p q : Quaternion Float32) : QuaternionCall (Quaternion Float32)
  | concatenate (p q : Quaternion Float32) : QuaternionCall (Quaternion Float32)
  | lerp (p q : Quaternion Float32) (t : Float32) : QuaternionCall (Quaternion Float32)
  | slerp (p q : Quaternion Float32) (t : Float32) : QuaternionCall (Quaternion Float32)
  | ofAxisAngle (axis : Vec3 Float32) (angle : Float32) : QuaternionCall (Quaternion Float32)
  | ofYawPitchRoll (yaw pitch roll : Float32) : QuaternionCall (Quaternion Float32)
  | ofRotationMatrix (m : Matrix4 Float32) : QuaternionCall (Quaternion Float32)

def QuaternionCall.answer {ρ : Type} : QuaternionCall ρ → ρ
  | .make x y z w => ⟨x, y, z, w⟩
  | .identity => Quaternion.identity
  | .ofParts v w => Quaternion.ofParts v w
  | .xyz q => q.xyz
  | .isIdentity q => q.isIdentity
  | .isNaN q => Components.isNaN q
  | .dot p q => Components.dot p q
  | .length q => Components.length q
  | .lengthSquared q => Components.lengthSquared q
  | .normalize q => q.normalize
  | .conjugate q => q.conjugate
  | .inverse q => q.inverse
  | .mul p q => p * q
  | .div p q => p / q
  | .concatenate p q => p.concatenate q
  | .lerp p q t => p.lerp q t
  | .slerp p q t => p.slerp q t
  | .ofAxisAngle axis angle => Quaternion.ofAxisAngle axis angle
  | .ofYawPitchRoll yaw pitch roll => Quaternion.ofYawPitchRoll yaw pitch roll
  | .ofRotationMatrix m => Quaternion.ofRotationMatrix m

/-- The other operations of planes. -/
inductive PlaneCall : Type → Type where
  | make (x y z d : Float32) : PlaneCall (Plane Float32)
  | zero : PlaneCall (Plane Float32)
  | ofNormal (normal : Vec3 Float32) (d : Float32) : PlaneCall (Plane Float32)
  | ofVec4 (v : Vec4 Float32) : PlaneCall (Plane Float32)
  | toVec4 (p : Plane Float32) : PlaneCall (Vec4 Float32)
  | ofVertices (p₁ p₂ p₃ : Vec3 Float32) : PlaneCall (Plane Float32)
  | normalize (p : Plane Float32) : PlaneCall (Plane Float32)
  | dot (p : Plane Float32) (v : Vec4 Float32) : PlaneCall Float32
  | dotCoordinate (p : Plane Float32) (v : Vec3 Float32) : PlaneCall Float32
  | dotNormal (p : Plane Float32) (v : Vec3 Float32) : PlaneCall Float32
  | rotate (p : Plane Float32) (q : Quaternion Float32) : PlaneCall (Plane Float32)

def PlaneCall.answer {ρ : Type} : PlaneCall ρ → ρ
  | .make x y z d => ⟨⟨x, y, z⟩, d⟩
  | .zero => Components.splat 0
  | .ofNormal normal d => ⟨normal, d⟩
  | .ofVec4 v => Plane.ofVec4 v
  | .toVec4 p => p.toVec4
  | .ofVertices p₁ p₂ p₃ => Plane.ofVertices p₁ p₂ p₃
  | .normalize p => p.normalize
  | .dot p v => p.dot v
  | .dotCoordinate p v => p.dotCoordinate v
  | .dotNormal p v => p.dotNormal v
  | .rotate p q => p.rotate q

/-- The other operations of maps of the plane, without inversion. -/
inductive Affine2Call : Type → Type where
  | identity : Affine2Call (Affine2 Float32)
  | undefined : Affine2Call (Affine2 Float32)
  | isIdentity (m : Affine2 Float32) : Affine2Call Bool
  | isFinite (m : Affine2 Float32) : Affine2Call Bool
  | translationPart (m : Affine2 Float32) : Affine2Call (Vec2 Float32)
  | withTranslation (m : Affine2 Float32) (t : Vec2 Float32) : Affine2Call (Affine2 Float32)
  | translation (t : Vec2 Float32) : Affine2Call (Affine2 Float32)
  | scale (s : Vec2 Float32) : Affine2Call (Affine2 Float32)
  | scaleAbout (s center : Vec2 Float32) : Affine2Call (Affine2 Float32)
  | uniformScale (s : Float32) : Affine2Call (Affine2 Float32)
  | uniformScaleAbout (s : Float32) (center : Vec2 Float32) : Affine2Call (Affine2 Float32)
  | skew (radiansX radiansY : Float32) : Affine2Call (Affine2 Float32)
  | skewAbout (radiansX radiansY : Float32) (center : Vec2 Float32) :
    Affine2Call (Affine2 Float32)
  | rotation (radians : Float32) : Affine2Call (Affine2 Float32)
  | rotationAbout (radians : Float32) (center : Vec2 Float32) : Affine2Call (Affine2 Float32)
  | determinant (m : Affine2 Float32) : Affine2Call Float32
  | mul (a b : Affine2 Float32) : Affine2Call (Affine2 Float32)
  | lerp (a b : Affine2 Float32) (t : Float32) : Affine2Call (Affine2 Float32)
  | transformPoint (m : Affine2 Float32) (v : Vec2 Float32) : Affine2Call (Vec2 Float32)
  | transformDirection (m : Affine2 Float32) (v : Vec2 Float32) : Affine2Call (Vec2 Float32)
  | toColumns (m : Affine2 Float32) : Affine2Call (ColumnAffine2 Float32)
  | ofColumns (m : ColumnAffine2 Float32) : Affine2Call (Affine2 Float32)

def Affine2Call.answer {ρ : Type} : Affine2Call ρ → ρ
  | .identity => Affine2.identity
  | .undefined => Affine2.undefined
  | .isIdentity m => m.isIdentity
  | .isFinite m => Components.isFinite m
  | .translationPart m => m.translationPart
  | .withTranslation m t => m.withTranslation t
  | .translation t => Affine2.translation t
  | .scale s => Affine2.scale s
  | .scaleAbout s center => Affine2.scaleAbout s center
  | .uniformScale s => Affine2.uniformScale s
  | .uniformScaleAbout s center => Affine2.uniformScaleAbout s center
  | .skew radiansX radiansY => Affine2.skew radiansX radiansY
  | .skewAbout radiansX radiansY center => Affine2.skewAbout radiansX radiansY center
  | .rotation radians => Affine2.rotation radians
  | .rotationAbout radians center => Affine2.rotationAbout radians center
  | .determinant m => m.determinant
  | .mul a b => a * b
  | .lerp a b t => Components.lerp a b t
  | .transformPoint m v => m.transformPoint v
  | .transformDirection m v => m.transformDirection v
  | .toColumns m => m.toColumns
  | .ofColumns m => Affine2.ofColumns m

/-- The other operations of four by four matrices, without inversion, perspective projections and
the decomposition that reports. -/
inductive Matrix4Call : Type → Type where
  | identity : Matrix4Call (Matrix4 Float32)
  | undefined : Matrix4Call (Matrix4 Float32)
  | ofRows (r1 r2 r3 r4 : Vec4 Float32) : Matrix4Call (Matrix4 Float32)
  | ofAffine2 (m : Affine2 Float32) : Matrix4Call (Matrix4 Float32)
  | isIdentity (m : Matrix4 Float32) : Matrix4Call Bool
  | isFinite (m : Matrix4 Float32) : Matrix4Call Bool
  | translationPart (m : Matrix4 Float32) : Matrix4Call (Vec3 Float32)
  | withTranslation (m : Matrix4 Float32) (t : Vec3 Float32) : Matrix4Call (Matrix4 Float32)
  | transpose (m : Matrix4 Float32) : Matrix4Call (Matrix4 Float32)
  | determinant (m : Matrix4 Float32) : Matrix4Call Float32
  | mul (a b : Matrix4 Float32) : Matrix4Call (Matrix4 Float32)
  | lerp (a b : Matrix4 Float32) (t : Float32) : Matrix4Call (Matrix4 Float32)
  | rotateBy (m : Matrix4 Float32) (q : Quaternion Float32) : Matrix4Call (Matrix4 Float32)
  | translation (t : Vec3 Float32) : Matrix4Call (Matrix4 Float32)
  | scale (s : Vec3 Float32) : Matrix4Call (Matrix4 Float32)
  | scaleAbout (s center : Vec3 Float32) : Matrix4Call (Matrix4 Float32)
  | uniformScale (s : Float32) : Matrix4Call (Matrix4 Float32)
  | uniformScaleAbout (s : Float32) (center : Vec3 Float32) : Matrix4Call (Matrix4 Float32)
  | rotationX (radians : Float32) : Matrix4Call (Matrix4 Float32)
  | rotationY (radians : Float32) : Matrix4Call (Matrix4 Float32)
  | rotationZ (radians : Float32) : Matrix4Call (Matrix4 Float32)
  | rotationXAbout (radians : Float32) (center : Vec3 Float32) : Matrix4Call (Matrix4 Float32)
  | rotationYAbout (radians : Float32) (center : Vec3 Float32) : Matrix4Call (Matrix4 Float32)
  | rotationZAbout (radians : Float32) (center : Vec3 Float32) : Matrix4Call (Matrix4 Float32)
  | ofAxisAngle (axis : Vec3 Float32) (angle : Float32) : Matrix4Call (Matrix4 Float32)
  | ofQuaternion (q : Quaternion Float32) : Matrix4Call (Matrix4 Float32)
  | ofYawPitchRoll (yaw pitch roll : Float32) : Matrix4Call (Matrix4 Float32)
  | lookAt (position target up : Vec3 Float32) : Matrix4Call (Matrix4 Float32)
  | world (position forward up : Vec3 Float32) : Matrix4Call (Matrix4 Float32)
  | orthographic (width height near far : Float32) : Matrix4Call (Matrix4 Float32)
  | orthographicOffCenter (left right bottom top near far : Float32) :
    Matrix4Call (Matrix4 Float32)
  | billboard (object camera cameraUp cameraForward : Vec3 Float32) : Matrix4Call (Matrix4 Float32)
  | constrainedBillboard (object camera axis cameraForward objectForward : Vec3 Float32) :
    Matrix4Call (Matrix4 Float32)
  | shadow (light : Vec3 Float32) (plane : Plane Float32) : Matrix4Call (Matrix4 Float32)
  | reflection (plane : Plane Float32) : Matrix4Call (Matrix4 Float32)
  | decomposeInto (m : Matrix4 Float32) : Matrix4Call (Bool × Decomposition Float32)
  | toColumns (m : Matrix4 Float32) : Matrix4Call (ColumnMatrix4 Float32)
  | ofColumns (m : ColumnMatrix4 Float32) : Matrix4Call (Matrix4 Float32)

def Matrix4Call.answer {ρ : Type} : Matrix4Call ρ → ρ
  | .identity => Matrix4.identity
  | .undefined => Matrix4.undefined
  | .ofRows r1 r2 r3 r4 => ⟨r1, r2, r3, r4⟩
  | .ofAffine2 m => Matrix4.ofAffine2 m
  | .isIdentity m => m.isIdentity
  | .isFinite m => Components.isFinite m
  | .translationPart m => m.translationPart
  | .withTranslation m t => m.withTranslation t
  | .transpose m => m.transpose
  | .determinant m => m.determinant
  | .mul a b => a * b
  | .lerp a b t => Components.lerp a b t
  | .rotateBy m q => m.rotateBy q
  | .translation t => Matrix4.translation t
  | .scale s => Matrix4.scale s
  | .scaleAbout s center => Matrix4.scaleAbout s center
  | .uniformScale s => Matrix4.uniformScale s
  | .uniformScaleAbout s center => Matrix4.uniformScaleAbout s center
  | .rotationX radians => Matrix4.rotationX radians
  | .rotationY radians => Matrix4.rotationY radians
  | .rotationZ radians => Matrix4.rotationZ radians
  | .rotationXAbout radians center => Matrix4.rotationXAbout radians center
  | .rotationYAbout radians center => Matrix4.rotationYAbout radians center
  | .rotationZAbout radians center => Matrix4.rotationZAbout radians center
  | .ofAxisAngle axis angle => Matrix4.ofAxisAngle axis angle
  | .ofQuaternion q => Matrix4.ofQuaternion q
  | .ofYawPitchRoll yaw pitch roll => Matrix4.ofYawPitchRoll yaw pitch roll
  | .lookAt position target up => Matrix4.lookAt position target up
  | .world position forward up => Matrix4.world position forward up
  | .orthographic width height near far => Matrix4.orthographic width height near far
  | .orthographicOffCenter left right bottom top near far =>
    Matrix4.orthographicOffCenter left right bottom top near far
  | .billboard object camera cameraUp cameraForward =>
    Matrix4.billboard object camera cameraUp cameraForward
  | .constrainedBillboard object camera axis cameraForward objectForward =>
    Matrix4.constrainedBillboard object camera axis cameraForward objectForward
  | .shadow light plane => Matrix4.shadow light plane
  | .reflection plane => Matrix4.reflection plane
  | .decomposeInto m => m.decomposeInto
  | .toColumns m => m.toColumns
  | .ofColumns m => Matrix4.ofColumns m

/-- An operation of the library with its arguments. -/
inductive Operation : Type → Type 1 where
  | number {ρ : Type} (call : NumberCall ρ) : Operation ρ
  | failure {ρ : Type} (call : FailureCall ρ) : Operation ρ
  | value (F : Type → Type) [Layout F] [BEq (F Float32)] {ρ : Type} (call : ValueCall F ρ) :
    Operation ρ
  | linear (F : Type → Type) [Components F] {ρ : Type} (call : LinearCall F ρ) : Operation ρ
  | indexed (F : Type → Type) [Layout F] {ρ : Type} (call : IndexedCall F ρ) : Operation ρ
  | vector (F : Type → Type) [Components F] {ρ : Type} (call : VectorCall F ρ) : Operation ρ
  | vec2 {ρ : Type} (call : Vec2Call ρ) : Operation ρ
  | vec3 {ρ : Type} (call : Vec3Call ρ) : Operation ρ
  | vec4 {ρ : Type} (call : Vec4Call ρ) : Operation ρ
  | quaternion {ρ : Type} (call : QuaternionCall ρ) : Operation ρ
  | plane {ρ : Type} (call : PlaneCall ρ) : Operation ρ
  | affine2 {ρ : Type} (call : Affine2Call ρ) : Operation ρ
  | matrix4 {ρ : Type} (call : Matrix4Call ρ) : Operation ρ
  | transformPlane (p : Plane Float32) (m : Matrix4 Float32) : Operation (Plane Float32)
  | invertAffine2 (m : Affine2 Float32) : Operation (Except (Failure Float32) (Affine2 Float32))
  | invertAffine2At (m previous : Affine2 Float32) : Operation (Bool × Affine2 Float32)
  | invertMatrix4 (m : Matrix4 Float32) : Operation (Except (Failure Float32) (Matrix4 Float32))
  | invertMatrix4At (m previous : Matrix4 Float32) : Operation (Bool × Matrix4 Float32)
  | perspective (width height near far : Float32) :
    Operation (Except (Failure Float32) (Matrix4 Float32))
  | perspectiveFieldOfView (fieldOfView aspectRatio near far : Float32) :
    Operation (Except (Failure Float32) (Matrix4 Float32))
  | perspectiveOffCenter (left right bottom top near far : Float32) :
    Operation (Except (Failure Float32) (Matrix4 Float32))
  | decompose (m : Matrix4 Float32) :
    Operation (Except (Failure Float32) (Decomposition Float32))

namespace Operation

/-- The answer of an operation, with the events. -/
def run {ρ : Type} : Operation ρ → Observed ρ
  | .number call => return call.answer
  | .failure call => return call.answer
  | @value _ _ _ _ call => return call.answer
  | @linear _ _ _ call => return call.answer
  | @indexed _ _ _ call => return call.answer
  | @vector _ _ _ call => return call.answer
  | .vec2 call => return call.answer
  | .vec3 call => return call.answer
  | .vec4 call => return call.answer
  | .quaternion call => return call.answer
  | .plane call => return call.answer
  | .affine2 call => return call.answer
  | .matrix4 call => return call.answer
  | .transformPlane p m => p.transformObserved m
  | .invertAffine2 m => m.invertObserved.run
  | .invertAffine2At m previous => m.invertAtObserved.run previous
  | .invertMatrix4 m => m.invertObserved.run
  | .invertMatrix4At m previous => m.invertAtObserved.run previous
  | .perspective width height near far => (Matrix4.perspectiveObserved width height near far).run
  | .perspectiveFieldOfView fieldOfView aspectRatio near far =>
    (Matrix4.perspectiveFieldOfViewObserved fieldOfView aspectRatio near far).run
  | .perspectiveOffCenter left right bottom top near far =>
    (Matrix4.perspectiveOffCenterObserved left right bottom top near far).run
  | .decompose m => m.decomposeObserved.run

end Operation

end Spatial
