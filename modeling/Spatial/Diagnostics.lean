import Spatial.Decomposition
import Spatial.Number.Binary
import Spatial.Plane
import Spatial.Projection

/-!
# Diagnostics

An operation that can fail has a form that also reports: it gives its result together with the
events of the call.  An event repeats the numbers of the failure, widened to binary64.

1. A failure is reported where it arises: a zero determinant in the inversion, a refused argument
   in its check, a residual in the decomposition.
2. An operation that calls another passes its events on, whatever it makes of the failure.
   Inversion into a place and the image of a plane get along without an inverse, yet the zero
   determinant has been reported.

Nothing reports success, and `decomposeInto` reports nothing.
-/

namespace Spatial

/-- Something worth knowing that happened during a call. -/
inductive Event where
  /-- A map of the plane has no inverse. -/
  | singularAffine2 (determinant : Float)
  /-- A four by four matrix has no inverse. -/
  | singularMatrix4 (determinant : Float)
  /-- A projection refused an argument. -/
  | argumentRejected (name : String) (value : Float) (reason : String)
  /-- A matrix has no decomposition. -/
  | notDecomposable (residual : Float)
deriving BEq, DecidableEq

/-- The text of an event. -/
def Event.message : Event → String
  | .singularAffine2 _ => "Matrix3x2::invert: singular"
  | .singularMatrix4 _ => "Matrix4x4::invert: singular"
  | .argumentRejected .. => "projection argument rejected"
  | .notDecomposable _ => "Matrix4x4::decompose: basis is not a rotation"

/-- The event of a failure.  That of a singular matrix depends on the kind of matrix. -/
def Failure.event (singular : Float → Event) : Failure Float32 → Event
  | .singularMatrix determinant => singular (Binary.widen determinant)
  | .invalidProjection name value reason => .argumentRejected name (Binary.widen value) reason
  | .notDecomposable residual => .notDecomposable (Binary.widen residual)

/-- A result with the events of the call that gave it. -/
structure Observed (ρ : Type) where
  /-- What the call gave. -/
  result : ρ
  /-- What happened on the way, in order. -/
  events : List Event

namespace Observed

instance : Monad Observed where
  pure result := ⟨result, []⟩
  bind first next :=
    let second := next first.result
    ⟨second.result, first.events ++ second.events⟩

/-- Nothing but an event. -/
def emit (event : Event) : Observed Unit := ⟨(), [event]⟩

end Observed

/-- A call that can fail, with its events. -/
abbrev Reporting (ρ : Type) := ExceptT (Failure Float32) Observed ρ

/-- An outcome that reports its failure. -/
def report {ρ : Type} (event : Failure Float32 → Event) :
    Except (Failure Float32) ρ → Reporting ρ
  | .ok result => return result
  | .error failure => do
    Observed.emit (event failure)
    throw failure

/-- Keep the outcome of a reporting operation in a place. -/
def Components.storeObserved {F : Type → Type} [Components F] (operation : Reporting (F Float32)) :
    StateT (F Float32) Observed Bool := fun previous => do
  let outcome ← operation.run
  return (Components.store outcome).run previous

namespace Affine2

/-- Inversion that reports a zero determinant. -/
def invertObserved (m : Affine2 Float32) : Reporting (Affine2 Float32) :=
  report (Failure.event .singularAffine2) m.invert

/-- Inversion into a place that holds another map, that reports a zero determinant. -/
def invertAtObserved (m : Affine2 Float32) : StateT (Affine2 Float32) Observed Bool :=
  Components.storeObserved m.invertObserved

end Affine2

namespace Matrix4

/-- Inversion that reports a zero determinant. -/
def invertObserved (m : Matrix4 Float32) : Reporting (Matrix4 Float32) :=
  report (Failure.event .singularMatrix4) m.invert

/-- Inversion into a place that holds another matrix, that reports a zero determinant. -/
def invertAtObserved (m : Matrix4 Float32) : StateT (Matrix4 Float32) Observed Bool :=
  Components.storeObserved m.invertObserved

/-- The check of the clip planes, that reports the refused argument. -/
def checkClipPlanesObserved (near far : Float32) : Reporting Unit :=
  report (Failure.event .singularMatrix4) (checkClipPlanes near far)

/-- The check of the field of view, that reports the refused argument. -/
def checkFieldOfViewObserved (fieldOfView : Float32) : Reporting Unit :=
  report (Failure.event .singularMatrix4) (checkFieldOfView fieldOfView)

/-- The perspective projection of a centered view volume, that reports a refused argument. -/
def perspectiveObserved (width height near far : Float32) : Reporting (Matrix4 Float32) := do
  checkClipPlanesObserved near far
  return perspectiveMatrix width height near far

/-- The perspective projection with a given field of view, that reports a refused argument. -/
def perspectiveFieldOfViewObserved (fieldOfView aspectRatio near far : Float32) :
    Reporting (Matrix4 Float32) := do
  checkFieldOfViewObserved fieldOfView
  checkClipPlanesObserved near far
  return perspectiveFieldOfViewMatrix fieldOfView aspectRatio near far

/-- The perspective projection of a view volume with given bounds, that reports a refused
argument. -/
def perspectiveOffCenterObserved (left right bottom top near far : Float32) :
    Reporting (Matrix4 Float32) := do
  checkClipPlanesObserved near far
  return perspectiveOffCenterMatrix left right bottom top near far

/-- Decomposition that reports its residual when it fails. -/
def decomposeObserved (m : Matrix4 Float32) : Reporting (Decomposition Float32) :=
  report (Failure.event .singularMatrix4) m.decompose

end Matrix4

namespace Plane

/-- The image of a plane under a matrix, that reports a zero determinant. -/
def transformObserved (p : Plane Float32) (m : Matrix4 Float32) : Observed (Plane Float32) := do
  let stored ← m.invertAtObserved.run Matrix4.identity
  return ofVec4 (stored.2.transpose.transform p.toVec4)

end Plane

end Spatial
