/-!
# Failures

Three things can go wrong in this library, and each failure carries the number that shows it: the
determinant of a matrix that has no inverse, the argument that a projection refuses, and the
residual of a matrix that is not a scaling, a rotation and a translation.
-/

namespace Spatial

/-- Why an operation has no result. -/
inductive Failure (α : Type) where
  /-- The matrix has no inverse; its determinant is given. -/
  | singularMatrix (determinant : α)
  /-- A projection refuses the argument of a given name for a given reason. -/
  | invalidProjection (name : String) (value : α) (reason : String)
  /-- The matrix has no decomposition; the residual of its basis is given. -/
  | notDecomposable (residual : α)
deriving BEq, DecidableEq

namespace Failure

/-- The failure is that of a matrix without an inverse. -/
def isSingular {α : Type} : Failure α → Bool
  | .singularMatrix _ => true
  | _ => false

/-- The failure is that of a refused argument. -/
def isArgumentError {α : Type} : Failure α → Bool
  | .invalidProjection .. => true
  | _ => false

end Failure

end Spatial
