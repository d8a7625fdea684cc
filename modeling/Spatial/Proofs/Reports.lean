import Mathlib
import Spatial.Operation
import Spatial.Proofs.Acceptance
import Spatial.Proofs.Singular

/-!
# Reports

An operation reports the failure it meets, once, and nothing else.

1.  An outcome and its report go together through a sequence of steps: the report of the whole
    is the sequence of the reports.  So a perspective projection, made of checks and a matrix,
    reports the failure of the check that ends it.
2.  What goes on after a failure passes the event on: inversion into a place, and through it
    the image of a plane.
3.  Inversion fails only for a zero determinant, a projection only for an argument, and a
    decomposition only for its residual.

No other operation has an event to pass on.
-/

namespace Spatial

variable {ρ σ : Type} (event : Failure Float32 → Event)

/-- The events of an outcome: that of its failure, if it is a failure. -/
def eventsOf : Except (Failure Float32) ρ → List Event
  | .ok _ => []
  | .error failure => [event failure]

/-- A reported failure is one event, and a reported result none. -/
theorem run_report (outcome : Except (Failure Float32) ρ) :
    (report event outcome).run = ⟨outcome, eventsOf event outcome⟩ := by
  cases outcome <;> rfl

/-- A failure ends a sequence of reporting steps as it ends the steps. -/
theorem report_bind (outcome : Except (Failure Float32) σ)
    (next : σ → Except (Failure Float32) ρ) :
    report event (outcome >>= next) = report event outcome >>= fun x => report event (next x) := by
  cases outcome <;> rfl

/-- There is at most one event. -/
theorem length_eventsOf_le (outcome : Except (Failure Float32) ρ) :
    (eventsOf event outcome).length ≤ 1 := by
  cases outcome with
  | ok _ => exact Nat.zero_le 1
  | error _ => exact le_rfl

/-- The event is that of the failure. -/
theorem mem_eventsOf {outcome : Except (Failure Float32) ρ} {e : Event} :
    e ∈ eventsOf event outcome ↔ ∃ failure, outcome = .error failure ∧ e = event failure := by
  cases outcome <;> simp [eventsOf]

/-- Inversion into a place passes the event on. -/
theorem Components.run_storeObserved {F : Type → Type} [Components F]
    (outcome : Except (Failure Float32) (F Float32)) (previous : F Float32) :
    (storeObserved (report event outcome)).run previous =
      ⟨(store outcome).run previous, eventsOf event outcome⟩ := by
  cases outcome <;> rfl

namespace Affine2

/-- The inversion fails exactly at a determinant of zero, and tells it. -/
theorem invert_eq_error_iff (m : Affine2 Float32) (failure : Failure Float32) :
    m.invert = .error failure ↔
      (m.determinant == 0) = true ∧ failure = .singularMatrix m.determinant := by
  unfold invert
  dsimp only
  split_ifs with h <;> simp [h, eq_comm]

end Affine2

namespace Matrix4

/-- A projection that is observed reports its own failure, though it is a check that fails. -/
theorem perspectiveObserved_eq (width height near far : Float32) :
    perspectiveObserved width height near far =
      report (Failure.event .singularMatrix4) (perspective width height near far) := by
  rw [perspective, report_bind]
  rfl

theorem perspectiveFieldOfViewObserved_eq (fieldOfView aspectRatio near far : Float32) :
    perspectiveFieldOfViewObserved fieldOfView aspectRatio near far =
      report (Failure.event .singularMatrix4)
        (perspectiveFieldOfView fieldOfView aspectRatio near far) := by
  simp only [perspectiveFieldOfView, report_bind]
  rfl

theorem perspectiveOffCenterObserved_eq (left right bottom top near far : Float32) :
    perspectiveOffCenterObserved left right bottom top near far =
      report (Failure.event .singularMatrix4)
        (perspectiveOffCenter left right bottom top near far) := by
  rw [perspectiveOffCenter, report_bind]
  rfl

/-! A projection fails only for an argument. -/

/-- The failure of an outcome, if any, is that of a refused argument. -/
def RefusesArguments (outcome : Except (Failure Float32) ρ) : Prop :=
  ∀ failure, outcome = .error failure →
    ∃ name value reason, failure = .invalidProjection name value reason

/-- A refused argument is the only failure. -/
theorem refusesArguments_error (name : String) (value : Float32) (reason : String) :
    RefusesArguments (.error (.invalidProjection name value reason) :
      Except (Failure Float32) ρ) := by
  intro failure h
  cases h
  exact ⟨name, value, reason, rfl⟩

theorem refusesArguments_ok (x : ρ) : RefusesArguments (.ok x) := nofun

/-- Steps that only refuse arguments make a sequence that does. -/
theorem RefusesArguments.bind {outcome : Except (Failure Float32) σ}
    {next : σ → Except (Failure Float32) ρ} (h : RefusesArguments outcome)
    (hnext : ∀ x, RefusesArguments (next x)) : RefusesArguments (outcome >>= next) := by
  cases outcome with
  | ok x => exact hnext x
  | error failure =>
      obtain ⟨name, value, reason, rfl⟩ := h failure rfl
      exact refusesArguments_error name value reason

/-- The check of the clip planes fails only by refusing one of them. -/
theorem refusesArguments_checkClipPlanes (near far : Float32) :
    RefusesArguments (checkClipPlanes near far) := by
  unfold checkClipPlanes
  split
  · exact refusesArguments_error _ _ _
  split
  · exact refusesArguments_error _ _ _
  split
  · exact refusesArguments_error _ _ _
  · exact refusesArguments_ok _

/-- The check of the angle fails only by refusing it. -/
theorem refusesArguments_checkFieldOfView (fieldOfView : Float32) :
    RefusesArguments (checkFieldOfView fieldOfView) := by
  unfold checkFieldOfView
  split_ifs
  · exact refusesArguments_ok _
  · exact refusesArguments_error _ _ _

/-- The perspectives fail only by refusing an argument. -/
theorem refusesArguments_perspective (width height near far : Float32) :
    RefusesArguments (perspective width height near far) :=
  (refusesArguments_checkClipPlanes near far).bind fun _ => refusesArguments_ok _

theorem refusesArguments_perspectiveFieldOfView (fieldOfView aspectRatio near far : Float32) :
    RefusesArguments (perspectiveFieldOfView fieldOfView aspectRatio near far) :=
  (refusesArguments_checkFieldOfView fieldOfView).bind fun _ =>
    (refusesArguments_checkClipPlanes near far).bind fun _ => refusesArguments_ok _

theorem refusesArguments_perspectiveOffCenter (left right bottom top near far : Float32) :
    RefusesArguments (perspectiveOffCenter left right bottom top near far) :=
  (refusesArguments_checkClipPlanes near far).bind fun _ => refusesArguments_ok _

end Matrix4

/-- The image of a plane passes the event of the inversion on. -/
theorem Plane.transformObserved_eq (p : Plane Float32) (m : Matrix4 Float32) :
    p.transformObserved m =
      ⟨p.transform m, eventsOf (Failure.event .singularMatrix4) m.invert⟩ := by
  rw [transform_through p m Matrix4.identity, transformObserved, Matrix4.invertAtObserved,
    Matrix4.invertObserved, Components.run_storeObserved]
  exact congrArg (Observed.mk _) (List.append_nil _)

namespace Operation

/-- What an operation gives, by the functions that do not report. -/
def answer : Operation ρ → ρ
  | .number call => call.answer
  | .failure call => call.answer
  | @value _ _ _ _ call => call.answer
  | @linear _ _ _ call => call.answer
  | @indexed _ _ _ call => call.answer
  | @vector _ _ _ call => call.answer
  | .vec2 call => call.answer
  | .vec3 call => call.answer
  | .vec4 call => call.answer
  | .quaternion call => call.answer
  | .plane call => call.answer
  | .affine2 call => call.answer
  | .matrix4 call => call.answer
  | .transformPlane p m => p.transform m
  | .invertAffine2 m => m.invert
  | .invertAffine2At m previous => m.invertAt.run previous
  | .invertMatrix4 m => m.invert
  | .invertMatrix4At m previous => m.invertAt.run previous
  | .perspective width height near far => Matrix4.perspective width height near far
  | .perspectiveFieldOfView fieldOfView aspectRatio near far =>
    Matrix4.perspectiveFieldOfView fieldOfView aspectRatio near far
  | .perspectiveOffCenter left right bottom top near far =>
    Matrix4.perspectiveOffCenter left right bottom top near far
  | .decompose m => m.decompose

/-- The event tells of a determinant equal to zero, with which an inversion failed. -/
def TellsSingular (singular : Float → Event) (inverse : Except (Failure Float32) ρ)
    (e : Event) : Prop :=
  ∃ determinant, inverse = .error (.singularMatrix determinant) ∧ (determinant == 0) = true ∧
    e = singular (Binary.widen determinant)

/-- The event tells of the argument that a projection refused, and why. -/
def TellsRefused (projection : Except (Failure Float32) ρ) (e : Event) : Prop :=
  ∃ name value reason, projection = .error (.invalidProjection name value reason) ∧
    e = .argumentRejected name (Binary.widen value) reason

/-- The event tells of the residual with which a decomposition failed. -/
def TellsResidual (decomposition : Except (Failure Float32) ρ) (e : Event) : Prop :=
  ∃ residual, decomposition = .error (.notDecomposable residual) ∧
    e = .notDecomposable (Binary.widen residual)

/-- The event tells of a failure that the operation meets. -/
def Tells (e : Event) : Operation ρ → Prop
  | .transformPlane _ m => TellsSingular .singularMatrix4 m.invert e
  | .invertAffine2 m => TellsSingular .singularAffine2 m.invert e
  | .invertAffine2At m _ => TellsSingular .singularAffine2 m.invert e
  | .invertMatrix4 m => TellsSingular .singularMatrix4 m.invert e
  | .invertMatrix4At m _ => TellsSingular .singularMatrix4 m.invert e
  | .perspective width height near far => TellsRefused (Matrix4.perspective width height near far) e
  | .perspectiveFieldOfView fieldOfView aspectRatio near far =>
    TellsRefused (Matrix4.perspectiveFieldOfView fieldOfView aspectRatio near far) e
  | .perspectiveOffCenter left right bottom top near far =>
    TellsRefused (Matrix4.perspectiveOffCenter left right bottom top near far) e
  | .decompose m => TellsResidual m.decompose e
  | _ => False

/-- The events of an inversion are those that tell its determinant. -/
theorem tellsSingular_iff {singular : Float → Event} {inverse : Except (Failure Float32) ρ}
    {determinant : Float32} (h : ∀ failure, inverse = .error failure ↔
      (determinant == 0) = true ∧ failure = .singularMatrix determinant) (e : Event) :
    e ∈ eventsOf (Failure.event singular) inverse ↔ TellsSingular singular inverse e := by
  rw [mem_eventsOf]
  constructor
  · rintro ⟨failure, hfailure, rfl⟩
    obtain ⟨hzero, rfl⟩ := (h failure).mp hfailure
    exact ⟨determinant, hfailure, hzero, rfl⟩
  · rintro ⟨d, hd, -, rfl⟩
    exact ⟨_, hd, rfl⟩

/-- The events of a projection are those that tell the refused argument. -/
theorem tellsRefused_iff {projection : Except (Failure Float32) ρ}
    (h : Matrix4.RefusesArguments projection) (e : Event) :
    e ∈ eventsOf (Failure.event .singularMatrix4) projection ↔ TellsRefused projection e := by
  rw [mem_eventsOf]
  constructor
  · rintro ⟨failure, hfailure, rfl⟩
    obtain ⟨name, value, reason, rfl⟩ := h failure hfailure
    exact ⟨name, value, reason, hfailure, rfl⟩
  · rintro ⟨name, value, reason, hfailure, rfl⟩
    exact ⟨_, hfailure, rfl⟩

/-- The events of a decomposition are those that tell its residual. -/
theorem tellsResidual_iff (m : Matrix4 Float32) (e : Event) :
    e ∈ eventsOf (Failure.event .singularMatrix4) m.decompose ↔ TellsResidual m.decompose e := by
  rw [mem_eventsOf]
  constructor
  · rintro ⟨failure, hfailure, rfl⟩
    obtain ⟨-, rfl⟩ := (m.decompose_eq_error_iff failure).mp hfailure
    exact ⟨m.residual, hfailure, rfl⟩
  · rintro ⟨residual, hfailure, rfl⟩
    exact ⟨_, hfailure, rfl⟩

/-- Reporting changes no answer, and there is an event exactly for the failure that the operation
meets. -/
structure Faithful (operation : Operation ρ) : Prop where
  result_eq : operation.run.result = operation.answer
  length_events_le : operation.run.events.length ≤ 1
  mem_events_iff (e : Event) : e ∈ operation.run.events ↔ operation.Tells e

variable {operation : Operation ρ} {event}

/-- An operation without events is faithful if it has nothing to tell. -/
theorem Faithful.of_silent (h : operation.run = pure operation.answer)
    (htells : ∀ e, ¬operation.Tells e) : operation.Faithful where
  result_eq := by rw [h]; rfl
  length_events_le := by rw [h]; exact Nat.zero_le 1
  mem_events_iff e := by rw [h]; exact iff_of_false List.not_mem_nil (htells e)

/-- An operation that reports its outcome is faithful if what it reports is what it tells. -/
theorem Faithful.of_report {outcome : Except (Failure Float32) σ}
    (h : operation.run = ⟨operation.answer, eventsOf event outcome⟩)
    (htells : ∀ e, e ∈ eventsOf event outcome ↔ operation.Tells e) : operation.Faithful where
  result_eq := by rw [h]
  length_events_le := by rw [h]; exact length_eventsOf_le event outcome
  mem_events_iff e := by rw [h]; exact htells e

theorem run_perspective (width height near far : Float32) :
    (perspective width height near far).run = ⟨Matrix4.perspective width height near far,
      eventsOf (Failure.event .singularMatrix4) (Matrix4.perspective width height near far)⟩ := by
  rw [run, Matrix4.perspectiveObserved_eq, run_report]

theorem run_perspectiveFieldOfView (fieldOfView aspectRatio near far : Float32) :
    (perspectiveFieldOfView fieldOfView aspectRatio near far).run =
      ⟨Matrix4.perspectiveFieldOfView fieldOfView aspectRatio near far,
        eventsOf (Failure.event .singularMatrix4)
          (Matrix4.perspectiveFieldOfView fieldOfView aspectRatio near far)⟩ := by
  rw [run, Matrix4.perspectiveFieldOfViewObserved_eq, run_report]

theorem run_perspectiveOffCenter (left right bottom top near far : Float32) :
    (perspectiveOffCenter left right bottom top near far).run =
      ⟨Matrix4.perspectiveOffCenter left right bottom top near far,
        eventsOf (Failure.event .singularMatrix4)
          (Matrix4.perspectiveOffCenter left right bottom top near far)⟩ := by
  rw [run, Matrix4.perspectiveOffCenterObserved_eq, run_report]

/-- **Faithful reports.**  Every operation, on all arguments, gives what it gives without
reporting and one event at most: that of the singular matrix, the refused argument or the residual
that made it fail. -/
theorem run_faithful (operation : Operation ρ) : operation.Faithful := by
  cases operation with
  | transformPlane p m =>
      exact .of_report (p.transformObserved_eq m) (tellsSingular_iff m.invert_eq_error_iff)
  | invertAffine2 m =>
      exact .of_report (run_report _ _) (tellsSingular_iff m.invert_eq_error_iff)
  | invertAffine2At m previous =>
      exact .of_report (Components.run_storeObserved _ _ _)
        (tellsSingular_iff m.invert_eq_error_iff)
  | invertMatrix4 m =>
      exact .of_report (run_report _ _) (tellsSingular_iff m.invert_eq_error_iff)
  | invertMatrix4At m previous =>
      exact .of_report (Components.run_storeObserved _ _ _)
        (tellsSingular_iff m.invert_eq_error_iff)
  | perspective width height near far =>
      exact .of_report (run_perspective width height near far)
        (tellsRefused_iff (Matrix4.refusesArguments_perspective width height near far))
  | perspectiveFieldOfView fieldOfView aspectRatio near far =>
      exact .of_report (run_perspectiveFieldOfView fieldOfView aspectRatio near far)
        (tellsRefused_iff
          (Matrix4.refusesArguments_perspectiveFieldOfView fieldOfView aspectRatio near far))
  | perspectiveOffCenter left right bottom top near far =>
      exact .of_report (run_perspectiveOffCenter left right bottom top near far)
        (tellsRefused_iff
          (Matrix4.refusesArguments_perspectiveOffCenter left right bottom top near far))
  | decompose m => exact .of_report (run_report _ _) (tellsResidual_iff m)
  | number | failure | value | linear | indexed | vector | vec2 | vec3 | vec4 | quaternion
  | plane | affine2 | matrix4 => exact .of_silent rfl fun _ => id

/-- The inversion that the image of a plane asks for reports a singular matrix.  Of the two ways
to decompose a skewed one, the first reports its residual and the second nothing. -/
theorem flat_and_skewed_reported :
    let flat : Matrix4 Float32 := Matrix4.scale ⟨1, 1, 0⟩
    let skewed : Matrix4 Float32 := ⟨⟨1, 0, 0, 0⟩, ⟨1, 1, 0, 0⟩, ⟨0, 0, 1, 0⟩, ⟨0, 0, 0, 1⟩⟩
    .singularMatrix4 (Binary.widen 0) ∈ (transformPlane ⟨⟨0, 0, 1⟩, 0⟩ flat).run.events ∧
      .notDecomposable (Binary.widen skewed.residual) ∈ (decompose skewed).run.events ∧
      ∀ e, e ∉ (matrix4 (.decomposeInto skewed)).run.events := by
  refine ⟨?_, ?_, fun e he => ((run_faithful _).mem_events_iff e).mp he⟩
  · exact ((run_faithful _).mem_events_iff _).mpr ⟨0, by decide +kernel, by decide +kernel, rfl⟩
  · exact ((run_faithful _).mem_events_iff _).mpr
      ⟨_, Matrix4.decompose_of_residual (by decide +kernel), rfl⟩

end Operation

end Spatial
