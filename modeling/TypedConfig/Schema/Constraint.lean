/-
# Constraints on numeric settings

A constraint confines a number to a range, integer or float. It applies to the
numbers of its own sort; a list is checked element by element, from the left, and
the error names the way to the offending element.

Bounds are compared with the number as it is stored, so an integer bound may lie
outside the setting's own type and a 32-bit float is compared exactly.

Key definitions: `Constraint`, `Constraint.boundsProblem?`, `ValidationError`,
`SettingType.validate`, `SettingType.validateAll`.
-/
import TypedConfig.Schema.SettingType

namespace TypedConfig

/-- A number in a message. -/
inductive Quantity where
  | int (n : Int64)
  | float (x : Binary64)
deriving DecidableEq

/-- The plain text of a number. -/
def Quantity.text : Quantity → String
  | .int n => NumberStyle.integerText n.toInt
  | .float x => x.text .display

/-- A range of integers with the step of an input field. -/
structure IntRange where
  min : Int64
  max : Int64
  step : Int64
deriving DecidableEq

/-- A range of floats with the step of an input field. -/
structure FloatRange where
  min : Binary64
  max : Binary64
  step : Binary64
deriving DecidableEq

/-- The sort of a constraint. -/
inductive ConstraintKind where
  | intRange
  | floatRange
deriving DecidableEq

/-- The words for a sort of constraint. -/
def ConstraintKind.text : ConstraintKind → String
  | .intRange => "integer range"
  | .floatRange => "float range"

/-- A constraint on the values of a setting. -/
inductive Constraint where
  | int (range : IntRange)
  | float (range : FloatRange)
deriving DecidableEq

/-- Why a number, or an element of a list, is refused. -/
inductive ValidationError where
  | belowMinimum (value min : Quantity)
  | aboveMaximum (value max : Quantity)
  | notANumber
  /-- The element at a place is refused. -/
  | element (index : Nat) (reason : ValidationError)
deriving DecidableEq

/-- The wording of a validation error. -/
def ValidationError.message : ValidationError → String
  | .belowMinimum value min => "value " ++ value.text ++ " is below the minimum " ++ min.text
  | .aboveMaximum value max => "value " ++ value.text ++ " is above the maximum " ++ max.text
  | .notANumber => "value is not a number"
  | .element index reason =>
    "element " ++ NumberStyle.naturalText index ++ ": " ++ reason.message

/-- What is wrong with the bounds of a constraint. -/
inductive BoundsProblem where
  | minAboveMax (min max : Quantity)
  | stepNotPositive (step : Quantity)
  | notFinite
deriving DecidableEq

/-- The wording of a problem with bounds. -/
def BoundsProblem.message : BoundsProblem → String
  | .minAboveMax min max => "min " ++ min.text ++ " is greater than max " ++ max.text
  | .stepNotPositive step => "step " ++ step.text ++ " must be positive"
  | .notFinite => "bounds must be finite"

/-- Whether an integer lies in a range. -/
def IntRange.check (r : IntRange) (n : Int64) : Except ValidationError Unit :=
  if n < r.min then .error (.belowMinimum (.int n) (.int r.min))
  else if r.max < n then .error (.aboveMaximum (.int n) (.int r.max))
  else .ok ()

/-- Whether a float lies in a range. -/
def FloatRange.check (r : FloatRange) (x : Binary64) : Except ValidationError Unit :=
  if x.isNaN then .error .notANumber
  else if x.isLess r.min then .error (.belowMinimum (.float x) (.float r.min))
  else if r.max.isLess x then .error (.aboveMaximum (.float x) (.float r.max))
  else .ok ()

namespace Constraint

/-- The sort of a constraint. -/
def kind : Constraint → ConstraintKind
  | .int _ => .intRange
  | .float _ => .floatRange

/-- The first thing wrong with the bounds, if anything is: a lower bound above the upper one or
a step that is not positive, and before them, for floats, a bound that is not finite. -/
def boundsProblem? : Constraint → Option BoundsProblem
  | .int r =>
    if r.max < r.min then some (.minAboveMax (.int r.min) (.int r.max))
    else if r.step ≤ 0 then some (.stepNotPositive (.int r.step))
    else none
  | .float r =>
    if !(r.min.isFinite && r.max.isFinite) then some .notFinite
    else if r.max.isLess r.min then some (.minAboveMax (.float r.min) (.float r.max))
    else if !(Binary.zero false).isLess r.step then some (.stepNotPositive (.float r.step))
    else none

/-- Whether two constraints are equal, floats as numbers. -/
def isEqual : Constraint → Constraint → Bool
  | .int a, .int b => decide (a = b)
  | .float a, .float b => a.min.isEqual b.min && a.max.isEqual b.max && a.step.isEqual b.step
  | _, _ => false

/-- A constraint in debugging text. -/
def debugText : Constraint → String
  | .int r =>
    "IntRange(IntRange \x7b min: " ++ NumberStyle.integerText r.min.toInt ++ ", max: "
      ++ NumberStyle.integerText r.max.toInt ++ ", step: " ++ NumberStyle.integerText r.step.toInt
      ++ " \x7d)"
  | .float r =>
    "FloatRange(FloatRange \x7b min: " ++ r.min.text .debug ++ ", max: " ++ r.max.text .debug
      ++ ", step: " ++ r.step.text .debug ++ " \x7d)"

end Constraint

namespace SettingType

/-- The sorts of constraint that a type may be declared with. -/
def allowedConstraints : SettingType → List ConstraintKind
  | .byte => [.intRange]
  | .integer => [.intRange]
  | .long => [.intRange]
  | .float => [.floatRange]
  | .double => [.floatRange]
  | .array t => t.allowedConstraints
  | _ => []

/-- Checks the elements of a list from place `index` on, from the left. -/
def validateFrom {α : Type} (check : α → Except ValidationError Unit) (index : Nat) :
    List α → Except ValidationError Unit
  | [] => .ok ()
  | a :: rest =>
    match check a with
    | .error e => .error (.element index e)
    | .ok () => validateFrom check (index + 1) rest

/-- Whether a value meets a constraint. A constraint of another sort asks nothing. -/
def validate : (t : SettingType) → Constraint → t.Val → Except ValidationError Unit
  | .byte, .int r, n => r.check (Int8.toInt64 n)
  | .integer, .int r, n => r.check (Int32.toInt64 n)
  | .long, .int r, n => r.check n
  | .float, .float r, x => r.check (Binary32.widen x)
  | .double, .float r, x => r.check x
  | .array t, c, items => validateFrom (t.validate c) 0 items
  | _, _, _ => .ok ()

/-- Whether a value meets all constraints, or else the error of the first that it does not. -/
def validateAll (t : SettingType) (v : t.Val) : List Constraint → Except ValidationError Unit
  | [] => .ok ()
  | c :: rest =>
    match t.validate c v with
    | .error e => .error e
    | .ok () => t.validateAll v rest

end SettingType

end TypedConfig
