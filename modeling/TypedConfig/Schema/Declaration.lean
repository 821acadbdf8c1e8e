/-
# Declarations of settings

A declaration names a key, its type, a default, constraints and a description. It
is sound when the key is not empty, every constraint is of a sort that the type
allows and has well-formed bounds, and the default meets the constraints and can
be written. The check reports the first of these that fails, in this order.

Key definitions: `Declaration`, `Declaration.check`, `SchemaError`.
-/
import TypedConfig.Schema.Constraint
import TypedConfig.Schema.Conversion
import TypedConfig.Value.Persistable

namespace TypedConfig

/-- Why a declaration is refused. -/
inductive SchemaError where
  | emptyKey
  | duplicateKey (key : String)
  | constraintNotAllowed (key : String) (constraint : ConstraintKind) (variant : Variant)
  | invalidBounds (key : String) (problem : BoundsProblem)
  | defaultRejected (key : String) (reason : ValidationError)
  | defaultNotPersistable (key : String) (reason : PersistenceError)
deriving DecidableEq

/-- The wording of a schema error. -/
def SchemaError.message : SchemaError → String
  | .emptyKey => "configuration keys must not be empty"
  | .duplicateKey key => "key " ++ quoted key ++ " is already registered"
  | .constraintNotAllowed key constraint variant =>
    constraint.text ++ " constraint is not allowed on " ++ variant.text ++ " key " ++ quoted key
  | .invalidBounds key problem => "invalid bounds on key " ++ quoted key ++ ": " ++ problem.message
  | .defaultRejected key reason =>
    "default value of key " ++ quoted key ++ " violates its constraints: " ++ reason.message
  | .defaultNotPersistable key reason =>
    "default value of key " ++ quoted key ++ " cannot be persisted: " ++ reason.message

/-- What a key is declared with. -/
structure Declaration (t : SettingType) where
  key : String
  default? : Option t.Val := none
  constraints : List Constraint := []
  description? : Option String := none

namespace Declaration

variable {t : SettingType}

/-- The declared default, or that of the type. -/
def default (d : Declaration t) : t.Val := d.default?.getD t.fallback

/-- Checks that the constraints are of an allowed sort and have well-formed bounds. -/
def checkConstraints (key : String) (t : SettingType) : List Constraint → Except SchemaError Unit
  | [] => .ok ()
  | c :: rest =>
    if c.kind ∈ t.allowedConstraints then
      match c.boundsProblem? with
      | some problem => .error (.invalidBounds key problem)
      | none => checkConstraints key t rest
    else .error (.constraintNotAllowed key c.kind t.variant)

/-- Whether a declaration is sound, or else what is first found wrong with it. -/
def check (d : Declaration t) : Except SchemaError Unit :=
  if d.key = "" then .error .emptyKey
  else
    match checkConstraints d.key t d.constraints with
    | .error e => .error e
    | .ok () =>
      match t.validateAll d.default d.constraints with
      | .error e => .error (.defaultRejected d.key e)
      | .ok () =>
        match (t.toValue d.default).checkPersistable with
        | .error e => .error (.defaultNotPersistable d.key e)
        | .ok () => .ok ()

/-- Whether two optional values are both absent, or both there and equal. -/
def optionEqual {α : Type} (equal : α → α → Bool) : Option α → Option α → Bool
  | none, none => true
  | some a, some b => equal a b
  | _, _ => false

/-- Whether two declarations are equal, floats as numbers. -/
def isEqual (a b : Declaration t) : Bool :=
  decide (a.key = b.key) && optionEqual t.isEqual a.default? b.default?
    && SettingType.listEqual Constraint.isEqual a.constraints b.constraints
    && decide (a.description? = b.description?)

end Declaration

end TypedConfig
