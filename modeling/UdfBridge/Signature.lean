import UdfBridge.Error
import UdfBridge.Sql.Expr

/-!
# Signatures

The signature of a function says where it lives, what it takes and what it returns. It is built
from a draft, in which the names of the parameters may be absent; they are then `v0`, `v1`, ….
-/

namespace UdfBridge

/-- A parameter of a function in the database. -/
structure Signature.Parameter where
  /-- The name. -/
  name : String
  /-- The type. -/
  type : DataType
deriving DecidableEq, Repr, Inhabited

/-- What is needed to call a function. -/
structure Signature where
  /-- The name of the function. -/
  name : String
  /-- The parameters, in order. -/
  parameters : List Signature.Parameter
  /-- The type of the result. -/
  output : DataType
  /-- The schema that the function lives in; without it the search path decides. -/
  schema? : Option String
deriving DecidableEq, Repr, Inhabited

/-- What a signature is built from. -/
structure Signature.Draft where
  /-- The name of the function. -/
  name : String
  /-- The types of the parameters, in order. -/
  inputs : List DataType
  /-- The type of the result. -/
  output : DataType
  /-- The schema that the function lives in. -/
  schema? : Option String
  /-- The names of the parameters, in order. -/
  names? : Option (List String)
deriving DecidableEq, Repr, Inhabited

namespace Signature

/-- The names `v0`, `v1`, … of `n` parameters. -/
def numberedNames (n : Nat) : List String :=
  (List.range n).map fun i => "v" ++ toString i

/-- The first of `names` that stands in `seen` or before it in `names`. -/
def firstRepeated? (seen : List String) : List String → Option String
  | [] => none
  | x :: names => if x ∈ seen then some x else firstRepeated? (x :: seen) names

/-- The names of the parameters of a draft, one for each type. -/
def Draft.names (d : Draft) : Except ConfigurationError (List String) :=
  match d.names? with
  | none => .ok (numberedNames d.inputs.length)
  | some names =>
    if names.length = d.inputs.length then .ok names
    else .error (.lengthMismatch d.name d.inputs.length names.length)

/-- The signature of a draft: the function needs a name, and the parameters need one each, all
different. -/
def Draft.build (d : Draft) : Except ConfigurationError Signature :=
  if d.name.isEmpty then .error .emptyName
  else
    match d.names with
    | .error e => .error e
    | .ok names =>
      match firstRepeated? [] names with
      | some name => .error (.duplicateParameter name d.name)
      | none =>
        .ok {
          name := d.name
          parameters := List.zipWith Parameter.mk names d.inputs
          output := d.output
          schema? := d.schema? }

/-- The types of the parameters, in order. -/
def inputs (s : Signature) : List DataType :=
  s.parameters.map Parameter.type

/-- The names of the parameters, in order. -/
def parameterNames (s : Signature) : List String :=
  s.parameters.map Parameter.name

/-- The draft that a signature is built from. -/
def toDraft (s : Signature) : Draft :=
  ⟨s.name, s.inputs, s.output, s.schema?, some s.parameterNames⟩

/-- The name by which statements refer to the function. -/
def reference (s : Signature) : QualifiedName :=
  ⟨s.schema?, s.name⟩

/-- The text of a signature. -/
def display (s : Signature) : String :=
  s.reference.render ++ "(" ++
    ", ".intercalate (s.parameters.map fun p => p.name ++ " " ++ p.type.name) ++ ") -> " ++
    s.output.name

end Signature

end UdfBridge
