import UdfBridge.Query.Expr

/-!
# Calls of registered functions

A call is built by `NodeKind.instantiate`, which checks the arguments against the signature of the
function: their number first, and then their types from left to right.
-/

namespace UdfBridge

/-- The first argument that does not pass for its parameter. -/
def NodeKind.firstMistyped? (k : NodeKind) :
    List Signature.Parameter → List Expr → Option ArgumentError
  | p :: ps, a :: as =>
    if a.type.castableTo p.type then firstMistyped? k ps as
    else some (.mistyped p.name k.signature.name p.type a.type a.display)
  | _, _ => none

/-- A call of the function with some arguments, of which there must be one for each parameter,
and each must pass for its parameter without a cast. -/
def NodeKind.instantiate (k : NodeKind) (args : List Expr) : Except ArgumentError Expr :=
  let ps := k.signature.parameters
  if args.length ≠ ps.length then .error (.arity k.signature.name ps.length args.length)
  else
    match k.firstMistyped? ps args with
    | some e => .error e
    | none => .ok (.call k args)

end UdfBridge
