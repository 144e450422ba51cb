import UdfBridge.Routine.Definition

/-!
# Deployment

`Routine.deploy` creates a function in the database, through any connection. Types cannot be
inferred from the source, so both have to be given; and a statement that the database refuses is
not tried again.
-/

namespace UdfBridge

open Source (FunctionDef)

/-- The routine of a definition, for which both types have to be given. -/
def Routine.ofTypes? (f : FunctionDef) (inputs? : Option (List DataType))
    (output? : Option DataType) (options : DeployOptions) : Except Error Routine :=
  match inputs?, output? with
  | none, _ => .error (.unsupported .inputTypes)
  | some _, none => .error (.unsupported .outputType)
  | some inputs, some output => Routine.build f inputs output options

/-- Creates a function in the database and gives its signature. The connection is used only if
there is a statement to execute. -/
def Routine.deploy {σ : Type} [Connection σ] (f : FunctionDef) (inputs? : Option (List DataType))
    (output? : Option DataType) (options : DeployOptions) (connection : σ) :
    Except Error Signature × σ :=
  match Routine.ofTypes? f inputs? output? options with
  | .error e => (.error e, connection)
  | .ok routine =>
    match Connection.execute routine.render connection with
    | (.error e, connection) => (.error (.remoteExecution e), connection)
    | (.ok _, connection) => (.ok routine.signature, connection)

end UdfBridge
