import UdfBridge.Connection
import UdfBridge.Source.Parameter
import UdfBridge.Types.Abstract

/-!
# Errors

Why a function could not be registered, deployed or called. Each error is a cause with the values
that its text names; `message` has the wording.
-/

namespace UdfBridge

/-- Why the arguments of a registration describe no valid function. -/
inductive ConfigurationError where
  /-- The function has no name. -/
  | emptyName
  /-- The numbers of types and of parameter names differ. -/
  | lengthMismatch (function : String) (types names : Nat)
  /-- Two parameters have one name. -/
  | duplicateParameter (parameter function : String)
  /-- The function is a coroutine. -/
  | coroutine (function : String)
  /-- A parameter takes any number of arguments. -/
  | variadicParameter (function parameter : String)
  /-- The numbers of parameters and of types differ. -/
  | arityMismatch (function : String) (parameters types : Nat)
deriving DecidableEq, Repr

/-- The text of the error. -/
def ConfigurationError.message : ConfigurationError → String
  | emptyName => "function name must not be empty"
  | lengthMismatch function types names =>
    "Length mismatch in arguments to " ++ function ++ ": len(input_types)=" ++ toString types ++
      ", len(parameters)=" ++ toString names
  | duplicateParameter parameter function =>
    "duplicate parameter name " ++ parameter ++ " in " ++ function
  | coroutine function => function ++ " is async; PL/Python cannot run coroutines"
  | variadicParameter function parameter =>
    function ++ " has variadic parameter " ++ parameter ++ ", which has no SQL equivalent"
  | arityMismatch function parameters types =>
    function ++ " takes " ++ toString parameters ++ " parameters but " ++ toString types ++
      " input types were given"

/-- What a deployment would have to infer from the source alone. -/
inductive Inference where
  | inputTypes
  | outputType
deriving DecidableEq, Repr

/-- The name of the inference. -/
def Inference.message : Inference → String
  | inputTypes => "inferring input types"
  | outputType => "inferring output type"

/-- Why a function cannot be called with some arguments. -/
inductive ArgumentError where
  /-- There are too few or too many arguments. -/
  | arity (function : String) (parameters arguments : Nat)
  /-- An argument does not pass for its parameter. -/
  | mistyped (parameter function : String) (expected found : DataType) (argument : String)
deriving DecidableEq, Repr

/-- The text of the error. -/
def ArgumentError.message : ArgumentError → String
  | arity function parameters arguments =>
    function ++ " takes " ++ toString parameters ++ " arguments but " ++ toString arguments ++
      " were given"
  | mistyped parameter function expected found argument =>
    "argument " ++ parameter ++ " of " ++ function ++ " must be " ++ expected.name ++ ", found " ++
      found.name ++ " (" ++ argument ++ ")"

/-- The text of the error. -/
def Source.ReadError.message : Source.ReadError → String
  | noMatch => "Unable to parse function definition"
  | noDefinition => "Unsupported function definition: no function definition found"
  | misplaced rule => "Unexpected part of a function definition: " ++ rule.name

/-- Why a registration, a deployment or a call failed. -/
inductive Error where
  /-- The caller's arguments describe no valid function. -/
  | configuration (cause : ConfigurationError)
  /-- The operation would need something that is not done. -/
  | unsupported (cause : Inference)
  /-- The database refused a statement; its error is passed on as it is. -/
  | remoteExecution (cause : ConnectionError)
  /-- The source could not be read. -/
  | source (cause : Source.ReadError)
  /-- A registered function was applied to arguments that do not fit its signature. -/
  | argument (cause : ArgumentError)
deriving DecidableEq, Repr

/-- The text of the error. -/
def Error.message : Error → String
  | configuration cause => "Configuration error: " ++ cause.message
  | unsupported cause => "Not implemented: " ++ cause.message
  | remoteExecution cause => "Remote execution failed: " ++ cause.message
  | source cause => "Unable to transform function source: " ++ cause.message
  | argument cause => "Invalid argument: " ++ cause.message

end UdfBridge
