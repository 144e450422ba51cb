import UdfBridge.Routine.DollarTag
import UdfBridge.Signature
import UdfBridge.Source.Function
import UdfBridge.Types.Catalog

/-!
# Routines

A function of Python becomes a routine of the database: its definition, without decorators, is the
text of the routine, and a last line calls it with the arguments of the routine and returns the
result. `Routine.build` decides whether a definition can be one, and `Routine.render` writes the
statement that creates it.
-/

namespace UdfBridge

open Source (FunctionDef ParameterKind)

/-- The procedural language of a routine. -/
inductive Language where
  | plpython3u
  /-- On servers that still have Python 2. -/
  | plpythonu
  | plpython2u
deriving DecidableEq, Repr, Inhabited

/-- The name of a language. -/
def Language.name : Language → String
  | plpython3u => "plpython3u"
  | plpythonu => "plpythonu"
  | plpython2u => "plpython2u"

/-- How a function is to be created in the database. -/
structure DeployOptions where
  /-- The schema to create it in; without it the search path decides. -/
  schema? : Option String := none
  /-- Whether to replace a function of the same name. -/
  replace : Bool := false
  /-- The name in the database, where it differs from that of the definition. -/
  name? : Option String := none
  /-- The language of the routine. -/
  language : Language := .plpython3u
deriving DecidableEq, Repr, Inhabited

/-- A routine, ready to be created. -/
structure Routine where
  /-- The signature of the routine. -/
  signature : Signature
  /-- Whether to replace a routine of the same name. -/
  replace : Bool
  /-- The language of the routine. -/
  language : Language
  /-- The definition of the function. -/
  body : String
  /-- The expression that calls the function with the arguments of the routine. -/
  call : String
deriving DecidableEq, Repr, Inhabited

namespace Routine

/-- The argument that passes a parameter of the routine on to the function. -/
def argument (p : Source.Parameter) : String :=
  if p.kind = .keywordOnly then p.name ++ "=" ++ p.name else p.name

/-- The expression that passes the parameters of the routine on to the function. -/
def callOf (f : FunctionDef) : String :=
  f.name ++ "(" ++ ", ".intercalate (f.parameters.map argument) ++ ")"

/-- The text with a line feed at its end. -/
def withFinalLineFeed (s : String) : String :=
  if s.toList.getLast? = some '\n' then s else s ++ "\n"

/-- The draft of the signature that a definition has in the database. -/
def draftOf (f : FunctionDef) (inputs : List DataType) (output : DataType)
    (options : DeployOptions) : Signature.Draft :=
  { name := options.name?.getD f.name, inputs, output
    schema? := options.schema?
    names? := some (f.parameters.map fun p => p.name) }

/-- Why a definition cannot be a routine over `arity` types, judged without its signature. -/
def obstacle? (f : FunctionDef) (arity : Nat) : Option ConfigurationError :=
  if f.isAsync then some (.coroutine f.name)
  else
    match f.parameters.find? fun p => p.kind.isVariadic with
    | some p => some (.variadicParameter f.name p.name)
    | none =>
      if f.parameters.length = arity then none
      else some (.arityMismatch f.name f.parameters.length arity)

/-- The routine of a definition. The function must be no coroutine and have no variadic parameter,
and its parameters need one type each. -/
def build (f : FunctionDef) (inputs : List DataType) (output : DataType)
    (options : DeployOptions) : Except Error Routine :=
  match obstacle? f inputs.length with
  | some e => .error (.configuration e)
  | none => do
    let signature ← (draftOf f inputs output options).build.mapError .configuration
    let body ← (Source.stripDecorators (Text.dedent f.source)).mapError .source
    return {
      signature
      replace := options.replace
      language := options.language
      body := withFinalLineFeed body
      call := callOf f }

/-- The text of the routine: the definition, and the line that calls it. -/
def text (r : Routine) : String :=
  r.body ++ "return " ++ r.call ++ "\n"

/-- The tag that delimits the text of the routine. -/
def dollarTag (r : Routine) : String :=
  .ofList (freeTag r.text.toList)

/-- A parameter as the statement declares it. -/
def declaration (p : Signature.Parameter) : String :=
  Sql.quoteIdentifier p.name ++ " " ++ p.type.toSql.name

/-- The statement up to the text of the routine. -/
def header (r : Routine) : String :=
  "CREATE " ++ (if r.replace then "OR REPLACE " else "") ++ "FUNCTION " ++
    r.signature.reference.render ++ "(" ++
    ", ".intercalate (r.signature.parameters.map declaration) ++ ")\n" ++
    "RETURNS " ++ r.signature.output.toSql.name ++ "\n" ++
    "LANGUAGE " ++ r.language.name ++ "\n"

/-- The statement that creates the routine. -/
def render (r : Routine) : String :=
  r.header ++ "AS " ++ r.dollarTag ++ "\n" ++ r.text ++ r.dollarTag ++ ";\n"

end Routine

end UdfBridge
