import UdfBridge.Registry
import UdfBridge.Routine.Deployment

/-!
# Sessions

A `Session` joins a connection with the registry: its steps bind functions that exist in the
database, deploy new ones and change the translation table. Binding follows deployment, so a
function that the database refused is not registered; and a step that fails leaves the registry as
it was.
-/

namespace UdfBridge

open Source (FunctionDef)

/-- A registry with the connection that functions are deployed through. -/
structure Session (σ : Type) where
  /-- The functions registered so far. -/
  registry : Registry
  /-- The connection. -/
  connection : σ

namespace Session

variable {σ : Type} [Connection σ]

/-- What a session can be asked to do. -/
inductive Step where
  /-- Mints a kind for the signature of a draft, without a rule. -/
  | mint (draft : Signature.Draft)
  /-- Mints a kind for a signature, which no draft need describe, without a rule. -/
  | mintSignature (signature : Signature)
  /-- Binds a function that exists in the database. -/
  | bind (draft : Signature.Draft)
  /-- Creates a function in the database, without binding it. -/
  | deploy (f : FunctionDef) (inputs? : Option (List DataType)) (output? : Option DataType)
      (options : DeployOptions)
  /-- Creates a function in the database and binds it. -/
  | define (f : FunctionDef) (inputs? : Option (List DataType)) (output? : Option DataType)
      (options : DeployOptions)
  /-- Reads the source of a function, creates it in the database and binds it. -/
  | defineSource (source : String) (inputs : List DataType) (output : DataType)
      (options : DeployOptions)
  /-- Registers the rule that calls the function of a kind by its name. -/
  | register (kind : NodeKind)
  /-- Registers a rule for a kind, in place of an earlier one. -/
  | addRule (kind : NodeKind) (rule : RegisteredRule)
deriving Inhabited

/-- What a step that succeeds gives. -/
inductive Outcome where
  /-- A kind was minted. -/
  | minted (kind : NodeKind)
  /-- A function was bound. -/
  | bound (f : Udf)
  /-- A function was created. -/
  | deployed (signature : Signature)
  /-- The translation table was changed. -/
  | done
deriving DecidableEq, Repr, Inhabited

/-- Mints a kind for a signature. -/
def mintSignature (signature : Signature) (s : Session σ) : NodeKind × Session σ :=
  (s.registry.nextKind signature, { s with registry := s.registry.mint signature })

/-- Mints a kind for the signature of a draft. -/
def mint (draft : Signature.Draft) (s : Session σ) : Except Error NodeKind × Session σ :=
  match draft.build with
  | .error e => (.error (.configuration e), s)
  | .ok signature =>
    let (kind, s) := s.mintSignature signature
    (.ok kind, s)

/-- Binds a function that exists in the database. -/
def bind (draft : Signature.Draft) (s : Session σ) : Except Error Udf × Session σ :=
  let (answer, registry) := s.registry.bind draft
  (answer, { s with registry })

/-- Creates a function in the database. -/
def deploy (f : FunctionDef) (inputs? : Option (List DataType)) (output? : Option DataType)
    (options : DeployOptions) (s : Session σ) : Except Error Signature × Session σ :=
  let (answer, connection) := Routine.deploy f inputs? output? options s.connection
  (answer, { s with connection })

/-- Creates a function in the database and binds it. -/
def define (f : FunctionDef) (inputs? : Option (List DataType)) (output? : Option DataType)
    (options : DeployOptions) (s : Session σ) : Except Error Udf × Session σ :=
  match s.deploy f inputs? output? options with
  | (.error e, s) => (.error e, s)
  | (.ok signature, s) => s.bind signature.toDraft

/-- Reads the source of a function, creates it in the database and binds it. -/
def defineSource (source : String) (inputs : List DataType) (output : DataType)
    (options : DeployOptions) (s : Session σ) : Except Error Udf × Session σ :=
  match FunctionDef.parse source with
  | .error e => (.error (.source e), s)
  | .ok f => s.define f (some inputs) (some output) options

/-- Takes one step. -/
def step (s : Session σ) : Step → Except Error Outcome × Session σ
  | .mint draft =>
    let (answer, s) := s.mint draft
    (.minted <$> answer, s)
  | .mintSignature signature =>
    let (kind, s) := s.mintSignature signature
    (.ok (.minted kind), s)
  | .bind draft =>
    let (answer, s) := s.bind draft
    (.bound <$> answer, s)
  | .deploy f inputs? output? options =>
    let (answer, s) := s.deploy f inputs? output? options
    (.deployed <$> answer, s)
  | .define f inputs? output? options =>
    let (answer, s) := s.define f inputs? output? options
    (.bound <$> answer, s)
  | .defineSource source inputs output options =>
    let (answer, s) := s.defineSource source inputs output options
    (.bound <$> answer, s)
  | .register kind => (.ok .done, { s with registry := s.registry.register kind })
  | .addRule kind rule => (.ok .done, { s with registry := s.registry.addRule kind rule })

/-- Takes some steps in order; one that fails does not stop the others. -/
def run (s : Session σ) (steps : List Step) : Session σ :=
  steps.foldl (fun s x => (s.step x).2) s

end Session

end UdfBridge
