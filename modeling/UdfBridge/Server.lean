import UdfBridge.Connection

/-!
# A recording server

A connection that keeps the statements it is given. It can be set to refuse every statement with
one error. It can also be set to create functions as a database does, judging by the text of the
statement alone: it executes nothing but `CREATE FUNCTION`, knows a function by what stands before
its first parenthesis, and refuses to create it again without `OR REPLACE`.

What it answers to the statements that it takes is for those who watch it: how many it has, and the
text of a query. A database would say how many rows were changed and give those that were asked for.
Creating a function reads no such answer, only whether there is one.
-/

namespace UdfBridge

/-- The state of a recording server. -/
structure Server where
  /-- The statements taken so far, in order. -/
  statements : List String
  /-- The functions created so far. -/
  functions : List String
  /-- The error that every statement is refused with. -/
  failure? : Option ConnectionError
  /-- Whether functions are created as a database does. -/
  emulating : Bool
deriving DecidableEq, Repr, Inhabited

namespace Server

/-- A server that has seen nothing and takes every statement. -/
def fresh : Server := ⟨[], [], none, false⟩

/-- What is left of `s` behind `start`, if `s` starts with it. -/
def behind? (start s : List Char) : Option (List Char) :=
  if start.isPrefixOf s then some (s.drop start.length) else none

/-- Whether a statement creates a function, and then whether it may replace one, and the name. -/
def createdFunction? (statement : String) : Option (Bool × String) :=
  let nameIn (rest : List Char) : String := .ofList (rest.takeWhile (· != '('))
  match behind? "CREATE OR REPLACE FUNCTION ".toList statement.toList with
  | some rest => some (true, nameIn rest)
  | none =>
    match behind? "CREATE FUNCTION ".toList statement.toList with
    | some rest => some (false, nameIn rest)
    | none => none

/-- The server with one more statement. -/
def record (s : Server) (statement : String) : Server :=
  { s with statements := s.statements ++ [statement] }

/-- Executes a statement, and gives the number of statements then recorded, where a database would
give the number of rows that it changed. -/
def execute (statement : String) (s : Server) : Except ConnectionError Nat × Server :=
  let accept (s : Server) : Except ConnectionError Nat × Server :=
    (.ok (s.record statement).statements.length, s.record statement)
  match s.failure? with
  | some e => (.error e, s)
  | none =>
    if s.emulating then
      match createdFunction? statement with
      | none =>
        (.error ⟨some "42601", "syntax error at or near \"" ++ statement ++ "\""⟩, s)
      | some (replace, name) =>
        if name ∈ s.functions then
          if replace then accept s
          else
            (.error ⟨some "42723",
              "function \"" ++ name ++ "\" already exists with same argument types"⟩, s)
        else accept { s with functions := name :: s.functions }
    else accept s

/-- Runs a query: it is recorded, and answered by one row with its text and a null, whatever it asks
for. -/
def query (statement : String) (s : Server) : Except ConnectionError (List (List Cell)) × Server :=
  match s.failure? with
  | some e => (.error e, s)
  | none => (.ok [[.text statement, .null]], s.record statement)

instance : Connection Server := ⟨execute, query⟩

/-- Sets what the server refuses and whether it creates functions as a database does. -/
def configure (emulating : Bool) (failure? : Option ConnectionError) (s : Server) : Server :=
  { s with emulating, failure? }

/-- The statements recorded so far, and the server without them. -/
def takeStatements (s : Server) : List String × Server :=
  (s.statements, { s with statements := [] })

end Server

end UdfBridge
