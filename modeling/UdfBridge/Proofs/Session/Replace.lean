import UdfBridge.Proofs.Routine.Statement
import UdfBridge.Proofs.Session.Creation
import UdfBridge.Proofs.Session.Minted

/-!
# Creating a function again

The recording server knows a function by what it reads in a statement: the text between the first
words and the first parenthesis. Of the statement that creates a routine it reads a text that depends
on the reference of the routine alone (`Server.createdFunction?_render`), whatever characters schema
and name hold. It never forgets a function. So once a function was created, creating one of the same
reference succeeds if that may replace it, and fails otherwise, whatever happened in between
(`created_again`).
-/

namespace UdfBridge

/-! ## What the server reads in a statement -/

namespace Server

/-- What stands behind the start of a text is found. -/
theorem behind?_append (start rest : List Char) : behind? start (start ++ rest) = some rest := by
  rw [behind?, if_pos (List.isPrefixOf_iff_prefix.mpr (List.prefix_append _ _)), List.drop_left]

/-- A statement with the first words of one that creates a routine. -/
theorem createdFunction?_of_opening {statement : String} {replace : Bool} {rest : List Char}
    (h : statement.toList = (Routine.opening replace).toList ++ rest) :
    createdFunction? statement = some (replace, .ofList (rest.takeWhile (· != '('))) := by
  unfold createdFunction?
  rw [h]
  cases replace with
  | true =>
    have hopening : Routine.opening true = "CREATE OR REPLACE FUNCTION " := rfl
    rw [hopening, behind?_append]
  | false =>
    have hopening : Routine.opening false = "CREATE FUNCTION " := rfl
    -- The longer opening is tried first, and no shorter one starts with it.
    have hother : behind? "CREATE OR REPLACE FUNCTION ".toList ("CREATE FUNCTION ".toList ++ rest) =
        none := by
      simp [behind?]
    rw [hopening, hother, behind?_append]

/-- What the server knows a function by: its reference, as far as that has no parenthesis. -/
def nameOf (reference : QualifiedName) : String :=
  .ofList (reference.render.toList.takeWhile (· != '('))

/-- A parenthesis ends what the server reads. -/
theorem takeWhile_append_parenthesis (s t : List Char) :
    (s ++ '(' :: t).takeWhile (· != '(') = s.takeWhile (· != '(') := by
  induction s with
  | nil => rfl
  | cons c s ih =>
    rw [List.cons_append, List.takeWhile_cons, List.takeWhile_cons, ih]

/-- The statement starts with its first words, the reference and a parenthesis. -/
theorem exists_toList_render (r : Routine) : ∃ rest, r.render.toList =
    (Routine.opening r.replace).toList ++ (r.signature.reference.render.toList ++ '(' :: rest) := by
  have hparenthesis : ("(" : String).toList = ['('] := rfl
  rw [Routine.toList_render_eq, hparenthesis, List.singleton_append]
  exact ⟨_, rfl⟩

/-- What the server reads in the statement that creates a routine. -/
theorem createdFunction?_render (r : Routine) :
    createdFunction? r.render = some (r.replace, nameOf r.signature.reference) := by
  obtain ⟨rest, hrender⟩ := exists_toList_render r
  rw [createdFunction?_of_opening hrender, takeWhile_append_parenthesis, nameOf]

/-! ## Creating routines -/

/-- The server creates functions as a database does, and refuses nothing else. -/
structure Emulates (s : Server) : Prop where
  emulating : s.emulating = true
  unfailing : s.failure? = none

variable {s : Server} {r : Routine}

/-- What the server does with a routine. -/
theorem execute_render (h : s.Emulates) (r : Routine) : execute r.render s =
    if nameOf r.signature.reference ∈ s.functions then
      if r.replace then (.ok (s.record r.render).statements.length, s.record r.render)
      else
        (.error ⟨some "42723", "function \"" ++ nameOf r.signature.reference ++
          "\" already exists with same argument types"⟩, s)
    else
      (.ok (s.record r.render).statements.length,
        { s with functions := nameOf r.signature.reference :: s.functions }.record r.render) := by
  simp only [execute, h.unfailing, h.emulating, createdFunction?_render, if_true]
  rfl

/-- A routine whose name is free is created, and takes it. -/
theorem execute_of_free (h : s.Emulates) (hfree : nameOf r.signature.reference ∉ s.functions) :
    ∃ rows, execute r.render s = (.ok rows,
      { s with functions := nameOf r.signature.reference :: s.functions }.record r.render) := by
  rw [execute_render h, if_neg hfree]
  exact ⟨_, rfl⟩

/-- A routine whose name is taken is created in place of the one that has it. -/
theorem execute_of_replace (h : s.Emulates) (hmem : nameOf r.signature.reference ∈ s.functions)
    (hreplace : r.replace = true) :
    ∃ rows, execute r.render s = (.ok rows, s.record r.render) := by
  rw [execute_render h, if_pos hmem, if_pos hreplace]
  exact ⟨_, rfl⟩

/-- A routine whose name is taken is refused, if it may not replace the one that has it. -/
theorem execute_of_taken (h : s.Emulates) (hmem : nameOf r.signature.reference ∈ s.functions)
    (hreplace : r.replace = false) :
    ∃ cause, execute r.render s = (.error cause, s) ∧ cause.code? = some "42723" := by
  rw [execute_render h, if_pos hmem, hreplace, if_neg Bool.false_ne_true]
  exact ⟨_, rfl, rfl⟩

/-- The name of a routine is taken as soon as it was created. -/
theorem mem_functions_of_execute (h : s.Emulates) {rows : Nat} {s' : Server}
    (hexecute : execute r.render s = (.ok rows, s')) :
    nameOf r.signature.reference ∈ s'.functions := by
  rw [execute_render h] at hexecute
  split at hexecute
  · -- The name is taken and stays so, for the function is only replaced.
    rename_i hmem
    split at hexecute
    · rw [← (Prod.mk.inj hexecute).2]
      exact hmem
    · simp at hexecute
  · rw [← (Prod.mk.inj hexecute).2]
    exact List.mem_cons_self

/-! ## What the server keeps -/

/-- The server is set as before, and has forgotten no function. -/
structure Onward (s s' : Server) : Prop where
  emulating : s'.emulating = s.emulating
  failure : s'.failure? = s.failure?
  functions : s.functions ⊆ s'.functions

namespace Onward

variable {s s' s'' : Server}

/-- A server is onward of itself. -/
theorem refl (s : Server) : Onward s s := ⟨rfl, rfl, List.Subset.refl _⟩

/-- A server that is onward of a later one is onward of the earlier one. -/
theorem trans (h : Onward s s') (h' : Onward s' s'') : Onward s s'' :=
  ⟨h'.emulating.trans h.emulating, h'.failure.trans h.failure,
    List.Subset.trans h.functions h'.functions⟩

/-- A server that creates functions as a database does goes on doing so. -/
theorem emulates (h : Onward s s') (hs : s.Emulates) : s'.Emulates :=
  ⟨h.emulating.trans hs.emulating, h.failure.trans hs.unfailing⟩

end Onward

/-- Recording a statement forgets no function. -/
theorem onward_record (s : Server) (statement : String) : Onward s (s.record statement) :=
  ⟨rfl, rfl, List.Subset.refl _⟩

/-- Executing a statement forgets no function. -/
theorem onward_execute (s : Server) (statement : String) : Onward s (execute statement s).2 := by
  unfold execute
  dsimp only
  split
  · exact .refl s
  · split
    · split
      · exact .refl s
      · split
        · split
          · exact onward_record s statement
          · exact .refl s
        · exact ⟨rfl, rfl, List.subset_cons_self _ _⟩
    · exact onward_record s statement

/-- What a connection does with a statement is what the server does. -/
theorem onward_of_execute {statement : String} {answer : Except ConnectionError Nat} {s' : Server}
    (h : Connection.execute statement s = (answer, s')) : Onward s s' := by
  obtain rfl : (execute statement s).2 = s' := congrArg Prod.snd h
  exact onward_execute s statement

/-- A query forgets no function. -/
theorem onward_query (s : Server) (statement : String) : Onward s (query statement s).2 := by
  unfold query
  split
  · exact .refl s
  · exact onward_record s statement

end Server

namespace Session

/-! ## What happens to a session with the server -/

/-- Something that happens to a session with a recording server: a step, or something that is done to
the server directly. -/
inductive Event where
  | step (x : Step)
  | execute (statement : String)
  | query (statement : String)
  | takeStatements

variable {s : Session Server} {x : Step} {c : Creation}

/-- The session after an event. -/
def after (s : Session Server) : Event → Session Server
  | .step x => (s.step x).2
  | .execute statement => { s with connection := (s.connection.execute statement).2 }
  | .query statement => { s with connection := (s.connection.query statement).2 }
  | .takeStatements => { s with connection := s.connection.takeStatements.2 }

/-- The session after some events, in order. -/
def afterAll (s : Session Server) (events : List Event) : Session Server :=
  events.foldl after s

/-- A step goes on with the server. -/
theorem onward_step (s : Session Server) (x : Step) :
    s.connection.Onward (s.step x).2.connection := by
  cases hx : x.creation? with
  | none =>
    rw [(step_of_creation?_eq_none hx s).1]
    exact .refl _
  | some c =>
    rcases creation_cases hx s with
      ⟨_, -, hstep⟩ | ⟨_, _, _, -, hexecute, hstep⟩ | ⟨_, _, _, -, hexecute, -, hconnection⟩
    · rw [hstep]
      exact .refl _
    · rw [hstep]
      exact Server.onward_of_execute hexecute
    · rw [hconnection]
      exact Server.onward_of_execute hexecute

/-- Nothing that happens to a session makes the server forget a function. -/
theorem onward_after (s : Session Server) (event : Event) :
    s.connection.Onward (s.after event).connection := by
  cases event with
  | step x => exact onward_step s x
  | execute statement => exact Server.onward_execute s.connection statement
  | query statement => exact Server.onward_query s.connection statement
  | takeStatements => exact ⟨rfl, rfl, List.Subset.refl _⟩

/-- Whatever happens in a session, its server forgets no function. -/
theorem onward_afterAll (s : Session Server) (events : List Event) :
    s.connection.Onward (s.afterAll events).connection := by
  induction events generalizing s with
  | nil => exact .refl _
  | cons event events ih => exact (onward_after s event).trans (ih (s.after event))

/-- A function that was created has its name with the server. -/
theorem mem_functions_of_step (hs : s.connection.Emulates) (hx : x.creation? = some c) {o : Outcome}
    (hok : (s.step x).1 = .ok o) :
    Server.nameOf c.reference ∈ (s.step x).2.connection.functions := by
  rcases creation_cases hx s with
    ⟨_, -, hstep⟩ | ⟨_, _, _, -, -, hstep⟩ | ⟨_, _, _, hr, hexecute, -, hconnection⟩
  · simp [hstep] at hok
  · simp [hstep] at hok
  · rw [hconnection, ← (Creation.reference_of_routine hr).1]
    exact Server.mem_functions_of_execute hs hexecute

/-- **A function that exists can be replaced, and nothing else.** Once a step has created a function in
a server that emulates a database, every later step that is to create one of the same schema and
name, and has a routine for it, succeeds if it may replace the function, and then its statement is
the only one that the server takes. If it may not, the server refuses it with the code of a function
that exists already, and the session stays as it was. It does not matter what happened in
between. -/
theorem created_again (s : Session Server) (hs : s.connection.Emulates) (x y : Step) (c d : Creation)
    (o : Outcome) (r : Routine) (between : List Event) (hx : x.creation? = some c)
    (hok : (s.step x).1 = .ok o) (hy : y.creation? = some d) (hr : d.routine = .ok r)
    (hsame : d.reference = c.reference) :
    let t := (s.step x).2.afterAll between
    (d.options.replace = true → (∃ o', (t.step y).1 = .ok o') ∧ (t.step y).2.connection =
        { t.connection with statements := t.connection.statements ++ [r.render] }) ∧
      (d.options.replace = false → ∃ cause, cause.code? = some "42723" ∧
        t.step y = (.error (.remoteExecution cause), t)) := by
  intro t
  obtain ⟨hreference, hreplace⟩ := Creation.reference_of_routine hr
  have honward : (s.step x).2.connection.Onward t.connection := onward_afterAll _ between
  have hemulates : t.connection.Emulates := honward.emulates ((onward_step s x).emulates hs)
  -- What the first step created is still there after the events in between.
  have htaken : Server.nameOf r.signature.reference ∈ t.connection.functions := by
    rw [hreference, hsame]
    exact honward.functions (mem_functions_of_step hs hx hok)
  refine ⟨fun hmay => ?_, fun hmaynot => ?_⟩
  · obtain ⟨rows, hexecute⟩ := Server.execute_of_replace hemulates htaken (hreplace.trans hmay)
    exact step_of_execution hy hr hexecute
  · obtain ⟨cause, hexecute, hcode⟩ :=
      Server.execute_of_taken hemulates htaken (hreplace.trans hmaynot)
    exact ⟨cause, hcode, step_of_refusal hy hr hexecute⟩

/-- How to create a function whose schema has a parenthesis and whose name has a quote. -/
def awkwardOptions (replace : Bool) : DeployOptions :=
  { schema? := some "a(b", name? := some "c\"d", replace }

/-- The decorated definition, to be created under that name. -/
def awkwardCreation (replace : Bool) : Creation :=
  ⟨decorated, some [.int32, .string], some .string, awkwardOptions replace⟩

/-- The step that deploys it. -/
def awkwardDeploy (replace : Bool) : Step :=
  .deploy decorated (some [.int32, .string]) (some .string) (awkwardOptions replace)

/-- The step that defines it. -/
def awkwardDefine (replace : Bool) : Step :=
  .define decorated (some [.int32, .string]) (some .string) (awkwardOptions replace)

/-- The routine of it. -/
def awkwardRoutine (replace : Bool) : Routine :=
  { signature := ⟨"c\"d", [⟨"a", .int32⟩, ⟨"b", .string⟩], .string, some "a(b"⟩
    replace
    language := .plpython3u
    body := "def f(a, *, b): return '$$'\n"
    call := "f(a, b=b)" }

/-- Another function is created, and refused the second time; the server is asked something else, and
its statements are taken. -/
def otherEvents : List Event := [
  .step (.define decorated (some [.int32, .string]) (some .string) {}),
  .step (.deploy decorated (some [.int32, .string]) (some .string) {}),
  .execute "DROP FUNCTION f", .query "SELECT 1", .takeStatements]

/-- The function is replaced behind all that, and refused without leave to be. -/
theorem created_again_of_awkward :
    let s := start { Server.fresh with emulating := true }
    let t := (s.step (awkwardDefine false)).2.afterAll otherEvents
    ((∃ o, (t.step (awkwardDeploy true)).1 = .ok o) ∧ (t.step (awkwardDeploy true)).2.connection =
        { t.connection with
          statements := t.connection.statements ++ [(awkwardRoutine true).render] }) ∧
      ∃ cause, cause.code? = some "42723" ∧
        t.step (awkwardDefine false) = (.error (.remoteExecution cause), t) := by
  intro s t
  have hroutine : ∀ replace, (awkwardCreation replace).routine = .ok (awkwardRoutine replace) := by
    decide +kernel
  have hdefine : (awkwardDefine false).creation? = some (awkwardCreation false) := rfl
  have hdeploy : (awkwardDeploy true).creation? = some (awkwardCreation true) := rfl
  have hemulates : s.connection.Emulates := ⟨rfl, rfl⟩
  obtain ⟨rows, hexecute⟩ := Server.execute_of_free (r := awkwardRoutine false) hemulates
    List.not_mem_nil
  obtain ⟨⟨o, hok⟩, -⟩ := step_of_execution (s := s) hdefine (hroutine false) hexecute
  exact ⟨(created_again s hemulates _ _ _ _ o _ otherEvents hdefine hok hdeploy (hroutine true)
      rfl).1 rfl,
    (created_again s hemulates _ _ _ _ o _ otherEvents hdefine hok hdefine (hroutine false)
      rfl).2 rfl⟩

end Session

end UdfBridge
