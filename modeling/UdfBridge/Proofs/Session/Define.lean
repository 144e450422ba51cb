import UdfBridge.Proofs.Registry.Identity
import UdfBridge.Proofs.Routine.Build
import UdfBridge.Proofs.Signature.RoundTrip
import UdfBridge.Server
import UdfBridge.Session

/-!
# Creating a function and binding it

`Session.define` takes one of three ways: the definition is no routine and nothing happens; the
database refuses the statement and the registry stays as it is; or the statement is executed and one
kind is minted and registered. There is no fourth: the signature of the routine was built from a
draft, so binding takes it apart and builds it again without fail. Which calls a connection gets is
told by a `Journal`, a connection of any kind that writes them down.
-/

namespace UdfBridge

open Source (FunctionDef)

/-! ## Binding -/

namespace Registry

variable {d : Signature.Draft} {r : Registry}

/-- Binding mints a kind for the signature of the draft and registers its rule. -/
theorem bind_of_ok {s : Signature} (h : d.build = .ok s) :
    r.bind d = (.ok ⟨r.nextKind s⟩, (r.mint s).register (r.nextKind s)) := by
  rw [bind, h]

/-- A draft without a signature changes nothing. -/
theorem bind_of_error {cause : ConfigurationError} (h : d.build = .error cause) :
    r.bind d = (.error (.configuration cause), r) := by
  rw [bind, h]

/-- A registry has one kind more than another: the kind is counted under its name, known by its
identity and called by its name; all else is as it was. -/
structure Gains (r r' : Registry) (k : NodeKind) : Prop where
  /-- One more is counted under the name of the kind, and no more under others. -/
  count : ∀ name, r'.kindCount name = r.kindCount name + if k.signature.name = name then 1 else 0
  /-- The kind is known by its identity. -/
  lookup : ∀ id, r'.lookup? id = if k.id = id then some k else r.lookup? id
  /-- The rule of the kind calls its function by name. -/
  rules : ∀ id, r'.rules[id]? = if k.id = id then some (.always (callRule k)) else r.rules[id]?
  /-- The kind is the last one recorded, and new among those recorded before. -/
  records : ∀ ks, r.Records ks → r'.Records (ks ++ [k])

/-- To mint a kind and to register it is to gain it. -/
theorem gains_mint_register (r : Registry) (s : Signature) :
    r.Gains ((r.mint s).register (r.nextKind s)) (r.nextKind s) where
  count := kindCount_mint r s
  lookup := lookup?_mint r s
  rules := getElem?_rules_addRule (r.mint s) (r.nextKind s) _
  records _ h := (h.mint s).withRules _

end Registry

/-! ## A connection that is watched -/

/-- A call that a connection got. -/
inductive Call where
  /-- A statement was to be executed, and this was the answer. -/
  | execute (statement : String) (answer : Except ConnectionError Nat)
  /-- A query was to be run. -/
  | query (statement : String)

/-- A connection with a journal of all calls that it got. -/
structure Journal (σ : Type) where
  /-- The calls, in order. -/
  calls : List Call
  /-- The connection. -/
  inner : σ

namespace Journal

variable {σ : Type} [Connection σ]

instance : Connection (Journal σ) where
  execute statement j :=
    let (answer, inner) := Connection.execute statement j.inner
    (answer, ⟨j.calls ++ [.execute statement answer], inner⟩)
  query statement j :=
    let (answer, inner) := Connection.query statement j.inner
    (answer, ⟨j.calls ++ [.query statement], inner⟩)

/-- A statement that is executed is written down with its answer. -/
theorem calls_execute (statement : String) (j : Journal σ) :
    (Connection.execute statement j).2.calls =
      j.calls ++ [.execute statement (Connection.execute statement j).1] := rfl

end Journal

/-! ## The three ways -/

namespace Session

variable {σ : Type} [Connection σ] {f : FunctionDef} {inputs? : Option (List DataType)}
  {output? : Option DataType} {options : DeployOptions} {s : Session σ} {r : Routine}

/-- A definition that is no routine is refused, and nothing happens. -/
theorem define_of_fault {e : Error} (h : Routine.ofTypes? f inputs? output? options = .error e) :
    s.define f inputs? output? options = (.error e, s) := by
  simp only [define, deploy, Routine.deploy, h]

/-- A routine that the database refuses is not bound. -/
theorem define_of_refusal {cause : ConnectionError} {connection : σ}
    (h : Routine.ofTypes? f inputs? output? options = .ok r)
    (hexecute : Connection.execute r.render s.connection = (.error cause, connection)) :
    s.define f inputs? output? options =
      (.error (.remoteExecution cause), { s with connection }) := by
  simp only [define, deploy, Routine.deploy, h, hexecute]

/-- A routine that the database creates is bound: its signature was built from a draft, so it can be
taken apart and built again. -/
theorem define_of_execution {rows : Nat} {connection : σ}
    (h : Routine.ofTypes? f inputs? output? options = .ok r)
    (hexecute : Connection.execute r.render s.connection = (.ok rows, connection)) :
    s.define f inputs? output? options =
      (.ok ⟨s.registry.nextKind r.signature⟩,
        ⟨(s.registry.mint r.signature).register (s.registry.nextKind r.signature), connection⟩) := by
  obtain ⟨inputs, output, -, -, hbuild⟩ := Routine.ofTypes?_eq_ok.mp h
  have hagain : r.signature.toDraft.build = .ok r.signature :=
    Signature.build_toDraft (Routine.build_draftOf hbuild)
  simp only [define, deploy, Routine.deploy, h, hexecute, bind, Registry.bind_of_ok hagain]

/-- What creating a function and binding it comes to, in three cases. -/
theorem define_cases (f : FunctionDef) (inputs? : Option (List DataType))
    (output? : Option DataType) (options : DeployOptions) (s : Session σ) :
    -- The definition is no routine.
    (∃ e, Routine.ofTypes? f inputs? output? options = .error e ∧
      s.define f inputs? output? options = (.error e, s)) ∨
    -- The database refuses the routine.
    (∃ r cause connection, Routine.ofTypes? f inputs? output? options = .ok r ∧
      Connection.execute r.render s.connection = (.error cause, connection) ∧
      s.define f inputs? output? options =
        (.error (.remoteExecution cause), { s with connection })) ∨
    -- The database creates the routine.
    (∃ r rows connection, Routine.ofTypes? f inputs? output? options = .ok r ∧
      Connection.execute r.render s.connection = (.ok rows, connection) ∧
      s.define f inputs? output? options =
        (.ok ⟨s.registry.nextKind r.signature⟩,
          ⟨(s.registry.mint r.signature).register (s.registry.nextKind r.signature),
            connection⟩)) := by
  cases h : Routine.ofTypes? f inputs? output? options with
  | error e => exact .inl ⟨e, rfl, define_of_fault h⟩
  | ok r =>
    cases hexecute : Connection.execute r.render s.connection with
    | mk answer connection =>
      cases answer with
      | error cause =>
        exact .inr (.inl ⟨r, cause, connection, rfl, hexecute, define_of_refusal h hexecute⟩)
      | ok rows =>
        exact .inr (.inr ⟨r, rows, connection, rfl, hexecute, define_of_execution h hexecute⟩)

/-- Source that can be read is a definition to be created and bound. -/
theorem defineSource_of_ok {source : String} {inputs : List DataType} {output : DataType}
    (h : FunctionDef.parse source = .ok f) : s.defineSource source inputs output options =
      s.define f (some inputs) (some output) options := by
  unfold defineSource
  rw [h]

/-- Source that cannot be read changes nothing. -/
theorem defineSource_of_error {source : String} {inputs : List DataType} {output : DataType}
    {cause : Source.ReadError} (h : FunctionDef.parse source = .error cause) :
    s.defineSource source inputs output options = (.error (.source cause), s) := by
  unfold defineSource
  rw [h]

/-- A step that is given source does what it would do with the definition. -/
theorem step_defineSource_of_ok {source : String} {inputs : List DataType} {output : DataType}
    (h : FunctionDef.parse source = .ok f) (s : Session σ) :
    s.step (.defineSource source inputs output options) =
      s.step (.define f (some inputs) (some output) options) := by
  simp only [step, defineSource_of_ok h]

/-! ## All or nothing -/

/-- A step that was to create a function and to bind it has done all of it or nothing: `answer` is
what it gave, and `calls` are the calls that the connection got meanwhile. -/
structure AllOrNothing (f : FunctionDef) (inputs? : Option (List DataType))
    (output? : Option DataType) (options : DeployOptions) (s s' : Session (Journal σ))
    (answer : Except Error Udf) (calls : List Call) : Prop where
  /-- The calls are those in the journal. -/
  journal : s'.connection.calls = s.connection.calls ++ calls
  /-- A step that fails leaves the counts, the kinds and the rules as they were. -/
  unbound : ∀ e, answer = .error e → s'.registry = s.registry
  /-- A failure that is not of the database leaves the connection alone. -/
  uncalled : ∀ e, answer = .error e → (∀ cause, e ≠ .remoteExecution cause) →
    calls = [] ∧ s'.connection = s.connection
  /-- The error of a statement that fails is passed on as it is, and no other error is of the
  database. -/
  refused : ∀ cause, (∃ statement, .execute statement (.error cause) ∈ calls) ↔
    answer = .error (.remoteExecution cause)
  /-- Once a statement was executed the step cannot fail any more. -/
  executed : (∃ statement rows, .execute statement (.ok rows) ∈ calls) ↔ ∃ u, answer = .ok u
  /-- The statement of a routine is executed. -/
  attempted : ∀ inputs output r, inputs? = some inputs → output? = some output →
    Routine.build f inputs output options = .ok r → ∃ reply, calls = [.execute r.render reply]
  /-- A function that is bound is that of the routine: its statement was executed, once, and the
  registry has one kind more, which has its signature. -/
  bound : ∀ u, answer = .ok u → ∃ inputs output r rows, inputs? = some inputs ∧
    output? = some output ∧ Routine.build f inputs output options = .ok r ∧
    calls = [.execute r.render (.ok rows)] ∧ u.kind.signature = r.signature ∧
    s.registry.Gains s'.registry u.kind

section AllOrNothing

variable {s : Session (Journal σ)} {j : Journal σ}

/-- The routine of a definition is the only one. -/
theorem eq_of_build {inputs : List DataType} {output : DataType} {r' : Routine}
    (h : Routine.ofTypes? f inputs? output? options = .ok r) (hinputs : inputs? = some inputs)
    (houtput : output? = some output) (hbuild : Routine.build f inputs output options = .ok r') :
    r = r' := by
  have h' := Routine.ofTypes?_eq_ok.mpr ⟨inputs, output, hinputs, houtput, hbuild⟩
  exact Except.ok.inj (h.symm.trans h')

omit [Connection σ] in
/-- A definition that is refused before any statement leaves the session as it was. -/
theorem allOrNothing_of_fault {e : Error}
    (h : Routine.ofTypes? f inputs? output? options = .error e) :
    AllOrNothing f inputs? output? options s s (.error e) [] where
  journal := (List.append_nil _).symm
  unbound _ _ := rfl
  uncalled _ _ _ := ⟨rfl, rfl⟩
  refused cause := by simpa using Routine.ofTypes?_ne_remoteExecution h cause
  executed := by simp
  attempted inputs output r hinputs houtput hbuild := by
    have h' := Routine.ofTypes?_eq_ok.mpr ⟨inputs, output, hinputs, houtput, hbuild⟩
    rw [h] at h'
    simp at h'
  bound := by simp

/-- A function that the database does not create leaves the registry as it was. -/
theorem allOrNothing_of_refusal {cause : ConnectionError}
    (h : Routine.ofTypes? f inputs? output? options = .ok r)
    (hexecute : Connection.execute r.render s.connection = (.error cause, j)) :
    AllOrNothing f inputs? output? options s { s with connection := j }
      (.error (.remoteExecution cause)) [.execute r.render (.error cause)] where
  journal := by
    have hcalls := Journal.calls_execute r.render s.connection
    rwa [hexecute] at hcalls
  unbound _ _ := rfl
  uncalled e he hcause := absurd (Except.error.inj he).symm (hcause cause)
  refused cause' := by simp [eq_comm]
  executed := by simp
  attempted inputs output r' hinputs houtput hbuild := by
    obtain rfl := eq_of_build h hinputs houtput hbuild
    exact ⟨_, rfl⟩
  bound := by simp

/-- A function that the database creates is bound, and one statement was executed for it. -/
theorem allOrNothing_of_execution {rows : Nat}
    (h : Routine.ofTypes? f inputs? output? options = .ok r)
    (hexecute : Connection.execute r.render s.connection = (.ok rows, j)) :
    AllOrNothing f inputs? output? options s
      ⟨(s.registry.mint r.signature).register (s.registry.nextKind r.signature), j⟩
      (.ok ⟨s.registry.nextKind r.signature⟩) [.execute r.render (.ok rows)] where
  journal := by
    have hcalls := Journal.calls_execute r.render s.connection
    rwa [hexecute] at hcalls
  unbound := by simp
  uncalled := by simp
  refused cause := by simp
  executed := by simp
  attempted inputs output r' hinputs houtput hbuild := by
    obtain rfl := eq_of_build h hinputs houtput hbuild
    exact ⟨_, rfl⟩
  bound u hu := by
    obtain ⟨inputs, output, hinputs, houtput, hbuild⟩ := Routine.ofTypes?_eq_ok.mp h
    obtain rfl : _ = u := Except.ok.inj hu
    exact ⟨inputs, output, r, rows, hinputs, houtput, hbuild, rfl, rfl,
      s.registry.gains_mint_register r.signature⟩

/-- **Creating a function and binding it is all or nothing**, on every connection and whatever it
answers. -/
theorem define_allOrNothing (f : FunctionDef) (inputs? : Option (List DataType))
    (output? : Option DataType) (options : DeployOptions) (s : Session (Journal σ)) :
    ∃ calls, AllOrNothing f inputs? output? options s (s.define f inputs? output? options).2
      (s.define f inputs? output? options).1 calls := by
  rcases define_cases f inputs? output? options s with
    ⟨e, hfault, hdefine⟩ | ⟨r, cause, j, hroutine, hexecute, hdefine⟩ |
      ⟨r, rows, j, hroutine, hexecute, hdefine⟩
  · rw [hdefine]
    exact ⟨_, allOrNothing_of_fault hfault⟩
  · rw [hdefine]
    exact ⟨_, allOrNothing_of_refusal hroutine hexecute⟩
  · rw [hdefine]
    exact ⟨_, allOrNothing_of_execution hroutine hexecute⟩

end AllOrNothing

/-- A definition of a function of two parameters, with a decorator in its text. -/
def decorated : FunctionDef :=
  { FunctionDef.blank "@d(1,\n 2)\ndef f(a, *, b): return '$$'\n" with
    name := "f"
    parameters := [⟨⟨"a", none, none⟩, .positionalOrKeyword⟩, ⟨⟨"b", none, none⟩, .keywordOnly⟩] }

/-- A session with a database in which the name of the function is taken. -/
def taken : Session (Journal Server) :=
  ⟨Registry.empty, ⟨[], { Server.fresh with emulating := true, functions := ["f"] }⟩⟩

/-- What the database says of a name that is taken. -/
def nameTaken : ConnectionError :=
  ⟨some "42723", "function \"f\" already exists with same argument types"⟩

/-- The function can only be created in place of the one that has its name. -/
theorem define_decorated (replace : Bool) :
    (taken.define decorated (some [.int32, .string]) (some .string) { replace }).1 =
      if replace then .ok ⟨⟨"f_0", ⟨"f", [⟨"a", .int32⟩, ⟨"b", .string⟩], .string, none⟩⟩⟩
      else .error (.remoteExecution nameTaken) := by
  cases replace <;> decide +kernel

/-- The same definition is refused where its name is taken, and bound where it may replace the
function of that name. -/
theorem define_allOrNothing_of_taken_name :
    (taken.define decorated (some [.int32, .string]) (some .string) {}).1 =
        .error (.remoteExecution nameTaken) ∧
      (taken.define decorated (some [.int32, .string]) (some .string) {}).2.registry =
        taken.registry ∧
      ∃ u, (taken.define decorated (some [.int32, .string]) (some .string)
          { replace := true }).1 = .ok u ∧
        taken.registry.Gains (taken.define decorated (some [.int32, .string]) (some .string)
          { replace := true }).2.registry u.kind := by
  have hrefused := define_decorated false
  have hbound := define_decorated true
  obtain ⟨_, hnothing⟩ := define_allOrNothing decorated (some [.int32, .string]) (some .string)
    {} taken
  obtain ⟨_, hall⟩ := define_allOrNothing decorated (some [.int32, .string]) (some .string)
    { replace := true } taken
  obtain ⟨_, _, _, _, _, _, _, _, _, hgains⟩ := hall.bound _ hbound
  exact ⟨hrefused, hnothing.unbound _ hrefused, _, hbound, hgains⟩

end Session

end UdfBridge
