import UdfBridge.Proofs.Session.Define

/-!
# Steps that create a function

A session creates a function in three ways: it deploys a definition, defines it, or defines what it
reads in a source. `Step.creation?` is what such a step is to create. The step fails where that is no
routine (`step_of_fault`) or where the database refuses the routine (`step_of_refusal`), and succeeds
otherwise (`step_of_execution`). No other step uses the connection (`step_of_creation?_eq_none`). So
every step that fails leaves the registry as it was.
-/

namespace UdfBridge

open Source (FunctionDef)

namespace Session

/-- A function that is to be created. -/
structure Creation where
  /-- The definition. -/
  definition : FunctionDef
  /-- The types of the parameters. -/
  inputs? : Option (List DataType)
  /-- The type of the result. -/
  output? : Option DataType
  /-- How it is to be created. -/
  options : DeployOptions

namespace Creation

/-- The routine that is created. -/
def routine (c : Creation) : Except Error Routine :=
  Routine.ofTypes? c.definition c.inputs? c.output? c.options

/-- The schema and the name that the function gets, as the options have it. -/
def reference (c : Creation) : QualifiedName :=
  ⟨c.options.schema?, c.options.name?.getD c.definition.name⟩

/-- The routine has the reference that the options give. -/
theorem reference_of_routine {c : Creation} {r : Routine} (h : c.routine = .ok r) :
    r.signature.reference = c.reference ∧ r.replace = c.options.replace := by
  obtain ⟨inputs, output, -, -, hbuild⟩ := Routine.ofTypes?_eq_ok.mp h
  obtain ⟨-, signature, body, hsignature, -, rfl⟩ := Routine.build_eq_ok.mp hbuild
  obtain ⟨-, names, -, -, rfl⟩ := Signature.Draft.build_eq_ok.mp hsignature
  exact ⟨rfl, rfl⟩

end Creation

/-- What a step is to create, if its source can be read. -/
def Step.creation? : Step → Option Creation
  | .deploy f inputs? output? options | .define f inputs? output? options =>
    some ⟨f, inputs?, output?, options⟩
  | .defineSource source inputs output options =>
    (FunctionDef.parse source).toOption.map fun f => ⟨f, some inputs, some output, options⟩
  | .mint _ | .mintSignature _ | .bind _ | .register _ | .addRule _ _ => none

variable {σ : Type} [Connection σ] {s : Session σ} {x : Step} {c : Creation} {r : Routine}

/-- A step that is to create a function does what a deployment or a definition of it does. -/
theorem step_of_creation? (h : x.creation? = some c) (s : Session σ) :
    s.step x = s.step (.deploy c.definition c.inputs? c.output? c.options) ∨
      s.step x = s.step (.define c.definition c.inputs? c.output? c.options) := by
  cases x with
  | deploy f inputs? output? options =>
    obtain rfl := Option.some.inj h
    exact .inl rfl
  | define f inputs? output? options =>
    obtain rfl := Option.some.inj h
    exact .inr rfl
  | defineSource source inputs output options =>
    obtain ⟨f, hf, rfl⟩ := Option.map_eq_some_iff.mp h
    have hparse : FunctionDef.parse source = .ok f := by
      cases hparse : FunctionDef.parse source with
      | error e => simp [hparse, Except.toOption] at hf
      | ok g =>
        rw [hparse] at hf
        rw [Option.some.inj hf]
    exact .inr (step_defineSource_of_ok hparse s)
  | mint | mintSignature | bind | register | addRule => simp [Step.creation?] at h

/-- A function that is no routine is not created. -/
theorem step_of_fault (h : x.creation? = some c) {e : Error} (hr : c.routine = .error e) :
    s.step x = (.error e, s) := by
  rcases step_of_creation? h s with hstep | hstep
  · rw [hstep, step, deploy, Routine.deploy, ← Creation.routine, hr]
    rfl
  · rw [hstep, step, define_of_fault hr]
    rfl

/-- A routine that the database refuses is no more than that. -/
theorem step_of_refusal (h : x.creation? = some c) (hr : c.routine = .ok r) {cause : ConnectionError}
    {connection : σ}
    (hexecute : Connection.execute r.render s.connection = (.error cause, connection)) :
    s.step x = (.error (.remoteExecution cause), { s with connection }) := by
  rcases step_of_creation? h s with hstep | hstep
  · rw [hstep, step, deploy, Routine.deploy, ← Creation.routine, hr]
    simp only [hexecute]
    rfl
  · rw [hstep, step, define_of_refusal hr hexecute]
    rfl

/-- The step succeeds if the database creates the routine. -/
theorem step_of_execution (h : x.creation? = some c) (hr : c.routine = .ok r) {rows : Nat}
    {connection : σ}
    (hexecute : Connection.execute r.render s.connection = (.ok rows, connection)) :
    (∃ o, (s.step x).1 = .ok o) ∧ (s.step x).2.connection = connection := by
  rcases step_of_creation? h s with hstep | hstep
  · rw [hstep, step, deploy, Routine.deploy, ← Creation.routine, hr]
    dsimp only
    rw [hexecute]
    exact ⟨⟨_, rfl⟩, rfl⟩
  · rw [hstep, step, define_of_execution hr hexecute]
    exact ⟨⟨_, rfl⟩, rfl⟩

/-- What a step that is to create a function comes to, in three cases. -/
theorem creation_cases (h : x.creation? = some c) (s : Session σ) :
    -- The function is no routine.
    (∃ e, c.routine = .error e ∧ s.step x = (.error e, s)) ∨
    -- The database refuses the routine.
    (∃ r cause connection, c.routine = .ok r ∧
      Connection.execute r.render s.connection = (.error cause, connection) ∧
      s.step x = (.error (.remoteExecution cause), { s with connection })) ∨
    -- The database creates the routine.
    (∃ r rows connection, c.routine = .ok r ∧
      Connection.execute r.render s.connection = (.ok rows, connection) ∧
      (∃ o, (s.step x).1 = .ok o) ∧ (s.step x).2.connection = connection) := by
  cases hr : c.routine with
  | error e => exact .inl ⟨e, rfl, step_of_fault h hr⟩
  | ok r =>
    cases hexecute : Connection.execute r.render s.connection with
    | mk answer connection =>
      cases answer with
      | error cause =>
        exact .inr (.inl ⟨r, cause, connection, rfl, hexecute, step_of_refusal h hr hexecute⟩)
      | ok rows =>
        exact .inr (.inr ⟨r, rows, connection, rfl, hexecute, step_of_execution h hr hexecute⟩)

/-- Any other step leaves the connection alone, and changes nothing if it fails. -/
theorem step_of_creation?_eq_none (h : x.creation? = none) (s : Session σ) :
    (s.step x).2.connection = s.connection ∧
      ∀ e, (s.step x).1 = .error e → (s.step x).2 = s := by
  cases x with
  | mint d =>
    cases hbuild : d.build with
    | error cause => simp [step, mint, hbuild]
    | ok signature => simp [step, mint, hbuild, mintSignature]
  | bind d =>
    cases hbuild : d.build with
    | error cause => simp [step, bind, Registry.bind_of_error hbuild]
    | ok signature => simp [step, bind, Registry.bind_of_ok hbuild]
  | mintSignature | register | addRule => exact ⟨rfl, by simp [step]⟩
  | deploy | define => simp [Step.creation?] at h
  | defineSource source inputs output options =>
    cases hparse : FunctionDef.parse source with
    | error cause => simp [step, defineSource_of_error hparse]
    | ok f => simp [Step.creation?, hparse, Except.toOption] at h

/-- A step that fails leaves the registry as it was. -/
theorem registry_of_step_eq_error {e : Error} (h : (s.step x).1 = .error e) :
    (s.step x).2.registry = s.registry := by
  cases hx : x.creation? with
  | none => rw [(step_of_creation?_eq_none hx s).2 e h]
  | some c =>
    rcases creation_cases hx s with
      ⟨_, -, hstep⟩ | ⟨_, _, _, -, -, hstep⟩ | ⟨_, _, _, -, -, ⟨o, hok⟩, -⟩
    · rw [hstep]
    · rw [hstep]
    · simp [hok] at h

end Session

end UdfBridge
