import UdfBridge.Proofs.Answer
import UdfBridge.Proofs.Signature.RoundTrip
import UdfBridge.Routine.Deployment

/-!
# When a definition is a routine

What it takes that a definition is a routine, and why it is none: the faults of a definition are
found before any statement is executed, so none of them is an error of the database.
-/

namespace UdfBridge.Routine

open Source (FunctionDef)

variable {f : FunctionDef} {inputs : List DataType} {output : DataType} {options : DeployOptions}
  {inputs? : Option (List DataType)} {output? : Option DataType} {r : Routine} {e : Error}

/-- A definition is a routine if nothing is in the way of it, its draft describes a signature and
its source can be read once more. -/
theorem build_eq_ok : build f inputs output options = .ok r ↔
    obstacle? f inputs.length = none ∧
      ∃ signature body, (draftOf f inputs output options).build = .ok signature ∧
        Source.stripDecorators (Text.dedent f.source) = .ok body ∧
        r = ⟨signature, options.replace, options.language, withFinalLineFeed body, callOf f⟩ := by
  unfold build
  cases obstacle? f inputs.length with
  | some cause => simp
  | none =>
    simp only [bind_eq_ok, mapError_eq_ok, pure, Except.pure, Except.ok.injEq, true_and]
    constructor
    · rintro ⟨signature, hsignature, body, hbody, rfl⟩
      exact ⟨signature, body, hsignature, hbody, rfl⟩
    · rintro ⟨signature, body, hsignature, hbody, rfl⟩
      exact ⟨signature, hsignature, body, hbody, rfl⟩

/-- A routine has the signature that the draft of its definition describes. -/
theorem build_draftOf (h : build f inputs output options = .ok r) :
    (draftOf f inputs output options).build = .ok r.signature := by
  obtain ⟨-, signature, body, hsignature, -, rfl⟩ := build_eq_ok.mp h
  exact hsignature

/-- A definition that is no routine is at fault itself: its configuration or its source. -/
theorem cause_of_build_eq_error (h : build f inputs output options = .error e) :
    (∃ cause, e = .configuration cause) ∨ ∃ cause, e = .source cause := by
  unfold build at h
  cases hobstacle : obstacle? f inputs.length with
  | some cause =>
    simp only [hobstacle, Except.error.injEq] at h
    exact .inl ⟨cause, h.symm⟩
  | none =>
    simp only [hobstacle, bind_eq_error, mapError_eq_error, pure, Except.pure, reduceCtorEq,
      and_false, exists_false, or_false] at h
    rcases h with ⟨cause, -, rfl⟩ | ⟨-, -, cause, -, rfl⟩
    · exact .inl ⟨cause, rfl⟩
    · exact .inr ⟨cause, rfl⟩

/-- Nothing is in the way of a definition if it is no coroutine, has no variadic parameter, and has a
parameter for each type. -/
theorem obstacle?_eq_none_iff {arity : Nat} : obstacle? f arity = none ↔
    f.isAsync = false ∧ (¬ ∃ p ∈ f.parameters, p.kind.isVariadic = true) ∧
      f.parameters.length = arity := by
  unfold obstacle?
  cases f.isAsync with
  | true => simp
  | false =>
    cases hfind : f.parameters.find? fun p => p.kind.isVariadic with
    | some p =>
      have hp : p.kind.isVariadic = true :=
        List.find?_some (p := fun p : Source.Parameter => p.kind.isVariadic) hfind
      -- A variadic parameter was found, which is what the other side rules out.
      simp only [Bool.false_eq_true, if_false, reduceCtorEq, true_and, false_iff, not_and]
      exact fun hnone => absurd ⟨p, List.mem_of_find?_eq_some hfind, hp⟩ hnone
    | none =>
      have hnone : ¬ ∃ p ∈ f.parameters, p.kind.isVariadic = true := by
        simpa using List.find?_eq_none.mp hfind
      simp [hnone]

/-- The draft of a definition names the parameters as the definition does, if there is a type for
each. -/
theorem names_draftOf_eq_ok {names : List String} :
    (draftOf f inputs output options).names = .ok names ↔
      f.parameters.length = inputs.length ∧ names = f.parameters.map (·.name) := by
  simp only [Signature.Draft.names, draftOf, List.length_map]
  split <;> simp_all [eq_comm]

/-- The draft of a definition describes a signature if the function gets a name and the parameters
have different ones, one for each type. -/
theorem exists_build_draftOf_iff :
    (∃ signature, (draftOf f inputs output options).build = .ok signature) ↔
      options.name?.getD f.name ≠ "" ∧ f.parameters.length = inputs.length ∧
        (f.parameters.map (·.name)).Nodup := by
  have hname : (draftOf f inputs output options).name.isEmpty = false ↔
      options.name?.getD f.name ≠ "" := by
    simp [draftOf]
  simp only [Signature.Draft.build_eq_ok, names_draftOf_eq_ok, hname]
  constructor
  · rintro ⟨_, hne, _, ⟨hlength, rfl⟩, hnodup, -⟩
    exact ⟨hne, hlength, hnodup⟩
  · rintro ⟨hne, hlength, hnodup⟩
    exact ⟨_, hne, _, ⟨hlength, rfl⟩, hnodup, rfl⟩

/-- What makes the configuration of a definition faulty. -/
theorem exists_build_eq_configuration_iff :
    (∃ cause, build f inputs output options = .error (.configuration cause)) ↔
      (∃ p ∈ f.parameters, p.kind.isVariadic = true) ∨ f.isAsync = true ∨
        f.parameters.length ≠ inputs.length ∨ options.name?.getD f.name = "" ∨
        ¬ (f.parameters.map (·.name)).Nodup := by
  have hfaulty : (∃ cause, build f inputs output options = .error (.configuration cause)) ↔
      ¬ (obstacle? f inputs.length = none ∧
        ∃ signature, (draftOf f inputs output options).build = .ok signature) := by
    unfold build
    cases obstacle? f inputs.length with
    | some cause => simp
    | none =>
      cases (draftOf f inputs output options).build with
      | error cause => simp [bind, Except.bind, Except.mapError]
      | ok signature =>
        cases Source.stripDecorators (Text.dedent f.source) <;>
          simp [bind, Except.bind, Except.mapError, pure, Except.pure]
  rw [hfaulty, obstacle?_eq_none_iff, exists_build_draftOf_iff]
  grind

/-- A routine is built only with both types given. -/
theorem ofTypes?_eq_ok : ofTypes? f inputs? output? options = .ok r ↔
    ∃ inputs output, inputs? = some inputs ∧ output? = some output ∧
      build f inputs output options = .ok r := by
  cases inputs? with
  | none => simp [ofTypes?]
  | some inputs =>
    cases output? with
    | none => simp [ofTypes?]
    | some output => simp [ofTypes?]

/-- What keeps a definition from being a routine is no error of the database. -/
theorem ofTypes?_ne_remoteExecution (h : ofTypes? f inputs? output? options = .error e)
    (cause : ConnectionError) : e ≠ .remoteExecution cause := by
  unfold ofTypes? at h
  split at h
  · obtain rfl := Except.error.inj h
    simp
  · obtain rfl := Except.error.inj h
    simp
  · rcases cause_of_build_eq_error h with ⟨_, rfl⟩ | ⟨_, rfl⟩ <;> simp

end UdfBridge.Routine
