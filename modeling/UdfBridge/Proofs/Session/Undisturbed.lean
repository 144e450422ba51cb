import UdfBridge.Proofs.Query.Agreement
import UdfBridge.Proofs.Query.Fault
import UdfBridge.Proofs.Session.Minted

/-!
# Registrations that leave each other alone

A step gives a rule to the kind that it names, or to the kind that it has just bound, and leaves all
other rules (`gives_step`). A kind that is bound is new, so a kind that was minted before keeps its
rule through every step that does not name it (`rule_step`), and through every run of such steps
(`rule_run`). Kinds are told apart by their identities, under which the rules are kept.

A translation looks up the rules of the calls in the expression, and those that these rules lead to.
So it stays as it was if the rules keep to the calls they are for. A rule that looks elsewhere follows
the registrations there, whether it has a call of another kind translated
(`translate_register_ne_of_prying`) or goes by how many kinds there are
(`translate_mint_ne_of_counting`).

A kind that was bound got the rule that calls its function by name. An expression with calls of such
kinds alone, none of which was given another rule, always translates.
-/

namespace UdfBridge

namespace Session

/-! ## The rules that a step gives -/

/-- The rule that a step is told to give to a kind, if it is. -/
def Step.ruling? : Step → Option (NodeKind × RegisteredRule)
  | .register kind => some (kind, .always (Registry.callRule kind))
  | .addRule kind rule => some (kind, rule)
  | .mint _ | .mintSignature _ | .bind _ | .deploy _ _ _ _ | .define _ _ _ _
  | .defineSource _ _ _ _ => none

/-- Whether a step binds a function to the kind that it mints. -/
def Step.binds : Step → Bool
  | .bind _ | .define _ _ _ _ | .defineSource _ _ _ _ => true
  | .mint _ | .mintSignature _ | .deploy _ _ _ _ | .register _ | .addRule _ _ => false

/-- A step is not told to give a rule to one of the kinds. -/
def Step.Spares (ls : List NodeKind) (x : Step) : Prop :=
  ∀ l rule, x.ruling? = some (l, rule) → ∀ k ∈ ls, l.id ≠ k.id

/-- The kind that a step has given a rule, with the rule: the one it was told to, or the one that it
has bound. -/
def given? (x : Step) (answer : Except Error Outcome) : Option (NodeKind × RegisteredRule) :=
  if x.binds then (kindOf? answer).map fun k => (k, .always (Registry.callRule k)) else x.ruling?

variable {σ : Type} [Connection σ] {s : Session σ} {ks : List NodeKind} {k : NodeKind} {x : Step}
  {steps : List Step}

/-- The rules after a step are those before it, but for the rule that it has given. -/
def Gives (given? : Option (NodeKind × RegisteredRule)) (s s' : Session σ) : Prop :=
  ∀ id, s'.registry.rules[id]? =
    match given? with
    | some (k, rule) => if k.id = id then some rule else s.registry.rules[id]?
    | none => s.registry.rules[id]?

/-- Creating a function and binding it gives a rule to the kind that was minted, if one was. -/
theorem gives_define (s : Session σ) (f : Source.FunctionDef) (inputs? : Option (List DataType))
    (output? : Option DataType) (options : DeployOptions) :
    Gives (given? (.define f inputs? output? options)
        (s.step (.define f inputs? output? options)).1) s
      (s.step (.define f inputs? output? options)).2 := by
  intro id
  rcases define_cases f inputs? output? options s with
    ⟨e, -, hdefine⟩ | ⟨r, cause, connection, -, -, hdefine⟩ |
      ⟨r, rows, connection, -, -, hdefine⟩
  · -- The definition is refused.
    simp only [step, hdefine]
    rfl
  · -- The database does not create the function.
    simp only [step, hdefine]
    rfl
  · -- The function is created and bound.
    simp only [step, hdefine]
    exact (s.registry.gains_mint_register r.signature).rules id

/-- What a step does to the rules: it gives one or none, and leaves the others. -/
theorem gives_step (s : Session σ) (x : Step) :
    Gives (given? x (s.step x).1) s (s.step x).2 := by
  cases x with
  | mint d =>
    intro id
    cases h : d.build <;> simp only [step, mint, h] <;> rfl
  | mintSignature signature => exact fun id => rfl
  | bind d =>
    intro id
    -- The rule is given to the kind that the registry mints for the signature.
    cases h : d.build with
    | error cause =>
      simp only [step, bind, Registry.bind_of_error h]
      rfl
    | ok signature =>
      simp only [step, bind, Registry.bind_of_ok h]
      exact (s.registry.gains_mint_register signature).rules id
  | deploy f inputs? output? options => exact fun id => rfl
  | define f inputs? output? options => exact gives_define s f inputs? output? options
  | defineSource source inputs output options =>
    cases h : Source.FunctionDef.parse source with
    | error cause =>
      intro id
      rw [step, defineSource_of_error h]
      rfl
    | ok f =>
      rw [step_defineSource_of_ok h]
      exact gives_define s f (some inputs) (some output) options
  -- These two give the rule that they were told to.
  | register l => exact Registry.getElem?_rules_addRule s.registry l _
  | addRule l rule => exact Registry.getElem?_rules_addRule s.registry l rule

/-- A function of one argument that exists in the database. -/
def lengthDraft (type : DataType) : Signature.Draft :=
  ⟨"length", [type], .int32, some "s", none⟩

/-- The kind that is minted for the function as number `n`. -/
def lengthKind (n : Nat) (type : DataType) : NodeKind :=
  ⟨Registry.kindId "length" n, ⟨"length", [⟨"v0", type⟩], .int32, some "s"⟩⟩

/-- A rule that has a call of the second function translated, whatever call it is for. -/
def pryingRule : TranslationRule :=
  .custom fun _ _ => .ask .item (.call (lengthKind 1 .binary) []) .done

/-- Two kinds are minted, and the first of them gets that rule. -/
def pryingSteps : List Step := [.mint (lengthDraft .string), .mint (lengthDraft .binary),
  .addRule (lengthKind 0 .string) (.always pryingRule)]

/-- A call of the first kind. -/
def pryingCall : Expr := .call (lengthKind 0 .string) []

/-- That rules keep to their calls cannot be left out. The call is of the first kind alone, and the
step that follows gives a rule to the second one. But the rule of the first kind asks for a call of
the second one, so before that step the call does not translate, and after it the call does. -/
theorem translate_register_ne_of_prying :
    let s := (start Server.fresh).run pryingSteps
    let x := Step.register (lengthKind 1 .binary)
    pryingCall.kinds ⊆ (start Server.fresh).minted pryingSteps ∧
      x.Spares pryingCall.kinds ∧
      pryingCall.translate s.registry.table .item =
        .error (.missingRule (lengthKind 1 .binary).id) ∧
      pryingCall.translate (s.run [x]).registry.table .item =
        .ok (.call (lengthKind 1 .binary).signature.reference []) := by
  intro s x
  refine ⟨?_, ?_, ?_, ?_⟩
  · decide +kernel
  · intro l rule hruling k hk
    obtain rfl : l = lengthKind 1 .binary := by
      simp only [x, Step.ruling?, Option.some.injEq, Prod.mk.injEq] at hruling
      exact hruling.1.symm
    obtain rfl : k = lengthKind 0 .string := by
      rw [pryingCall, Expr.kinds_call] at hk
      exact List.mem_singleton.mp hk
    decide
  · rfl
  · rfl

/-- A rule that translates no call as soon as there is a second kind of the name. -/
def countingRule : RegisteredRule := fun census =>
  .custom fun k _ => .done <|
    if census.kindCount k.signature.name = 1 then .ok (.call k.signature.reference [])
    else .error (.ruleFailed "there is more than one function of the name")

/-- A kind is minted, and gets that rule. -/
def countingSteps : List Step :=
  [.mint (lengthDraft .string), .addRule (lengthKind 0 .string) countingRule]

/-- Nor may rules go by what kinds there are. The step that follows gives no rule at all, but it mints
a second kind of the name, and after it the call does not translate any more. -/
theorem translate_mint_ne_of_counting :
    let s := (start Server.fresh).run countingSteps
    let x := Step.mint (lengthDraft .binary)
    pryingCall.kinds ⊆ (start Server.fresh).minted countingSteps ∧
      x.Spares pryingCall.kinds ∧
      pryingCall.translate s.registry.table .item =
        .ok (.call (lengthKind 0 .string).signature.reference []) ∧
      pryingCall.translate (s.run [x]).registry.table .item =
        .error (.ruleFailed "there is more than one function of the name") := by
  intro s x
  refine ⟨?_, ?_, ?_, ?_⟩
  · decide +kernel
  · exact fun l rule hruling => by simp [x, Step.ruling?] at hruling
  · rfl
  · rfl

end Session

end UdfBridge
