import UdfBridge.Proofs.Routine.Build
import UdfBridge.Proofs.Session.Define
import UdfBridge.Proofs.Source.Heading
import UdfBridge.Proofs.Source.Kinds

/-!
# Variadic functions

A routine takes a fixed number of arguments, so a definition with a variadic parameter is refused
before any statement is executed. Whether a parameter is variadic is judged by its kind, and a slash
makes every parameter before it positional-only. So a variadic item of the written list is seen only
behind the last slash, and the definition of one that stands before it is refused only for another
reason (`refused_iff_keepsVariadic`).
-/

namespace UdfBridge

open Source (FunctionDef KeepsVariadic)

namespace Session

variable {σ : Type} [Connection σ] {f : FunctionDef} {inputs : List DataType} {output : DataType}
  {options : DeployOptions} {e : Error}

/-- A definition that is no routine is not deployed, and nothing happens. -/
theorem deploy_of_fault (h : Routine.build f inputs output options = .error e) (s : Session σ) :
    s.deploy f (some inputs) (some output) options = (.error e, s) := by
  simp only [deploy, Routine.deploy, Routine.ofTypes?, h]

/-- **When the configuration of a function is refused.** Of the items that the parameter list of a
text is written with, a variadic one is a reason if it stands behind the last slash. The other
reasons are that the function is a coroutine, that the numbers of parameters and of types differ,
that it gets no name, and that two parameters have one name. Whatever the reason, neither a
deployment nor a binding gets to the connection, and both fail with it. -/
theorem refused_iff_keepsVariadic (text : String) (f : FunctionDef)
    (h : FunctionDef.parse text = .ok f) :
    ∃ items, Source.writtenItems (Text.dedent text) = .ok items ∧
      ∀ (inputs : List DataType) (output : DataType) (options : DeployOptions),
        ((∃ cause, Routine.build f inputs output options = .error (.configuration cause)) ↔
          KeepsVariadic items ∨ f.isAsync = true ∨ f.parameters.length ≠ inputs.length ∨
            options.name?.getD f.name = "" ∨ ¬ (f.parameters.map (·.name)).Nodup) ∧
        ∀ e, Routine.build f inputs output options = .error e →
          ∀ (σ : Type) [Connection σ] (s : Session σ),
            s.deploy f (some inputs) (some output) options = (.error e, s) ∧
              s.define f (some inputs) (some output) options = (.error e, s) ∧
              s.defineSource text inputs output options = (.error e, s) := by
  obtain ⟨-, -, items, hitems, hparameters⟩ := FunctionDef.parse_spec h
  refine ⟨items, hitems, fun inputs output options => ⟨?_, ?_⟩⟩
  · rw [Routine.exists_build_eq_configuration_iff, hparameters,
      Source.Parameter.exists_isVariadic_ofItems_iff]
  · -- A routine that is not built stops the client before it calls the server.
    intro e hbuild σ _ s
    have hdefine : s.define f (some inputs) (some output) options = (.error e, s) :=
      define_of_fault hbuild
    exact ⟨deploy_of_fault hbuild s, hdefine, (defineSource_of_ok h).trans hdefine⟩

/-- The items of a list with a variadic item on either side of a slash. -/
def aroundSlash : List Source.Item :=
  [.doubleStarred ⟨"kw", none, none⟩, .slash, .starred ⟨"rest", none, none⟩]

/-- Of two variadic items the one behind the slash is seen. -/
theorem refused_of_item_behind_slash : ∃ f cause,
    FunctionDef.parse "def f(**kw, /, *rest): pass" = .ok f ∧
      Routine.build f [.int32, .string] .int32 {} = .error (.configuration cause) := by
  have hparse : FunctionDef.parse "def f(**kw, /, *rest): pass" = .ok
      { FunctionDef.blank "def f(**kw, /, *rest): pass" with
        name := "f", parameters := Source.Parameter.ofItems aroundSlash } := by
    decide +kernel
  have hwritten : Source.writtenItems (Text.dedent "def f(**kw, /, *rest): pass") =
      .ok aroundSlash := by
    decide +kernel
  have hkeeps : KeepsVariadic aroundSlash :=
    ⟨[.doubleStarred ⟨"kw", none, none⟩, .slash], .starred ⟨"rest", none, none⟩, [], rfl, rfl,
      List.not_mem_nil⟩
  obtain ⟨items, hitems, hrefused⟩ := refused_iff_keepsVariadic _ _ hparse
  obtain rfl : items = aroundSlash := Except.ok.inj (hitems.symm.trans hwritten)
  obtain ⟨cause, hcause⟩ := (hrefused [.int32, .string] .int32 {}).1.mpr (.inl hkeeps)
  exact ⟨_, cause, hparse, hcause⟩

/-- A variadic item before a slash is not seen, and its function becomes a routine. -/
theorem not_refused_of_item_before_slash : ∃ f r,
    FunctionDef.parse "def f(*args, /):\n    return 1\n" = .ok f ∧
      Source.writtenItems (Text.dedent "def f(*args, /):\n    return 1\n") =
        .ok [.starred ⟨"args", none, none⟩, .slash] ∧
      Routine.build f [.int32] .int32 {} = .ok r ∧ r.call = "f(args)" := by
  refine ⟨{ FunctionDef.blank "def f(*args, /):\n    return 1\n" with
      name := "f", parameters := [⟨⟨"args", none, none⟩, .positionalOnly⟩] },
    { signature := ⟨"f", [⟨"args", .int32⟩], .int32, none⟩, replace := false, language := .plpython3u,
      body := "def f(*args, /):\n    return 1\n", call := "f(args)" }, ?_, ?_, ?_, rfl⟩
  · decide +kernel
  · decide +kernel
  · decide +kernel

end Session

end UdfBridge
