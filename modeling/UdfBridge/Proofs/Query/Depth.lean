import UdfBridge.Proofs.Answer
import UdfBridge.Query.Translation

/-!
# How deep the stack is

The rules of clients may ask for one another without end, so a translation is told how deep they may.
That hides nothing: as long as the stack does not run out, a translation on a deeper stack has the
same result (`Expr.translateWithin_of_le`). What carries the proof is the relation of two translators
of which the second knows all answers of the first but that it ran out of stack.
-/

namespace UdfBridge

/-- The second translator has all answers of the first one, save that the stack ran out. -/
def Translator.Extends (translator' translator : Translator) : Prop :=
  ∀ place e, translator place e ≠ .error .stackOverflow → translator' place e = translator place e

variable {rules : TranslationTable} {translator translator' : Translator}

/-- A rendering does not go on without stack. -/
theorem Rendering.run_ask_of_overflow {place : Place} {e : Expr}
    {next : Except TranslationError SqlExpr → Rendering}
    (h : translator place e = .error .stackOverflow) :
    (ask place e next).run translator = .error .stackOverflow := by
  simp only [run, h]

/-- With any other answer a rendering goes on. -/
theorem Rendering.run_ask_of_ne {place : Place} {e : Expr}
    {next : Except TranslationError SqlExpr → Rendering}
    (h : translator place e ≠ .error .stackOverflow) :
    (ask place e next).run translator = (next (translator place e)).run translator := by
  rw [run]
  split
  · exact absurd ‹_› h
  · rfl

/-- A rendering that ends ends the same with more stack. -/
theorem Rendering.run_of_extends (h : translator'.Extends translator) {r : Rendering}
    (hr : r.run translator ≠ .error .stackOverflow) : r.run translator' = r.run translator := by
  induction r with
  | done result => rfl
  | ask place e next ih =>
    by_cases hask : translator place e = .error .stackOverflow
    · exact absurd (run_ask_of_overflow hask) hr
    · have heq := h place e hask
      rw [run_ask_of_ne hask] at hr ⊢
      rw [run_ask_of_ne (heq ▸ hask), heq]
      exact ih _ hr

namespace Expr

mutual

/-- A translation that ends ends the same with more stack. The induction is on the expression; the
parts of one that ends end. -/
theorem translateBy_of_extends (h : translator'.Extends translator) (e : Expr) (place : Place)
    (he : e.translateBy rules translator place ≠ .error .stackOverflow) :
    e.translateBy rules translator' place = e.translateBy rules translator place := by
  match e with
  | constant value => cases place <;> rw [translateBy, translateBy]
  | column name type => cases place <;> rw [translateBy, translateBy]
  | binary lhs op rhs =>
    -- Each side ends, for an operator whose left or right side runs out of stack does so itself.
    have hparts : ∀ place, (binary lhs op rhs).translateBy rules translator place = (do
        let l ← lhs.translateBy rules translator .operand
        let r ← rhs.translateBy rules translator .operand
        return .binary l op.symbol r) := fun place => by cases place <;> rw [translateBy]
    rw [hparts] at he ⊢
    cases place <;>
    · rw [translateBy]
      refine bind_eq_bind_of_ne_error he (translateBy_of_extends h lhs .operand) fun l hl hrest => ?_
      exact bind_eq_bind_of_ne_error hrest (translateBy_of_extends h rhs .operand) fun _ _ _ => rfl
  | call k args =>
    cases hk : rules[k.id]? with
    | none => cases place <;> rw [translateBy, translateBy] <;> simp only [hk]
    | some rule =>
      cases rule with
      | fail text => cases place <;> rw [translateBy, translateBy] <;> simp only [hk]
      | call function inner =>
        cases place <;>
        · rw [translateBy] at he ⊢
          rw [translateBy]
          simp only [hk] at he ⊢
          exact bind_eq_bind_of_ne_error he (translateAllBy_of_extends h args inner) fun _ _ _ => rfl
      | custom render =>
        -- What the rule asks for ends, or the rendering would not.
        cases place <;>
        · rw [translateBy] at he ⊢
          rw [translateBy]
          simp only [hk] at he ⊢
          exact Rendering.run_of_extends h he
  | named e name =>
    cases place with
    | item =>
      rw [translateBy] at he ⊢
      rw [translateBy]
      exact bind_eq_bind_of_ne_error he (translateBy_of_extends h e .operand) fun _ _ _ => rfl
    | operand =>
      rw [translateBy] at he ⊢
      rw [translateBy]
      exact translateBy_of_extends h e .operand he

/-- Translations that end end the same with more stack. -/
theorem translateAllBy_of_extends (h : translator'.Extends translator) (es : List Expr)
    (place : Place) (hes : translateAllBy rules translator place es ≠ .error .stackOverflow) :
    translateAllBy rules translator' place es = translateAllBy rules translator place es := by
  match es with
  | [] => rw [translateAllBy, translateAllBy]
  | e :: es =>
    rw [translateAllBy] at hes ⊢
    rw [translateAllBy]
    refine bind_eq_bind_of_ne_error hes (translateBy_of_extends h e place) fun x hx hrest => ?_
    exact bind_eq_bind_of_ne_error hrest (translateAllBy_of_extends h es place) fun _ _ _ => rfl

end

/-- One level more changes no result. -/
theorem extends_translateWithin_succ (rules : TranslationTable) (depth : Nat) :
    Translator.Extends (translateWithin rules (depth + 1)) (translateWithin rules depth) := by
  induction depth with
  | zero => exact fun place e he => translateBy_of_extends (fun _ _ h => absurd rfl h) e place he
  | succ depth ih => exact fun place e he => translateBy_of_extends ih e place he

/-- **The depth hides nothing.** A translation that does not run out of stack has the same result on
every deeper one. -/
theorem translateWithin_of_le {depth depth' : Nat} (hle : depth ≤ depth') (e : Expr) (place : Place)
    (he : e.translateWithin rules depth place ≠ .error .stackOverflow) :
    e.translateWithin rules depth' place = e.translateWithin rules depth place := by
  induction hle with
  | refl => rfl
  | step hle ih =>
    rw [← ih] at he ⊢
    exact extends_translateWithin_succ rules _ place e he

end Expr

end UdfBridge
