import UdfBridge.Proofs.Grammar.First
import UdfBridge.Source.Grammar

/-!
# The string literals of a text

Before the body, a definition is made of string literals, comments, and characters that start
neither. A `Scan` reads them from left to right and lists the literals, and it is the only one
between two places (`Scan.unique`).
-/

namespace UdfBridge.Source

open Grammar
open Grammar.Pattern

/-- What holds of the characters of a list is decided on the list, not on all characters. -/
instance decidableForallMem (p : Char → Prop) [DecidablePred p] (cs : List Char) :
    Decidable (∀ c ∈ cs, p c) :=
  List.decidableBAll p cs

/-- From `s` to its rest `r` there are whole tokens, of which `ls` are the string literals. -/
inductive Scan : List Char → List Char → List (List Char) → Prop where
  | nil (s : List Char) : Scan s s []
  | literal {s t r : List Char} {f : Forest Rule} {ls : List (List Char)}
      (token : stringLiteral.run s = some (f, t)) (rest : Scan t r ls) : Scan s r (f.text :: ls)
  | comment {s t r : List Char} {f : Forest Rule} {ls : List (List Char)}
      (token : comment.run s = some (f, t)) (rest : Scan t r ls) : Scan s r ls
  | char {c : Char} {s r : List Char} {ls : List (List Char)} (token : c ∉ '#' :: quotes)
      (rest : Scan s r ls) : Scan (c :: s) r ls

/-- A string in one pair of quotes that goes over the end of a line. -/
def IsContinued (l : List Char) : Prop :=
  '\n' ∈ l ∧ ∀ q ∈ quotes, ¬ [q, q, q] <+: l

instance : DecidablePred IsContinued := fun l =>
  inferInstanceAs (Decidable ('\n' ∈ l ∧ ∀ q ∈ quotes, ¬ [q, q, q] <+: l))

/-- One of the literals goes over the end of a line in one pair of quotes. -/
def HasContinued (ls : List (List Char)) : Prop :=
  ∃ l ∈ ls, IsContinued l

instance : DecidablePred HasContinued := fun ls =>
  inferInstanceAs (Decidable (∃ l ∈ ls, IsContinued l))

/-- Among no literals none is continued. -/
@[simp] theorem not_hasContinued_nil : ¬ HasContinued [] := by
  simp [HasContinued]

/-- A literal is continued if the first one is, or one of the others. -/
@[simp] theorem hasContinued_cons {l : List Char} {ls : List (List Char)} :
    HasContinued (l :: ls) ↔ IsContinued l ∨ HasContinued ls := by
  simp [HasContinued]

/-- A literal of two lists is continued if one of either list is. -/
@[simp] theorem hasContinued_append {ls ls' : List (List Char)} :
    HasContinued (ls ++ ls') ↔ HasContinued ls ∨ HasContinued ls' := by
  simp [HasContinued, or_and_right, exists_or]

/-- A string literal starts with a quote. -/
theorem peek_stringLiteral {c : Char} (h : c ∉ quotes) : stringLiteral.peek c = some false := by
  have h' : c ≠ '"' ∧ c ≠ '\'' := by simpa [quotes] using h
  simp [stringLiteral, tripleQuoted, quoted, inOrder, word, chr, peek, h']

/-- A string literal starts with a quote. -/
theorem exists_quote_of_stringLiteral {s r : List Char} {f : Forest Rule}
    (h : stringLiteral.run s = some (f, r)) : ∃ q ∈ quotes, ∃ t, s = q :: t := by
  cases s with
  | nil => simp [stringLiteral, tripleQuoted, quoted, inOrder, word, chr, run] at h
  | cons c s =>
    by_cases hc : c ∈ quotes
    · exact ⟨c, hc, s, rfl⟩
    · rw [run_of_peek_false (peek_stringLiteral hc)] at h
      simp at h

/-- A comment starts with its sign. -/
theorem exists_sign_of_comment {s r : List Char} {f : Forest Rule}
    (h : comment.run s = some (f, r)) : ∃ t, s = '#' :: t := by
  obtain ⟨f₁, r₁, f₂, hsign, -, -⟩ := run_seq.mp h
  exact ⟨r₁, (run_chr.mp hsign).1⟩

namespace Scan

variable {s t r : List Char} {ls ls' : List (List Char)}

/-- One scan behind another. -/
theorem trans (h : Scan s t ls) (h' : Scan t r ls') : Scan s r (ls ++ ls') := by
  induction h with
  | nil => exact h'
  | literal token _ ih => exact .literal token (ih h')
  | comment token _ ih => exact .comment token (ih h')
  | char token _ ih => exact .char token (ih h')

/-- Characters that start no token are read one by one. -/
theorem of_forall {a : List Char} (h : ∀ c ∈ a, c ∉ '#' :: quotes) (s : List Char) :
    Scan (a ++ s) s [] := by
  induction a with
  | nil => exact .nil s
  | cons c a ih =>
    obtain ⟨hc, ha⟩ := List.forall_mem_cons.mp h
    exact .char hc (ih ha)

/-- A scan leaves no more than it has read. -/
theorem length_le (h : Scan s r ls) : r.length ≤ s.length := by
  induction h with
  | nil => exact Nat.le_refl _
  | literal token _ ih => exact Nat.le_trans ih (length_le_of_run token)
  | comment token _ ih => exact Nat.le_trans ih (length_le_of_run token)
  | char _ _ ih => exact Nat.le_trans ih (Nat.le_succ _)

/-- A scan that has arrived has read nothing. -/
theorem eq_nil (h : Scan s s ls) : ls = [] := by
  cases h with
  | nil => rfl
  | literal token rest =>
    -- A token is not empty, so what follows it is shorter than the whole.
    have := length_lt_of_consumes (by decide) token
    have := rest.length_le
    omega
  | comment token rest =>
    have := length_lt_of_consumes (by decide) token
    have := rest.length_le
    omega
  | char token rest =>
    have := rest.length_le
    rw [List.length_cons] at this
    omega

/-- Between two places there is one scan. The first character decides which token comes first. -/
theorem unique (h : Scan s r ls) (h' : Scan s r ls') : ls = ls' := by
  induction h generalizing ls' with
  | nil => exact h'.eq_nil.symm
  | @literal s t r f ls token rest ih =>
    obtain ⟨q, hq, u, rfl⟩ := exists_quote_of_stringLiteral token
    cases h' with
    | nil => exact eq_nil (.literal token rest)
    | literal token' rest' =>
      obtain ⟨rfl, rfl⟩ := Prod.mk.inj (Option.some.inj (token.symm.trans token'))
      rw [ih rest']
    | comment token' _ =>
      obtain ⟨v, hv⟩ := exists_sign_of_comment token'
      obtain ⟨rfl, -⟩ := List.cons.inj hv
      simp [quotes] at hq
    | char token' _ => exact absurd (List.mem_cons_of_mem _ hq) token'
  | @comment s t r f ls token rest ih =>
    obtain ⟨u, rfl⟩ := exists_sign_of_comment token
    cases h' with
    | nil => exact eq_nil (.comment token rest)
    | literal token' _ =>
      obtain ⟨q, hq, v, hv⟩ := exists_quote_of_stringLiteral token'
      obtain ⟨rfl, -⟩ := List.cons.inj hv
      simp [quotes] at hq
    | comment token' rest' =>
      obtain ⟨-, rfl⟩ := Prod.mk.inj (Option.some.inj (token.symm.trans token'))
      exact ih rest'
    | char token' _ => simp at token'
  | @char c s r ls token rest ih =>
    cases h' with
    | nil => exact eq_nil (.char token rest)
    | literal token' _ =>
      obtain ⟨q, hq, v, hv⟩ := exists_quote_of_stringLiteral token'
      obtain ⟨rfl, -⟩ := List.cons.inj hv
      exact absurd (List.mem_cons_of_mem _ hq) token
    | comment token' _ =>
      obtain ⟨v, hv⟩ := exists_sign_of_comment token'
      obtain ⟨rfl, -⟩ := List.cons.inj hv
      simp at token
    | char _ rest' => exact ih rest'

end Scan

end UdfBridge.Source
