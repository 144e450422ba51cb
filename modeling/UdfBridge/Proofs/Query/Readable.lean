import UdfBridge.Proofs.Query.Literal
import UdfBridge.Proofs.Query.Subexpr

/-!
# The text of an expression determines its tree

Translation gives expressions of a restricted form: literals of constants, columns, operators and
calls, with a name on a whole item at most (`SqlExpr.IsOperand`, `SqlExpr.IsItem`). The texts of
such expressions are told apart, together with what stands behind them: a text in quotes ends at the
first quote that is not doubled, a name where no further character can belong to it, an operator at
its closing parenthesis, and a call with the list of its arguments.
-/

namespace UdfBridge

open Sql (EndsName startsPlain continuesPlain endsName_cons quoteIdentifier apart_quoteIdentifier
  exists_cons_quoteIdentifier)
open Text (Apart apart_of_prefixFree apart_intercalate)

/-! ## Expressions without names -/

namespace SqlExpr

/-- An expression that can stand inside another one: no name stands on it or in it, and its literals
are those of constants other than floats. -/
inductive IsOperand : SqlExpr → Prop
  | literal {text : String} (h : IsLiteral text) : IsOperand (literal text)
  | column (name : String) : IsOperand (column name)
  | binary {lhs rhs : SqlExpr} (op : Op) (hlhs : IsOperand lhs) (hrhs : IsOperand rhs) :
      IsOperand (binary lhs op.symbol rhs)
  | call (function : QualifiedName) {args : List SqlExpr} (hargs : ∀ a ∈ args, IsOperand a) :
      IsOperand (call function args)

/-- The characters of the text of an expression. -/
def chars (e : SqlExpr) : List Char :=
  e.render.toList

/-- A literal is written as it is. -/
theorem chars_literal (text : String) : (literal text).chars = text.toList := rfl

/-- An operator is written between its sides, in parentheses and with blanks around it. -/
theorem chars_binary (lhs : SqlExpr) (op : String) (rhs : SqlExpr) : (binary lhs op rhs).chars =
    '(' :: (lhs.chars ++ ' ' :: (op.toList ++ ' ' :: (rhs.chars ++ [')']))) := by
  simp [chars, render]

/-- A call is written as its function and the arguments in parentheses, with a comma and a blank
between them. -/
theorem chars_call (function : QualifiedName) (args : List SqlExpr) :
    (call function args).chars = function.render.toList ++
      '(' :: ([',', ' '].intercalate (args.map chars) ++ [')']) := by
  have hargs : (renderAll args).map String.toList = args.map chars := by
    rw [renderAll_eq_map, List.map_map]
    rfl
  simp [chars, render, String.toList_intercalate, hargs]

/-- A named expression is written with the word `AS` and the quoted name behind it. -/
theorem chars_label (e : SqlExpr) (name : String) : (label e name).chars =
    e.chars ++ (" AS ".toList ++ (quoteIdentifier name).toList) := by
  simp [chars, render]

/-- How a text starts tells a parenthesis, a name and a literal apart. -/
inductive Opening where
  | parenthesis
  | name
  | literal
deriving DecidableEq

/-- What a text starts with, by its first character. -/
def opening (c : Char) : Opening :=
  if c = '(' then .parenthesis
  else if c = '"' ∨ startsPlain c = true then .name
  else .literal

/-- A quote or a character that starts a plain name opens a name. -/
theorem opening_of_name {c : Char} (h : c = '"' ∨ startsPlain c = true) : opening c = .name := by
  have hne : c ≠ '(' := by
    rintro rfl
    rcases h with h | h <;> exact absurd h (by decide)
  rw [opening, if_neg hne, if_pos h]

/-- Digits, signs and capital letters come before the underscore. -/
theorem toNat_lt_of_isBare {c : Char} (h : isBare c = true) : c.toNat < '_'.toNat := by
  rw [isBare, Bool.or_eq_true, Bool.or_eq_true, beq_iff_eq] at h
  rcases h with (rfl | hdigit) | hupper
  · decide
  · exact Nat.lt_of_le_of_lt (Char.isDigit_iff_toNat.mp hdigit).2 (by decide)
  · have hrange : c.val ≥ 'A'.val ∧ c.val ≤ 'Z'.val := of_decide_eq_true hupper
    exact Nat.lt_of_le_of_lt (UInt32.le_iff_toNat_le.mp hrange.2) (by decide)

/-- Lower case letters come behind the underscore. -/
theorem le_toNat_of_startsPlain {c : Char} (h : startsPlain c = true) : '_'.toNat ≤ c.toNat := by
  rw [startsPlain, Bool.or_eq_true, beq_iff_eq] at h
  rcases h with hlower | rfl
  · have hrange : (decide (c.val ≥ 'a'.val) && decide (c.val ≤ 'z'.val)) = true := hlower
    rw [Bool.and_eq_true, decide_eq_true_eq, decide_eq_true_eq] at hrange
    exact Nat.le_trans (by decide) (UInt32.le_iff_toNat_le.mp hrange.1)
  · exact Nat.le_refl _

/-- Digits, signs and capital letters start no name. -/
theorem startsPlain_of_isBare {c : Char} (h : isBare c = true) : startsPlain c = false := by
  rw [Bool.eq_false_iff]
  intro hstart
  have hbelow := toNat_lt_of_isBare h
  have habove := le_toNat_of_startsPlain hstart
  omega

/-- An apostrophe or a character of a bare literal opens a literal. -/
theorem opening_of_literal {c : Char} (h : c = '\'' ∨ isBare c = true) : opening c = .literal := by
  have hparenthesis : c ≠ '(' := by
    rintro rfl
    rcases h with h | h <;> exact absurd h (by decide)
  have hquote : c ≠ '"' := by
    rintro rfl
    rcases h with h | h <;> exact absurd h (by decide)
  have hplain : startsPlain c = false := by
    rcases h with rfl | h
    · decide
    · exact startsPlain_of_isBare h
  rw [opening, if_neg hparenthesis, if_neg]
  rintro (h | h)
  · exact hquote h
  · rw [hplain] at h
    simp at h

/-- What the text of an expression starts with. -/
def kindOfOpening : SqlExpr → Opening
  | literal _ => .literal
  | column _ | call _ _ => .name
  | binary _ _ _ => .parenthesis
  | label e _ => e.kindOfOpening

/-- The text of an expression has a first character, which tells literals, names and parentheses
apart. -/
theorem IsOperand.exists_cons {e : SqlExpr} (h : e.IsOperand) :
    ∃ c s, e.chars = c :: s ∧ opening c = e.kindOfOpening := by
  cases h with
  | literal htext =>
    obtain ⟨c, s, hcs, hc⟩ := htext.exists_cons
    exact ⟨c, s, hcs, opening_of_literal hc⟩
  | column name =>
    obtain ⟨c, s, hcs, hc⟩ := exists_cons_quoteIdentifier name
    exact ⟨c, s, hcs, opening_of_name hc⟩
  | binary op =>
    rw [chars_binary]
    exact ⟨'(', _, rfl, rfl⟩
  | call function =>
    obtain ⟨c, s, hcs, hc⟩ := function.exists_cons_render
    rw [chars_call, hcs]
    exact ⟨c, _, rfl, opening_of_name hc⟩

/-- No expression starts with a character that can follow one. -/
theorem IsOperand.not_startsWith {e : SqlExpr} (h : e.IsOperand) {c : Char} {r : List Char}
    (hc : followsExpr c = true) : ¬ e.chars <+: c :: r := by
  obtain ⟨d, s, hds, hd⟩ := h.exists_cons
  rw [hds, List.cons_prefix_cons]
  rintro ⟨rfl, -⟩
  have hliteral : opening d = .literal := by
    rcases followsExpr_iff.mp hc with rfl | rfl | rfl <;> decide
  -- The only texts that could start so are literals, and none does.
  cases h with
  | literal htext =>
    obtain ⟨x, t, hxt, hx⟩ := htext.exists_cons
    obtain rfl : x = d := by
      rw [chars_literal, hxt] at hds
      exact (List.cons.inj hds).1
    rcases followsExpr_iff.mp hc with rfl | rfl | rfl <;> exact absurd hx (by decide)
  | column | call | binary =>
    rw [hliteral] at hd
    simp [kindOfOpening] at hd

end SqlExpr

/-! ## Unique readability -/

/-- Operators are told apart before any rests. -/
theorem Op.apart_symbol (a b : Op) (ends : List Char → Prop) :
    Apart (fun op => (symbol op).toList) ends a b := by
  apply apart_of_prefixFree
  intro a b
  cases a <;> cases b <;> decide

namespace EndsExpr

/-- An expression can end at the end of the text. -/
theorem nil : EndsExpr [] := by
  simp [EndsExpr]

/-- An expression can end before a character that may follow it. -/
theorem cons {c : Char} {r : List Char} (h : followsExpr c = true) : EndsExpr (c :: r) := by
  intro d hd
  obtain rfl : c = d := by simpa using hd
  exact h

/-- No name goes on in what follows an expression. -/
theorem endsQualified {r : List Char} (h : EndsExpr r) : QualifiedName.EndsQualified r := by
  constructor
  · intro c hc
    rcases followsExpr_iff.mp (h c hc) with rfl | rfl | rfl <;> decide
  · intro hdot
    exact absurd (h '.' hdot) (by decide)

/-- Where an expression can end, a name can end. -/
theorem endsName {r : List Char} (h : EndsExpr r) : EndsName r :=
  h.endsQualified.1

end EndsExpr

namespace SqlExpr

/-- Nothing goes on in an opening parenthesis that belongs to a name. -/
theorem endsQualified_parenthesis (r : List Char) : QualifiedName.EndsQualified ('(' :: r) :=
  ⟨endsName_cons (by decide) (by decide), by simp⟩

/-- Texts that start differently are different. -/
theorem IsOperand.opening_eq {x y : SqlExpr} (hx : x.IsOperand) (hy : y.IsOperand)
    {r t : List Char} (h : x.chars ++ r = y.chars ++ t) : x.kindOfOpening = y.kindOfOpening := by
  obtain ⟨c, s, hcs, hc⟩ := hx.exists_cons
  obtain ⟨d, u, hdu, hd⟩ := hy.exists_cons
  rw [hcs, hdu, List.cons_append, List.cons_append, List.cons.injEq] at h
  rw [← hc, ← hd, h.1]

/-- A column is not the name of a call, behind which a parenthesis opens. -/
theorem column_append_ne_call {name : String} {function : QualifiedName} {args : List SqlExpr}
    {r t : List Char} (hr : EndsExpr r) :
    (column name).chars ++ r ≠ (call function args).chars ++ t := by
  intro h
  rw [chars_call, List.append_assoc, List.cons_append] at h
  -- A column is the text of a name without a schema.
  obtain ⟨-, hrest⟩ := QualifiedName.apart_render ⟨none, name⟩ function _ _ hr.endsQualified
    (endsQualified_parenthesis _) h
  have := hr '(' (by rw [hrest]; rfl)
  exact absurd this (by decide)

/-- Lists of arguments are told apart before a closing parenthesis, if the arguments are. -/
theorem apart_args {as bs : List SqlExpr} (has : ∀ a ∈ as, a.IsOperand)
    (hbs : ∀ b ∈ bs, b.IsOperand) (h : ∀ a ∈ as, ∀ b ∈ bs, Apart chars EndsExpr a b) :
    Apart (fun cs => [',', ' '].intercalate (cs.map chars)) (fun r => ∃ s, r = ')' :: s) as bs := by
  refine apart_intercalate (fun r => EndsExpr.cons rfl) ?_ ?_ as bs ?_ h
  · rintro r ⟨s, rfl⟩
    exact EndsExpr.cons rfl
  · rintro r ⟨s, rfl⟩ hpre
    simp at hpre
  · rintro r ⟨s, rfl⟩ a ha
    have hop : a.IsOperand := ha.elim (has a) (hbs a)
    exact hop.not_startsWith rfl

/-- Expressions are told apart before all that can follow one. The induction is on the first of the
two; what its text starts with leaves the second no other form, but for a column and a call. -/
theorem IsOperand.apart {x y : SqlExpr} (hx : x.IsOperand) (hy : y.IsOperand) :
    Apart chars EndsExpr x y := by
  induction hx generalizing y with
  | literal htext =>
    intro r t hr ht h
    -- The first character tells which kind of operand `y` is; only a name may be a call as well.
    have hkind := (IsOperand.literal htext).opening_eq hy h
    cases hy with
    | literal htext' =>
      obtain ⟨rfl, hrt⟩ := htext.apart htext' r t hr ht h
      exact ⟨rfl, hrt⟩
    | column | call | binary => simp [kindOfOpening] at hkind
  | column name =>
    intro r t hr ht h
    have hkind := (IsOperand.column name).opening_eq hy h
    cases hy with
    | column name' =>
      obtain ⟨rfl, hrt⟩ := apart_quoteIdentifier name name' r t hr.endsName ht.endsName h
      exact ⟨rfl, hrt⟩
    -- The name of a column ends where the parenthesis of a call would stand.
    | call function' hargs' => exact absurd h (column_append_ne_call hr)
    | literal | binary => simp [kindOfOpening] at hkind
  | binary op hlhs hrhs ihl ihr =>
    intro r t hr ht h
    have hkind := (IsOperand.binary op hlhs hrhs).opening_eq hy h
    cases hy with
    | binary op' hlhs' hrhs' =>
      -- A blank follows the first operand and the operator, and a parenthesis the second operand.
      simp only [chars_binary, List.cons_append, List.append_assoc, List.cons.injEq,
        true_and] at h
      obtain ⟨rfl, hop⟩ := ihl hlhs' _ _ (EndsExpr.cons rfl) (EndsExpr.cons rfl) h
      obtain ⟨rfl, hrhs⟩ := Op.apart_symbol op op' (fun _ => True) _ _ trivial trivial
        (List.cons.inj hop).2
      obtain ⟨rfl, hclose⟩ := ihr hrhs' _ _ (EndsExpr.cons rfl) (EndsExpr.cons rfl)
        (List.cons.inj hrhs).2
      exact ⟨rfl, (List.cons.inj hclose).2⟩
    | literal | column | call => simp [kindOfOpening] at hkind
  | call function hargs ih =>
    intro r t hr ht h
    have hkind := (IsOperand.call function hargs).opening_eq hy h
    cases hy with
    | call function' hargs' =>
      -- The name ends at the parenthesis that opens, and the arguments at the one that closes.
      simp only [chars_call, List.append_assoc, List.cons_append] at h
      obtain ⟨rfl, hopen⟩ := QualifiedName.apart_render function function' _ _
        (endsQualified_parenthesis _) (endsQualified_parenthesis _) h
      obtain ⟨rfl, hclose⟩ := apart_args hargs hargs' (fun a ha b hb => ih a ha (hargs' b hb)) _ _
        ⟨_, rfl⟩ ⟨_, rfl⟩ (List.cons.inj hopen).2
      exact ⟨rfl, (List.cons.inj hclose).2⟩
    | column name' => exact absurd h.symm (column_append_ne_call ht)
    | literal | binary => simp [kindOfOpening] at hkind

/-! ## Items -/

/-- An expression that can stand as an item of a query or as its condition: an operand, which may
have a name. -/
inductive IsItem : SqlExpr → Prop
  | operand {e : SqlExpr} (h : IsOperand e) : IsItem e
  | label {e : SqlExpr} (name : String) (h : IsOperand e) : IsItem (label e name)

/-- An item can end before `r`: an expression can, and no name follows it there. -/
def EndsItem (r : List Char) : Prop :=
  EndsExpr r ∧ ¬ " AS ".toList <+: r

/-- An expression can end before a name. -/
theorem endsExpr_label (r : List Char) : EndsExpr (" AS ".toList ++ r) :=
  EndsExpr.cons rfl

/-- No item starts with a character that can follow one. -/
theorem IsItem.not_startsWith {e : SqlExpr} (h : e.IsItem) {c : Char} {r : List Char}
    (hc : followsExpr c = true) : ¬ e.chars <+: c :: r := by
  cases h with
  | operand h => exact h.not_startsWith hc
  | label name h =>
    rw [chars_label]
    intro hpre
    exact h.not_startsWith hc ((List.prefix_append _ _).trans hpre)

/-- An operand without a name is not one with a name, which " AS " sets off. -/
theorem operand_append_ne_label {x y : SqlExpr} (hx : x.IsOperand) (hy : y.IsOperand)
    {name : String} {r t : List Char} (hr : EndsItem r) :
    x.chars ++ r ≠ (label y name).chars ++ t := by
  intro h
  rw [chars_label, List.append_assoc, List.append_assoc] at h
  obtain ⟨-, hrest⟩ := hx.apart hy _ _ hr.1 (endsExpr_label _) h
  exact hr.2 ⟨_, hrest.symm⟩

/-- Items are told apart before all that can follow one. -/
theorem IsItem.apart {x y : SqlExpr} (hx : x.IsItem) (hy : y.IsItem) :
    Apart chars EndsItem x y := by
  intro r t hr ht h
  cases hx with
  | operand hx =>
    cases hy with
    | operand hy => exact hx.apart hy r t hr.1 ht.1 h
    | label name hy => exact absurd h (operand_append_ne_label hx hy hr)
  | label name hx =>
    cases hy with
    | operand hy => exact absurd h.symm (operand_append_ne_label hy hx ht)
    | label name' hy =>
      simp only [chars_label, List.append_assoc] at h
      obtain ⟨rfl, hname⟩ := hx.apart hy _ _ (endsExpr_label _) (endsExpr_label _) h
      obtain ⟨rfl, hrt⟩ := apart_quoteIdentifier name name' r t hr.1.endsName ht.1.endsName
        (List.append_cancel_left hname)
      exact ⟨rfl, hrt⟩

end SqlExpr

end UdfBridge
