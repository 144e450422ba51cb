import UdfBridge.Proofs.Sql.Token
import UdfBridge.Query.Constant

/-!
# The literals of constants

The literal of a constant other than a float is either bare, made of digits, a sign and capital
letters, or a text in quotes with perhaps a cast behind it. Such literals are told apart before all
that can follow an expression.
-/

namespace UdfBridge

open Sql (doubled inQuotes readQuoted readQuoted_doubled textLiteral bytesLiteral)
open Text (Apart append_inj_of_span)

/-- Whether `c` can stand in a literal without quotes. -/
def isBare (c : Char) : Bool :=
  c == '-' || c.isDigit || c.isUpper

/-- Whether `c` can follow an expression. -/
def followsExpr (c : Char) : Bool :=
  c == ' ' || c == ',' || c == ')'

/-- An expression can end before `r`. -/
def EndsExpr (r : List Char) : Prop :=
  ∀ c ∈ r.head?, followsExpr c = true

/-- The text is the literal of a constant other than a float. -/
def IsLiteral (text : String) : Prop :=
  ∃ c : Constant, (∀ x, c ≠ .real x) ∧ c.translate = .literal text

/-- What may follow an expression is a blank, a comma or a closing parenthesis. -/
theorem followsExpr_iff {c : Char} : followsExpr c = true ↔ c = ' ' ∨ c = ',' ∨ c = ')' := by
  simp [followsExpr, or_assoc]

/-- What follows an expression goes on with no bare literal. -/
theorem EndsExpr.not_isBare {r : List Char} (h : EndsExpr r) :
    ∀ c ∈ r.head?, isBare c = false := by
  intro c hc
  rcases followsExpr_iff.mp (h c hc) with rfl | rfl | rfl <;> decide

/-- The decimal digits of an integer, with its sign, make a bare literal. -/
theorem isBare_of_mem_toString (i : Int) : ∀ c ∈ (toString i).toList, isBare c = true := by
  have hdigits : ∀ n : Nat, ∀ c ∈ n.repr.toList, isBare c = true := by
    intro n c hc
    rw [Nat.toList_repr] at hc
    have := Nat.isDigit_of_mem_toDigits (by decide) (by decide) hc
    simp [isBare, this]
  intro c hc
  rw [Int.toString_eq_repr, Int.repr_eq_if] at hc
  split at hc
  · exact hdigits _ c hc
  · rw [String.toList_append, List.mem_append] at hc
    rcases hc with hsign | hc
    · obtain rfl : c = '-' := by simpa using hsign
      rfl
    · exact hdigits _ c hc

/-- The digits of an integer are not empty. -/
theorem toList_toString_ne_nil (i : Int) : (toString i).toList ≠ [] := by
  rw [Int.toString_eq_repr, Int.repr_eq_if]
  split
  · rw [Nat.toList_repr]
    exact Nat.toDigits_ne_nil
  · simp

/-- Digits are no quotes, so none is doubled. -/
theorem doubled_toHex (bs : List UInt8) : doubled '\'' (Text.toHex bs) = Text.toHex bs := by
  have hdigit : ∀ n < 16, Text.hexDigit n ≠ '\'' := by decide
  induction bs with
  | nil => rfl
  | cons b bs ih =>
    have hb : b.toNat < 256 := b.toNat_lt
    have h1 := hdigit (b.toNat / 16) (by omega)
    have h2 := hdigit (b.toNat % 16) (by omega)
    have hcons : Text.toHex (b :: bs) =
        Text.hexDigit (b.toNat / 16) :: Text.hexDigit (b.toNat % 16) :: Text.toHex bs := rfl
    rw [hcons, Sql.doubled_cons, Sql.doubled_cons, if_neg h1, if_neg h2, ih]
    rfl

/-- The token of bytes is a text in quotes with a cast behind it. -/
theorem toList_bytesLiteral (bs : List UInt8) : (bytesLiteral bs).toList =
    inQuotes '\'' ('\\' :: 'x' :: Text.toHex bs) ++ "::bytea".toList := by
  have hdoubled : doubled '\'' ('\\' :: 'x' :: Text.toHex bs) = '\\' :: 'x' :: Text.toHex bs := by
    rw [Sql.doubled_cons, Sql.doubled_cons, if_neg (by decide), if_neg (by decide), doubled_toHex]
    rfl
  unfold bytesLiteral inQuotes
  simp [hdoubled]

/-- A literal is bare, or a text in quotes with perhaps a cast behind it. -/
theorem IsLiteral.cases {text : String} (h : IsLiteral text) :
    (text.toList ≠ [] ∧ ∀ c ∈ text.toList, isBare c = true) ∨
      ∃ w cast, text.toList = inQuotes '\'' w ++ cast ∧ (cast = [] ∨ cast = "::bytea".toList) := by
  obtain ⟨c, hreal, htext⟩ := h
  cases c with
  -- The text of an integer is made of digits and a sign.
  | int value =>
    obtain rfl : toString value.toInt = text := SqlExpr.literal.inj htext
    exact .inl ⟨toList_toString_ne_nil _, isBare_of_mem_toString _⟩
  | string value =>
    obtain rfl : textLiteral value = text := SqlExpr.literal.inj htext
    refine .inr ⟨value.toList, [], ?_, .inl rfl⟩
    rw [textLiteral, String.toList_ofList, List.append_nil]
  -- A float is excluded, for its text may run into what follows.
  | real value => exact absurd rfl (hreal value)
  | bool value =>
    cases value with
    | true =>
      obtain rfl : "TRUE" = text := SqlExpr.literal.inj htext
      exact .inl ⟨by decide, List.all_eq_true.mp (by decide)⟩
    | false =>
      obtain rfl : "FALSE" = text := SqlExpr.literal.inj htext
      exact .inl ⟨by decide, List.all_eq_true.mp (by decide)⟩
  | bytes value =>
    obtain rfl : bytesLiteral value = text := SqlExpr.literal.inj htext
    exact .inr ⟨_, _, toList_bytesLiteral value, .inr rfl⟩

/-- A literal starts with a quote or with a character of a bare literal. -/
theorem IsLiteral.exists_cons {text : String} (h : IsLiteral text) :
    ∃ c s, text.toList = c :: s ∧ (c = '\'' ∨ isBare c = true) := by
  rcases h.cases with ⟨hne, hall⟩ | ⟨w, cast, htext, -⟩
  · obtain ⟨c, s, hcs⟩ := List.exists_cons_of_ne_nil hne
    exact ⟨c, s, hcs, .inr (hall c (by rw [hcs]; exact List.mem_cons_self))⟩
  · exact ⟨'\'', doubled '\'' w ++ ['\''] ++ cast, htext, .inl rfl⟩

/-- What follows the text in quotes of a literal does not start with a quote. -/
theorem head?_cast_ne_quote {cast r : List Char} (hcast : cast = [] ∨ cast = "::bytea".toList)
    (hr : EndsExpr r) : (cast ++ r).head? ≠ some '\'' := by
  rcases hcast with rfl | rfl
  · intro hquote
    exact absurd (hr '\'' hquote) (by decide)
  · simp

/-- A cast is told apart from what follows an expression. -/
theorem cast_append_inj {cast cast' r t : List Char} (hcast : cast = [] ∨ cast = "::bytea".toList)
    (hcast' : cast' = [] ∨ cast' = "::bytea".toList) (hr : EndsExpr r) (ht : EndsExpr t)
    (h : cast ++ r = cast' ++ t) : cast = cast' ∧ r = t := by
  rcases hcast with rfl | rfl <;> rcases hcast' with rfl | rfl
  · exact ⟨rfl, h⟩
  · have : followsExpr ':' = true := hr ':' (by rw [← List.nil_append r, h]; rfl)
    exact absurd this (by decide)
  · have : followsExpr ':' = true := ht ':' (by rw [← List.nil_append t, ← h]; rfl)
    exact absurd this (by decide)
  · exact ⟨rfl, List.append_cancel_left h⟩

/-- A bare text is none in quotes. -/
theorem bare_append_ne_inQuotes {s : List Char} (hne : s ≠ [])
    (hbare : ∀ c ∈ s, isBare c = true) (w cast r t : List Char) :
    s ++ r ≠ inQuotes '\'' w ++ cast ++ t := by
  obtain ⟨c, s, rfl⟩ := List.exists_cons_of_ne_nil hne
  intro h
  obtain rfl : c = '\'' := (List.cons.inj h).1
  have hquote := hbare '\'' List.mem_cons_self
  exact absurd hquote (by decide)

/-- Literals are told apart before all that can follow an expression. -/
theorem IsLiteral.apart {a b : String} (ha : IsLiteral a) (hb : IsLiteral b) :
    Apart String.toList EndsExpr a b := by
  intro r t hr ht h
  rcases ha.cases with ⟨hne, hbare⟩ | ⟨w, cast, hw, hcast⟩ <;>
    rcases hb.cases with ⟨hne', hbare'⟩ | ⟨w', cast', hw', hcast'⟩
  · -- Two bare texts end where the first character comes that is not bare.
    obtain ⟨hab, hrt⟩ := append_inj_of_span hbare hbare' hr.not_isBare ht.not_isBare h
    exact ⟨String.toList_inj.mp hab, hrt⟩
  · -- One is bare and the other in quotes, so they differ in the first character.
    rw [hw'] at h
    exact absurd h (bare_append_ne_inQuotes hne hbare w' cast' r t)
  · -- The same with both texts exchanged.
    rw [hw] at h
    exact absurd h.symm (bare_append_ne_inQuotes hne' hbare' w cast t r)
  · -- Both are read to the quote that closes them.
    have hopen : ∀ w cast r : List Char, inQuotes '\'' w ++ cast ++ r =
        '\'' :: (doubled '\'' w ++ '\'' :: (cast ++ r)) := by
      intro w cast r
      simp [inQuotes]
    rw [hw, hw', hopen, hopen] at h
    have hread := congrArg (readQuoted '\'') (List.cons.inj h).2
    rw [readQuoted_doubled _ _ (head?_cast_ne_quote hcast hr),
      readQuoted_doubled _ _ (head?_cast_ne_quote hcast' ht), Option.some.injEq,
      Prod.mk.injEq] at hread
    obtain ⟨rfl, hrest⟩ := hread
    obtain ⟨rfl, hrt⟩ := cast_append_inj hcast hcast' hr ht hrest
    exact ⟨String.toList_inj.mp (hw.trans hw'.symm), hrt⟩

end UdfBridge
