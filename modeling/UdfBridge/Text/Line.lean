/-!
# Lines and positions

A line is a piece of text that ends at a line feed, kept with it; what follows the last line feed
is a line too, unless it is empty. A carriage return starts no line of its own, so a line ended by
both is one line. `Position` counts along the text in the three ways that a reader of a message
or of a tree wants: bytes, lines and columns.
-/

namespace UdfBridge.Text

/-- The lines of `s`, each with the line feed that ends it. -/
def lines : List Char → List (List Char)
  | [] => []
  | c :: s =>
    if c = '\n' then [c] :: lines s
    else
      match lines s with
      | [] => [[c]]
      | l :: ls => (c :: l) :: ls

/-- Cutting a text into lines loses nothing. -/
@[simp] theorem flatten_lines (s : List Char) : (lines s).flatten = s := by
  induction s with
  | nil => rfl
  | cons c s ih =>
    unfold lines
    split
    · simp [ih]
    · split
      · rename_i h
        rw [h] at ih
        simp_all
      · rename_i l ls h
        rw [h] at ih
        simp_all

/-- What is left of `s` from its line number `n` on, where the first line has number 1. -/
def fromLine (n : Nat) (s : List Char) : List Char :=
  ((lines s).drop (n - 1)).flatten

/-- From its first line on, a text is whole. -/
@[simp] theorem fromLine_one (s : List Char) : fromLine 1 s = s := by
  simp [fromLine]

/-- A place between two characters of a text. -/
structure Position where
  /-- The number of bytes before it, in UTF-8. -/
  offset : Nat
  /-- One more than the number of line feeds before it. -/
  line : Nat
  /-- One more than the number of characters between the last line feed before it and it. -/
  column : Nat
deriving DecidableEq, Repr, Inhabited

namespace Position

/-- The place before the first character. -/
def origin : Position := ⟨0, 1, 1⟩

/-- The place behind the character `c` that stands at `p`. -/
def next (p : Position) (c : Char) : Position :=
  if c = '\n' then ⟨p.offset + c.utf8Size, p.line + 1, 1⟩
  else ⟨p.offset + c.utf8Size, p.line, p.column + 1⟩

/-- The place behind the text `s` that stands at `p`. -/
def advance (p : Position) (s : List Char) : Position :=
  s.foldl next p

/-- Behind an empty text the position is the same. -/
@[simp] theorem advance_nil (p : Position) : p.advance [] = p := rfl

/-- A text is passed character by character. -/
@[simp] theorem advance_cons (p : Position) (c : Char) (s : List Char) :
    p.advance (c :: s) = (p.next c).advance s := rfl

/-- Two texts are passed one behind the other. -/
@[simp] theorem advance_append (p : Position) (s t : List Char) :
    p.advance (s ++ t) = (p.advance s).advance t := by
  simp [advance]

/-- Each line feed of a text moves the line on by one. -/
theorem line_advance (p : Position) (s : List Char) :
    (p.advance s).line = p.line + s.count '\n' := by
  induction s generalizing p with
  | nil => simp
  | cons c s ih =>
    rw [advance_cons, ih, List.count_cons, next]
    by_cases hc : c = '\n'
    · simp only [hc, if_true, beq_self_eq_true]
      omega
    · simp [hc]

end Position

end UdfBridge.Text
