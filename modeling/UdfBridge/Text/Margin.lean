import UdfBridge.Text.Line

/-!
# The common margin of a text

The source of a nested function is indented as a whole. `dedent` takes away the margin, which is
the longest run of spaces and tabs that every line with content starts with, and reduces every
blank line to its line ending. Only spaces, tabs and line ends make a line blank: any other white
space is content.
-/

namespace UdfBridge.Text

/-- The characters that an indentation is made of. -/
def isIndent (c : Char) : Bool := c == ' ' || c == '\t'

/-- The characters that a line ending is made of. -/
def isLineEnd (c : Char) : Bool := c == '\r' || c == '\n'

/-- Whether a line has no content. -/
def isBlankLine (line : List Char) : Bool :=
  line.all fun c => isIndent c || isLineEnd c

/-- The indentation of a line. -/
def indentOf (line : List Char) : List Char :=
  line.takeWhile isIndent

/-- The longest text that both texts start with. -/
def commonStart : List Char → List Char → List Char
  | a :: s, b :: t => if a = b then a :: commonStart s t else []
  | _, _ => []

/-- The margin of some lines: what the indentations of those with content have in common. -/
def marginOf (ls : List (List Char)) : List Char :=
  match (ls.filter fun l => !isBlankLine l).map indentOf with
  | [] => []
  | first :: rest => rest.foldl commonStart first

/-- A line without a margin of `n` characters; of a blank line, only its ending. -/
def dedentLine (n : Nat) (line : List Char) : List Char :=
  if isBlankLine line then (line.reverse.takeWhile isLineEnd).reverse else line.drop n

/-- `s` without its margin. -/
def dedentChars (s : List Char) : List Char :=
  ((lines s).map (dedentLine (marginOf (lines s)).length)).flatten

/-- The text without the margin that its lines have in common, its blank lines reduced to their
line endings. -/
def dedent (s : String) : String :=
  .ofList (dedentChars s.toList)

/-- The longest common start is a start of the first text. -/
theorem commonStart_prefix_left (s t : List Char) : commonStart s t <+: s := by
  fun_induction commonStart s t with
  | case1 a s t ih => exact List.cons_prefix_cons.mpr ⟨rfl, ih⟩
  | case2 => exact List.nil_prefix
  | case3 => exact List.nil_prefix

/-- The longest common start is a start of the second text. -/
theorem commonStart_prefix_right (s t : List Char) : commonStart s t <+: t := by
  fun_induction commonStart s t with
  | case1 a s t ih => exact List.cons_prefix_cons.mpr ⟨rfl, ih⟩
  | case2 => exact List.nil_prefix
  | case3 => exact List.nil_prefix

end UdfBridge.Text
