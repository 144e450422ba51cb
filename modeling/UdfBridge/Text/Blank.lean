/-!
# White space

The 25 characters with the Unicode property `White_Space`, and the three operations that the
readers of type names and annotations need of them: `trim`, `trimEnd` and `words`. The class is
wider than the spaces and tabs of an indentation, which `Text.Margin` treats by itself.
-/

namespace UdfBridge.Text

/-- The characters with the Unicode property `White_Space`. -/
def isBlank (c : Char) : Bool :=
  let n := c.toNat
  (0x9 ≤ n && n ≤ 0xD) || n == 0x20 || n == 0x85 || n == 0xA0 || n == 0x1680 ||
    (0x2000 ≤ n && n ≤ 0x200A) || n == 0x2028 || n == 0x2029 || n == 0x202F || n == 0x205F ||
    n == 0x3000

/-- `s` without its trailing white space. -/
def trimEndChars (s : List Char) : List Char :=
  (s.reverse.dropWhile isBlank).reverse

/-- `s` without its leading and trailing white space. -/
def trimChars (s : List Char) : List Char :=
  trimEndChars (s.dropWhile isBlank)

/-- The text without its leading and trailing white space. -/
def trim (s : String) : String :=
  .ofList (trimChars s.toList)

/-- The maximal runs of `s` free of white space, given the run read so far, last character first. -/
def wordsFrom (run : List Char) : List Char → List (List Char)
  | [] => if run.isEmpty then [] else [run.reverse]
  | c :: s =>
    if isBlank c then
      if run.isEmpty then wordsFrom [] s else run.reverse :: wordsFrom [] s
    else wordsFrom (c :: run) s

/-- The maximal runs of the text that are free of white space, in order. -/
def words (s : String) : List String :=
  (wordsFrom [] s.toList).map .ofList

end UdfBridge.Text
