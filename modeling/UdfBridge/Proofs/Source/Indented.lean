import Mathlib.Data.List.Forall2
import UdfBridge.Proofs.Source.Undecorated
import UdfBridge.Proofs.Text.Indent

/-!
# Indented definitions

`dedent` cuts every line once: a blank line before its ending, any other line behind the margin, which
is the same for all of them and as long as it can be (`dedent_exact`). How far a definition is
indented as a whole is not seen any more then, and so it does not count for what is read of it.
-/

namespace UdfBridge.Source

open Text

/-- `left` is what stands in the line `l` behind `cut`, in bytes as well as in characters. -/
structure CutBehind (cut l left : List Char) : Prop where
  chars : l = cut ++ left
  /-- The place of the cut, in bytes, is in the line and between two of its characters. -/
  bytes : String.Pos.Raw.IsValid (String.ofList l) ⟨(bytesOf cut).length⟩

/-- `left` is what is left of the line `l` when the margin is taken away. -/
structure IsDedented (margin l left : List Char) : Prop where
  /-- A blank line keeps its ending, and no more. -/
  blank : isBlankLine l = true → ∃ cut, CutBehind cut l left ∧
    (∀ c ∈ left, isLineEnd c = true) ∧ ∀ c ∈ cut.getLast?, isLineEnd c = false
  /-- A line with content loses the margin. -/
  content : isBlankLine l = false → CutBehind margin l left

/-- Where a text ends in the middle of another one, no character is cut. -/
theorem cutBehind_append (cut left : List Char) : CutBehind cut (cut ++ left) left := by
  have hbytes : (String.ofList cut).utf8ByteSize = (bytesOf cut).length := by
    rw [← String.size_toByteArray, String.toByteArray_ofList, List.utf8Encode, bytesOf]
    exact List.size_toByteArray
  refine ⟨rfl, String.Pos.Raw.isValid_iff_exists_append.mpr ?_⟩
  exact ⟨.ofList cut, .ofList left, String.ofList_append, by rw [String.rawEndPos, hbytes]⟩

/-- A line from which the length of the margin is taken is dedented, if the margin starts every line
with content. -/
theorem isDedented_dedentLine {margin l : List Char} (h : isBlankLine l = false → margin <+: l) :
    IsDedented margin l (dedentLine margin.length l) := by
  constructor
  · intro hblank
    rw [dedentLine_of_blank hblank]
    -- Of a blank line only its line ending is kept.
    have hsplit : l = l.rdropWhile isLineEnd ++ (l.reverse.takeWhile isLineEnd).reverse :=
      (List.rdropWhile_append_rtakeWhile (p := isLineEnd)).symm
    refine ⟨l.rdropWhile isLineEnd, ?_, ?_, ?_⟩
    · conv => arg 2; rw [hsplit]
      exact cutBehind_append _ _
    · exact fun c hc => List.mem_takeWhile_imp (List.mem_reverse.mp hc)
    · intro c hc
      obtain ⟨hne, rfl⟩ := List.mem_getLast?_eq_getLast hc
      simpa using List.rdropWhile_last_not isLineEnd l hne
  · intro hcontent
    obtain ⟨left, rfl⟩ := h hcontent
    rw [dedentLine_of_content hcontent, List.drop_left]
    exact cutBehind_append margin left

/-- What is read of a text is decided by the text without its margin. -/
theorem parse_congr_dedent {s t : String} (h : dedent s = dedent t) :
    FunctionDef.parse s = FunctionDef.parse t := by
  unfold FunctionDef.parse
  rw [h]

/-- **The margin is taken away exactly, and indentation as a whole is invisible.** Every blank line
keeps its ending, and every other line loses one and the same margin of spaces and tabs, which is the
longest one that they all start with, byte by byte as well; no character is cut. A second `dedent`
changes nothing. Spaces and tabs put in front of all lines with content are taken away again, so the
same definition is read. -/
theorem dedent_exact (t : String) :
    (∃ (margin : List Char) (pieces : List (List Char)), (∀ c ∈ margin, isIndent c = true) ∧
      List.Forall₂ (IsDedented margin) (lines t.toList) pieces ∧
      (dedent t).toList = pieces.flatten ∧
      ∀ l ∈ lines t.toList, isBlankLine l = false →
        (∀ p, (∀ c ∈ p, isIndent c = true) →
          (∀ l ∈ lines t.toList, isBlankLine l = false → p <+: l) → p <+: margin) ∧
        ∀ bytes, (∀ l ∈ lines t.toList, isBlankLine l = false → bytes <+: bytesOf (indentOf l)) →
          bytes <+: bytesOf margin) ∧
    dedent (dedent t) = dedent t ∧
    ∀ p, (∀ c ∈ p, isIndent c = true) →
      dedent (indentText p t) = dedent t ∧
        FunctionDef.parse (indentText p t) = FunctionDef.parse t := by
  refine ⟨⟨marginOf (lines t.toList), _, fun _ => isIndent_of_mem_marginOf, ?_,
    String.toList_ofList, fun l hl hcontent => ⟨?_, ?_⟩⟩, dedent_dedent t, fun p hp => ?_⟩
  · rw [List.forall₂_map_right_iff, List.forall₂_same]
    intro l hl
    refine isDedented_dedentLine fun hcontent => ?_
    exact (marginOf_prefix_indentOf hl hcontent).trans (List.takeWhile_prefix isIndent)
  · -- The margin is the longest of the common prefixes, as characters and as bytes.
    exact fun p hp h => prefix_marginOf_lines hp hl hcontent h
  · exact fun bytes h => bytes_prefix_marginOf hl hcontent h
  · exact ⟨dedent_indentText hp t, parse_congr_dedent (dedent_indentText hp t)⟩

/-- A definition indented by tabs and spaces, with a blank line and with a line that starts with
white space of another kind. -/
def indentedText : String := "\t @a\n \r \r\n\t def f(x):\n\t \t\u00a0return x\n\t "

/-- More tabs and spaces in front of it change nothing. -/
theorem dedent_exact_of_indented :
    dedent indentedText = "@a\n\r\ndef f(x):\n\t\u00a0return x\n" ∧
      indentText [' ', '\t'] indentedText =
        " \t\t @a\n \r \r\n \t\t def f(x):\n \t\t \t\u00a0return x\n\t " ∧
      dedent (indentText [' ', '\t'] indentedText) = dedent indentedText ∧
      FunctionDef.parse (indentText [' ', '\t'] indentedText) =
        FunctionDef.parse indentedText := by
  obtain ⟨-, -, hindent⟩ := dedent_exact indentedText
  exact ⟨by decide +kernel, by decide +kernel, hindent [' ', '\t'] (by decide)⟩

end UdfBridge.Source
