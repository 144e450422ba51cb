import UdfBridge.Proofs.Source.Arrangement
import UdfBridge.Proofs.Source.Printer
import UdfBridge.Proofs.Text.Margin

/-!
# Printed definitions

A function is printed with its header on one line, and any text for its body. What is printed reads
back as the name of the function and as its parameters, each with the kind that its place in the
list gives it (`parse_printFunction`).
-/

namespace UdfBridge.Source

open Grammar
open Grammar.Pattern
open Text (Position)

variable {is : List Item} {ts : List String} {name : String} {d : FunctionDef} {u r : List Char}

/-- The text of a function: its header, with the items between commas and blanks, and its body. -/
def printFunction (name : String) (items : List Item) (spacing : Nat → Spacing) (body : String) :
    String :=
  "def " ++ name ++ "(" ++ ", ".intercalate (items.mapIdx fun k i => i.print (spacing k)) ++ "):" ++
    body

/-! ## The header -/

/-- The characters of a header with these items. -/
def headerChars (name : String) (ts : List String) : List Char :=
  'd' :: 'e' :: 'f' :: ' ' :: (name.toList ++ '(' :: (listText ts ++ [')', ':']))

/-- The text of a function is the characters of its header and then its body. -/
theorem toList_printFunction (name : String) (items : List Item) (spacing : Nat → Spacing)
    (body : String) : (printFunction name items spacing body).toList =
      headerChars name (items.mapIdx fun k i => i.print (spacing k)) ++ body.toList := by
  simp [printFunction, headerChars, listText, String.toList_intercalate]

/-- Items that can be printed are printed by their texts, each with its own spacing. -/
theorem isPrinted_mapIdx {items : List Item} (h : ∀ i ∈ items, i.Printable)
    (spacing : Nat → Spacing) :
    List.Forall₂ Item.IsPrinted items (items.mapIdx fun k i => i.print (spacing k)) := by
  induction items generalizing spacing with
  | nil => exact .nil
  | cons i items ih =>
    obtain ⟨hi, hitems⟩ := List.forall_mem_cons.mp h
    rw [List.mapIdx_cons]
    exact .cons ⟨hi, spacing 0, rfl⟩ (ih hitems fun k => spacing (k + 1))

/-- One blank stands before the name. -/
theorem reads_inlineSpaces {β : Type} {add : β → Node Rule → Except ReadError β} {a : β}
    (hu : Avoids gapSigns u) : Reads add (plus inlineSpace) (' ' :: u) u a a := by
  obtain ⟨c, hc, t, rfl⟩ := hu
  have hpeek : (star inlineSpace).peek c = some true := by
    simp only [gapSigns, lineEnds, List.mem_cons, List.not_mem_nil, or_false, not_or] at hc
    obtain ⟨h₁, h₂, h₃, -⟩ := hc
    simp [inlineSpace, continuation, oneOf, chr, peek, h₁, h₂, h₃]
  have hfirst : Reads add inlineSpace (' ' :: c :: t) (c :: t) a a :=
    ⟨.char ' ' .nil, rfl, fun _ => rfl⟩
  exact hfirst.seq (reads_of_peek hpeek t)

/-- The name of a function reads back before the parenthesis. -/
theorem reads_functionName (hname : isName name.toList = true) (hu : StartsIn ['('] u) :
    Reads FunctionDef.addHeaderNode functionName (name.toList ++ u) u d { d with name } := by
  have hidentifier : restOf identifier.run (name.toList ++ u) = some u := by
    rw [identifier, restOf_node]
    exact restOf_identifierText hname hu (by decide)
  refine reads_leaf hidentifier fun n hrule htext => ?_
  rw [FunctionDef.addHeaderNode, hrule, htext, String.ofList_toList]

/-- A header reads back as the name and what the items declare. -/
theorem reads_header (hname : isName name.toList = true) (h : List.Forall₂ Item.IsPrinted is ts)
    (body : List Char) :
    Reads FunctionDef.addHeaderNode (seq (star inlineSpace) headerText)
      (headerChars name ts ++ body) body d
      { d with name, parameters := Parameter.ofItems is } := by
  have hchars : headerChars name ts ++ body = 'd' :: 'e' :: 'f' :: ' ' :: (name.toList ++
      '(' :: (listText ts ++ ')' :: ':' :: body)) := by
    simp [headerChars]
  rw [hchars]
  -- Behind the list there is only the colon.
  have hend : Reads FunctionDef.addHeaderNode
      (inOrder [star inlineSpace, optional returnHint, star inlineSpace, chr ':'])
      (':' :: body) body { d with name, parameters := Parameter.ofItems is } _ :=
    .seq (reads_of_peek (by decide) body) (.seq (reads_of_peek (by decide) body)
      (.seq (reads_of_peek (by decide) body) (reads_chr ':' body)))
  have hlist := (reads_parameters h { d with name } (':' :: body)).seq hend
  have hbehind : Reads FunctionDef.addHeaderNode _ _ body { d with name } _ :=
    .seq (p := star inlineSpace) (reads_of_peek (by decide) _) hlist
  have hnamed := (reads_functionName (d := d) hname ⟨'(', List.mem_cons_self, _, rfl⟩).seq hbehind
  have hspace := (reads_inlineSpaces (avoids_of_isName hname)).seq hnamed
  have hdef := Reads.seq (.seq (reads_chr 'd' _) (.seq (reads_chr 'e' _) (reads_chr 'f' _))) hspace
  exact .seq (reads_of_peek (by decide) _) (.seq (reads_of_peek (by decide) _) hdef)

/-! ## The header stands on one line -/

/-- No blank is a line feed. -/
theorem Blanks.not_mem_feed (b : Blanks) : '\n' ∉ b.chars :=
  fun h => absurd (b.mem _ h) (by decide)

/-- A part of an item is printed without a line feed. -/
theorem not_mem_feed_printPart {ends : List Char} {sign : Char} (hsign : '\n' ≠ sign)
    (before after : Blanks) {o : Option String} (ho : ∀ e ∈ o, IsExpression ends e) :
    '\n' ∉ printPart sign before after o := by
  cases o with
  | none => exact List.not_mem_nil
  | some e =>
    have he := (ho e rfl).pieces.not_mem_feed
    simp [printPart, hsign, before.not_mem_feed, after.not_mem_feed, he]

/-- A name has no line feed. -/
theorem not_mem_feed_of_isName {s : List Char} (h : isName s = true) : '\n' ∉ s :=
  not_mem_of_isName (by decide) (by decide) h

/-- A named item is printed without a line feed. -/
theorem WrittenParameter.Printable.not_mem_feed {w : WrittenParameter} (hw : w.Printable)
    (g : Spacing) : '\n' ∉ w.chars g := by
  have hhint := not_mem_feed_printPart (by decide : '\n' ≠ ':') g.beforeHint g.afterHint hw.hint
  have hdefault := not_mem_feed_printPart (by decide : '\n' ≠ '=') g.beforeDefault g.afterDefault
    hw.default
  simp [chars, not_mem_feed_of_isName hw.name, g.afterName.not_mem_feed, hhint, hdefault]

/-- An item is printed without a line feed. -/
theorem Item.IsPrinted.not_mem_feed {i : Item} {t : String} (h : i.IsPrinted t) :
    '\n' ∉ t.toList := by
  obtain ⟨hi, g, rfl⟩ := h
  rw [print, String.toList_ofList]
  cases i with
  | slash => simp [chars]
  | star => simp [chars]
  | plain w => exact WrittenParameter.Printable.not_mem_feed hi g
  | starred w | doubleStarred w => simp [chars, hi.1.not_mem_feed g]

/-- A list of items is printed without a line feed. -/
theorem not_mem_feed_listText (h : List.Forall₂ Item.IsPrinted is ts) : '\n' ∉ listText ts := by
  refine Text.not_mem_intercalate (by decide) (List.forall_mem_map.mpr ?_)
  induction h with
  | nil => exact List.forall_mem_nil _
  | cons hi _ ih => exact List.forall_mem_cons.mpr ⟨hi.not_mem_feed, ih⟩

/-- A header is printed without a line feed. -/
theorem not_mem_feed_headerChars (hname : isName name.toList = true)
    (h : List.Forall₂ Item.IsPrinted is ts) : '\n' ∉ headerChars name ts := by
  simp [headerChars, not_mem_feed_of_isName hname, not_mem_feed_listText h]

/-! ## The definition -/

/-- A text that starts with a header is divided there, and its nodes read back. -/
theorem exists_root_of_header (hname : isName name.toList = true)
    (h : List.Forall₂ Item.IsPrinted is ts) {source : String} {body : List Char}
    (hsource : source.toList = headerChars name ts ++ body) :
    ∃ n, root source = .ok n ∧ n.children.foldlM FunctionDef.addNode (.blank source) =
      .ok { FunctionDef.blank source with name, parameters := Parameter.ofItems is } := by
  obtain ⟨header, hrun, hnodes⟩ := reads_header (d := FunctionDef.blank source) hname h body
  rw [← hsource] at hrun
  have htext : source.toList = header.text ++ body := lossless_run _ _ _ _ hrun
  have hlead : leadPattern.run source.toList = some (.nil, header.text ++ body) := by
    rw [← htext, hsource]
    exact run_of_peek_true (by decide) _
  have hheader : defHeader.run (header.text ++ body) = some (.node .defHeader header .nil, body) := by
    rw [← htext]
    exact run_node.mpr ⟨header, hrun, rfl⟩
  let D : Division source.toList := ⟨.nil, header, body, hlead, hheader⟩
  refine ⟨D.root, root_eq_ok_iff.mpr ⟨D, rfl⟩, ?_⟩
  -- The header stands before the body and the end of the text, which change nothing.
  have hread : FunctionDef.addNode (.blank source) ⟨.defHeader, .origin, header⟩ =
      .ok { FunctionDef.blank source with name, parameters := Parameter.ofItems is } :=
    hnodes .origin
  rw [D.children_root]
  show List.foldlM FunctionDef.addNode (.blank source) (⟨.defHeader, .origin, header⟩ :: _) = _
  rw [List.foldlM_cons, hread]
  rfl

/-- **Parsing undoes printing.** A function with a parameter list in order, whose names, annotations
and default values can be told apart, is read as its name and its parameters, each with the kind of
its place, whatever blanks are printed and whatever its body is. -/
theorem parse_printFunction (a : Arrangement) (hitems : ∀ i ∈ a.items, i.Printable)
    (spacing : Nat → Spacing) {name : String} (hname : isName name.toList = true) (body : String) :
    FunctionDef.parse (printFunction name a.items spacing body) = .ok {
      name
      parameters := a.parameters
      isAsync := false
      decoratorLines := []
      defLine := 1
      source := Text.dedent (printFunction name a.items spacing body) } := by
  have hprinted := isPrinted_mapIdx hitems spacing
  -- The header starts in the first column, so only the body changes as the text is dedented.
  obtain ⟨rest, hrest⟩ := Text.exists_dedentChars_append (c := 'd') (by decide) (by decide)
    (not_mem_feed_headerChars hname hprinted) body.toList
  have hsource : (Text.dedent (printFunction name a.items spacing body)).toList =
      headerChars name (a.items.mapIdx fun k i => i.print (spacing k)) ++ rest := by
    rw [Text.dedent, String.toList_ofList, toList_printFunction]
    exact hrest
  obtain ⟨n, hroot, hread⟩ := exists_root_of_header hname hprinted hsource
  show (do let n ← root _; n.children.foldlM FunctionDef.addNode (.blank _)) = _
  rw [hroot, ← Parameter.ofItems_items]
  exact hread

/-- No blanks and a tab with a blank, by turns. -/
def alternating (k : Nat) : Spacing :=
  let b : Blanks := if k % 2 = 0 then ⟨[], by decide⟩ else ⟨['\t', ' '], by decide⟩
  ⟨b, b, b, b, b⟩

/-- A parameter with commas, equals signs and brackets in the strings and groups of its parts. -/
def nestedParameter : WrittenParameter :=
  ⟨"b_1", some "d[str, \"x=,#(\"]", some "[\x7b'k': (2, 3)\x7d, '']"⟩

/-- A list with items of all kinds but the bare star. -/
def nestedList : Arrangement where
  positionalOnly := [⟨"a", none, none⟩, nestedParameter]
  flexible := [⟨"c", none, some "a == b"⟩]
  starPart := .named ⟨"xs", some "f(x=1)", none⟩ [⟨"d", some "int | None", some "-1"⟩]
  last? := some ⟨"rest", none, none⟩

/-- The parameter with nested parts can be printed. -/
theorem printable_nestedParameter : nestedParameter.Printable := by
  refine ⟨by decide, ?_, ?_⟩
  · rintro _ ⟨⟩
    have hpieces : Pieces hintEnds (['d'] ++ '[' :: ((['s', 't', 'r', ',', ' '] ++
        '"' :: (['x', '=', ',', '#', '('] ++ '"' :: [])) ++ ']' :: [])) :=
      .plain_append (by decide) (.group rfl (.plain_append (by decide)
        (.literal (by decide) (by decide) (by simp [StartsNoLiteral]) .nil)) .nil)
    exact hpieces.isExpression (by decide) (by decide) (by decide)
  · rintro _ ⟨⟩
    have htuple : Pieces [] ([':', ' '] ++ '(' :: (['2', ',', ' ', '3'] ++ ')' :: [])) :=
      .plain_append (by decide) (.group rfl (.of_plain (by decide)) .nil)
    have hdict : Pieces [] ('\'' :: (['k'] ++ '\'' :: _)) :=
      .literal (by decide) (by decide) (by simp [StartsNoLiteral, quotes]) htuple
    have hempty : Pieces [] ([',', ' '] ++ '\'' :: ([] ++ '\'' :: [])) :=
      .plain_append (by decide)
        (.literal (by decide) (List.forall_mem_nil _) (by simp [StartsNoLiteral]) .nil)
    have hpieces : Pieces defaultEnds ('[' :: (('\x7b' :: (_ ++ '\x7d' :: _)) ++ ']' :: [])) :=
      .group rfl (.group rfl hdict hempty) .nil
    exact hpieces.isExpression (by decide) (by decide) (by decide)

/-- The items of the nested list can be printed. -/
theorem printable_nestedList : ∀ i ∈ nestedList.items, i.Printable := by
  -- The one expression that is not plain: its group has a sign that would end a hint.
  have hcall : Pieces hintEnds (['f'] ++ '(' :: (['x', '=', '1'] ++ ')' :: [])) :=
    .plain_append (by decide) (.group rfl (.of_plain (by decide)) .nil)
  have hnone : ∀ ends, ∀ e ∈ (none : Option String), IsExpression ends e := fun _ _ h => by
    simp at h
  have hname : ∀ name : String, isName name.toList = true →
      WrittenParameter.Printable ⟨name, none, none⟩ := fun _ h => ⟨h, hnone _, hnone _⟩
  have hc : WrittenParameter.Printable ⟨"c", none, some "a == b"⟩ := by
    refine ⟨by decide, hnone _, ?_⟩
    rintro _ ⟨⟩
    exact (Pieces.of_plain (by decide)).isExpression (by decide) (by decide) (by decide)
  have hxs : WrittenParameter.Printable ⟨"xs", some "f(x=1)", none⟩ := by
    refine ⟨by decide, ?_, hnone _⟩
    rintro _ ⟨⟩
    exact hcall.isExpression (by decide) (by decide) (by decide)
  have hd : WrittenParameter.Printable ⟨"d", some "int | None", some "-1"⟩ := by
    refine ⟨by decide, ?_, ?_⟩
    · rintro _ ⟨⟩
      exact (Pieces.of_plain (by decide)).isExpression (by decide) (by decide) (by decide)
    · rintro _ ⟨⟩
      exact (Pieces.of_plain (by decide)).isExpression (by decide) (by decide) (by decide)
  have hitems : nestedList.items = [.plain ⟨"a", none, none⟩, .plain nestedParameter, .slash,
      .plain ⟨"c", none, some "a == b"⟩, .starred ⟨"xs", some "f(x=1)", none⟩,
      .plain ⟨"d", some "int | None", some "-1"⟩, .doubleStarred ⟨"rest", none, none⟩] := rfl
  rw [hitems]
  simp only [List.forall_mem_cons]
  exact ⟨hname _ (by decide), printable_nestedParameter, trivial, hc, ⟨hxs, rfl⟩, hd,
    ⟨hname _ (by decide), rfl⟩, List.forall_mem_nil _⟩

/-- The text that is printed with this list. -/
def nestedText : String :=
  "def f(a, b_1\t :\t d[str, \"x=,#(\"]\t =\t [\x7b'k': (2, 3)\x7d, '']\t , /, " ++
    "c\t =\t a == b\t , *xs:f(x=1), d\t :\t int | None\t =\t -1\t , **rest): return a"

/-- A definition with these parameters is read as it was printed. -/
theorem parse_printFunction_of_nested : FunctionDef.parse nestedText = .ok {
    name := "f"
    parameters := nestedList.parameters
    isAsync := false
    decoratorLines := []
    defLine := 1
    source := nestedText } := by
  have hprint : printFunction "f" nestedList.items alternating " return a" = nestedText := by
    decide +kernel
  have hdedent : Text.dedent nestedText = nestedText := by decide +kernel
  have hparse := parse_printFunction nestedList printable_nestedList alternating
    (by decide : isName "f".toList = true) " return a"
  rwa [hprint, hdedent] at hparse

end UdfBridge.Source
