import UdfBridge.Proofs.Source.Placed
import UdfBridge.Proofs.Source.RemovalLead
import UdfBridge.Proofs.Text.Margin

/-!
# Raw and dedented source

`dedent` takes away one character after the other, each at the start of a line and each of them one
that does not count (`Removal`). So a text and the same text without its margin are read alike up to
the body (`reading_dedent`): the one is a definition if the other one is, with the same decorators,
names, parameters and lines (`dedent_reads_alike`).
-/

namespace UdfBridge.Source

open Grammar
open Grammar.Pattern
open Text (Position isIndent isLineEnd isBlankLine indentOf dedentLine dedentBy IndentedBy)

variable {a l s t u v : List Char} {n : Nat}

/-! ## Dedenting -/

/-- A line starts behind `a`. -/
def StartsLine (a : List Char) : Prop :=
  a = [] ∨ ∃ b, a = b ++ ['\n']

/-- A character at the start of a line does not count if it can be taken away. -/
theorem reading_removal (x : Removal) (ha : StartsLine a) :
    reading (a ++ x.char :: x.rest) = reading (a ++ x.rest) := by
  have hhere : x.Near (x.char :: x.rest) x.rest := .inr ⟨rfl, rfl⟩
  rcases ha with rfl | ⟨b, rfl⟩
  · exact reading_of_near hhere
  · rw [List.append_assoc, List.append_assoc]
    exact reading_of_near (Removal.ahead_append_feed hhere b).near

/-- Spaces and tabs at the start of a line do not count. -/
theorem reading_indent (ha : StartsLine a) (hv : ∀ c ∈ v, isIndent c = true) (u : List Char) :
    reading (a ++ (v ++ u)) = reading (a ++ u) := by
  induction v with
  | nil => rfl
  | cons c v ih =>
    obtain ⟨hc, hv⟩ := List.forall_mem_cons.mp hv
    exact (reading_removal ⟨c, v ++ u, .inl hc⟩ ha).trans (ih hv)

/-- Behind its indentation a blank line ends. -/
theorem atEnd_dropWhile_indent (hv : isBlankLine v = true) (hu : AtEnd u) :
    AtEnd ((v ++ u).dropWhile isIndent) := by
  induction v with
  | nil =>
    -- Nothing is left of the line but what stands behind it.
    cases u with
    | nil => exact hu
    | cons c u =>
      have hc : isIndent c = false :=
        (by decide : ∀ c ∈ lineEnds, isIndent c = false) c (hu c rfl)
      rw [List.nil_append, List.dropWhile_cons, hc]
      exact hu
  | cons c v ih =>
    obtain ⟨hc, hv⟩ : (isIndent c || isLineEnd c) = true ∧ isBlankLine v = true := by
      simpa [isBlankLine] using hv
    rw [List.cons_append, List.dropWhile_cons]
    split
    · exact ih hv
    · -- The first character that is no indentation ends the line, as all others of a blank line.
      rename_i hindent
      intro d hd
      obtain rfl := Option.some.inj hd
      simpa [hindent, isLineEnd, lineEnds, or_comm] using hc

/-- Of a list with an element that ends a run from behind, the first one is not in that run. -/
theorem rtakeWhile_cons {α : Type} {p : α → Bool} {c : α} {v : List α}
    (h : ∃ d ∈ c :: v, p d = false) : (c :: v).rtakeWhile p = v.rtakeWhile p := by
  induction v using List.reverseRecOn with
  | nil =>
    obtain ⟨d, hd, hp⟩ := h
    obtain rfl := List.mem_singleton.mp hd
    exact List.rtakeWhile_concat_neg p [] d (by simp [hp])
  | append_singleton v d ih =>
    rw [← List.cons_append, List.rtakeWhile_concat, List.rtakeWhile_concat]
    split
    · rename_i hd
      obtain ⟨e, he, hp⟩ := h
      rw [← List.cons_append, List.mem_append, List.mem_singleton] at he
      rcases he with he | rfl
      · rw [ih ⟨e, he, hp⟩]
      · simp [hp] at hd
    · rfl

/-- What stands before the end of a blank line does not count. -/
theorem reading_blankLine (ha : StartsLine a) (hblank : isBlankLine v = true) (hv : '\n' ∉ v)
    (hu : AtEnd u) : reading (a ++ (v ++ u)) = reading (a ++ (v.rtakeWhile isLineEnd ++ u)) := by
  induction v with
  | nil => rfl
  | cons c v ih =>
    by_cases hends : ∀ d ∈ c :: v, isLineEnd d = true
    · -- If only line ends are left, nothing is taken away.
      rw [List.rtakeWhile_eq_self_iff.mpr hends]
    · push Not at hends
      obtain ⟨d, hd, hcontent⟩ := hends
      have hcontent : isLineEnd d = false := by simpa using hcontent
      obtain ⟨hc, hblank⟩ : (isIndent c || isLineEnd c) = true ∧ isBlankLine v = true := by
        simpa [isBlankLine] using hblank
      rw [List.mem_cons, not_or] at hv
      have hremovable : isIndent c = true ∨ (c = '\r' ∧ (v ++ u).head? ≠ some '\n' ∧
          AtEnd ((v ++ u).dropWhile isIndent)) := by
        cases hindent : isIndent c with
        | true => exact .inl rfl
        | false =>
          -- A carriage return has an indentation behind it, or it would belong to the line ending.
          have hreturn : c = '\r' := by simpa [hindent, isLineEnd, Ne.symm hv.1] using hc
          have hne : v ≠ [] := by
            rintro rfl
            rw [List.mem_singleton.mp hd, hreturn] at hcontent
            simp [isLineEnd] at hcontent
          obtain ⟨e, v, rfl⟩ := List.exists_cons_of_ne_nil hne
          refine .inr ⟨hreturn, fun hfeed => hv.2 ?_, atEnd_dropWhile_indent hblank hu⟩
          rw [Option.some.inj hfeed]
          exact List.mem_cons_self
      rw [rtakeWhile_cons ⟨d, hd, hcontent⟩, ← ih hblank hv.2]
      exact reading_removal ⟨c, v ++ u, hremovable⟩ ha

/-- What is taken away from a line does not count; `e` is the line feed that ends it, if there is
one. -/
theorem reading_dedentLine (ha : StartsLine a) {e : List Char} (he : e = ['\n'] ∨ e = [] ∧ u = [])
    (hv : '\n' ∉ v) (hindent : isBlankLine (v ++ e) = false → n ≤ (indentOf (v ++ e)).length) :
    reading (a ++ (v ++ e ++ u)) = reading (a ++ (dedentLine n (v ++ e) ++ u)) := by
  cases hblank : isBlankLine (v ++ e) with
  -- A blank line keeps its ending, whether a line feed is part of it or not.
  | true =>
    have hdedent : dedentLine n (v ++ e) = v.rtakeWhile isLineEnd ++ e := by
      rw [Text.dedentLine_of_blank hblank]
      rcases he with rfl | ⟨rfl, -⟩
      · exact List.rtakeWhile_concat_pos isLineEnd v '\n' rfl
      · rw [List.append_nil, List.append_nil]
        rfl
    have hend : AtEnd (e ++ u) := by
      rcases he with rfl | ⟨rfl, rfl⟩
      · intro c hc
        rw [← Option.some.inj hc]
        decide
      · exact fun c hc => by simp at hc
    have hblank : isBlankLine v = true := by
      unfold isBlankLine at hblank ⊢
      rw [List.all_append] at hblank
      exact (Bool.and_eq_true_iff.mp hblank).1
    rw [hdedent, List.append_assoc, List.append_assoc]
    exact reading_blankLine ha hblank hv hend
  | false =>
    -- What is taken off a line with content is a part of its indentation.
    have htake : ∀ c ∈ (v ++ e).take n, isIndent c = true := by
      intro c hc
      have hpre : (v ++ e).take n <+: indentOf (v ++ e) :=
        List.prefix_of_prefix_length_le (List.take_prefix n _) (List.takeWhile_prefix isIndent)
          ((List.length_take_le n _).trans (hindent hblank))
      exact List.mem_takeWhile_imp (hpre.subset hc)
    rw [Text.dedentLine_of_content hblank]
    conv_lhs => rw [← List.take_append_drop n (v ++ e), List.append_assoc]
    exact reading_indent ha htake _

/-- A text is read up to its body as it is when it is dedented. The induction is on the lines. -/
theorem reading_dedentBy (ha : StartsLine a) (hs : IndentedBy n s) :
    reading (a ++ s) = reading (a ++ dedentBy n s) := by
  induction s using Text.lines_induction generalizing a with
  | nil => rfl
  | last s hne hmem =>
    have hline : isBlankLine s = false → n ≤ (indentOf s).length :=
      hs s (by rw [Text.lines_of_not_mem hne hmem]; exact List.mem_singleton_self s)
    have hread := reading_dedentLine (u := []) (v := s) (n := n) ha (.inr ⟨rfl, rfl⟩) hmem
      (by rwa [List.append_nil])
    rw [Text.dedentBy_of_not_mem hne hmem]
    simpa using hread
  | line b s hb ih =>
    obtain ⟨hline, hs⟩ := hs.of_feed hb
    have hread := reading_dedentLine (u := s) ha (.inl rfl) hb hline
    -- Behind a dedented line the next one starts.
    have hfeed : StartsLine (a ++ dedentLine n (b ++ ['\n'])) := by
      obtain ⟨c, -, hc⟩ := Text.exists_dedentLine_feed hb hline
      exact .inr ⟨a ++ c, by rw [hc, List.append_assoc]⟩
    calc reading (a ++ (b ++ '\n' :: s))
      _ = reading (a ++ (b ++ ['\n'] ++ s)) := by simp
      _ = reading (a ++ dedentLine n (b ++ ['\n']) ++ s) := by rw [hread, List.append_assoc]
      _ = reading (a ++ dedentLine n (b ++ ['\n']) ++ dedentBy n s) := ih hfeed hs
      _ = reading (a ++ dedentBy n (b ++ '\n' :: s)) := by
        rw [Text.dedentBy_append_feed hb, List.append_assoc]

/-- The margin of a text does not count for what is read up to the body. -/
theorem reading_dedent (t : String) : reading (Text.dedent t).toList = reading t.toList := by
  have hread := reading_dedentBy (a := []) (.inl rfl) (Text.indentedBy_margin t.toList)
  rw [Text.dedent, String.toList_ofList, Text.dedentChars_eq]
  exact hread.symm

/-! ## Definitions -/

/-- A definition is read up to its body. -/
theorem reading_of_division (d : Division s) : reading s =
    some (outline d.lead, outline (.node .defHeader d.header .nil), d.lead.text.count '\n') := by
  rw [reading, d.run_lead]
  simp only [Option.bind_some, d.run_header, Option.map_some]

/-- What is read up to the body is a definition. -/
theorem nonempty_division_of_reading {m : Forest Rule × Forest Rule × Nat}
    (h : reading s = some m) : Nonempty (Division s) := by
  obtain ⟨⟨f, r⟩, hlead, h⟩ := Option.bind_eq_some_iff.mp h
  obtain ⟨⟨g, b⟩, hheader, -⟩ := Option.map_eq_some_iff.mp h
  obtain ⟨header, -, rfl⟩ := run_node.mp hheader
  obtain rfl : r = header.text ++ b := by
    simpa [Forest.text] using lossless_run defHeader _ _ _ hheader
  exact ⟨⟨f, header, b, hlead, hheader⟩⟩

/-- A text is a definition exactly if it is read up to its body. -/
theorem exists_root_iff (text : String) :
    (∃ n, root text = .ok n) ↔ ∃ m, reading text.toList = some m := by
  constructor
  · rintro ⟨n, hn⟩
    obtain ⟨d, -⟩ := root_eq_ok_iff.mp hn
    exact ⟨_, reading_of_division d⟩
  · rintro ⟨m, hm⟩
    obtain ⟨d⟩ := nonempty_division_of_reading hm
    exact ⟨d.root, root_eq_ok_iff.mpr ⟨d, rfl⟩⟩

/-- The grammar accepts a text exactly if there is a tree. -/
theorem isSome_parse?_iff (text : String) :
    (parse? .source text).isSome = true ↔ ∃ n, root text = .ok n := by
  constructor
  · intro h
    obtain ⟨ns, hns⟩ := Option.isSome_iff_exists.mp h
    obtain ⟨⟨f, r⟩, hrun, -⟩ := Option.map_eq_some_iff.mp hns
    obtain ⟨d, -⟩ := exists_division hrun
    exact ⟨d.root, root_eq_ok_iff.mpr ⟨d, rfl⟩⟩
  · rintro ⟨n, hn⟩
    unfold root at hn
    cases hparse : parse? .source text with
    | none => simp [hparse] at hn
    | some ns => rfl

/-- The decorators are left out of every definition. -/
theorem exists_stripDecorators_iff (text : String) :
    (∃ s, stripDecorators text = .ok s) ↔ ∃ n, root text = .ok n := by
  constructor
  · rintro ⟨s, hs⟩
    obtain ⟨n, hn, -⟩ := bind_eq_ok.mp hs
    exact ⟨n, hn⟩
  · rintro ⟨n, hn⟩
    obtain ⟨d, -⟩ := root_eq_ok_iff.mp hn
    exact ⟨_, stripDecorators_eq d⟩

/-- A text is read exactly if it is a definition as it stands. -/
theorem FunctionDef.exists_parse_iff_root (text : String) :
    (∃ f, parse text = .ok f) ↔ ∃ n, root text = .ok n := by
  rw [exists_parse_iff, exists_root_iff, exists_root_iff, reading_dedent]

/-- What two trees have in common if their texts only differ in what does not count: the number of
decorators, the one header with its line, its name and its word for a coroutine, and the items of its
list with their names. -/
structure ReadAlike (n m : Node Rule) : Prop where
  decorators : (textsOf .decorator m).length = (textsOf .decorator n).length
  header : ∃ h k, n.children.filter (·.rule = Rule.defHeader) = [h] ∧
    m.children.filter (·.rule = Rule.defHeader) = [k] ∧ k.start.line = h.start.line ∧
    (∃ name, textsOf .functionName h = [name] ∧ textsOf .functionName k = [name]) ∧
    textsOf .asyncKeyword k = textsOf .asyncKeyword h
  items : (itemNodes m).map (fun i => (i.rule, textsOf .identifier i)) =
    (itemNodes n).map fun i => (i.rule, textsOf .identifier i)

/-- Nodes with one outline have the same words. -/
theorem SameOutline.textsOf_eq {n m : Node Rule} (h : SameOutline n m) {rule : Rule}
    (hrule : rule ∈ wordRules) : textsOf rule m = textsOf rule n :=
  (map_text_filter_rule hrule h.children).symm

/-- The nodes inside nodes with one outline have one outline. -/
theorem forall₂_inside {ns ms : List (Node Rule)} (rule : Rule)
    (h : List.Forall₂ SameOutline ns ms) :
    List.Forall₂ SameOutline (inside rule ns) (inside rule ms) :=
  List.rel_flatMap (forall₂_filter_rule rule h) fun _ _ hnm => hnm.children

/-- Words in nodes with one outline are the same. -/
theorem map_words {ns ms : List (Node Rule)} (h : List.Forall₂ SameOutline ns ms) {rule : Rule}
    (hrule : rule ∈ wordRules) : (ms.map fun i => (i.rule, textsOf rule i)) =
      ns.map fun i => (i.rule, textsOf rule i) := by
  induction h with
  | nil => rfl
  | cons hnm _ ih => rw [List.map_cons, List.map_cons, ih, hnm.rule, hnm.textsOf_eq hrule]

/-- A header has one name. -/
theorem Heading.texts_functionName {header : Forest Rule} (H : Heading header) (p : Position) :
    textsOf .functionName ⟨.defHeader, p, header⟩ = [.ofList H.name.text] := by
  have hbefore : Rule.functionName ∉ H.before.topRules := fun h =>
    absurd (H.rules_before h) (by decide)
  have hafter : Rule.functionName ∉ H.after.topRules := fun h =>
    absurd (H.rules_after h) (by decide)
  rw [textsOf, Node.children, H.nodes_eq, List.filter_append, filter_rule_eq_nil hbefore,
    List.nil_append]
  simp only [List.filter_cons, reduceCtorEq, decide_false, decide_true, if_true,
    filter_rule_eq_nil hafter]
  rfl

/-- Texts that are read alike have trees with one outline. -/
theorem sameOutline_root {d : Division s} {e : Division t} (h : reading s = reading t) :
    SameOutline d.root e.root ∧ e.headerStart.line = d.headerStart.line := by
  rw [reading_of_division d, reading_of_division e, Option.some.injEq, Prod.mk.injEq,
    Prod.mk.injEq] at h
  obtain ⟨hlead, hheader, hlines⟩ := h
  refine ⟨⟨rfl, fun h => absurd h (by decide : Rule.source ∉ wordRules), ?_⟩, ?_⟩
  · have hbody : ∀ body : List Char,
        outline (.node .body (plainForest body) (.node .endOfInput .nil .nil)) =
          .node .body .nil (.node .endOfInput .nil .nil) := fun body => by
      rw [outline, outline_plainForest]
      rfl
    have htail : ∀ {s} (d : Division s), d.tail = .node .defHeader d.header .nil ++
        .node .body (plainForest d.body) (.node .endOfInput .nil .nil) := fun _ => rfl
    show outline (e.lead ++ e.tail) = outline (d.lead ++ d.tail)
    rw [outline_append, outline_append, htail, htail, outline_append, outline_append, hlead,
      hheader, hbody, hbody]
  · rw [d.line_headerStart, e.line_headerStart, hlines]

/-- Texts that are read alike have the same in their trees. -/
theorem readAlike_root {d : Division s} {e : Division t} (h : reading s = reading t) :
    ReadAlike d.root e.root := by
  obtain ⟨hroot, hline⟩ := sameOutline_root (d := d) (e := e) h
  refine ⟨?_, ?_, ?_⟩
  · rw [textsOf, textsOf, List.length_map, List.length_map]
    exact (forall₂_filter_rule .decorator hroot.children).length_eq.symm
  · obtain ⟨H⟩ := exists_heading d.run_header
    have hheaders := forall₂_filter_rule .defHeader hroot.children
    rw [d.filter_defHeader, e.filter_defHeader, List.forall₂_cons] at hheaders
    have hname := H.texts_functionName d.headerStart
    exact ⟨_, _, d.filter_defHeader, e.filter_defHeader, hline,
      ⟨_, hname, (hheaders.1.textsOf_eq (by decide)).trans hname⟩, hheaders.1.textsOf_eq (by decide)⟩
  · exact map_words (forall₂_inside .parameters (forall₂_inside .defHeader hroot.children))
      (by decide)

/-- **Raw and dedented source are read alike.** The grammar accepts a text exactly if it accepts the
text without its margin. So decorators can be left out of a text exactly if it can be read. The trees
have the same number of decorators, one header each, on the same line and with the same name and the
same word for a coroutine, and the same items with the same names. -/
theorem dedent_reads_alike (t : String) :
    ((parse? .source t).isSome = true ↔ (parse? .source (Text.dedent t)).isSome = true) ∧
    ((∃ s, stripDecorators t = .ok s) ↔ ∃ f, FunctionDef.parse t = .ok f) ∧
    ∀ n m, root t = .ok n → root (Text.dedent t) = .ok m → ReadAlike n m := by
  have hread := reading_dedent t
  have hroot : (∃ n, root t = .ok n) ↔ ∃ m, root (Text.dedent t) = .ok m := by
    rw [exists_root_iff, exists_root_iff, hread]
  refine ⟨?_, ?_, ?_⟩
  · rw [isSome_parse?_iff, isSome_parse?_iff]
    exact hroot
  · rw [exists_stripDecorators_iff, FunctionDef.exists_parse_iff]
    exact hroot
  · intro n m hn hm
    obtain ⟨d, rfl⟩ := root_eq_ok_iff.mp hn
    obtain ⟨e, rfl⟩ := root_eq_ok_iff.mp hm
    exact readAlike_root hread.symm

/-- An indented definition. Its margin stands in brackets, in a string and behind a backslash too, and
a blank line has a carriage return before its spaces. -/
def marginInside : String :=
  "  @a(\'\'\'b\n  c\'\'\', [\n  d]) \\\n  .e # f\n\r \r\n  async def g(x=(1,\n  2), /, *, y): pass\n"

/-- Without its margin the definition is another text, with the same in its tree. -/
theorem dedent_reads_alike_inside : ∃ n m,
    Text.dedent marginInside =
      "@a(\'\'\'b\nc\'\'\', [\nd]) \\\n.e # f\n\r\nasync def g(x=(1,\n2), /, *, y): pass\n" ∧
    root marginInside = .ok n ∧ root (Text.dedent marginInside) = .ok m ∧ ReadAlike n m ∧
      (∃ s, stripDecorators marginInside = .ok s) ∧
      ∃ f, FunctionDef.parse marginInside = .ok f := by
  obtain ⟨n, hn, -⟩ : ∃ n, root marginInside = .ok n ∧ n.rule = .source := by
    rw [marginInside, root_ofList]
    exact exists_eq_ok (by decide +kernel)
  obtain ⟨haccepts, hparse, halike⟩ := dedent_reads_alike marginInside
  obtain ⟨m, hm⟩ := (isSome_parse?_iff _).mp (haccepts.mp ((isSome_parse?_iff _).mpr ⟨_, hn⟩))
  have hstrip := (exists_stripDecorators_iff marginInside).mpr ⟨_, hn⟩
  refine ⟨_, m, ?_, hn, hm, halike _ _ hn hm, hstrip, hparse.mp hstrip⟩
  rw [marginInside, Text.dedent, String.toList_ofList]
  decide +kernel

end UdfBridge.Source
