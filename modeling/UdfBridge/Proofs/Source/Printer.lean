import UdfBridge.Proofs.Source.Expression
import UdfBridge.Proofs.Source.Reading
import UdfBridge.Proofs.Text.Apart

/-!
# Printed parameter lists

An item of a parameter list is printed with any blanks around its signs (`Item.print`). Its
annotation and its default value are taken as they are, so they have to be expressions that end where
the next part of the item starts, and that blanks around them are no part of (`Printable`).

What is printed reads back: every part of an item (`reads_part`), every item
(`reads_parameterItem`), and the list of them between its parentheses (`reads_parameters`).
-/

namespace UdfBridge.Source

open Grammar
open Grammar.Pattern
open Text (behindFirst)

/-! ## Printing -/

/-- Spaces and tabs. -/
structure Blanks where
  /-- The characters. -/
  chars : List Char
  mem : ∀ c ∈ chars, c ∈ [' ', '\t']

/-- The blanks in a printed item. -/
structure Spacing where
  /-- The blanks behind the name. -/
  afterName : Blanks
  /-- The blanks between the colon and the annotation. -/
  beforeHint : Blanks
  /-- The blanks behind the annotation. -/
  afterHint : Blanks
  /-- The blanks between the equals sign and the default value. -/
  beforeDefault : Blanks
  /-- The blanks behind the default value. -/
  afterDefault : Blanks

/-- A part of an item behind its sign, if there is one. -/
def printPart (sign : Char) (before after : Blanks) : Option String → List Char
  | none => []
  | some e => sign :: (before.chars ++ (e.toList ++ after.chars))

/-- A named item without its stars. -/
def WrittenParameter.chars (g : Spacing) (p : WrittenParameter) : List Char :=
  p.name.toList ++ (g.afterName.chars ++ (printPart ':' g.beforeHint g.afterHint p.hint? ++
    printPart '=' g.beforeDefault g.afterDefault p.default?))

/-- The characters of an item. -/
def Item.chars (g : Spacing) : Item → List Char
  | slash => ['/']
  | star => ['*']
  | plain p => p.chars g
  | starred p => '*' :: p.chars g
  | doubleStarred p => '*' :: '*' :: p.chars g

/-- The text of an item. -/
def Item.print (g : Spacing) (i : Item) : String :=
  .ofList (i.chars g)

/-- The characters that end an annotation. -/
def hintEnds : List Char := [',', '=']

/-- The characters that end a default value. -/
def defaultEnds : List Char := [',']

/-- A named item of which all parts can be told apart when it is printed. -/
structure WrittenParameter.Printable (p : WrittenParameter) : Prop where
  name : isName p.name.toList = true
  hint : ∀ e ∈ p.hint?, IsExpression hintEnds e
  default : ∀ e ∈ p.default?, IsExpression defaultEnds e

/-- An item that can be printed; one with stars has no default value. -/
def Item.Printable : Item → Prop
  | slash | star => True
  | plain p => p.Printable
  | starred p | doubleStarred p => p.Printable ∧ p.default? = none

/-! ## Parts of items -/

variable {β : Type} {add : β → Node Rule → Except ReadError β} {a b : β} {u r : List Char}
  {cs ends : List Char} {sign : Char} {before after : Blanks} {o : Option String}
  {w : WrittenParameter} {g : Spacing}

/-- Behind blanks a text starts with a blank, or as it did. -/
theorem Blanks.startsIn_append (b : Blanks) (h : StartsIn cs u) :
    StartsIn (' ' :: '\t' :: cs) (b.chars ++ u) := by
  cases hb : b.chars with
  | nil => exact h.mono (by simp)
  | cons c t =>
    have hc : c ∈ [' ', '\t'] := b.mem c (by rw [hb]; exact List.mem_cons_self)
    exact ⟨c, List.mem_append_left cs hc, t ++ u, rfl⟩

/-- Behind a part that may be left out a text starts with the sign of the part, or as it did. -/
theorem startsIn_printPart (h : StartsIn cs u) :
    StartsIn (sign :: cs) (printPart sign before after o ++ u) := by
  cases o with
  | none => exact h.mono (List.subset_cons_self _ _)
  | some e => exact ⟨sign, List.mem_cons_self, _, rfl⟩

/-- An expression does not start with a blank between items. -/
theorem IsExpression.avoids {e : String} (h : IsExpression ends e) :
    Avoids gapSigns (e.toList ++ u) := by
  obtain ⟨c, s, hstart⟩ := List.exists_cons_of_ne_nil h.ne_nil
  have hpieces := h.pieces
  have hhead := h.head
  rw [hstart] at hpieces hhead ⊢
  have hblank : Text.isBlank c = false := hhead c rfl
  refine ⟨c, fun hmem => ?_, s ++ u, rfl⟩
  rcases List.mem_append.mp (show c ∈ [' ', '\t'] ++ '\\' :: '#' :: lineEnds from hmem) with hc | hc
  · -- Spaces and tabs are white space, with which no expression starts.
    rw [(by decide : ∀ c ∈ [' ', '\t'], Text.isBlank c = true) c hc] at hblank
    simp at hblank
  · exact hpieces.head_not_mem hc

/-- Blanks are pieces of an expression. -/
theorem Blanks.pieces (b : Blanks) (hends : ∀ c ∈ [' ', '\t'], c ∉ ends) : Pieces ends b.chars := by
  have hsigns : ∀ c ∈ [' ', '\t'], c ∉ signs := by decide
  exact .of_plain fun c hc => ⟨hends c (b.mem c hc), hsigns c (b.mem c hc)⟩

/-- A part that may be left out reads back as the text behind its sign, or as nothing. -/
theorem reads_part {rule : Rule} (ho : ∀ e ∈ o, IsExpression ends e)
    (hends : ∀ c ∈ [' ', '\t'], c ∉ ends) (hcs : ∀ c ∈ cs, c ≠ sign ∧ c ∈ notPlain ends ∧ c ∉ openers)
    (hr : StartsIn cs r) (hnone : o = none → a = b)
    (hsome : ∀ e, o = some e → ∀ n : Node Rule, n.rule = rule → Text.trim n.text = e →
      add a n = .ok b) :
    Reads add (optional (inOrder [chr sign, star gap, node rule (plus (exprPiece ends))]))
      (printPart sign before after o ++ r) r a b := by
  cases o with
  | none =>
    -- Without the part, its sign does not stand there.
    obtain ⟨c, hc, t, rfl⟩ := hr
    have hrefused : (inOrder [chr sign, star gap, node rule (plus (exprPiece ends))]).peek c =
        some false := by
      simp [inOrder, peek, chr, (hcs c hc).1]
    rw [hnone rfl]
    exact .orElse_right (run_of_peek_false hrefused t) ⟨.nil, rfl, fun _ => rfl⟩
  | some e =>
    have he := ho e rfl
    obtain ⟨c, hc, t, rfl⟩ := hr
    obtain ⟨-, hstop, hopen⟩ := hcs c hc
    -- The expression is recognised with the blanks behind it, which `trim` takes away.
    have hpieces : Pieces ends (e.toList ++ after.chars) := by
      refine he.pieces.append (after.pieces hends) fun c hc => ?_
      exact (by decide : ∀ c ∈ [' ', '\t'], c ∉ quotes) c (after.mem c (List.mem_of_mem_head? hc))
    have hblank : ∀ c ∈ after.chars, Text.isBlank c = true := fun c hc =>
      (by decide : ∀ c ∈ [' ', '\t'], Text.isBlank c = true) c (after.mem c hc)
    have hexpr : Reads add (node rule (plus (exprPiece ends)))
        ((e.toList ++ after.chars) ++ c :: t) (c :: t) a b := by
      refine reads_leaf (restOf_expr hpieces ?_ hstop hopen t) fun n hrule htext => ?_
      · exact List.append_ne_nil_of_left_ne_nil he.ne_nil _
      · exact hsome e rfl n hrule (by rw [htext, he.trim_append hblank])
    rw [List.append_assoc] at hexpr
    rw [printPart, List.cons_append, List.append_assoc, List.append_assoc]
    exact ((reads_chr sign _).seq ((reads_gaps before.mem he.avoids).seq hexpr)).orElse_left

/-! ## Items -/

/-- What is printed of a named item starts with its name. -/
theorem WrittenParameter.Printable.exists_start (hw : w.Printable) (g : Spacing) :
    ∃ c t, w.chars g = c :: t ∧ startsIdentifier c = true := by
  obtain ⟨c, t, hname, hc⟩ := exists_start_of_isName hw.name
  exact ⟨c, _, by rw [chars, hname]; rfl, hc⟩

/-- The parameter of which only the name is known. -/
def WrittenParameter.ofName (name : String) : WrittenParameter := ⟨name, none, none⟩

/-- A name reads back before a character that is none of names. -/
theorem reads_identifier {name : String} (hname : isName name.toList = true) (hu : StartsIn cs u)
    (hcs : ∀ c ∈ cs, Text.isXidContinue c = false) :
    Reads WrittenParameter.addNode identifier (name.toList ++ u) u (.ofName "") (.ofName name) := by
  refine reads_leaf (restOf_identifierText hname hu hcs) fun n hrule htext => ?_
  rw [WrittenParameter.addNode, hrule, htext, String.ofList_toList]
  rfl

/-- The annotation of a parameter reads back, or the lack of one. -/
theorem reads_hint (hw : w.Printable) (hr : StartsIn ['=', ',', ')'] r) :
    Reads WrittenParameter.addNode (optional hint)
      (printPart ':' g.beforeHint g.afterHint w.hint? ++ r) r (.ofName w.name)
      ⟨w.name, w.hint?, none⟩ := by
  refine reads_part hw.hint (by decide) (by decide) hr (fun hnone => ?_) fun e hsome n hrule htrim => ?_
  · rw [hnone]
    rfl
  · rw [WrittenParameter.addNode, hrule, htrim, hsome]
    rfl

/-- The default value of a parameter reads back, or the lack of one. -/
theorem reads_defaultValue (hw : w.Printable) (hr : StartsIn [',', ')'] r) :
    Reads WrittenParameter.addNode (optional defaultValue)
      (printPart '=' g.beforeDefault g.afterDefault w.default? ++ r) r ⟨w.name, w.hint?, none⟩
      w := by
  refine reads_part hw.default (by decide) (by decide) hr (fun hnone => ?_)
    fun e hsome n hrule htrim => ?_
  · rw [← hnone]
  · rw [WrittenParameter.addNode, hrule, htrim, ← hsome]

/-- The name of an item and the blanks behind it. -/
theorem reads_name {q : Pattern Rule} {name : String} (hname : isName name.toList = true)
    (b : Blanks) (hu : StartsIn [':', '=', ',', ')'] u)
    (hq : Reads WrittenParameter.addNode q u r (.ofName name) w) :
    Reads WrittenParameter.addNode (seq identifier (seq (star gap) q))
      (name.toList ++ (b.chars ++ u)) r (.ofName "") w := by
  have hblanks : StartsIn (' ' :: '\t' :: [':', '=', ',', ')']) (b.chars ++ u) :=
    b.startsIn_append hu
  exact (reads_identifier hname hblanks (by decide)).seq
    ((reads_gaps b.mem (avoids_of_startsIn hu (by decide))).seq hq)

/-- A plain parameter reads back. -/
theorem reads_plain (hw : w.Printable) (hr : StartsIn [',', ')'] r) :
    Reads WrittenParameter.addNode
      (inOrder [identifier, star gap, optional hint, star gap, optional defaultValue])
      (w.chars g ++ r) r (.ofName "") w := by
  have hdefault : StartsIn ['=', ',', ')']
      (printPart '=' g.beforeDefault g.afterDefault w.default? ++ r) := startsIn_printPart hr
  have hgaps : Reads WrittenParameter.addNode (star gap) _ _ ⟨w.name, w.hint?, none⟩ _ :=
    reads_no_gaps (avoids_of_startsIn hdefault (by decide))
  rw [WrittenParameter.chars, List.append_assoc, List.append_assoc, List.append_assoc]
  exact reads_name hw.name g.afterName (startsIn_printPart hdefault)
    ((reads_hint hw hdefault).seq (hgaps.seq (reads_defaultValue hw hr)))

/-- A parameter with stars reads back, for it has no default value. -/
theorem reads_behindStars (hw : w.Printable) (hnone : w.default? = none)
    (hr : StartsIn [',', ')'] r) :
    Reads WrittenParameter.addNode behindStars (w.chars g ++ r) r (.ofName "") w := by
  have hr' : StartsIn ['=', ',', ')'] r := hr.mono (by decide)
  -- Behind the annotation the parameter is complete.
  have hsame : (⟨w.name, w.hint?, none⟩ : WrittenParameter) = w := by rw [← hnone]
  have hhint := reads_hint (g := g) hw hr'
  rw [hsame] at hhint
  rw [WrittenParameter.chars, hnone, printPart, List.append_nil, List.append_assoc,
    List.append_assoc]
  exact (reads_no_gaps (avoids_of_isName hw.name)).seq
    (reads_name hw.name g.afterName (startsIn_printPart hr') hhint)

/-- Takes the item of one node into account. -/
def addItem (items : List Item) (n : Node Rule) : Except ReadError (List Item) :=
  return items ++ [← Item.ofNode n]

/-- Reading items one by one is reading them all. -/
theorem foldlM_addItem (ns : List (Node Rule)) (items : List Item) :
    ns.foldlM addItem items = (items ++ ·) <$> ns.mapM Item.ofNode := by
  induction ns generalizing items with
  | nil => simp [pure, Except.pure, Functor.map, Except.map]
  | cons n ns ih =>
    rw [List.foldlM_cons, List.mapM_cons, addItem]
    cases Item.ofNode n with
    | error e => rfl
    | ok i =>
      show List.foldlM addItem (items ++ [i]) ns = _
      rw [ih]
      cases List.mapM Item.ofNode ns with
      | error e => rfl
      | ok is => simp [pure, Except.pure, Functor.map, Except.map, bind, Except.bind]

/-- A named item is read from the nodes inside its node. -/
theorem reads_item {p : Pattern Rule} {rule : Rule} {wrap : WrittenParameter → Item}
    (hrule : ∀ n : Node Rule, n.rule = rule →
      Item.ofNode n = wrap <$> WrittenParameter.ofNodes n.children) (items : List Item)
    (hp : Reads WrittenParameter.addNode p u r (.ofName "") w) :
    Reads addItem (node rule p) u r items (items ++ [wrap w]) := by
  refine hp.node fun n hn hnodes => ?_
  have hparameter : WrittenParameter.ofNodes n.children = .ok w := hnodes
  rw [addItem, hrule n hn, hparameter]
  rfl

/-- What starts an identifier is neither a star nor a slash. -/
theorem ne_of_startsIdentifier {c : Char} (hc : startsIdentifier c = true) : c ≠ '*' ∧ c ≠ '/' := by
  constructor
  · rintro rfl
    exact absurd hc (by decide)
  · rintro rfl
    exact absurd hc (by decide)

/-- The items that are no plain parameters. -/
def otherItems : List (Pattern Rule) :=
  [varKeyword, varPositional, keywordMarker, positionalMarker]

/-- A name starts none of the other items. -/
theorem peek_otherItems {c : Char} (hc : startsIdentifier c = true) :
    ∀ q ∈ otherItems, q.peek c = some false := by
  obtain ⟨hstar, hslash⟩ := ne_of_startsIdentifier hc
  simp [otherItems, varKeyword, varPositional, keywordMarker, positionalMarker, inOrder, word, peek,
    chr, hstar, hslash]

/-- An item reads back before a comma or the end of the list. -/
theorem reads_parameterItem {i : Item} (hi : i.Printable) (items : List Item)
    (hr : StartsIn [',', ')'] r) :
    Reads addItem parameterItem (i.chars g ++ r) r items (items ++ [i]) := by
  cases i with
  | slash => exact ⟨.node .positionalMarker (.char '/' .nil) .nil, rfl, fun start => rfl⟩
  | star =>
    -- No name stands behind the star.
    obtain ⟨c, hc, t, rfl⟩ := hr
    have hname : behindStars.run (c :: t) = none :=
      run_of_peek_false ((by decide :
        ∀ c ∈ [',', ')'], behindStars.peek c = some false) c hc) t
    have hpositional : varPositional.run ('*' :: c :: t) = none :=
      run_node_eq_none.mpr (run_chr_seq_eq_none hname)
    have hkeyword : varKeyword.run ('*' :: c :: t) = none :=
      run_varKeyword_eq_none ((by decide : ∀ c ∈ [',', ')'], c ≠ '*') c hc) t
    refine .orElse_right hkeyword (.orElse_right hpositional ?_)
    exact ⟨.node .keywordMarker (.char '*' .nil) .nil, rfl, fun start => rfl⟩
  | plain w =>
    obtain ⟨c, t, hstart, hc⟩ := WrittenParameter.Printable.exists_start hi g
    -- The name starts none of the items that are tried before.
    have hnone : ∀ q ∈ otherItems, q.run (w.chars g ++ r) = none := by
      intro q hq
      rw [hstart]
      exact run_of_peek_false (peek_otherItems hc q hq) _
    have hitem : Reads addItem parameter (w.chars g ++ r) r items (items ++ [.plain w]) :=
      reads_item (fun n hn => by rw [Item.ofNode, hn]) items (reads_plain hi hr)
    exact .orElse_right (hnone varKeyword (by simp [otherItems]))
      (.orElse_right (hnone varPositional (by simp [otherItems]))
        (.orElse_right (hnone keywordMarker (by simp [otherItems]))
          (.orElse_right (hnone positionalMarker (by simp [otherItems])) hitem)))
  | starred w =>
    obtain ⟨hw, hnone⟩ := hi
    obtain ⟨c, t, hstart, hc⟩ := hw.exists_start g
    -- The name starts with no second star.
    have hkeyword : varKeyword.run ('*' :: (w.chars g ++ r)) = none := by
      rw [hstart]
      exact run_varKeyword_eq_none (ne_of_startsIdentifier hc).1 _
    have hitem : Reads WrittenParameter.addNode (seq (chr '*') behindStars)
        ('*' :: (w.chars g ++ r)) r (.ofName "") w :=
      (reads_chr '*' _).seq (reads_behindStars hw hnone hr)
    refine .orElse_right hkeyword (.orElse_left ?_)
    exact reads_item (fun n hn => by rw [Item.ofNode, hn]) items hitem
  | doubleStarred w =>
    obtain ⟨hw, hnone⟩ := hi
    have hitem : Reads WrittenParameter.addNode (seq (word ['*', '*']) behindStars)
        ('*' :: '*' :: (w.chars g ++ r)) r (.ofName "") w :=
      ((reads_chr '*' _).seq (reads_chr '*' _)).seq (reads_behindStars hw hnone hr)
    exact .orElse_left (reads_item (fun n hn => by rw [Item.ofNode, hn]) items hitem)

/-! ## Lists -/

/-- The text prints the item. -/
def Item.IsPrinted (i : Item) (t : String) : Prop :=
  i.Printable ∧ ∃ g, t = i.print g

/-- An item starts with no blank. -/
theorem Item.IsPrinted.avoids {i : Item} {t : String} (h : i.IsPrinted t) :
    Avoids gapSigns (t.toList ++ u) := by
  obtain ⟨hi, g, rfl⟩ := h
  rw [Item.print, String.toList_ofList]
  have hstar : '*' ∉ gapSigns := by decide
  cases i with
  | slash => exact ⟨'/', by decide, u, rfl⟩
  | star => exact ⟨'*', hstar, u, rfl⟩
  | plain w =>
    rw [Item.chars, WrittenParameter.chars, List.append_assoc]
    exact avoids_of_isName (WrittenParameter.Printable.name hi)
  | starred w => exact ⟨'*', hstar, _, rfl⟩
  | doubleStarred w => exact ⟨'*', hstar, _, rfl⟩

/-- Behind an item stands a comma or the end of the list. -/
theorem startsIn_behindFirst (ts : List String) (r : List Char) :
    StartsIn [',', ')'] (behindFirst [',', ' '] String.toList ts (')' :: r)) := by
  cases ts with
  | nil => exact ⟨')', by decide, r, rfl⟩
  | cons t ts => exact ⟨',', by decide, _, rfl⟩

/-- A comma, a blank and the next item. -/
theorem reads_nextItem {i : Item} {t : String} (hi : i.IsPrinted t) (items : List Item)
    (hr : StartsIn [',', ')'] r) :
    Reads addItem nextItem (',' :: ' ' :: (t.toList ++ r)) r items (items ++ [i]) := by
  have hblank : Reads addItem (star gap) ([' '] ++ (t.toList ++ r)) (t.toList ++ r) items items :=
    reads_gaps (List.forall_mem_singleton.mpr List.mem_cons_self) hi.avoids
  obtain ⟨hprintable, g, rfl⟩ := hi
  rw [Item.print, String.toList_ofList] at hblank ⊢
  exact .seq (reads_of_peek (by decide) _) (.seq (reads_chr ',' _)
    (hblank.seq (reads_parameterItem hprintable items hr)))

/-- The items behind the first one read back. The induction is on the items. -/
theorem reads_nextItems {is : List Item} {ts : List String} (h : List.Forall₂ Item.IsPrinted is ts)
    (items : List Item) (r : List Char) :
    Reads addItem (star nextItem) (behindFirst [',', ' '] String.toList ts (')' :: r)) (')' :: r)
      items (items ++ is) := by
  induction h generalizing items with
  | nil =>
    rw [List.append_nil]
    exact reads_of_peek (by decide) r
  | @cons i t is ts hi _ ih =>
    have hrest := ih (items ++ [i])
    rw [List.append_assoc] at hrest
    rw [behindFirst, Text.intercalate_append_eq]
    exact .star_cons rfl (reads_nextItem hi items (startsIn_behindFirst ts r)) hrest

/-- What stands between the parentheses. -/
def listText (ts : List String) : List Char :=
  [',', ' '].intercalate (ts.map String.toList)

/-- A list starts with no blank, even if it is empty. -/
theorem avoids_listText {is : List Item} {ts : List String} (h : List.Forall₂ Item.IsPrinted is ts)
    (r : List Char) : Avoids gapSigns (listText ts ++ ')' :: r) := by
  cases h with
  | nil => exact ⟨')', by decide, r, rfl⟩
  | cons hi _ =>
    rw [listText, Text.intercalate_append_eq]
    exact hi.avoids

/-- The items of a list read back. -/
theorem reads_listText {is : List Item} {ts : List String} (h : List.Forall₂ Item.IsPrinted is ts)
    (r : List Char) :
    Reads addItem (optional (seq parameterList (star gap))) (listText ts ++ ')' :: r) (')' :: r)
      [] is := by
  cases h with
  | nil => exact reads_of_peek (by decide) r
  | @cons i t is ts hi hrest =>
    obtain ⟨hp, g, rfl⟩ := hi
    rw [listText, Text.intercalate_append_eq, Item.print, String.toList_ofList]
    have hfirst := reads_parameterItem (g := g) hp [] (startsIn_behindFirst ts r)
    have hitems : Reads addItem (seq (star nextItem) (optional lastComma)) _ _ [i] (i :: is) :=
      (reads_nextItems hrest [i] r).seq (reads_of_peek (by decide) r)
    exact ((hfirst.seq hitems).seq (reads_of_peek (by decide) r)).orElse_left

/-- A parameter list reads back as what its items declare. -/
theorem reads_parameters {is : List Item} {ts : List String} (h : List.Forall₂ Item.IsPrinted is ts)
    (d : FunctionDef) (r : List Char) :
    Reads FunctionDef.addHeaderNode parameters ('(' :: (listText ts ++ ')' :: r)) r d
      { d with parameters := Parameter.ofItems is } := by
  have hinner : Reads addItem (inOrder [chr '(', star gap,
      optional (seq parameterList (star gap)), chr ')']) ('(' :: (listText ts ++ ')' :: r)) r
      [] is :=
    (reads_chr '(' _).seq ((reads_no_gaps (avoids_listText h r)).seq
      ((reads_listText h r).seq (reads_chr ')' r)))
  refine hinner.node fun n hrule hnodes => ?_
  have hitems : n.children.mapM Item.ofNode = .ok is := by
    rw [foldlM_addItem] at hnodes
    obtain ⟨is', his, rfl⟩ := map_eq_ok.mp hnodes
    exact his
  rw [FunctionDef.addHeaderNode, hrule]
  show (do return { d with parameters := ← Parameter.ofNodes n.children }) = _
  rw [Parameter.ofNodes, hitems]
  rfl

end UdfBridge.Source
