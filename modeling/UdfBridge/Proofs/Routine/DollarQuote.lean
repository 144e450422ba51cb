import Mathlib.Data.Finset.Card
import Mathlib.Tactic.Choose
import UdfBridge.Proofs.Text.Apart
import UdfBridge.Proofs.Text.Occurrence
import UdfBridge.Routine.Definition

/-!
# Dollar quotes close where they should

A tag is a name between two dollar signs, and no name has one, so no two tags stand at the same
place of a text. That bounds the search for a tag: a text has at least as many places as tags that
occur in it. And it makes the quotes safe: the text of a routine ends with a line feed and a
semicolon follows the closing tag, so the tag cannot stand astride either end of itself, and a
reader of dollar quotes (`readDollarQuoted`) that starts at the opening tag gets the text of the
routine, whatever characters that holds.
-/

namespace UdfBridge.Routine

open Text (Apart Closes append_inj_of_span span_append splitAtFirst)

/-! ## Tags -/

/-- The characters of the names of tags. -/
def isTagChar (c : Char) : Bool :=
  c == '_' || c.isAlphanum || !(c.toNat < 128)

/-- The name in the tag of number `n`. -/
def tagName : Nat → List Char
  | 0 => []
  | 1 => ['p', 'g', 'u', 'd', 'f']
  | n + 2 => ['p', 'g', 'u', 'd', 'f', '_'] ++ Nat.toDigits 10 (n + 1)

/-- A tag is its name between two dollar signs. -/
theorem tag_eq (n : Nat) : tag n = '$' :: (tagName n ++ ['$']) := by
  match n with
  | 0 | 1 => rfl
  | n + 2 => simp only [tag, tagName, List.cons_append, List.nil_append]

/-- The name of a tag is of characters that may stand in a tag. -/
theorem isTagChar_of_mem_tagName {n : Nat} {c : Char} (h : c ∈ tagName n) : isTagChar c = true := by
  have hfirst : ∀ c ∈ tagName 1, isTagChar c = true := List.all_eq_true.mp rfl
  have hword : ∀ c ∈ ['p', 'g', 'u', 'd', 'f', '_'], isTagChar c = true := List.all_eq_true.mp rfl
  match n with
  | 0 => exact absurd h List.not_mem_nil
  | 1 => exact hfirst c h
  | n + 2 =>
    rw [tagName, List.mem_append] at h
    rcases h with h | h
    · exact hword c h
    · have hdigit := Nat.isDigit_of_mem_toDigits (by decide) (by decide) h
      simp [isTagChar, Char.isAlphanum, hdigit]

/-- No name starts with a digit. -/
theorem isDigit_head?_tagName (n : Nat) : (tagName n).head?.any Char.isDigit = false := by
  match n with
  | 0 | 1 | n + 2 => rfl

/-- Tags of different numbers have different names. -/
theorem tagName_injective {m n : Nat} (h : tagName m = tagName n) : m = n := by
  match m, n with
  | 0, 0 | 1, 1 => rfl
  | 0, 1 | 0, n + 2 | 1, 0 | m + 2, 0 => simp [tagName] at h
  | 1, n + 2 | m + 2, 1 => simp [tagName] at h
  | m + 2, n + 2 =>
    have hsame : Nat.toDigits 10 (m + 1) = Nat.toDigits 10 (n + 1) :=
      List.append_cancel_left h
    rw [Nat.succ.inj (Text.toDigits_inj hsame)]

/-- A dollar sign ends a name. -/
theorem isTagChar_head?_dollar (s : List Char) : ∀ c ∈ ('$' :: s).head?, isTagChar c = false := by
  intro c hc
  obtain rfl : '$' = c := by simpa using hc
  decide

/-- Tags are told apart before any rests: the second dollar sign ends the name. -/
theorem apart_tag (m n : Nat) : Apart tag (fun _ => True) m n := by
  intro r t _ _ h
  simp only [tag_eq, List.cons_append, List.append_assoc, List.nil_append] at h
  obtain ⟨hname, hrest⟩ := append_inj_of_span (fun _ hc => isTagChar_of_mem_tagName hc)
    (fun _ hc => isTagChar_of_mem_tagName hc) (isTagChar_head?_dollar r) (isTagChar_head?_dollar t)
    (List.cons.inj h).2
  exact ⟨tagName_injective hname, (List.cons.inj hrest).2⟩

/-- No tag is empty. -/
theorem tag_ne_nil (n : Nat) : tag n ≠ [] := by
  rw [tag_eq]
  exact List.cons_ne_nil _ _

/-- A tag has nothing but dollar signs and the characters of names. -/
theorem not_mem_tag {n : Nat} {c : Char} (hdollar : c ≠ '$') (hc : isTagChar c = false) :
    c ∉ tag n := by
  rw [tag_eq, List.mem_cons, List.mem_append, List.mem_singleton]
  rintro (h | h | h)
  · exact hdollar h
  · rw [isTagChar_of_mem_tagName h] at hc
    exact absurd hc (by decide)
  · exact hdollar h

/-! ## The search -/

/-- To occur in a text is to be a part of it. -/
theorem occursIn_iff {w s : List Char} : occursIn w s = true ↔ w <:+: s := by
  induction s with
  | nil => simp [occursIn]
  | cons c s ih =>
    rw [occursIn, Bool.or_eq_true, List.isPrefixOf_iff_prefix, ih, List.infix_cons_iff]

/-- The search from number `k` on stops at the first tag that does not occur. -/
theorem freeTagFrom_spec (s : List Char) (k : Nat) : ∃ n, freeTagFrom s k = tag n ∧
    ¬ tag n <:+: s ∧ ∀ m, k ≤ m → m < n → tag m <:+: s := by
  fun_induction freeTagFrom s k with
  | case1 k hk ih =>
    -- Tag `k` occurs as well as those that the search from `k + 1` on passes.
    obtain ⟨n, htag, hn, hall⟩ := ih
    refine ⟨n, htag, hn, fun m hkm hmn => ?_⟩
    rcases Nat.eq_or_lt_of_le hkm with rfl | hlt
    · exact occursIn_iff.mp hk
    · exact hall m hlt hmn
  | case2 k hk =>
    refine ⟨k, rfl, fun h => hk (occursIn_iff.mpr h), fun m hkm hmk => ?_⟩
    omega

/-- **Only so many tags occur in a text as it is long.** Each stands at some place of the text, and
no two at the same place. -/
theorem le_length_of_occurs {s : List Char} {n : Nat} (h : ∀ m < n, tag m <:+: s) :
    n ≤ s.length := by
  -- A tag that occurs starts somewhere in the text, and not at its end, for it is not empty.
  have hplace : ∀ m, ∃ p, m < n → p < s.length ∧ tag m <+: s.drop p := by
    intro m
    by_cases hm : m < n
    · obtain ⟨a, b, hab⟩ := h m hm
      refine ⟨a.length, fun _ => ⟨?_, ?_⟩⟩
      · have hpos := List.length_pos_iff.mpr (tag_ne_nil m)
        rw [← hab, List.length_append, List.length_append]
        omega
      · rw [← hab, List.append_assoc, List.drop_left]
        exact List.prefix_append _ _
    · exact ⟨0, fun hlt => absurd hlt hm⟩
  choose place hplace using hplace
  -- The places are those of different tags, so a text of `s.length` places has room for no more.
  have hmaps : Set.MapsTo place (Finset.range n) (Finset.range s.length) := by
    intro m hm
    rw [Finset.coe_range, Set.mem_Iio] at hm ⊢
    exact (hplace m hm).1
  have hinj : Set.InjOn place (Finset.range n) := by
    intro i hi j hj hij
    rw [Finset.coe_range, Set.mem_Iio] at hi hj
    -- Two tags at one place start the same text.
    obtain ⟨u, hu⟩ := (hplace i hi).2
    obtain ⟨v, hv⟩ := (hplace j hj).2
    rw [← hij, ← hu] at hv
    exact (apart_tag i j u v trivial trivial hv.symm).1
  calc
    n = (Finset.range n).card := (Finset.card_range n).symm
    _ ≤ (Finset.range s.length).card := Finset.card_le_card_of_injOn place hmaps hinj
    _ = s.length := Finset.card_range s.length

/-! ## Reading -/

/-- Reads a text in dollar quotes. It opens with a tag, the name of which does not start with a
digit, and goes on to the first place where the tag stands again. -/
def readDollarQuoted : List Char → Option (List Char × List Char)
  | '$' :: s =>
    let name := s.takeWhile isTagChar
    match s.dropWhile isTagChar with
    | '$' :: r =>
      if name.head?.any Char.isDigit then none else splitAtFirst ('$' :: (name ++ ['$'])) r
    | _ => none
  | _ => none

/-- Behind an opening tag, the text goes on to the first place where the tag stands again. -/
theorem readDollarQuoted_tag (n : Nat) (r : List Char) :
    readDollarQuoted (tag n ++ r) = splitAtFirst (tag n) r := by
  obtain ⟨htake, hdrop⟩ := span_append (s := tagName n)
    (fun _ hc => isTagChar_of_mem_tagName hc) (isTagChar_head?_dollar r)
  have hopen : tag n ++ r = '$' :: (tagName n ++ '$' :: r) := by
    rw [tag_eq, List.cons_append, List.append_assoc, List.singleton_append]
  rw [hopen, readDollarQuoted, htake, hdrop]
  simp only [isDigit_head?_tagName, tag_eq, Bool.false_eq_true, if_false]

/-! ## The text of a routine in its statement -/

/-- What stands in the statement from the opening tag on. -/
def quoted (r : Routine) : List Char :=
  r.dollarTag.toList ++ ('\n' :: r.text.toList ++ r.dollarTag.toList ++ [';', '\n'])

/-- The statement is its header and then the text in dollar quotes. -/
theorem toList_render (r : Routine) :
    r.render.toList = (r.header ++ "AS ").toList ++ r.quoted := by
  simp [render, quoted]

/-- The tag of a routine is the first that does not occur in its text. -/
theorem dollarTag_spec (r : Routine) : ∃ n, r.dollarTag.toList = tag n ∧
    ¬ tag n <:+: r.text.toList ∧ ∀ m < n, tag m <:+: r.text.toList := by
  obtain ⟨n, htag, hno, hall⟩ := freeTagFrom_spec r.text.toList 0
  refine ⟨n, ?_, hno, fun m hm => hall m (Nat.zero_le m) hm⟩
  rw [dollarTag, freeTag, htag, String.toList_ofList]

/-- A tag that does not occur in the text of a routine closes it: the text ends with a line feed, and
a semicolon and a line feed follow. -/
theorem closes_text (r : Routine) {n : Nat} (hno : ¬ tag n <:+: r.text.toList) :
    Closes (tag n) ('\n' :: r.text.toList) [';', '\n'] := by
  have hfeed : '\n' ∉ tag n := not_mem_tag (by decide) (by decide)
  have hsemicolon : ';' ∉ tag n := not_mem_tag (by decide) (by decide)
  have htext : '\n' :: r.text.toList =
      ('\n' :: (r.body ++ "return " ++ r.call).toList) ++ ['\n'] := by
    simp [text]
  constructor
  · exact tag_ne_nil n
  · -- The tag starts with a dollar sign, so it does not start with the first line feed.
    rw [List.infix_cons_iff]
    rintro (hpre | hin)
    · rw [tag_eq, List.cons_prefix_cons] at hpre
      exact absurd hpre.1 (by decide)
    · exact hno hin
  · -- The text ends with a line feed, which is not in the tag, so no tag goes over its end.
    rw [htext, List.getLast?_concat]
    rintro c hc
    obtain rfl : '\n' = c := by simpa using hc
    exact hfeed
  · -- Neither character behind the tag is in a tag.
    intro c hc
    rcases List.mem_cons.mp hc with rfl | hc
    · exact hsemicolon
    · rw [List.mem_singleton.mp hc]
      exact hfeed

/-- A reader of dollar quotes gets the text of the routine. -/
theorem readDollarQuoted_quoted (r : Routine) :
    readDollarQuoted r.quoted = some ('\n' :: r.text.toList, [';', '\n']) := by
  obtain ⟨n, htag, hno, -⟩ := r.dollarTag_spec
  rw [quoted, htag, readDollarQuoted_tag]
  exact (r.closes_text hno).splitAtFirst_eq

/-- **Dollar quotes are safe.** The tag is the first that does not occur in the text of the routine,
and the search for it takes no more steps than the text is long. Behind the opening tag, it stands
where it closes the text and nowhere else; so a reader of dollar quotes that starts at the opening
tag gets a line feed and the text of the routine, and a semicolon and a line feed remain. -/
theorem readDollarQuoted_render (r : Routine) : ∃ n ≤ r.text.length,
    (r.dollarTag.toList = tag n ∧ ¬ tag n <:+: r.text.toList ∧
      ∀ m < n, tag m <:+: r.text.toList) ∧
    ∃ behind, r.render.toList = (r.header ++ "AS ").toList ++ (tag n ++ behind) ∧
      (∀ a b, behind = a ++ tag n ++ b ↔
        a = ("\n" ++ r.body ++ "return " ++ r.call ++ "\n").toList ∧ b = ";\n".toList) ∧
      readDollarQuoted (tag n ++ behind) =
        some (("\n" ++ r.body ++ "return " ++ r.call ++ "\n").toList, ";\n".toList) := by
  obtain ⟨n, htag, hno, hall⟩ := r.dollarTag_spec
  have htext : ("\n" ++ r.body ++ "return " ++ r.call ++ "\n").toList = '\n' :: r.text.toList := by
    simp [text]
  have hclosing : (";\n" : String).toList = [';', '\n'] := rfl
  have hquoted : r.quoted = tag n ++ ('\n' :: r.text.toList ++ tag n ++ [';', '\n']) := by
    rw [quoted, htag]
  refine ⟨n, ?_, ⟨htag, hno, hall⟩, '\n' :: r.text.toList ++ tag n ++ [';', '\n'], ?_, ?_, ?_⟩
  · rw [← String.length_toList]
    exact le_length_of_occurs hall
  · rw [toList_render, hquoted]
  · rw [htext, hclosing]
    exact (r.closes_text hno).eq_append_iff
  · rw [← hquoted, readDollarQuoted_quoted, htext, hclosing]

end UdfBridge.Routine
