import UdfBridge.Proofs.Text.Apart
import UdfBridge.Sql.Expr

/-!
# Reading tokens back

A token in quotes is read to the first quote that is not doubled, and a token without quotes as far
as the characters of a plain name go. Read in this way, a name and a text give back what they were
written for, with any rest that does not go on with the token. So names, and names with schemas, are
told apart whatever characters they hold.
-/

namespace UdfBridge.Sql

open Text (Apart apart_of_read span_append)

/-- Reads from behind an opening `q` to the next `q` that is not doubled, and takes each doubled one
for one. -/
def readQuoted (q : Char) : List Char → Option (List Char × List Char)
  | [] => none
  | [c] => if c = q then some ([], []) else none
  | c :: d :: s =>
    if c = q then
      if d = q then (readQuoted q s).map fun (w, r) => (q :: w, r)
      else some ([], d :: s)
    else (readQuoted q (d :: s)).map fun (w, r) => (c :: w, r)

/-- Reads the token of a name: what stands in quotes, or the longest run of the characters of plain
names. -/
def readIdentifier : List Char → Option (String × List Char)
  | '"' :: s => (readQuoted '"' s).map fun (w, r) => (.ofList w, r)
  | s => some (.ofList (s.takeWhile continuesPlain), s.dropWhile continuesPlain)

/-- Neither a quote nor the characters of a plain name go on in `r`. -/
def EndsName (r : List Char) : Prop :=
  ∀ c ∈ r.head?, c ≠ '"' ∧ continuesPlain c = false

/-- A name can end before a character that is no quote and goes on no plain name. -/
theorem endsName_cons {c : Char} {r : List Char} (hq : c ≠ '"') (hc : continuesPlain c = false) :
    EndsName (c :: r) := by
  intro d hd
  obtain rfl : c = d := by simpa using hd
  exact ⟨hq, hc⟩

/-- Behind a quote, a name is read to the quote that closes it. -/
theorem readIdentifier_quote (s : List Char) : readIdentifier ('"' :: s) =
    (readQuoted '"' s).map fun (w, r) => (.ofList w, r) := rfl

/-- Without a quote, a name is read as far as the characters of plain names go. -/
theorem readIdentifier_of_ne {c : Char} (h : c ≠ '"') (s : List Char) : readIdentifier (c :: s) =
    some (.ofList ((c :: s).takeWhile continuesPlain), (c :: s).dropWhile continuesPlain) := by
  unfold readIdentifier
  split
  · rename_i t heq
    exact absurd (List.cons.inj heq).1 h
  · rfl

/-- A character that is not the quote is read as it is. -/
theorem readQuoted_cons_of_ne {q c : Char} (h : c ≠ q) (s : List Char) :
    readQuoted q (c :: s) = (readQuoted q s).map fun (w, r) => (c :: w, r) := by
  cases s with
  | nil => simp [readQuoted, h]
  | cons d s => rw [readQuoted, if_neg h]

/-- A text in quotes is read back before any rest that does not start with a quote. -/
theorem readQuoted_doubled (q : Char) (s : List Char) {r : List Char} (hr : r.head? ≠ some q) :
    readQuoted q (doubled q s ++ q :: r) = some (s, r) := by
  induction s with
  | nil =>
    cases r with
    | nil => simp [readQuoted]
    | cons d r =>
      have hd : d ≠ q := by simpa using hr
      simp [readQuoted, hd]
  | cons c s ih =>
    rw [doubled_cons]
    by_cases hc : c = q
    · -- A quote is written twice and read once.
      subst hc
      simp [readQuoted, ih]
    · rw [if_neg hc, List.append_assoc, List.singleton_append, readQuoted_cons_of_ne hc, ih]
      rfl

/-- The characters of a plain spelling go on to its end. -/
theorem continuesPlain_of_isPlainSpelling {s : List Char} (h : isPlainSpelling s = true) :
    ∀ c ∈ s, continuesPlain c = true := by
  cases s with
  | nil => simp
  | cons d s =>
    rw [isPlainSpelling, Bool.and_eq_true, List.all_eq_true] at h
    intro c hc
    rcases List.mem_cons.mp hc with rfl | hc
    · have hstart := h.1
      rw [startsPlain, Bool.or_eq_true] at hstart
      rcases hstart with hlower | hunderscore
      · simp [continuesPlain, hlower]
      · simp [continuesPlain, hunderscore]
    · exact h.2 c hc

/-- A plain name does not start with a quote. -/
theorem head?_ne_quote_of_isPlainSpelling {s : List Char} (h : isPlainSpelling s = true) :
    ∃ c t, s = c :: t ∧ c ≠ '"' := by
  cases s with
  | nil => simp [isPlainSpelling] at h
  | cons c t =>
    refine ⟨c, t, rfl, ?_⟩
    rintro rfl
    rw [isPlainSpelling, Bool.and_eq_true] at h
    exact absurd h.1 (by decide)

/-- The token of a name is read back before any rest that does not go on with it. -/
theorem readIdentifier_quoteIdentifier (name : String) {r : List Char} (hr : EndsName r) :
    readIdentifier ((quoteIdentifier name).toList ++ r) = some (name, r) := by
  unfold quoteIdentifier
  by_cases hplain : isPlain name = true
  · -- A plain name is read up to the first character that goes on no plain name.
    rw [if_pos hplain]
    rw [isPlain, Bool.and_eq_true] at hplain
    have hall := continuesPlain_of_isPlainSpelling hplain.1
    obtain ⟨c, t, hname, hc⟩ := head?_ne_quote_of_isPlainSpelling hplain.1
    obtain ⟨htake, hdrop⟩ := span_append hall (fun d hd => (hr d hd).2)
    have hread : readIdentifier (name.toList ++ r) =
        some (.ofList ((name.toList ++ r).takeWhile continuesPlain),
          (name.toList ++ r).dropWhile continuesPlain) := by
      rw [hname, List.cons_append]
      exact readIdentifier_of_ne hc (t ++ r)
    rw [hread, htake, hdrop, String.ofList_toList]
  · -- A quoted name is read up to the quote that is not doubled.
    rw [if_neg hplain, String.toList_ofList, inQuotes, List.append_assoc, List.cons_append,
      List.singleton_append]
    have hquote : r.head? ≠ some '"' := fun h => (hr '"' h).1 rfl
    rw [readIdentifier_quote, readQuoted_doubled '"' name.toList hquote]
    simp only [Option.map_some, String.ofList_toList]

/-- Names of any characters are told apart. -/
theorem apart_quoteIdentifier (a b : String) :
    Apart (fun name => (quoteIdentifier name).toList) EndsName a b :=
  apart_of_read readIdentifier (fun name _ hr => readIdentifier_quoteIdentifier name hr) a b

/-- The token of a name starts with a quote, an underscore or a lower case letter. -/
theorem exists_cons_quoteIdentifier (name : String) :
    ∃ c s, (quoteIdentifier name).toList = c :: s ∧ (c = '"' ∨ startsPlain c = true) := by
  unfold quoteIdentifier
  by_cases hplain : isPlain name = true
  · rw [if_pos hplain]
    rw [isPlain, Bool.and_eq_true] at hplain
    cases hname : name.toList with
    | nil => simp [hname, isPlainSpelling] at hplain
    | cons c s =>
      rw [hname, isPlainSpelling, Bool.and_eq_true] at hplain
      exact ⟨c, s, rfl, .inr hplain.1.1⟩
  · rw [if_neg hplain, String.toList_ofList]
    exact ⟨'"', doubled '"' name.toList ++ ['"'], rfl, .inl rfl⟩

end UdfBridge.Sql

namespace UdfBridge.QualifiedName

open Sql
open Text (Apart)

/-- Nothing goes on in `r` that belongs to a qualified name. -/
def EndsQualified (r : List Char) : Prop :=
  EndsName r ∧ r.head? ≠ some '.'

/-- A name in a schema is written behind the schema and a dot, both quoted where that is needed. -/
theorem toList_render_some (schema name : String) : (render ⟨some schema, name⟩).toList =
    (quoteIdentifier schema).toList ++ '.' :: (quoteIdentifier name).toList := by
  simp [render]

/-- A name without a schema is written alone, quoted where that is needed. -/
theorem toList_render_none (name : String) :
    (render ⟨none, name⟩).toList = (quoteIdentifier name).toList := rfl

/-- Qualified names are told apart, in schema and name. -/
theorem apart_render (a b : QualifiedName) :
    Apart (fun n => n.render.toList) EndsQualified a b := by
  obtain ⟨schema?, name⟩ := a
  obtain ⟨schema'?, name'⟩ := b
  intro r t hr ht h
  have hdot : ∀ s, EndsName ('.' :: s) := fun s => endsName_cons (by decide) (by decide)
  dsimp only at h
  cases schema? with
  | none =>
    cases schema'? with
    | none =>
      obtain ⟨rfl, hrt⟩ := apart_quoteIdentifier name name' r t hr.1 ht.1 h
      exact ⟨rfl, hrt⟩
    | some schema' =>
      rw [toList_render_none, toList_render_some, List.append_assoc, List.cons_append] at h
      -- The name is read as the schema, so the dot behind the schema stands in the rest.
      obtain ⟨-, hrt⟩ := apart_quoteIdentifier _ _ _ _ hr.1 (hdot _) h
      exact absurd (congrArg List.head? hrt) hr.2
  | some schema =>
    cases schema'? with
    | none =>
      -- The same with both names exchanged.
      rw [toList_render_none, toList_render_some, List.append_assoc, List.cons_append] at h
      obtain ⟨-, hrt⟩ := apart_quoteIdentifier _ _ _ _ (hdot _) ht.1 h
      exact absurd (congrArg List.head? hrt.symm) ht.2
    | some schema' =>
      rw [toList_render_some, toList_render_some, List.append_assoc, List.append_assoc,
        List.cons_append, List.cons_append] at h
      obtain ⟨rfl, hrest⟩ := apart_quoteIdentifier _ _ _ _ (hdot _) (hdot _) h
      obtain ⟨rfl, hrt⟩ := apart_quoteIdentifier _ _ _ _ hr.1 ht.1 (List.cons.inj hrest).2
      exact ⟨rfl, hrt⟩

/-- The text of a qualified name starts like that of a name. -/
theorem exists_cons_render (n : QualifiedName) :
    ∃ c s, n.render.toList = c :: s ∧ (c = '"' ∨ startsPlain c = true) := by
  obtain ⟨schema?, name⟩ := n
  cases schema? with
  | none => exact exists_cons_quoteIdentifier name
  | some schema =>
    obtain ⟨c, s, hs, hc⟩ := exists_cons_quoteIdentifier schema
    rw [toList_render_some, hs, List.cons_append]
    exact ⟨c, _, rfl, hc⟩

end UdfBridge.QualifiedName
