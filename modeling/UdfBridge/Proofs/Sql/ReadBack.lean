import UdfBridge.Proofs.Query.Literal

/-!
# What a statement is read as

The tokens of names, of texts and of bytes, read by a database. A name is read by
`readIdentifier` and a text by `readText`; both give back what was written, whatever characters it
holds and whatever follows, as long as that does not go on with the token. The token of bytes is a
text with a cast behind it, and the digits in the text are those of the bytes
(`tokens_read_back`).
-/

namespace UdfBridge.Sql

/-- Reads the token of a text, from one quote to the next that is not doubled. -/
def readText : List Char → Option (String × List Char)
  | '\'' :: s => (readQuoted '\'' s).map fun (w, r) => (.ofList w, r)
  | _ => none

/-- A text in quotes is read back before any rest that does not start with a quote. -/
theorem readText_inQuotes (s : List Char) {r : List Char} (hr : r.head? ≠ some '\'') :
    readText (inQuotes '\'' s ++ r) = some (.ofList s, r) := by
  rw [inQuotes, List.append_assoc, List.cons_append, List.singleton_append, readText,
    readQuoted_doubled '\'' s hr, Option.map_some]

/-- The small letters are those from `a` to `z`. -/
theorem isLower_iff {c : Char} : c.isLower = true ↔ 'a' ≤ c ∧ c ≤ 'z' :=
  Bool.and_eq_true_iff.trans (and_congr decide_eq_true_iff decide_eq_true_iff)

/-- The digits are those from `0` to `9`. -/
theorem isDigit_iff {c : Char} : c.isDigit = true ↔ '0' ≤ c ∧ c ≤ '9' :=
  Bool.and_eq_true_iff.trans (and_congr decide_eq_true_iff decide_eq_true_iff)

/-- The characters that plain names go on with. -/
theorem continuesPlain_iff {c : Char} : continuesPlain c = true ↔
    ('a' ≤ c ∧ c ≤ 'z') ∨ ('0' ≤ c ∧ c ≤ '9') ∨ c = '_' ∨ c = '$' := by
  simp only [continuesPlain, Bool.or_eq_true, isLower_iff, isDigit_iff, beq_iff_eq, or_assoc]

/-- The characters that plain names start with. -/
theorem startsPlain_iff {c : Char} : startsPlain c = true ↔ ('a' ≤ c ∧ c ≤ 'z') ∨ c = '_' := by
  simp only [startsPlain, Bool.or_eq_true, isLower_iff, beq_iff_eq]

/-- A plain name starts neither with a digit nor with a dollar sign. -/
theorem not_digit_of_startsPlain {c : Char} (h : startsPlain c = true) :
    ¬ ('0' ≤ c ∧ c ≤ '9') ∧ c ≠ '$' := by
  rcases startsPlain_iff.mp h with ⟨hlower, -⟩ | rfl
  · constructor
    · rintro ⟨-, hdigit⟩
      exact absurd (Char.le_trans hlower hdigit) (by decide)
    · rintro rfl
      exact absurd hlower (by decide)
  · decide

/-- A name stands without quotes only if it is plain. -/
theorem isPlain_of_head?_ne {name : String} {r : List Char}
    (h : ((quoteIdentifier name).toList ++ r).head? ≠ some '"') : isPlain name = true := by
  cases hplain : isPlain name with
  | true => rfl
  | false =>
    rw [quoteIdentifier, hplain, if_neg Bool.false_ne_true, String.toList_ofList] at h
    exact absurd rfl h

/-- A plain name is no reserved word and starts like one. -/
theorem exists_of_isPlain {name : String} (h : isPlain name = true) :
    name ∉ reserved ∧ ∃ c s, name.toList = c :: s ∧ startsPlain c = true := by
  rw [isPlain, Bool.and_eq_true, Bool.not_eq_true', List.contains_eq_mem,
    decide_eq_false_iff_not] at h
  refine ⟨h.2, ?_⟩
  cases hname : name.toList with
  | nil => simp [hname, isPlainSpelling] at h
  | cons c s =>
    rw [hname, isPlainSpelling, Bool.and_eq_true] at h
    exact ⟨c, s, rfl, h.1.1⟩

/-- **Tokens are read back as what was written.** The token of a name gives back the name before
every rest that starts with no quote and no character of plain names; and it stands without quotes
only if the name is no reserved word and starts with neither a digit nor a dollar sign. The token of
a text gives back the text before every rest that does not start with a quote. The token of some
bytes gives a text of a backslash, an `x` and the digits of the bytes, and leaves a cast. -/
theorem tokens_read_back :
    (∀ (name : String) (r : List Char),
      (∀ c ∈ r.head?, c ≠ '"' ∧
        ¬ (('a' ≤ c ∧ c ≤ 'z') ∨ ('0' ≤ c ∧ c ≤ '9') ∨ c = '_' ∨ c = '$')) →
      readIdentifier ((quoteIdentifier name).toList ++ r) = some (name, r) ∧
        (((quoteIdentifier name).toList ++ r).head? ≠ some '"' →
          name ∉ reserved ∧ ∀ c ∈ name.toList.head?, ¬ ('0' ≤ c ∧ c ≤ '9') ∧ c ≠ '$')) ∧
      (∀ (s : String) (r : List Char), r.head? ≠ some '\'' →
        readText ((SqlExpr.ofText s).render.toList ++ r) = some (s, r)) ∧
      ∀ (bs : List UInt8) (r : List Char), ∃ digits,
        readText ((SqlExpr.ofBytes bs).render.toList ++ r) =
            some (.ofList ('\\' :: 'x' :: digits), "::bytea".toList ++ r) ∧
          Text.ofHex? digits = some bs := by
  refine ⟨fun name r hr => ⟨?_, fun hbare => ?_⟩, fun s r hr => ?_, fun bs r => ?_⟩
  · -- The name ends before the rest, so the reader of names goes no further.
    have hends : EndsName r := by
      intro c hc
      obtain ⟨hquote, hclass⟩ := hr c hc
      rw [← continuesPlain_iff, Bool.not_eq_true] at hclass
      exact ⟨hquote, hclass⟩
    exact readIdentifier_quoteIdentifier name hends
  · -- What is written without quotes is a plain name, and these start as they should.
    obtain ⟨hreserved, c, s, hname, hc⟩ := exists_of_isPlain (isPlain_of_head?_ne hbare)
    refine ⟨hreserved, fun d hd => ?_⟩
    obtain rfl : c = d := by simpa [hname] using hd
    exact not_digit_of_startsPlain hc
  · -- A text is read up to the quote that closes it.
    have htoken : (SqlExpr.ofText s).render.toList = inQuotes '\'' s.toList := by
      rw [SqlExpr.ofText, SqlExpr.render, textLiteral, String.toList_ofList]
    rw [htoken, readText_inQuotes s.toList hr, String.ofList_toList]
  · -- Behind the quote stands the cast, which starts with no quote.
    have htoken : (SqlExpr.ofBytes bs).render.toList =
        inQuotes '\'' ('\\' :: 'x' :: Text.toHex bs) ++ "::bytea".toList := by
      rw [SqlExpr.ofBytes, SqlExpr.render, toList_bytesLiteral]
    refine ⟨Text.toHex bs, ?_, Text.ofHex?_toHex bs⟩
    rw [htoken, List.append_assoc, readText_inQuotes _ (by simp)]

/-- A reserved word, a name of quotes alone, a text of a quote alone and two bytes, each before what
can follow it in a statement. -/
theorem tokens_read_back_of_quotes :
    quoteIdentifier "user" = "\"user\"" ∧
      readIdentifier ((quoteIdentifier "user").toList ++ ['.', 't']) = some ("user", ['.', 't']) ∧
      quoteIdentifier "\"\"" = "\"\"\"\"\"\"" ∧
      readIdentifier ((quoteIdentifier "\"\"").toList ++ ['(']) = some ("\"\"", ['(']) ∧
      (SqlExpr.ofText "'").render = "''''" ∧
      readText ((SqlExpr.ofText "'").render.toList ++ [';']) = some ("'", [';']) ∧
      ∃ digits, readText ((SqlExpr.ofBytes [0, 255]).render.toList ++ [')']) =
          some (.ofList ('\\' :: 'x' :: digits), "::bytea".toList ++ [')']) ∧
        Text.ofHex? digits = some [0, 255] := by
  obtain ⟨hname, htext, hbytes⟩ := tokens_read_back
  exact ⟨by decide, (hname "user" ['.', 't'] (by simp)).1, by decide,
    (hname "\"\"" ['('] (by simp)).1, by decide, htext "'" [';'] (by decide),
    hbytes [0, 255] [')']⟩

end UdfBridge.Sql
