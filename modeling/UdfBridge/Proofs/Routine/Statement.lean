import UdfBridge.Proofs.Routine.DollarQuote
import UdfBridge.Proofs.Sql.Token

/-!
# The statement that creates a routine can be read back

The words of a statement, the names of types and those of languages are codes in which none is a
prefix of another, names are read as far as they go, and the list of the parameters ends at the
parenthesis that cannot belong to a name. So the parts of the header are told apart one after the
other, and what stands in dollar quotes is read last. Names, body and call may hold any characters.
-/

namespace UdfBridge

open Sql (EndsName endsName_cons quoteIdentifier apart_quoteIdentifier
  exists_cons_quoteIdentifier)
open Text (Apart apart_intercalate apart_of_prefixFree)

/-- No name of a type starts with that of another. -/
theorem SqlType.apart_name (s t : SqlType) :
    Apart (fun t => (name t).toList) (fun _ => True) s t := by
  apply apart_of_prefixFree
  intro s t
  cases s <;> cases t <;> decide

/-- No name of a language starts with that of another. -/
theorem Language.apart_name (k l : Language) :
    Apart (fun l => (name l).toList) (fun _ => True) k l := by
  apply apart_of_prefixFree
  intro k l
  cases k <;> cases l <;> decide

namespace Routine

/-! ## Parameters -/

/-- What the statement declares of a parameter: its name and its type in the database. -/
def declared (p : Signature.Parameter) : String × SqlType :=
  (p.name, p.type.toSql)

/-- The characters of a declaration. -/
def declarationChars (d : String × SqlType) : List Char :=
  (quoteIdentifier d.1).toList ++ ' ' :: d.2.name.toList

/-- The declaration of a parameter is its name and its type, as characters. -/
theorem toList_declaration (p : Signature.Parameter) :
    (declaration p).toList = declarationChars (declared p) := by
  simp [declaration, declarationChars, declared]

/-- A declaration starts with no parenthesis. -/
theorem not_prefix_parenthesis (d : String × SqlType) (r : List Char) :
    ¬ declarationChars d <+: ')' :: r := by
  obtain ⟨c, s, hcs, hc⟩ := exists_cons_quoteIdentifier d.1
  rw [declarationChars, hcs, List.cons_append, List.cons_prefix_cons]
  rintro ⟨rfl, -⟩
  rcases hc with hc | hc <;> exact absurd hc (by decide)

/-- Declarations are told apart before any rests, in name and type. -/
theorem apart_declarationChars (d e : String × SqlType) :
    Apart declarationChars (fun _ => True) d e := by
  obtain ⟨name, type⟩ := d
  obtain ⟨name', type'⟩ := e
  intro r t _ _ h
  have hblank : ∀ s, EndsName (' ' :: s) := fun s => endsName_cons (by decide) (by decide)
  simp only [declarationChars, List.append_assoc, List.cons_append] at h
  obtain ⟨rfl, htype⟩ := apart_quoteIdentifier name name' _ _ (hblank _) (hblank _) h
  obtain ⟨rfl, hrest⟩ := SqlType.apart_name type type' r t trivial trivial
    (List.cons.inj htype).2
  exact ⟨rfl, hrest⟩

/-- What stands behind the parameters. -/
def FollowsParameters (r : List Char) : Prop :=
  ")\n".toList <+: r

/-- Lists of declarations are told apart from what stands behind them. -/
theorem apart_declarations (ds es : List (String × SqlType)) :
    Apart (fun ds => ", ".toList.intercalate (ds.map declarationChars)) FollowsParameters ds es := by
  refine apart_intercalate (fun _ => trivial) (fun _ _ => trivial) ?_ ds es ?_
    (fun d _ e _ => apart_declarationChars d e)
  · rintro r ⟨s, rfl⟩ hpre
    simp at hpre
  · rintro r ⟨s, rfl⟩ d _
    exact not_prefix_parenthesis d _

/-! ## The statement -/

/-- The first words of the statement. -/
def opening (replace : Bool) : String :=
  "CREATE " ++ (if replace then "OR REPLACE " else "") ++ "FUNCTION "

/-- Whether a routine may be replaced is told from the first words. -/
theorem apart_opening (a b : Bool) :
    Apart (fun replace => (opening replace).toList) (fun _ => True) a b := by
  apply apart_of_prefixFree
  intro a b h
  cases a <;> cases b
  · rfl
  · simp [opening] at h
  · simp [opening] at h
  · rfl

/-- The header of a statement, from its first word to the name of the language. -/
theorem header_eq (r : Routine) : r.header = opening r.replace ++
    (r.signature.reference.render ++ ("(" ++
      (", ".intercalate (r.signature.parameters.map declaration) ++
        (")\n" ++ ("RETURNS " ++ (r.signature.output.toSql.name ++
          ("\n" ++ ("LANGUAGE " ++ (r.language.name ++ "\n"))))))))) := by
  unfold header opening
  simp only [String.append_assoc]

/-- The characters of the statement, part by part. -/
theorem toList_render_eq (r : Routine) : r.render.toList = (opening r.replace).toList ++
    (r.signature.reference.render.toList ++ ("(".toList ++
      (", ".toList.intercalate ((r.signature.parameters.map declared).map declarationChars) ++
        (")\n".toList ++ ("RETURNS ".toList ++ (r.signature.output.toSql.name.toList ++
          ("\n".toList ++ ("LANGUAGE ".toList ++ (r.language.name.toList ++
            ("\n".toList ++ ("AS ".toList ++ r.quoted))))))))))) := by
  have hdeclarations : (r.signature.parameters.map declaration).map String.toList =
      (r.signature.parameters.map declared).map declarationChars := by
    rw [List.map_map, List.map_map]
    exact List.map_congr_left fun p _ => toList_declaration p
  simp only [toList_render, header_eq, String.toList_append, String.toList_intercalate,
    hdeclarations, List.append_assoc]

/-- **The statement can be read back.** Routines with the same statement agree on whether they
replace another, on schema and name, on the names and the types of their parameters, on the type of
their result, on their language and on their text. -/
theorem render_inj (r r' : Routine) (h : r.render = r'.render) :
    r.replace = r'.replace ∧ r.signature.reference = r'.signature.reference ∧
      r.signature.parameterNames = r'.signature.parameterNames ∧
      r.signature.inputs.map DataType.toSql = r'.signature.inputs.map DataType.toSql ∧
      r.signature.output.toSql = r'.signature.output.toSql ∧ r.language = r'.language ∧
      r.body ++ "return " ++ r.call ++ "\n" = r'.body ++ "return " ++ r'.call ++ "\n" := by
  have hparenthesis : ∀ s, QualifiedName.EndsQualified ("(".toList ++ s) :=
    fun s => ⟨endsName_cons (by decide) (by decide), by simp⟩
  have hchars := congrArg String.toList h
  rw [toList_render_eq, toList_render_eq] at hchars
  -- The header is read from left to right, one part after the other.
  obtain ⟨hreplace, hreference⟩ := apart_opening _ _ _ _ trivial trivial hchars
  obtain ⟨href, hparameters⟩ := QualifiedName.apart_render _ _ _ _ (hparenthesis _)
    (hparenthesis _) hreference
  obtain ⟨hdeclared, hclose⟩ := apart_declarations _ _ _ _ (List.prefix_append _ _)
    (List.prefix_append _ _) (List.append_cancel_left hparameters)
  obtain ⟨houtput, hlanguage⟩ := SqlType.apart_name _ _ _ _ trivial trivial
    (List.append_cancel_left (List.append_cancel_left hclose))
  obtain ⟨hlang, has⟩ := Language.apart_name _ _ _ _ trivial trivial
    (List.append_cancel_left (List.append_cancel_left hlanguage))
  -- What is left on both sides are the texts in dollar quotes.
  have hquoted := congrArg readDollarQuoted
    (List.append_cancel_left (List.append_cancel_left has))
  rw [readDollarQuoted_quoted, readDollarQuoted_quoted, Option.some.injEq, Prod.mk.injEq] at hquoted
  have hsame : r.text = r'.text := String.toList_inj.mp (List.cons.inj hquoted.1).2
  refine ⟨hreplace, href, ?_, ?_, houtput, hlang, hsame⟩
  · -- The names and the types are the two sides of what is declared.
    have hnames := congrArg (List.map Prod.fst) hdeclared
    rw [List.map_map, List.map_map] at hnames
    exact hnames
  · have htypes := congrArg (List.map Prod.snd) hdeclared
    rw [List.map_map, List.map_map] at htypes
    rw [Signature.inputs, Signature.inputs, List.map_map, List.map_map]
    exact htypes

/-- A routine with the words and the separators of the statement in its names. One parameter and the
result have type `type`. -/
def awkwardRoutine (type : DataType) (body call : String) : Routine :=
  { signature := ⟨"f(x)\nRETURNS", [⟨"a, b", type⟩, ⟨"c\"d", .float64⟩], type, some "s.t"⟩
    replace := true
    language := .plpython3u
    body, call }

/-- Such a routine, whose call has a line feed. -/
def earlyCall : Routine :=
  awkwardRoutine .int8 "def f(x):\n  return $$\n" "f(a)\nreturn $pgudf$"

/-- Such a routine, whose body ends with what the call starts with in `earlyCall`. -/
def lateCall : Routine :=
  awkwardRoutine .int16 "def f(x):\n  return $$\nreturn f(a)\n" "$pgudf$"

/-- The two routines have the same statement, and agree on what stands in it. -/
theorem render_inj_of_moved_line : earlyCall.render = lateCall.render ∧
    earlyCall.signature.inputs.map DataType.toSql = lateCall.signature.inputs.map DataType.toSql ∧
    earlyCall.body ++ "return " ++ earlyCall.call ++ "\n" =
      lateCall.body ++ "return " ++ lateCall.call ++ "\n" := by
  have hheader : earlyCall.header = lateCall.header := rfl
  have htext : earlyCall.text = lateCall.text := by decide +kernel
  have hrender : earlyCall.render = lateCall.render := by
    rw [render, render, dollarTag, dollarTag, hheader, htext]
  obtain ⟨-, -, -, htypes, -, -, hsame⟩ := render_inj earlyCall lateCall hrender
  exact ⟨hrender, htypes, hsame⟩

end Routine

end UdfBridge
