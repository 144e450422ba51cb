import UdfBridge.Proofs.Query.Select

/-!
# Conditions

A query gets its predicates one after the other, and its condition is their conjunction, nested to
the left. A conjunction yields a truth value whatever its operands yield. So the type that a
condition is judged by is that of a predicate only where the predicate is alone, and the types of
several predicates do not matter. A query with some predicates compiles exactly if it has items, all
of these and all predicates translate, and a predicate that is alone yields a truth value.
-/

namespace UdfBridge

namespace Expr

variable {rules : TranslationTable} {e p : Expr} {es ps : List Expr}

/-! ## What has a translation -/

/-- An expression has a translation. -/
def Translates (rules : TranslationTable) (e : Expr) : Prop :=
  ∃ x, e.translate rules .operand = .ok x

/-- An expression that has a translation as an operand has one as an item, and the other way
around. -/
theorem exists_translate_item_iff :
    (∃ x, e.translate rules .item = .ok x) ↔ e.Translates rules := by
  rw [Translates, translate_item]
  simp only [map_eq_ok]
  constructor
  · rintro ⟨_, x, hx, -⟩
    exact ⟨x, hx⟩
  · rintro ⟨x, hx⟩
    exact ⟨_, x, hx, rfl⟩

/-- Items have translations if each of them has one. -/
theorem exists_translateAll_item_iff :
    (∃ xs, translateAll rules .item es = .ok xs) ↔ ∀ e ∈ es, e.Translates rules := by
  induction es with
  | nil => simp [translateAll_nil]
  | cons e es ih =>
    rw [List.forall_mem_cons, ← ih, ← exists_translate_item_iff]
    simp only [translateAll_cons_eq_ok]
    constructor
    · rintro ⟨_, y, ys, hy, hys, -⟩
      exact ⟨⟨y, hy⟩, ys, hys⟩
    · rintro ⟨⟨y, hy⟩, ys, hys⟩
      exact ⟨_, y, ys, hy, hys, rfl⟩

/-- A column always has a translation. -/
theorem translates_column (name : String) (type : DataType) :
    (column name type).Translates rules :=
  ⟨_, translate_column name type⟩

/-- An operator has a translation if its sides have. -/
theorem translates_binary {lhs rhs : Expr} {op : Op} :
    (binary lhs op rhs).Translates rules ↔ lhs.Translates rules ∧ rhs.Translates rules := by
  unfold Translates
  simp only [translate_binary_eq_ok]
  constructor
  · rintro ⟨_, l, r, hl, hr, -⟩
    exact ⟨⟨l, hl⟩, r, hr⟩
  · rintro ⟨⟨l, hl⟩, r, hr⟩
    exact ⟨_, l, r, hl, hr, rfl⟩

/-! ## Conjunctions -/

/-- The conjunction of an expression and some more, nested to the left. -/
def conjunction (e : Expr) (es : List Expr) : Expr :=
  es.foldl (fun earlier e => binary earlier .and e) e

/-- The first two predicates of a conjunction may be put together beforehand. -/
theorem conjunction_cons : conjunction e (p :: ps) = conjunction (binary e .and p) ps := rfl

/-- The conjunction of two or more expressions is an operator. -/
theorem conjunction_eq_binary (h : es ≠ []) :
    ∃ lhs rhs, conjunction e es = binary lhs .and rhs := by
  induction es generalizing e with
  | nil => exact absurd rfl h
  | cons p ps ih =>
    rw [conjunction_cons]
    cases ps with
    | nil => exact ⟨e, p, rfl⟩
    | cons p' ps => exact ih (List.cons_ne_nil _ _)

/-- The conjunction of two or more expressions yields truth values, whatever these yield. -/
theorem type_conjunction (h : es ≠ []) : (conjunction e es).type = .boolean := by
  obtain ⟨lhs, rhs, hbinary⟩ := conjunction_eq_binary (e := e) h
  rw [hbinary, type]

/-- A conjunction has a translation if all of its parts have one. -/
theorem translates_conjunction :
    (conjunction e es).Translates rules ↔ ∀ p ∈ e :: es, p.Translates rules := by
  induction es generalizing e with
  | nil => simp [conjunction]
  | cons p ps ih =>
    rw [conjunction_cons, ih]
    simp only [List.forall_mem_cons, translates_binary, and_assoc]

end Expr

namespace Query

variable {rules : TranslationTable} {t : Table} {items ps : List Expr}

/-- The condition that some predicates make. -/
def conjunction? : List Expr → Option Expr
  | [] => none
  | p :: ps => some (p.conjunction ps)

/-- A predicate goes to the end of the conjunction that the condition is. -/
theorem foldl_filter_some {q : Query} {e : Expr} (h : q.filter? = some e) (ps : List Expr) :
    ps.foldl filter q = { q with filter? := some (e.conjunction ps) } := by
  induction ps generalizing q e with
  | nil => rw [List.foldl_nil, Expr.conjunction, List.foldl_nil, ← h]
  | cons p ps ih =>
    have hfilter : q.filter p = { q with filter? := some (.binary e .and p) } := by
      rw [filter, h]
    rw [List.foldl_cons, hfilter, ih rfl, Expr.conjunction_cons]

/-- Predicates leave the table and the items, and the condition is their conjunction. -/
theorem foldl_filter_query (t : Table) (items ps : List Expr) :
    ps.foldl filter (t.query items) = ⟨t, items, conjunction? ps⟩ := by
  cases ps with
  | nil => rfl
  | cons p ps =>
    have hfilter : (t.query items).filter p = ⟨t, items, some p⟩ := rfl
    rw [List.foldl_cons, hfilter, foldl_filter_some rfl, conjunction?]

/-- Only a predicate that is alone is judged by its type. -/
theorem filterError?_conjunction? :
    (⟨t, items, conjunction? ps⟩ : Query).filterError? = none ↔
      ∀ p, ps = [p] → p.type = .boolean := by
  -- None, one, or at least two predicates: with two the condition is an operator.
  match ps with
  | [] => simp [filterError?, conjunction?]
  | [p] => simp [filterError?, conjunction?, Expr.conjunction]
  | p :: p' :: ps => simp [filterError?, conjunction?, Expr.type_conjunction]

/-- A condition has a translation if all predicates have one. -/
theorem exists_translateFilter_iff (t : Table) (items ps : List Expr) :
    (∃ y, (⟨t, items, conjunction? ps⟩ : Query).translateFilter rules = .ok y) ↔
      ∀ p ∈ ps, p.Translates rules := by
  cases ps with
  | nil => simp [translateFilter, conjunction?]
  | cons p ps =>
    rw [← Expr.translates_conjunction, ← Expr.exists_translate_item_iff]
    simp only [translateFilter, conjunction?, map_eq_ok]
    constructor
    · rintro ⟨_, x, hx, -⟩
      exact ⟨x, hx⟩
    · rintro ⟨x, hx⟩
      exact ⟨_, x, hx, rfl⟩

/-- What it takes for a query to compile, and what it compiles to. -/
theorem select_eq_ok {q : Query} {s : Select} :
    q.select rules = .ok s ↔ q.items ≠ [] ∧ q.filterError? = none ∧
      Expr.translateAll rules .item q.items = .ok s.items ∧
        q.translateFilter rules = .ok s.filter? ∧ s.source = q.table.reference := by
  constructor
  · intro h
    have hparts := of_select_eq_ok h
    -- Neither of the checks that come first has refused the query.
    unfold select at h
    split at h <;> rename_i hitems
    · simp at h
    · split at h <;> rename_i herror
      · simp at h
      · exact ⟨by simpa using hitems, herror, hparts⟩
  · rintro ⟨hitems, herror, htranslated, hfilter, hsource⟩
    obtain ⟨items, source, filter?⟩ := s
    subst hsource
    unfold select
    rw [if_neg (by simpa using hitems), herror]
    exact bind_eq_ok.mpr ⟨items, htranslated, bind_eq_ok.mpr ⟨filter?, hfilter, rfl⟩⟩

/-- A query with some predicates compiles if it has items, a predicate that is alone yields a truth
value, and all items and all predicates translate. -/
theorem exists_compile_filters_iff :
    (∃ text, (ps.foldl filter (t.query items)).compile rules = .ok text) ↔
      items ≠ [] ∧ (∀ p, ps = [p] → p.type = .boolean) ∧
        ∀ e ∈ items ++ ps, e.Translates rules := by
  rw [foldl_filter_query, List.forall_mem_append, ← Expr.exists_translateAll_item_iff,
    ← exists_translateFilter_iff t items, ← filterError?_conjunction?]
  simp only [compile, map_eq_ok, select_eq_ok]
  constructor
  · rintro ⟨_, s, ⟨hitems, herror, hxs, hy, -⟩, -⟩
    exact ⟨hitems, herror, ⟨_, hxs⟩, _, hy⟩
  · rintro ⟨hitems, herror, ⟨xs, hxs⟩, y, hy⟩
    exact ⟨_, ⟨xs, t.reference, y⟩, ⟨hitems, herror, hxs, hy, rfl⟩, rfl⟩

/-- **A predicate that yields no truth value** keeps a query from compiling exactly if it is alone,
or if the query fails for another reason: it has no items, or one of the items and the predicates
does not translate. Beside another predicate its type is not looked at. -/
theorem compile_fails_iff_of_not_boolean (rules : TranslationTable) (t : Table)
    (items ps : List Expr) (p : Expr) (hmem : p ∈ ps) (htype : p.type ≠ .boolean) :
    (∃ e, (ps.foldl filter (t.query items)).compile rules = .error e) ↔
      ps = [p] ∨ items = [] ∨ ∃ e ∈ items ++ ps, ¬ e.Translates rules := by
  have halone : (∃ p', ps = [p'] ∧ p'.type ≠ .boolean) ↔ ps = [p] := by
    constructor
    · rintro ⟨p', rfl, -⟩
      rw [List.mem_singleton.mp hmem]
    · intro h
      exact ⟨p, h, htype⟩
  rw [exists_eq_error_iff, exists_compile_filters_iff, ← halone]
  -- What is left is to deny the three conditions for compiling one by one.
  grind

/-- A table with a column of numbers and one of truth values. -/
def flagged : Table := ⟨none, "t", [("a", .int32), ("b", .boolean)]⟩

/-- The column of numbers. -/
def number : Expr := .column "a" .int32

/-- The column of truth values. -/
def flag : Expr := .column "b" .boolean

/-- The column of numbers cannot be a condition, but it can be the first, the middle or the last of
several predicates. -/
theorem compile_fails_iff_of_number :
    (∃ e, ([number].foldl filter (flagged.query [number])).compile ∅ = .error e) ∧
      ¬ ∃ e, ([flag, number, .binary number .equal number].foldl filter
        (flagged.query [number])).compile ∅ = .error e := by
  have htype : number.type ≠ .boolean := by decide
  have hnumber : number.Translates ∅ := Expr.translates_column _ _
  have hflag : flag.Translates ∅ := Expr.translates_column _ _
  constructor
  · exact (compile_fails_iff_of_not_boolean ∅ flagged [number] [number] number (by simp) htype).mpr
      (.inl rfl)
  · rw [compile_fails_iff_of_not_boolean ∅ flagged [number] _ number (by simp) htype]
    simp [Expr.translates_binary, hnumber, hflag]

/-- The query of the column of numbers under some condition. -/
def numbersWhere (condition : SqlExpr) : Select := ⟨[.column "a"], ⟨none, "t"⟩, some condition⟩

/-- The query of the column of numbers under a condition is what the predicates give, if their
conjunction yields a truth value and translates. -/
theorem select_numbersWhere {e : Expr} {x : SqlExpr} (hcondition : conjunction? ps = some e)
    (htype : e.type = .boolean) (h : e.translate rules .item = .ok x) :
    (ps.foldl filter (flagged.query [number])).select rules = .ok (numbersWhere x) := by
  rw [foldl_filter_query, hcondition, select_eq_ok]
  refine ⟨List.cons_ne_nil _ _, by simp [filterError?, htype], ?_, ?_, rfl⟩
  · exact Expr.translateAll_cons_eq_ok.mpr
      ⟨_, [], Expr.translate_column _ _, Expr.translateAll_nil, rfl⟩
  · exact map_eq_ok.mpr ⟨x, h, rfl⟩

/-- A query with a column of numbers among its predicates compiles. -/
theorem compile_number_and_flag :
    number ∈ [number, flag] ∧ number.type ≠ .boolean ∧
      ([number, flag].foldl filter (flagged.query [number])).compile ∅ =
        .ok "SELECT a FROM t WHERE (a AND b)" := by
  have htranslate : (Expr.binary number .and flag).translate ∅ .item =
      .ok (.binary (.column "a") "AND" (.column "b")) := Expr.translate_binary_eq_ok.mpr
    ⟨_, _, Expr.translate_column _ _, Expr.translate_column _ _, rfl⟩
  have hselect : ([number, flag].foldl filter (flagged.query [number])).select ∅ = _ :=
    select_numbersWhere rfl rfl htranslate
  exact ⟨List.mem_cons_self, by decide, map_eq_ok.mpr ⟨_, hselect, by decide +kernel⟩⟩

end Query

end UdfBridge
