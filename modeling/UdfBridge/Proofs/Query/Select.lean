import UdfBridge.Proofs.Query.Readable
import UdfBridge.Proofs.Query.Translate

/-!
# The text of a query determines the query

A `SELECT` is read from left to right: its items end where " FROM " stands in the place of a
separator, the table where no further character can belong to its name, and the condition at the end
of the text. Translation gives only items that can be told apart, as long as every call has the rule
that calls its function and no constant is a float. So no name and no text in a query, whatever
characters it holds, changes the structure of the statement that the query compiles to.
-/

namespace UdfBridge

open Text (Apart apart_intercalate)

/-! ## Texts of queries -/

namespace Select

/-- The items and the condition of a query are such as translation gives. -/
structure IsReadable (s : Select) : Prop where
  /-- Every item is one. -/
  items : ∀ x ∈ s.items, x.IsItem
  /-- The condition is one. -/
  filter : ∀ x ∈ s.filter?, x.IsItem

/-- The text of the condition, with the word in front of it. -/
def condition : Option SqlExpr → String
  | some filter => " WHERE " ++ filter.render
  | none => ""

/-- The text of a query, from its items to its condition. -/
theorem render_eq (s : Select) : s.render =
    "SELECT " ++ ", ".intercalate (s.items.map SqlExpr.render) ++ " FROM " ++ s.source.render ++
      condition s.filter? := by
  obtain ⟨items, source, filter?⟩ := s
  cases filter? with
  | none => rw [condition, String.append_empty, render]
  | some filter =>
    rw [condition, ← String.append_assoc]
    rfl

/-- The characters of a query, part by part. -/
theorem toList_render (s : Select) : s.render.toList = "SELECT ".toList ++
    (", ".toList.intercalate (s.items.map SqlExpr.chars) ++
      (" FROM ".toList ++ (s.source.render.toList ++ (condition s.filter?).toList))) := by
  have hitems : (s.items.map SqlExpr.render).map String.toList = s.items.map SqlExpr.chars := by
    rw [List.map_map]
    rfl
  rw [render_eq, String.toList_append, String.toList_append, String.toList_append,
    String.toList_append, String.toList_intercalate, hitems, List.append_assoc, List.append_assoc,
    List.append_assoc]

/-- What stands behind the items. -/
def FollowsItems (r : List Char) : Prop :=
  " FROM ".toList <+: r

/-- What stands behind the items starts with a blank. -/
theorem FollowsItems.exists_cons {r : List Char} (h : FollowsItems r) : ∃ s, r = ' ' :: s := by
  obtain ⟨s, rfl⟩ := h
  exact ⟨_, rfl⟩

/-- An item can end before a separator. -/
theorem endsItem_separator (r : List Char) : SqlExpr.EndsItem (", ".toList ++ r) := by
  refine ⟨EndsExpr.cons rfl, ?_⟩
  intro hpre
  simp at hpre

/-- An item can end where the items do. -/
theorem FollowsItems.endsItem {r : List Char} (h : FollowsItems r) : SqlExpr.EndsItem r := by
  obtain ⟨s, rfl⟩ := h
  refine ⟨EndsExpr.cons rfl, ?_⟩
  intro hpre
  simp at hpre

/-- What stands behind the items is not the comma before one more item. -/
theorem FollowsItems.not_separator {r : List Char} (h : FollowsItems r) :
    ¬ ", ".toList <+: r := by
  obtain ⟨s, rfl⟩ := h
  simp

/-- Lists of items are told apart from what stands behind them. -/
theorem apart_items {xs ys : List SqlExpr} (hxs : ∀ x ∈ xs, x.IsItem) (hys : ∀ y ∈ ys, y.IsItem) :
    Apart (fun zs => ", ".toList.intercalate (zs.map SqlExpr.chars)) FollowsItems xs ys := by
  refine apart_intercalate endsItem_separator (fun r hr => hr.endsItem)
    (fun r hr => hr.not_separator) xs ys ?_ ?_
  · intro r hr x hx
    obtain ⟨s, rfl⟩ := hr.exists_cons
    have hitem : x.IsItem := hx.elim (hxs x) (hys x)
    exact hitem.not_startsWith rfl
  · intro x hx y hy
    exact (hxs x hx).apart (hys y hy)

/-- A condition is a word and an expression. -/
theorem toList_condition_some (filter : SqlExpr) :
    (condition (some filter)).toList = " WHERE ".toList ++ filter.chars := by
  rw [condition, String.toList_append, SqlExpr.chars]

/-- Behind the name of the table stands nothing that could belong to it. -/
theorem endsQualified_condition (filter? : Option SqlExpr) :
    QualifiedName.EndsQualified (condition filter?).toList := by
  cases filter? with
  | none => exact EndsExpr.nil.endsQualified
  | some filter =>
    rw [toList_condition_some]
    have hends : EndsExpr (" WHERE ".toList ++ filter.chars) := EndsExpr.cons rfl
    exact hends.endsQualified

/-- A condition is not the lack of one. -/
theorem toList_condition_some_ne (filter : SqlExpr) :
    (condition (some filter)).toList ≠ (condition none).toList := by
  rw [toList_condition_some]
  exact List.cons_ne_nil _ _

/-- Conditions are told apart, and so are a condition and none. -/
theorem condition_inj {f g : Option SqlExpr} (hf : ∀ x ∈ f, x.IsItem) (hg : ∀ x ∈ g, x.IsItem)
    (h : (condition f).toList = (condition g).toList) : f = g := by
  have hnil : SqlExpr.EndsItem [] := ⟨EndsExpr.nil, by simp⟩
  cases f with
  | none =>
    cases g with
    | none => rfl
    | some y => exact absurd h.symm (toList_condition_some_ne y)
  | some x =>
    cases g with
    | none => exact absurd h (toList_condition_some_ne x)
    | some y =>
      -- Both conditions end the text, so nothing stands behind them.
      rw [toList_condition_some, toList_condition_some, List.append_cancel_left_eq] at h
      have hchars : x.chars ++ [] = y.chars ++ [] := by rw [h]
      obtain ⟨rfl, -⟩ := (hf x rfl).apart (hg y rfl) [] [] hnil hnil hchars
      rfl

/-- Queries with the same text are the same. -/
theorem eq_of_render_eq {s t : Select} (hs : s.IsReadable) (ht : t.IsReadable)
    (h : s.render = t.render) : s = t := by
  have hchars := congrArg String.toList h
  rw [toList_render, toList_render, List.append_cancel_left_eq] at hchars
  -- Items, table and condition are told apart in the order in which they stand.
  obtain ⟨hitems, hfrom⟩ := apart_items hs.items ht.items _ _ (List.prefix_append _ _)
    (List.prefix_append _ _) hchars
  obtain ⟨hsource, hcondition⟩ := QualifiedName.apart_render s.source t.source _ _
    (endsQualified_condition _) (endsQualified_condition _) (List.append_cancel_left hfrom)
  have hfilter := condition_inj hs.filter ht.filter hcondition
  obtain ⟨items, source, filter?⟩ := s
  obtain ⟨items', source', filter'?⟩ := t
  cases hitems
  cases hsource
  cases hfilter
  rfl

end Select

/-! ## What translation gives -/

namespace Expr

variable {rules : TranslationTable}

mutual

/-- An operand translates to an operand. The induction is on the expression; an alias adds nothing,
and a call passes its arguments on as operands. -/
theorem isOperand_of_translate (e : Expr) (hcalls : e.Registered rules) (hreal : e.RealFree)
    {x : SqlExpr} (h : e.translate rules .operand = .ok x) : x.IsOperand := by
  match e with
  | constant value =>
    -- Every constant but a float has a literal that can be read back.
    rw [translate_constant, Except.ok.injEq] at h
    subst h
    have hvalue : ∀ r, value ≠ .real r := by
      rintro r rfl
      exact hreal r (mem_subexprs_self _)
    obtain ⟨text, htext⟩ : ∃ text, value.translate = .literal text := by
      cases value with
      | bool b => cases b <;> exact ⟨_, rfl⟩
      | int | string | real | bytes => exact ⟨_, rfl⟩
    rw [htext]
    exact .literal ⟨value, hvalue, htext⟩
  | column name type =>
    rw [translate_column, Except.ok.injEq] at h
    subst h
    exact .column name
  | binary lhs op rhs =>
    obtain ⟨l, r, hl, hr, rfl⟩ := translate_binary_eq_ok.mp h
    refine .binary op ?_ ?_
    · exact isOperand_of_translate lhs (hcalls.of_subset subexprs_subset_binary_left)
        (hreal.of_subset subexprs_subset_binary_left) hl
    · exact isOperand_of_translate rhs (hcalls.of_subset subexprs_subset_binary_right)
        (hreal.of_subset subexprs_subset_binary_right) hr
  | call k args =>
    -- The rule calls the function by name, so the translation is a call of readable arguments.
    obtain ⟨xs, hxs, rfl⟩ := (translate_call_eq_ok hcalls.rule_call).mp h
    refine .call k.signature.reference ?_
    exact isOperand_of_translateAll args
      (fun a ha => hcalls.of_subset (subexprs_subset_call ha))
      (fun a ha => hreal.of_subset (subexprs_subset_call ha)) hxs
  | named e name =>
    -- Inside another expression the name is dropped.
    rw [translate_named_operand] at h
    exact isOperand_of_translate e (hcalls.of_subset subexprs_subset_named)
      (hreal.of_subset subexprs_subset_named) h

/-- Operands translate to operands. -/
theorem isOperand_of_translateAll (es : List Expr) (hcalls : ∀ e ∈ es, e.Registered rules)
    (hreal : ∀ e ∈ es, e.RealFree) {xs : List SqlExpr}
    (h : translateAll rules .operand es = .ok xs) : ∀ x ∈ xs, x.IsOperand := by
  match es with
  | [] =>
    rw [translateAll_nil, Except.ok.injEq] at h
    subst h
    simp
  | e :: es =>
    obtain ⟨y, ys, hy, hys, rfl⟩ := translateAll_cons_eq_ok.mp h
    intro x hx
    rcases List.mem_cons.mp hx with rfl | hx
    · exact isOperand_of_translate e (hcalls e List.mem_cons_self) (hreal e List.mem_cons_self) hy
    · exact isOperand_of_translateAll es (fun a ha => hcalls a (List.mem_cons_of_mem _ ha))
        (fun a ha => hreal a (List.mem_cons_of_mem _ ha)) hys x hx

end

/-- An item translates to an item: an operand, with a name if it is an alias. -/
theorem isItem_of_translate {e : Expr} (hcalls : e.Registered rules) (hreal : e.RealFree)
    {x : SqlExpr} (h : e.translate rules .item = .ok x) : x.IsItem := by
  rw [translate_item] at h
  obtain ⟨y, hy, rfl⟩ := map_eq_ok.mp h
  have hoperand := isOperand_of_translate e hcalls hreal hy
  cases e.name? with
  | none => exact .operand hoperand
  | some name => exact .label name hoperand

/-- Items translate to items. -/
theorem isItem_of_translateAll {es : List Expr} (hcalls : ∀ e ∈ es, e.Registered rules)
    (hreal : ∀ e ∈ es, e.RealFree) {xs : List SqlExpr}
    (h : translateAll rules .item es = .ok xs) : ∀ x ∈ xs, x.IsItem := by
  induction es generalizing xs with
  | nil =>
    rw [translateAll_nil, Except.ok.injEq] at h
    subst h
    simp
  | cons e es ih =>
    obtain ⟨y, ys, hy, hys, rfl⟩ := translateAll_cons_eq_ok.mp h
    intro x hx
    rcases List.mem_cons.mp hx with rfl | hx
    · exact isItem_of_translate (hcalls e List.mem_cons_self) (hreal e List.mem_cons_self) hy
    · exact ih (fun a ha => hcalls a (List.mem_cons_of_mem _ ha))
        (fun a ha => hreal a (List.mem_cons_of_mem _ ha)) hys x hx

end Expr

namespace Query

variable {rules : TranslationTable} {q : Query} {s : Select}

/-- A query that compiles has items and a condition that translate, and a table. -/
theorem of_select_eq_ok (h : q.select rules = .ok s) :
    Expr.translateAll rules .item q.items = .ok s.items ∧
      q.translateFilter rules = .ok s.filter? ∧ s.source = q.table.reference := by
  unfold select at h
  split at h
  · simp at h
  · split at h
    · simp at h
    · simp only [bind_eq_ok, pure, Except.pure, Except.ok.injEq] at h
      obtain ⟨items, hitems, filter?, hfilter, rfl⟩ := h
      exact ⟨hitems, hfilter, rfl⟩

/-- What a query compiles to can be read back. -/
theorem isReadable_of_select (hcalls : ∀ e ∈ q.exprs, e.Registered rules)
    (hreal : ∀ e ∈ q.exprs, e.RealFree) (h : q.select rules = .ok s) : s.IsReadable := by
  obtain ⟨hitems, hfilter, -⟩ := of_select_eq_ok h
  constructor
  · -- The items are among the expressions of the query.
    exact Expr.isItem_of_translateAll
      (fun e he => hcalls e (List.mem_append_left _ he))
      (fun e he => hreal e (List.mem_append_left _ he)) hitems
  · intro x hx
    unfold translateFilter at hfilter
    split at hfilter
    · -- There is a condition, and it is one of the expressions too.
      rename_i e he
      obtain ⟨y, hy, hsome⟩ := map_eq_ok.mp hfilter
      obtain rfl : y = x := by
        rw [← hsome] at hx
        simpa using hx
      have hmem : e ∈ q.exprs := by simp [exprs, he]
      exact Expr.isItem_of_translate (hcalls e hmem) (hreal e hmem) hy
    · rw [Except.ok.injEq] at hfilter
      rw [← hfilter] at hx
      simp at hx

/-- **Queries that compile to the same text compile to the same query**: the same items with the
same names, the same table and the same condition. Schema, table, columns, aliases, functions and
constants may hold any characters, and each query may be compiled by rules of its own. -/
theorem select_eq_of_compile_eq (rules rules' : TranslationTable) (q q' : Query)
    (hcalls : ∀ e ∈ q.exprs, e.Registered rules) (hcalls' : ∀ e ∈ q'.exprs, e.Registered rules')
    (hreal : ∀ e ∈ q.exprs, e.RealFree) (hreal' : ∀ e ∈ q'.exprs, e.RealFree) (text : String)
    (h : q.compile rules = .ok text) (h' : q'.compile rules' = .ok text) :
    ∃ s : Select, q.select rules = .ok s ∧ q'.select rules' = .ok s := by
  obtain ⟨s, hs, hrender⟩ := map_eq_ok.mp h
  obtain ⟨s', hs', hrender'⟩ := map_eq_ok.mp h'
  have heq : s = s' := Select.eq_of_render_eq (isReadable_of_select hcalls hreal hs)
    (isReadable_of_select hcalls' hreal' hs') (hrender.trans hrender'.symm)
  subst heq
  exact ⟨s, hs, hs'⟩

/-- A function whose schema and name need quotes. -/
def awkwardKind : NodeKind :=
  ⟨"f_0", ⟨"f(\"x\")", [⟨"v0", .int64⟩, ⟨"v1", .string⟩], .boolean, some "a.b"⟩⟩

/-- The rules with that of the function alone. -/
def awkwardRules : TranslationTable :=
  (∅ : TranslationTable).insert awkwardKind.id (Registry.callRule awkwardKind)

/-- A query whose names and texts hold the words and the separators of queries. The column has type
`type`, and `rename` may give a name to an argument and to a side of the condition. -/
def awkwardQuery (type : DataType) (rename : Expr → Expr) : Query :=
  { table := ⟨some "s, t", "t FROM x", [("a\" AS b", type)]⟩
    items := [
      .named
        (.call awkwardKind [rename (.column "a\" AS b" type), .constant (.string "'), (x")])
        "n, m FROM t WHERE (x)",
      .binary (.constant (.int (-1))) .add (.column "a\" AS b" type)]
    filter? := some (.binary (rename (.column "c.d" .binary)) .equal (.constant (.bytes [39]))) }

/-- What the query translates to. -/
def awkwardSelect : Select :=
  { items := [
      .label (.call ⟨some "a.b", "f(\"x\")"⟩ [.column "a\" AS b", .literal "'''), (x'"])
        "n, m FROM t WHERE (x)",
      .binary (.literal "-1") "+" (.column "a\" AS b")]
    source := ⟨some "s, t", "t FROM x"⟩
    filter? := some (.binary (.column "c.d") "=" (.literal "'\\x27'::bytea")) }

/-- The text that the query compiles to. -/
def awkwardText : String :=
  "SELECT \"a.b\".\"f(\"\"x\"\")\"(\"a\"\" AS b\", '''), (x') AS \"n, m FROM t WHERE (x)\", " ++
    "(-1 + \"a\"\" AS b\") FROM \"s, t\".\"t FROM x\" WHERE (\"c.d\" = '\\x27'::bytea)"

/-- The text of the query does not depend on the type of the column, nor on names inside a call or a
condition. -/
theorem compile_awkwardQuery (type : DataType) {rename : Expr → Expr}
    (hrename : rename = id ∨ rename = fun e => .named e "z") :
    (awkwardQuery type rename).compile awkwardRules = .ok awkwardText := by
  have hrule : awkwardRules[awkwardKind.id]? = some (Registry.callRule awkwardKind) := by
    rw [awkwardRules, Std.TreeMap.getElem?_insert_self]
  have htext : (Constant.string "'), (x").translate = .literal "'''), (x'" :=
    congrArg SqlExpr.literal (by decide +kernel)
  have hint : (Constant.int (-1)).translate = .literal "-1" :=
    congrArg SqlExpr.literal (by decide +kernel)
  have hbytes : (Constant.bytes [39]).translate = .literal "'\\x27'::bytea" :=
    congrArg SqlExpr.literal (by decide +kernel)
  have hselect : (awkwardQuery type rename).select awkwardRules = .ok awkwardSelect := by
    -- Both renamings disappear: the one inside the call and the one of the condition.
    unfold select
    rcases hrename with rfl | rfl <;>
      simp only [awkwardQuery, translateFilter, Expr.translateAll_cons, Expr.translateAll_nil,
        Expr.translate_named_item, Expr.translate_named_operand, Expr.translate_call _ hrule,
        Expr.translate_binary, Expr.translate_column, Expr.translate_constant, filterError?,
        Expr.type, id, htext, hint, hbytes] <;>
      rfl
  have hrender : awkwardSelect.render = awkwardText := by decide +kernel
  exact map_eq_ok.mpr ⟨awkwardSelect, hselect, hrender⟩

/-- The call in the awkward query has its rule. -/
theorem registered_awkwardQuery (type : DataType) {rename : Expr → Expr}
    (hrename : rename = id ∨ rename = fun e => .named e "z") :
    ∀ e ∈ (awkwardQuery type rename).exprs, e.Registered awkwardRules := by
  intro e he k args hcall
  have hk : k = awkwardKind := by
    rcases hrename with rfl | rfl <;>
      simp [awkwardQuery, exprs] at he <;>
      rcases he with rfl | rfl | rfl <;>
      simp [Expr.subexprs, Expr.subexprsAll] at hcall <;>
      exact hcall.1
  rw [hk, awkwardRules, Std.TreeMap.getElem?_insert_self]

/-- No float occurs in the awkward query. -/
theorem realFree_awkwardQuery (type : DataType) {rename : Expr → Expr}
    (hrename : rename = id ∨ rename = fun e => .named e "z") :
    ∀ e ∈ (awkwardQuery type rename).exprs, e.RealFree := by
  intro e he x hx
  rcases hrename with rfl | rfl <;>
    simp [awkwardQuery, exprs] at he <;>
    rcases he with rfl | rfl | rfl <;>
    simp [Expr.subexprs, Expr.subexprsAll] at hx

/-- Two queries that differ in a type and in names inside a call and a condition compile to the same
text, and so to the same query. -/
theorem select_eq_of_inner_names : ∃ s : Select,
    (awkwardQuery .int64 fun e => .named e "z").compile awkwardRules = .ok awkwardText ∧
      (awkwardQuery .int32 id).compile awkwardRules = .ok awkwardText ∧
      (awkwardQuery .int64 fun e => .named e "z").select awkwardRules = .ok s ∧
      (awkwardQuery .int32 id).select awkwardRules = .ok s := by
  have h := compile_awkwardQuery .int64 (.inr rfl)
  have h' := compile_awkwardQuery .int32 (.inl rfl)
  obtain ⟨s, hs, hs'⟩ := select_eq_of_compile_eq _ _ _ _
    (registered_awkwardQuery .int64 (.inr rfl)) (registered_awkwardQuery .int32 (.inl rfl))
    (realFree_awkwardQuery .int64 (.inr rfl)) (realFree_awkwardQuery .int32 (.inl rfl)) _ h h'
  exact ⟨s, h, h', hs, hs'⟩

end Query

end UdfBridge
