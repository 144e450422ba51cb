import UdfBridge.Proofs.Query.Condition

/-!
# Aliases

`Expr.erase` removes every alias from an expression. As long as every call has the rule that calls
its function, an operand translates as it does without its aliases, and no name is left in the
translation, at any depth. Only an alias that is a whole item keeps its name. A condition is
translated as an item, though. So it carries a name exactly if it is a single predicate that is an
alias; beside another predicate the alias is an operand, and its name is dropped.
-/

namespace UdfBridge

/-! ## Expressions of SQL with names in them -/

namespace SqlExpr

mutual

/-- Whether a name for a column of the result stands in the expression, at any depth. -/
def hasLabel : SqlExpr → Bool
  | literal _ => false
  | column _ => false
  | binary lhs _ rhs => lhs.hasLabel || rhs.hasLabel
  | call _ args => anyLabel args
  | label _ _ => true

/-- Whether one of the expressions has a name in it. -/
def anyLabel : List SqlExpr → Bool
  | [] => false
  | e :: es => e.hasLabel || anyLabel es

end

/-- The expression without the name for the whole of it. -/
def unlabel : SqlExpr → SqlExpr
  | label e _ => e
  | e => e

/-- An expression without names has none for the whole of it. -/
theorem unlabel_of_hasLabel {e : SqlExpr} (h : e.hasLabel = false) : e.unlabel = e := by
  cases e with
  | label e name => simp [hasLabel] at h
  | literal | column | binary | call => rfl

/-- A name is seen in the text. -/
theorem render_label_ne (e : SqlExpr) (name : String) : (label e name).render ≠ e.render := by
  intro h
  have hlength := congrArg String.length h
  have hword : " AS ".length = 4 := by decide
  rw [render, String.length_append, String.length_append, hword] at hlength
  omega

end SqlExpr

/-- A constant is a literal. -/
theorem Constant.hasLabel_translate (value : Constant) : value.translate.hasLabel = false := by
  cases value with
  | bool b => cases b <;> rfl
  | int | string | real | bytes => rfl

namespace Expr

variable {rules : TranslationTable} {e p : Expr} {es ps : List Expr} {x : SqlExpr}

/-! ## Expressions without aliases -/

mutual

/-- The expression without the aliases in it. -/
def erase : Expr → Expr
  | constant value => constant value
  | column name type => column name type
  | binary lhs op rhs => binary lhs.erase op rhs.erase
  | call kind args => call kind (eraseAll args)
  | named expr _ => expr.erase

/-- The expressions without the aliases in them. -/
def eraseAll : List Expr → List Expr
  | [] => []
  | e :: es => e.erase :: eraseAll es

end

/-- The aliases are erased from each expression of a list. -/
theorem eraseAll_eq_map (es : List Expr) : eraseAll es = es.map erase := by
  induction es with
  | nil => rfl
  | cons e es ih => rw [eraseAll, ih, List.map_cons]

/-- An alias does not change the type, nor does one inside an operator. -/
theorem type_erase (e : Expr) : e.erase.type = e.type := by
  match e with
  | constant value => rfl
  | column name type => rfl
  | binary lhs op rhs =>
    have hlhs := type_erase lhs
    have hrhs := type_erase rhs
    cases op <;> simp only [erase, type, hlhs, hrhs]
  | call kind args => rfl
  | named e name => exact type_erase e

/-- No alias is left. -/
theorem erase_ne_named (e e' : Expr) (name : String) : e.erase ≠ named e' name := by
  match e with
  | constant _ | column _ _ | binary _ _ _ | call _ _ => simp [erase]
  | named e _ => exact erase_ne_named e e' name

mutual

/-- An operand translates as it does without its aliases. The induction is on the expression; a call
hands its arguments on as operands. -/
theorem translate_erase (e : Expr) (hcalls : e.Registered rules) :
    e.erase.translate rules .operand = e.translate rules .operand := by
  match e with
  | constant value => rfl
  | column name type => rfl
  | binary lhs op rhs =>
    have hlhs := translate_erase lhs (hcalls.of_subset subexprs_subset_binary_left)
    have hrhs := translate_erase rhs (hcalls.of_subset subexprs_subset_binary_right)
    rw [erase, translate_binary, translate_binary, hlhs, hrhs]
  | call k args =>
    have hargs := translateAll_eraseAll args fun a ha => hcalls.of_subset (subexprs_subset_call ha)
    rw [erase, translate_call _ hcalls.rule_call, translate_call _ hcalls.rule_call, hargs]
  | named e name =>
    rw [erase, translate_named_operand]
    exact translate_erase e (hcalls.of_subset subexprs_subset_named)

/-- Operands translate as they do without their aliases. -/
theorem translateAll_eraseAll (es : List Expr) (hcalls : ∀ e ∈ es, e.Registered rules) :
    translateAll rules .operand (eraseAll es) = translateAll rules .operand es := by
  match es with
  | [] => rfl
  | e :: es =>
    have hhead := translate_erase e (hcalls e List.mem_cons_self)
    have htail := translateAll_eraseAll es fun a ha => hcalls a (List.mem_cons_of_mem _ ha)
    rw [eraseAll, translateAll_cons, translateAll_cons, hhead, htail]

end

mutual

/-- No name is left in the translation of an operand. -/
theorem hasLabel_of_translate (e : Expr) (hcalls : e.Registered rules) {x : SqlExpr}
    (h : e.translate rules .operand = .ok x) : x.hasLabel = false := by
  match e with
  | constant value =>
    rw [translate_constant, Except.ok.injEq] at h
    rw [← h]
    exact value.hasLabel_translate
  | column name type =>
    rw [translate_column, Except.ok.injEq] at h
    rw [← h, SqlExpr.hasLabel]
  | binary lhs op rhs =>
    obtain ⟨l, r, hl, hr, rfl⟩ := translate_binary_eq_ok.mp h
    have hleft := hasLabel_of_translate lhs (hcalls.of_subset subexprs_subset_binary_left) hl
    have hright := hasLabel_of_translate rhs (hcalls.of_subset subexprs_subset_binary_right) hr
    rw [SqlExpr.hasLabel, hleft, hright, Bool.or_false]
  | call k args =>
    obtain ⟨xs, hxs, rfl⟩ := (translate_call_eq_ok hcalls.rule_call).mp h
    rw [SqlExpr.hasLabel]
    exact anyLabel_of_translateAll args
      (fun a ha => hcalls.of_subset (subexprs_subset_call ha)) hxs
  -- The name is what an operand loses, so the label of the item never comes up here.
  | named e name =>
    rw [translate_named_operand] at h
    exact hasLabel_of_translate e (hcalls.of_subset subexprs_subset_named) h

/-- No name is left in the translations of operands. -/
theorem anyLabel_of_translateAll (es : List Expr) (hcalls : ∀ e ∈ es, e.Registered rules)
    {xs : List SqlExpr} (h : translateAll rules .operand es = .ok xs) :
    SqlExpr.anyLabel xs = false := by
  match es with
  | [] =>
    rw [translateAll_nil, Except.ok.injEq] at h
    rw [← h, SqlExpr.anyLabel]
  | e :: es =>
    obtain ⟨y, ys, hy, hys, rfl⟩ := translateAll_cons_eq_ok.mp h
    have hhead := hasLabel_of_translate e (hcalls e List.mem_cons_self) hy
    have htail := anyLabel_of_translateAll es (fun a ha => hcalls a (List.mem_cons_of_mem _ ha)) hys
    rw [SqlExpr.anyLabel, hhead, htail, Bool.or_false]

end

/-! ## Items -/

/-- A name is left in the translation of an item if the item is an alias. -/
theorem hasLabel_item_iff (hcalls : e.Registered rules) (h : e.translate rules .item = .ok x) :
    x.hasLabel = true ↔ ∃ e' name, e = named e' name := by
  rw [translate_item] at h
  obtain ⟨y, hy, rfl⟩ := map_eq_ok.mp h
  have hplain := hasLabel_of_translate e hcalls hy
  cases e with
  | named e name => simp [name?, SqlExpr.hasLabel]
  | constant | column | binary | call => simp [name?, hplain]

/-- Without its aliases, an item translates to the same without the name for the whole of it. -/
theorem translate_item_erase (hcalls : e.Registered rules) (h : e.translate rules .item = .ok x) :
    e.erase.translate rules .item = .ok x.unlabel := by
  rw [translate_item] at h
  obtain ⟨y, hy, rfl⟩ := map_eq_ok.mp h
  rw [translate_item_eq_operand (erase_ne_named e), translate_erase e hcalls, hy]
  cases e.name? with
  | none =>
    have hplain := SqlExpr.unlabel_of_hasLabel (hasLabel_of_translate e hcalls hy)
    exact congrArg Except.ok hplain.symm
  | some name => rfl

/-! ## Conjunctions -/

/-- A conjunction without its aliases is the conjunction of the predicates without theirs. -/
theorem erase_conjunction :
    (conjunction e es).erase = conjunction e.erase (es.map erase) := by
  induction es generalizing e with
  | nil => rfl
  | cons p ps ih => rw [conjunction_cons, ih, List.map_cons, conjunction_cons, erase]

/-- A conjunction has the rules that its predicates have. -/
theorem registered_conjunction (hcalls : ∀ p ∈ e :: es, p.Registered rules) :
    (conjunction e es).Registered rules := by
  induction es generalizing e with
  | nil => exact hcalls e List.mem_cons_self
  | cons p ps ih =>
    rw [List.forall_mem_cons, List.forall_mem_cons] at hcalls
    obtain ⟨he, hp, hps⟩ := hcalls
    rw [conjunction_cons]
    exact ih (List.forall_mem_cons.mpr ⟨he.binary hp, hps⟩)

/-- Only a single alias is a conjunction that is an alias. -/
theorem conjunction_eq_named_iff {e' : Expr} {name : String} :
    conjunction e es = named e' name ↔ e :: es = [named e' name] := by
  cases es with
  | nil => simp [conjunction]
  | cons p ps =>
    obtain ⟨lhs, rhs, hbinary⟩ := conjunction_eq_binary (e := e) (List.cons_ne_nil p ps)
    simp [hbinary]

end Expr

namespace Select

/-- The query with a condition that has no name for the whole of it. -/
def unlabelFilter (s : Select) : Select :=
  { s with filter? := s.filter?.map SqlExpr.unlabel }

/-- A query without a condition has no name for one. -/
theorem unlabelFilter_of_none {s : Select} (h : s.filter? = none) : s.unlabelFilter = s := by
  obtain ⟨items, source, filter?⟩ := s
  cases h
  rfl

/-- A condition without names has no name for the whole of it. -/
theorem unlabelFilter_of_hasLabel {s : Select} {x : SqlExpr} (h : s.filter? = some x)
    (hlabel : x.hasLabel = false) : s.unlabelFilter = s := by
  obtain ⟨items, source, filter?⟩ := s
  cases h
  rw [unlabelFilter, Option.map_some, SqlExpr.unlabel_of_hasLabel hlabel]

/-- A name for the whole of the condition is seen in the text. -/
theorem render_unlabelFilter_ne {s : Select} {x : SqlExpr} {name : String}
    (h : s.filter? = some (.label x name)) : s.unlabelFilter.render ≠ s.render := by
  intro heq
  have hcondition := congrArg String.toList heq
  rw [toList_render, toList_render, unlabelFilter, h, Option.map_some, SqlExpr.unlabel] at hcondition
  -- The texts have all but the condition in common.
  simp only [List.append_cancel_left_eq, toList_condition_some] at hcondition
  exact x.render_label_ne name (String.toList_inj.mp hcondition.symm)

end Select

namespace Query

variable {rules : TranslationTable} {t : Table} {items ps : List Expr} {s : Select}

/-- The condition of a query with some predicates is the translation of their conjunction. -/
theorem translate_conjunction_of_select
    (h : (ps.foldl filter (t.query items)).select rules = .ok s) :
    (ps = [] ∧ s.filter? = none) ∨ ∃ p ps' x, ps = p :: ps' ∧
      (p.conjunction ps').translate rules .item = .ok x ∧ s.filter? = some x := by
  rw [foldl_filter_query, select_eq_ok] at h
  obtain ⟨-, -, -, hfilter, -⟩ := h
  cases ps with
  | nil =>
    rw [translateFilter, conjunction?, Except.ok.injEq] at hfilter
    exact .inl ⟨rfl, hfilter.symm⟩
  | cons p ps =>
    obtain ⟨x, hx, hsome⟩ := map_eq_ok.mp hfilter
    exact .inr ⟨p, ps, x, rfl, hx, hsome.symm⟩

/-- Without the aliases in its predicates, a query compiles to the same, but for a name for the
whole of the condition. -/
theorem select_map_erase (hcalls : ∀ p ∈ ps, p.Registered rules)
    (h : (ps.foldl filter (t.query items)).select rules = .ok s) :
    ((ps.map Expr.erase).foldl filter (t.query items)).select rules = .ok s.unlabelFilter := by
  obtain ⟨rfl, hnone⟩ | ⟨p, ps, x, rfl, hx, hsome⟩ := translate_conjunction_of_select h
  · rw [List.map_nil, Select.unlabelFilter_of_none hnone]
    exact h
  · have hregistered := Expr.registered_conjunction hcalls
    have hitem := Expr.translate_item_erase hregistered hx
    have htype := Expr.type_erase (p.conjunction ps)
    rw [Expr.erase_conjunction] at hitem htype
    rw [foldl_filter_query, select_eq_ok] at h ⊢
    obtain ⟨hitems, herror, htranslated, -, hsource⟩ := h
    refine ⟨hitems, ?_, htranslated, ?_, hsource⟩
    · -- The condition is judged by its type, which no alias changes.
      rw [filterError?, List.map_cons, conjunction?]
      rw [filterError?, conjunction?] at herror
      simpa only [htype] using herror
    · rw [translateFilter, List.map_cons, conjunction?, Select.unlabelFilter, hsome]
      exact map_eq_ok.mpr ⟨x.unlabel, hitem, rfl⟩

/-- **The condition of a query carries a name exactly if the query has one predicate, which is an
alias.** Then, and only then, the text differs from that of the query without the aliases in its
predicates. -/
theorem hasLabel_filter_iff (rules : TranslationTable) (t : Table) (items ps : List Expr)
    (s : Select) (hcalls : ∀ p ∈ ps, p.Registered rules)
    (h : (ps.foldl filter (t.query items)).select rules = .ok s) :
    ((∃ x ∈ s.filter?, x.hasLabel = true) ↔ ∃ e name, ps = [.named e name]) ∧
      (((ps.map Expr.erase).foldl filter (t.query items)).compile rules = .ok s.render ↔
        ¬ ∃ e name, ps = [.named e name]) := by
  have hcompile : ((ps.map Expr.erase).foldl filter (t.query items)).compile rules =
      .ok s.unlabelFilter.render := map_eq_ok.mpr ⟨_, select_map_erase hcalls h, rfl⟩
  rw [hcompile, Except.ok.injEq]
  obtain ⟨rfl, hnone⟩ | ⟨p, ps, x, rfl, hx, hsome⟩ := translate_conjunction_of_select h
  · -- Without predicates there is no condition, and nothing to remove.
    simp [hnone, Select.unlabelFilter_of_none hnone]
  · have hlabel := Expr.hasLabel_item_iff (Expr.registered_conjunction hcalls) hx
    simp only [Expr.conjunction_eq_named_iff] at hlabel
    have hfilter : (∃ x ∈ s.filter?, x.hasLabel = true) ↔ x.hasLabel = true := by
      simp [hsome]
    refine ⟨hfilter.trans hlabel, ?_⟩
    by_cases halone : ∃ e name, p :: ps = [.named e name]
    · -- The condition is an item with a name, which is seen in the text.
      obtain ⟨e, name, hnamed⟩ := halone
      obtain ⟨y, rfl⟩ : ∃ y, x = .label y name := by
        rw [Expr.conjunction_eq_named_iff.mpr hnamed] at hx
        obtain ⟨y, -, rfl⟩ := Expr.translate_named_item_eq_ok.mp hx
        exact ⟨y, rfl⟩
      exact iff_of_false (Select.render_unlabelFilter_ne hsome)
        (not_not_intro ⟨e, name, hnamed⟩)
    · -- The condition has no name in it, so without the aliases it is the same.
      have hplain : x.hasLabel = false := Bool.eq_false_iff.mpr fun ht => halone (hlabel.mp ht)
      rw [Select.unlabelFilter_of_hasLabel hsome hplain]
      exact iff_of_true rfl halone

/-- A function of truth values. -/
def checkKind : NodeKind := ⟨"f_0", ⟨"f", [⟨"v0", .int32⟩], .boolean, none⟩⟩

/-- The rules with that of the function alone. -/
def checkRules : TranslationTable :=
  (∅ : TranslationTable).insert checkKind.id (Registry.callRule checkKind)

/-- A call with a name, of an argument with a name. -/
def namedCheck : Expr := .named (.call checkKind [.named number "n"]) "x"

/-- What the call translates to as an operand. -/
def check : SqlExpr := .call ⟨none, "f"⟩ [.column "a"]

/-- The call in the named condition has its rule. -/
theorem registered_namedCheck : namedCheck.Registered checkRules := by
  intro k args hmem
  obtain rfl : k = checkKind := by
    simp [namedCheck, number, Expr.subexprs, Expr.subexprsAll] at hmem
    exact hmem.1
  rw [checkRules, Std.TreeMap.getElem?_insert_self]

/-- The call in the named condition translates without the name of its argument. -/
theorem translate_check :
    (Expr.call checkKind [.named number "n"]).translate checkRules .operand = .ok check := by
  have hcall := registered_namedCheck.of_subset Expr.subexprs_subset_named
  refine (Expr.translate_call_eq_ok hcall.rule_call).mpr ⟨[.column "a"], ?_, rfl⟩
  exact Expr.translateAll_cons_eq_ok.mpr ⟨_, [],
    (Expr.translate_named_operand _ _).trans (Expr.translate_column _ _), Expr.translateAll_nil, rfl⟩

/-- The name of the argument is dropped in any case, and that of a predicate beside another one. -/
theorem hasLabel_filter_iff_of_namedCheck :
    (∃ x ∈ (numbersWhere (.label check "x")).filter?, x.hasLabel = true) ∧
      ¬ (∃ x ∈ (numbersWhere (.binary check "AND" (.column "b"))).filter?, x.hasLabel = true) ∧
      ([namedCheck.erase, flag].foldl filter (flagged.query [number])).compile checkRules =
        .ok (numbersWhere (.binary check "AND" (.column "b"))).render := by
  have hflag : (Expr.named flag "y").Registered checkRules := by
    intro k args hmem
    simp [flag, Expr.subexprs] at hmem
  have halone := hasLabel_filter_iff checkRules flagged [number] [namedCheck]
    (numbersWhere (.label check "x")) (by simpa using registered_namedCheck)
    (select_numbersWhere rfl rfl
      (Expr.translate_named_item_eq_ok.mpr ⟨_, translate_check, rfl⟩))
  have hboth := hasLabel_filter_iff checkRules flagged [number] [namedCheck, .named flag "y"]
    (numbersWhere (.binary check "AND" (.column "b")))
    (by simpa using ⟨registered_namedCheck, hflag⟩)
    (select_numbersWhere rfl rfl (Expr.translate_binary_eq_ok.mpr ⟨_, _,
      (Expr.translate_named_operand _ _).trans translate_check,
      (Expr.translate_named_operand _ _).trans (Expr.translate_column _ _), rfl⟩))
  refine ⟨halone.1.mpr ⟨_, _, rfl⟩, ?_, ?_⟩
  · rw [hboth.1]
    simp
  · exact hboth.2.mpr (by simp)

/-- Where the column of truth values with a name is the condition, the name is left in it. -/
theorem compile_named_flag :
    (∃ s x, ([.named flag "x"].foldl filter (flagged.query [number])).select ∅ = .ok s ∧
        s.filter? = some x ∧ x.hasLabel = true ∧ s.render = "SELECT a FROM t WHERE b AS x") ∧
      ([(Expr.named flag "x").erase].foldl filter (flagged.query [number])).compile ∅ =
        .ok "SELECT a FROM t WHERE b" := by
  have hflag : flag.translate ∅ .operand = .ok (.column "b") := Expr.translate_column _ _
  constructor
  · refine ⟨numbersWhere (.label (.column "b") "x"), _, ?_, rfl, rfl, by decide +kernel⟩
    exact select_numbersWhere rfl rfl (Expr.translate_named_item_eq_ok.mpr ⟨_, hflag, rfl⟩)
  · refine map_eq_ok.mpr ⟨numbersWhere (.column "b"), ?_, by decide +kernel⟩
    exact select_numbersWhere rfl rfl (Expr.translate_column _ _)

end Query

end UdfBridge
