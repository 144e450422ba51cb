import UdfBridge.Proofs.Query.Alias

/-!
# What a query fails with

A translation takes an expression before its parts, and the parts from left to right. So it fails
with the first thing that is wrong in this order. Where all rules call functions, that is the first
call whose kind has no rule. `Expr.failure?_translate` says so by one equation: two steps fail as the
first of them does, or else as the second, and a search through two lists finds what it finds in the
first of them, or else in the second.

`Query.faults` lists all that is wrong with a query, in the order in which it counts, and the query
fails with the first of them (`Query.fails_by_first_fault`).
-/

namespace UdfBridge

namespace Expr

variable {rules : TranslationTable} {e : Expr} {k : NodeKind}

/-! ## Missing rules -/

/-- The first kind that is called in the expression and has no rule. -/
def missing? (rules : TranslationTable) (e : Expr) : Option NodeKind :=
  e.kinds.find? fun k => k.id ∉ rules

/-- No rule is missing if the table has one for every kind in the expression. -/
theorem missing?_eq_none : e.missing? rules = none ↔ ∀ k ∈ e.kinds, k.id ∈ rules := by
  simp [missing?, List.find?_eq_none]

/-- The first kind without a rule in an operator is on the left, or else on the right. -/
theorem missing?_binary (lhs : Expr) (op : Op) (rhs : Expr) :
    (binary lhs op rhs).missing? rules = (lhs.missing? rules).or (rhs.missing? rules) := by
  rw [missing?, kinds_binary, List.find?_append, missing?, missing?]

/-- A call whose own kind has no rule misses that rule first. -/
theorem missing?_call_of_notMem (args : List Expr) (h : k.id ∉ rules) :
    (call k args).missing? rules = some k := by
  rw [missing?, kinds_call, List.find?_cons_of_pos (by simpa using h)]

/-- A call whose own kind has a rule misses the first rule that one of its arguments does. -/
theorem missing?_call_of_mem (args : List Expr) (h : k.id ∈ rules) :
    (call k args).missing? rules = (args.filterMap (missing? rules)).head? := by
  rw [missing?, kinds_call, List.find?_cons_of_neg (by simpa using h), List.find?_flatMap,
    List.head?_filterMap]
  rfl

/-- An alias misses the rule that the expression misses. -/
theorem missing?_named (e : Expr) (name : String) :
    (named e name).missing? rules = e.missing? rules := by
  rw [missing?, kinds_named, missing?]

/-! ## Failures of translations -/

/-- An operator fails as its left side, or else as its right side. -/
theorem failure?_translate_binary (lhs : Expr) (op : Op) (rhs : Expr) (place : Place) :
    failure? ((binary lhs op rhs).translate rules place) =
      (failure? (lhs.translate rules .operand)).or (failure? (rhs.translate rules .operand)) := by
  rw [translate_binary, failure?_bind fun l => failure?_bind_pure _ _]

/-- A call whose kind has no rule fails by that. -/
theorem failure?_translate_call_of_notMem (args : List Expr) (h : k.id ∉ rules) (place : Place) :
    failure? ((call k args).translate rules place) = some (.missingRule k.id) := by
  rw [translate_call_of_none args (Std.TreeMap.getElem?_eq_none h)]
  rfl

/-- A call whose kind has a rule that calls a function fails as its arguments do. -/
theorem failure?_translate_call {function : QualifiedName} {inner : Place} (args : List Expr)
    (h : rules[k.id]? = some (.call function inner)) (place : Place) :
    failure? ((call k args).translate rules place) = failure? (translateAll rules inner args) := by
  rw [translate_call args h, failure?_bind_pure]

/-- An alias fails as what it names. -/
theorem failure?_translate_named (e : Expr) (name : String) (place : Place) :
    failure? ((named e name).translate rules place) = failure? (e.translate rules .operand) := by
  cases place with
  | item => rw [translate_named_item, failure?_bind_pure (SqlExpr.label · name)]
  | operand => rw [translate_named_operand]

/-- Some expressions fail as the first of them that fails. -/
theorem failure?_translateAll (es : List Expr) (place : Place) :
    failure? (translateAll rules place es) =
      (es.filterMap fun e => failure? (e.translate rules place)).head? := by
  induction es with
  | nil => rfl
  | cons e es ih =>
    rw [translateAll_cons, failure?_bind fun x => failure?_bind_pure _ _, ih, List.filterMap_cons]
    cases failure? (e.translate rules place) <;> rfl

/-- The calls in the expression that have a rule are translated by calls of functions. -/
def RulesCall (rules : TranslationTable) (e : Expr) : Prop :=
  ∀ k ∈ e.kinds, ∀ rule, rules[k.id]? = some rule → ∃ function place, rule = .call function place

/-- A translation fails by the first missing rule, in either place. The induction is on the
expression; a call asks for its own rule first and then for those of its arguments. -/
theorem failure?_translate (e : Expr) (h : e.RulesCall rules) (place : Place) :
    failure? (e.translate rules place) = (e.missing? rules).map (.missingRule ·.id) := by
  match e with
  | constant value =>
    rw [translate_constant]
    rfl
  | column name type =>
    rw [translate_column]
    rfl
  | binary lhs op rhs =>
    rw [RulesCall, kinds_binary, List.forall_mem_append] at h
    rw [failure?_translate_binary, missing?_binary, Option.map_or, failure?_translate lhs h.1,
      failure?_translate rhs h.2]
  | call k args =>
    rw [RulesCall, kinds_call, List.forall_mem_cons] at h
    by_cases hmem : k.id ∈ rules
    · -- The rule is there, so the arguments are looked at, in the place that the rule has for them.
      obtain ⟨rule, hrule⟩ :=
        Option.isSome_iff_exists.mp (Std.TreeMap.mem_iff_isSome_getElem?.mp hmem)
      obtain ⟨function, inner, rfl⟩ := h.1 rule hrule
      have hargs : ∀ a ∈ args, failure? (a.translate rules inner) =
          (a.missing? rules).map (.missingRule ·.id) := fun a ha =>
        failure?_translate a (fun l hl => h.2 l (List.mem_flatMap.mpr ⟨a, ha, hl⟩)) inner
      rw [failure?_translate_call args hrule, missing?_call_of_mem args hmem,
        failure?_translateAll, ← List.head?_map, List.map_filterMap, List.filterMap_congr hargs]
    · rw [failure?_translate_call_of_notMem args hmem, missing?_call_of_notMem args hmem,
        Option.map_some]
  | named e name =>
    rw [RulesCall, kinds_named] at h
    rw [failure?_translate_named, missing?_named]
    exact failure?_translate e h .operand

/-- An expression translates in either place if its calls are registered. -/
theorem Registered.exists_translate (h : e.Registered rules) (place : Place) :
    ∃ x, e.translate rules place = .ok x := by
  rw [registered_iff] at h
  have hrulesCall : e.RulesCall rules := fun k hk rule hrule => by
    rw [h k hk] at hrule
    exact ⟨_, _, (Option.some.inj hrule).symm⟩
  have hnone : e.missing? rules = none := missing?_eq_none.mpr fun k hk =>
    Std.TreeMap.mem_iff_isSome_getElem?.mpr (by rw [h k hk, Option.isSome_some])
  rw [← failure?_eq_none, failure?_translate e hrulesCall, hnone, Option.map_none]

end Expr

/-! ## Tables of registered rules -/

namespace TranslationTable

/-- Every rule in the table was registered: it calls the function of a kind by its name. -/
def CallsByName (rules : TranslationTable) : Prop :=
  ∀ id rule, rules[id]? = some rule → ∃ k : NodeKind, k.id = id ∧ rule = Registry.callRule k

/-- A table without rules has no others than those that call by name. -/
theorem callsByName_empty : CallsByName ∅ := by
  intro id rule h
  simp at h

/-- One more rule that calls the function of its kind by name leaves it at that. -/
theorem CallsByName.insert {rules : TranslationTable} (h : rules.CallsByName) (k : NodeKind) :
    CallsByName (rules.insert k.id (Registry.callRule k)) := by
  intro id rule hrule
  simp only [Std.TreeMap.getElem?_insert, Std.compare_eq_iff_eq] at hrule
  split at hrule <;> rename_i hid
  · exact ⟨k, hid, (Option.some.inj hrule).symm⟩
  · exact h id rule hrule

/-- In a table whose rules call by name, those of an expression call functions. -/
theorem CallsByName.rulesCall {rules : TranslationTable} (h : rules.CallsByName) (e : Expr) :
    e.RulesCall rules := by
  intro k _ rule hrule
  obtain ⟨l, -, rfl⟩ := h _ _ hrule
  exact ⟨_, _, rfl⟩

end TranslationTable

/-! ## Faults of queries -/

namespace Query

variable {rules : TranslationTable} {q : Query}

/-- All that is wrong with a query, in the order in which it counts: that it has no items, that its
condition yields no truth value, and what its items and its condition fail with. -/
def faults (rules : TranslationTable) (q : Query) : List TranslationError :=
  (if q.items = [] then [.noItems q.table.name] else []) ++
    (q.filter?.toList.filter (·.type ≠ .boolean)).map (.filterNotBoolean ·.type) ++
    q.exprs.filterMap fun e => failure? (e.translate rules .item)

/-- The condition of a query is refused for its type if there is a condition and its type is none of
a truth value. -/
theorem filterError?_eq_head? : q.filterError? =
    ((q.filter?.toList.filter (·.type ≠ .boolean)).map
      (TranslationError.filterNotBoolean ·.type)).head? := by
  unfold filterError?
  cases q.filter? with
  | none => rfl
  | some e => by_cases h : e.type = .boolean <;> simp [h]

/-- The condition of a query fails to translate as the expression does, if there is one. -/
theorem failure?_translateFilter : failure? (q.translateFilter rules) =
    (q.filter?.toList.filterMap fun e => failure? (e.translate rules .item)).head? := by
  unfold translateFilter
  cases q.filter? with
  | none => rfl
  | some e => simp [failure?_map]

/-- A query fails with the first of its faults. -/
theorem failure?_compile (rules : TranslationTable) (q : Query) :
    failure? (q.compile rules) = (q.faults rules).head? := by
  rw [compile, failure?_map, faults, exprs, List.filterMap_append, List.head?_append,
    List.head?_append, List.head?_append, ← filterError?_eq_head?, ← Expr.failure?_translateAll,
    ← failure?_translateFilter]
  unfold select
  by_cases hitems : q.items = []
  · simp [hitems, failure?]
  · rw [if_neg (by simpa using hitems), if_neg hitems]
    -- The filters are checked before anything is translated.
    cases q.filterError? with
    | some err => rfl
    | none => exact failure?_bind fun _ => failure?_bind_pure _ _

/-- **Translation fails exactly where a rule is missing, and compilation with the first fault.** With
registered rules alone an expression translates, in either place, if the kind of every call in it has
a rule; else the error names the first kind that has none, where a call comes before its arguments
and what stands on the left before what stands on the right. With any rules a query compiles if it
has no fault, and else fails with the first one. -/
theorem fails_by_first_fault (rules : TranslationTable) :
    (rules.CallsByName → ∀ (e : Expr) (place : Place),
      ((∃ x, e.translate rules place = .ok x) ↔ ∀ k ∈ e.kinds, k.id ∈ rules) ∧
        ∀ k, e.kinds.find? (fun k => k.id ∉ rules) = some k →
          e.translate rules place = .error (.missingRule k.id)) ∧
      ∀ q : Query, ((∃ text, q.compile rules = .ok text) ↔ q.faults rules = []) ∧
        ∀ err, q.compile rules = .error err ↔ (q.faults rules).head? = some err := by
  constructor
  · intro hrules e place
    have hfailure := Expr.failure?_translate e (hrules.rulesCall e) place
    constructor
    · rw [← failure?_eq_none, hfailure, Option.map_eq_none_iff, Expr.missing?_eq_none]
    · intro k hk
      rw [← failure?_eq_some, hfailure, Expr.missing?, hk, Option.map_some]
  · intro q
    constructor
    · rw [← failure?_eq_none, failure?_compile, List.head?_eq_none_iff]
    · intro err
      rw [← failure?_eq_some, failure?_compile]

/-- A kind that was minted and got no rule. -/
def bareKind (name : String) : NodeKind := ⟨Registry.kindId name 0, ⟨name, [], .boolean, none⟩⟩

/-- A call without a rule, as the argument of a call with one, and another one on the right. -/
def halfRegistered : Expr :=
  .binary (.call checkKind [.named (.call (bareKind "g") []) "n"]) .and (.call (bareKind "h") [])

/-- The call inside the other one comes before the one on the right. In a query the first item that
fails comes before the condition, the type of the condition before all items, and the lack of items
before everything else. -/
theorem fails_by_first_fault_of_halfRegistered :
    (∃ x, namedCheck.translate checkRules .item = .ok x) ∧
      (∀ place, (halfRegistered.translate checkRules place).mapError TranslationError.message =
        .error "No translation rule registered for g_0") ∧
      ((flagged.query [namedCheck, halfRegistered]).filter
        (.call (bareKind "h") [])).compile checkRules = .error (.missingRule "g_0") ∧
      ((flagged.query [halfRegistered]).filter number).compile checkRules =
        .error (.filterNotBoolean .int32) ∧
      ((flagged.query []).filter number).compile checkRules = .error (.noItems "t") := by
  have hrules : checkRules.CallsByName := TranslationTable.callsByName_empty.insert checkKind
  obtain ⟨hexpr, hquery⟩ := fails_by_first_fault checkRules
  have hnamed : ∃ x, namedCheck.translate checkRules .item = .ok x :=
    (hexpr hrules namedCheck .item).1.mpr (by decide +kernel)
  have hhalf : ∀ place, halfRegistered.translate checkRules place = .error (.missingRule "g_0") :=
    fun place => (hexpr hrules halfRegistered place).2 (bareKind "g") (by decide +kernel)
  refine ⟨hnamed, ?_, ?_, ((hquery _).2 _).mpr rfl, ((hquery _).2 _).mpr rfl⟩
  · intro place
    rw [hhalf]
    rfl
  · rw [(hquery _).2]
    have hfirst := failure?_eq_none.mpr hnamed
    have hsecond := failure?_eq_some.mpr (hhalf .item)
    simp [faults, exprs, filter, Table.query, Expr.type, bareKind, hfirst, hsecond]

end Query

end UdfBridge
