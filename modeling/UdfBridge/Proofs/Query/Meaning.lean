import Mathlib.Algebra.Ring.Int.Defs
import UdfBridge.Proofs.Query.Alias

/-!
# What expressions mean

An interpretation gives a meaning to the six operators, to the names of functions and to the texts
of literals, over values of any type. Under it an expression has a value in each row, and so has an
expression of SQL, as long as its operators are among the six. For an expression an alias is
transparent, a constant has the value of its literal, and a call applies the function that the
signature of its kind refers to.

Translation keeps the value, in either place, and so does the compilation of a query: its items have
the values of the expressions they were made from, and its condition has the value of the
conjunction of the predicates, nested to the left (`Query.translation_preserves_value`).
-/

namespace UdfBridge

variable {V : Type}

/-! ## Values -/

/-- A meaning for all that the value of an expression hangs on, but for the row. -/
structure Interpretation (V : Type) where
  /-- What an operator makes of the values of its operands. -/
  operator : Op → V → V → V
  /-- What a function makes of the values of its arguments. -/
  function : QualifiedName → List V → V
  /-- The value of a literal. -/
  literal : String → V

/-- The operators. -/
def Op.all : List Op := [add, subtract, multiply, divide, equal, and]

/-- The operator of a symbol. -/
def Op.ofSymbol? (s : String) : Option Op :=
  all.find? (·.symbol == s)

/-- The symbols of the operators are different, so each is read as the operator it is written for.
-/
@[simp] theorem Op.ofSymbol?_symbol (op : Op) : ofSymbol? op.symbol = some op := by
  cases op <;> decide

namespace SqlExpr

mutual

/-- The value of an expression in a row, if it has no operators but the six. -/
def value? (I : Interpretation V) (row : String → V) : SqlExpr → Option V
  | literal text => some (I.literal text)
  | column name => some (row name)
  | binary lhs op rhs => do
    let o ← Op.ofSymbol? op
    let l ← lhs.value? I row
    let r ← rhs.value? I row
    return I.operator o l r
  | call function args => do
    let vs ← values? I row args
    return I.function function vs
  | label expr _ => expr.value? I row

/-- The values of some expressions in a row. -/
def values? (I : Interpretation V) (row : String → V) : List SqlExpr → Option (List V)
  | [] => some []
  | e :: es => do
    let v ← e.value? I row
    let vs ← values? I row es
    return v :: vs

end

end SqlExpr

/-- The text of the literal of a constant. -/
def Constant.literalText (c : Constant) : String :=
  c.translate.render

/-- A constant translates to its literal. -/
theorem Constant.translate_eq_literal (c : Constant) : c.translate = .literal c.literalText := by
  cases c with
  | bool b => cases b <;> rfl
  | int | string | real | bytes => rfl

namespace Expr

mutual

/-- The value of an expression in a row. -/
def value (I : Interpretation V) (row : String → V) : Expr → V
  | constant c => I.literal c.literalText
  | column name _ => row name
  | binary lhs op rhs => I.operator op (lhs.value I row) (rhs.value I row)
  | call kind args => I.function kind.signature.reference (values I row args)
  | named expr _ => expr.value I row

/-- The values of some expressions in a row. -/
def values (I : Interpretation V) (row : String → V) : List Expr → List V
  | [] => []
  | e :: es => e.value I row :: values I row es

end

variable {rules : TranslationTable} {I : Interpretation V} {row : String → V} {e : Expr}
  {es : List Expr}

/-! ## Translation -/

mutual

/-- An operand translates, and has the value of its translation. The induction is on the expression;
a call hands its arguments on as operands, in order. -/
theorem exists_translate_operand (I : Interpretation V) (row : String → V) (e : Expr)
    (hcalls : e.Registered rules) :
    ∃ x, e.translate rules .operand = .ok x ∧ x.value? I row = some (e.value I row) := by
  match e with
  | constant c =>
    refine ⟨_, translate_constant c, ?_⟩
    rw [c.translate_eq_literal, SqlExpr.value?, value]
  | column name type =>
    refine ⟨_, translate_column name type, ?_⟩
    rw [SqlExpr.value?, value]
  | binary lhs op rhs =>
    obtain ⟨l, hl, hlvalue⟩ := exists_translate_operand I row lhs
      (hcalls.of_subset subexprs_subset_binary_left)
    obtain ⟨r, hr, hrvalue⟩ := exists_translate_operand I row rhs
      (hcalls.of_subset subexprs_subset_binary_right)
    refine ⟨_, translate_binary_eq_ok.mpr ⟨l, r, hl, hr, rfl⟩, ?_⟩
    rw [SqlExpr.value?, Op.ofSymbol?_symbol, hlvalue, hrvalue, value]
    rfl
  | call k args =>
    -- The rule is the one that calls the function, so the values of the arguments are all that
    -- counts.
    obtain ⟨xs, hxs, hvalues⟩ := exists_translateAll_operand I row args
      fun a ha => hcalls.of_subset (subexprs_subset_call ha)
    refine ⟨_, (translate_call_eq_ok hcalls.rule_call).mpr ⟨xs, hxs, rfl⟩, ?_⟩
    rw [SqlExpr.value?, hvalues, value]
    rfl
  | named e name =>
    obtain ⟨x, hx, hvalue⟩ := exists_translate_operand I row e
      (hcalls.of_subset subexprs_subset_named)
    -- The place is that of an operand, so the name is dropped and the value is the same.
    rw [translate_named_operand, value]
    exact ⟨x, hx, hvalue⟩

/-- Operands translate, and have the values of their translations. -/
theorem exists_translateAll_operand (I : Interpretation V) (row : String → V) (es : List Expr)
    (hcalls : ∀ e ∈ es, e.Registered rules) :
    ∃ xs, translateAll rules .operand es = .ok xs ∧
      SqlExpr.values? I row xs = some (values I row es) := by
  match es with
  | [] => exact ⟨[], translateAll_nil, by rw [SqlExpr.values?, values]⟩
  | e :: es =>
    obtain ⟨x, hx, hvalue⟩ := exists_translate_operand I row e (hcalls e List.mem_cons_self)
    obtain ⟨xs, hxs, hvalues⟩ := exists_translateAll_operand I row es
      fun a ha => hcalls a (List.mem_cons_of_mem _ ha)
    refine ⟨_, translateAll_cons_eq_ok.mpr ⟨x, xs, hx, hxs, rfl⟩, ?_⟩
    rw [SqlExpr.values?, hvalue, hvalues, values]
    rfl

end

/-- In either place an expression translates, and has the value of its translation: the name that an
item may get does not change it. -/
theorem exists_translate_value (I : Interpretation V) (row : String → V)
    (hcalls : e.Registered rules) (place : Place) :
    ∃ x, e.translate rules place = .ok x ∧ x.value? I row = some (e.value I row) := by
  obtain ⟨x, hx, hvalue⟩ := exists_translate_operand I row e hcalls
  cases place with
  | operand => exact ⟨x, hx, hvalue⟩
  | item =>
    refine ⟨_, by rw [translate_item, hx]; rfl, ?_⟩
    cases e.name? with
    | none => exact hvalue
    | some name =>
      have hlabel : (SqlExpr.label x name).value? I row = x.value? I row := by rw [SqlExpr.value?]
      exact hlabel.trans hvalue

/-- What an expression translates to has the value of the expression. -/
theorem value?_of_translate {place : Place} {x : SqlExpr} (hcalls : e.Registered rules)
    (h : e.translate rules place = .ok x) : x.value? I row = some (e.value I row) := by
  obtain ⟨y, hy, hvalue⟩ := exists_translate_value I row hcalls place
  obtain rfl : x = y := Except.ok.inj (h.symm.trans hy)
  exact hvalue

/-- Items have the values of the expressions that they were made from, in order. -/
theorem map_value?_of_translateAll {xs : List SqlExpr} (hcalls : ∀ e ∈ es, e.Registered rules)
    (h : translateAll rules .item es = .ok xs) :
    xs.map (·.value? I row) = es.map fun e => some (e.value I row) := by
  induction es generalizing xs with
  | nil =>
    rw [translateAll_nil, Except.ok.injEq] at h
    rw [← h]
    rfl
  | cons e es ih =>
    obtain ⟨y, ys, hy, hys, rfl⟩ := translateAll_cons_eq_ok.mp h
    rw [List.map_cons, List.map_cons, value?_of_translate (hcalls e List.mem_cons_self) hy,
      ih (fun a ha => hcalls a (List.mem_cons_of_mem _ ha)) hys]

end Expr

/-! ## Queries -/

/-- The conjunction of some values, nested to the left. -/
def Interpretation.conjunction? (I : Interpretation V) : List V → Option V
  | [] => none
  | v :: vs => some (vs.foldl (I.operator .and) v)

/-- The value of a conjunction is the conjunction of the values. -/
theorem Expr.value_conjunction (I : Interpretation V) (row : String → V) (e : Expr)
    (es : List Expr) : (conjunction e es).value I row =
      (es.map (·.value I row)).foldl (I.operator .and) (e.value I row) := by
  induction es generalizing e with
  | nil => rfl
  | cons p ps ih => rw [conjunction_cons, ih, value, List.map_cons, List.foldl_cons]

namespace Query

variable {rules : TranslationTable} {t : Table} {items ps : List Expr} {s : Select}

/-- The condition of a query has the value of the conjunction of its predicates. -/
theorem value?_filter (I : Interpretation V) (row : String → V)
    (hcalls : ∀ p ∈ ps, p.Registered rules)
    (h : (ps.foldl filter (t.query items)).select rules = .ok s) :
    s.filter?.map (·.value? I row) =
      (I.conjunction? (ps.map (·.value I row))).map some := by
  obtain ⟨rfl, hnone⟩ | ⟨p, ps, x, rfl, hx, hsome⟩ := translate_conjunction_of_select h
  · rw [hnone]
    rfl
  · have hvalue : x.value? I row = some ((p.conjunction ps).value I row) :=
      Expr.value?_of_translate (Expr.registered_conjunction hcalls) hx
    rw [hsome, Option.map_some, hvalue, Expr.value_conjunction]
    rfl

/-- **Translation preserves meaning**, under every interpretation and in every row. An expression
whose calls are registered translates, as an item and as an operand, to an expression of SQL with
its value. A query that compiles has items with the values of the expressions given for them, in
order, and a condition with the value of the conjunction of its predicates. -/
theorem translation_preserves_value (rules : TranslationTable) (I : Interpretation V)
    (row : String → V) :
    (∀ e : Expr, e.Registered rules → ∀ place, ∃ x,
        e.translate rules place = .ok x ∧ x.value? I row = some (e.value I row)) ∧
      ∀ (t : Table) (items ps : List Expr) (text : String),
        (∀ e ∈ items ++ ps, e.Registered rules) →
        (ps.foldl filter (t.query items)).compile rules = .ok text →
        ∃ s : Select, (ps.foldl filter (t.query items)).select rules = .ok s ∧ text = s.render ∧
          s.items.map (·.value? I row) = items.map (fun e => some (e.value I row)) ∧
          s.filter?.map (·.value? I row) =
            (I.conjunction? (ps.map (·.value I row))).map some := by
  refine ⟨fun e hcalls place => Expr.exists_translate_value I row hcalls place, ?_⟩
  intro t items ps text hcalls hcompile
  obtain ⟨s, hselect, htext⟩ := map_eq_ok.mp hcompile
  have hitems : Expr.translateAll rules .item items = .ok s.items := by
    have hparts := select_eq_ok.mp hselect
    rw [foldl_filter_query] at hparts
    exact hparts.2.2.1
  refine ⟨s, hselect, htext.symm, ?_, ?_⟩
  · exact Expr.map_value?_of_translateAll (fun e he => hcalls e (List.mem_append_left _ he)) hitems
  · exact value?_filter I row (fun p hp => hcalls p (List.mem_append_right _ hp)) hselect

/-- Numbers for truth values: equality gives 1 or 0, and conjunction multiplies. A function counts
its arguments, and a literal its characters. -/
def counting : Interpretation Int where
  operator
    | .add, a, b => a + b
    | .subtract, a, b => a - b
    | .multiply, a, b => a * b
    | .divide, a, b => a / b
    | .equal, a, b => if a = b then 1 else 0
    | .and, a, b => a * b
  function n vs := n.name.length + vs.sum
  literal text := text.length

/-- A row with a number in the one column and a truth value in the other. -/
def countingRow (name : String) : Int :=
  if name = "a" then 7 else 1

/-- The difference of two numbers under a name, and a call with a name inside and outside. -/
theorem translation_preserves_value_of_namedCheck :
    (∃ x, (Expr.named (.binary number .subtract (.constant (.int 123))) "d").translate checkRules
        .item = .ok x ∧ x.value? counting countingRow = some 4) ∧
      ∃ s : Select,
        ([namedCheck, .named flag "y"].foldl filter (flagged.query [number])).select checkRules =
          .ok s ∧ s.items.map (·.value? counting countingRow) = [some 7] ∧
          s.filter?.map (·.value? counting countingRow) = some (some 8) := by
  have hplain : (Expr.named (.binary number .subtract (.constant (.int 123))) "d").Registered
      checkRules := by
    intro k args hmem
    simp [number, Expr.subexprs] at hmem
  have hflag : (Expr.named flag "y").Registered checkRules := by
    intro k args hmem
    simp [flag, Expr.subexprs] at hmem
  have hnumber : number.Registered checkRules := by
    intro k args hmem
    simp [number, Expr.subexprs] at hmem
  obtain ⟨hexpr, hquery⟩ := translation_preserves_value checkRules counting countingRow
  constructor
  · obtain ⟨x, hx, hvalue⟩ := hexpr _ hplain .item
    exact ⟨x, hx, hvalue⟩
  · -- The items are translated one by one, and the filters are joined to one condition.
    have hselect : ([namedCheck, .named flag "y"].foldl filter
        (flagged.query [number])).select checkRules = _ := select_numbersWhere rfl rfl
      (Expr.translate_binary_eq_ok.mpr ⟨_, _,
        (Expr.translate_named_operand _ _).trans translate_check,
        (Expr.translate_named_operand _ _).trans (Expr.translate_column _ _), rfl⟩)
    obtain ⟨s, hs, -, hitems, hfilter⟩ := hquery flagged [number] [namedCheck, .named flag "y"] _
      (by simpa using ⟨hnumber, registered_namedCheck, hflag⟩) (map_eq_ok.mpr ⟨_, hselect, rfl⟩)
    exact ⟨s, hs, hitems, hfilter⟩

end Query

end UdfBridge
