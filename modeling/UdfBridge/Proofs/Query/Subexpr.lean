import UdfBridge.Query.Compile
import UdfBridge.Registry

/-!
# What an expression is made of

`Expr.subexprs` lists an expression and all expressions inside it, so that what is asked of every
call or of every constant of an expression can be said of the members of a list. The conditions on
the calls and the constants pass on to the parts of an expression. `Expr.kinds` lists the kinds of
the calls in the same order.
-/

namespace UdfBridge

namespace Expr

mutual

/-- An expression and all expressions inside it, each before those inside it and from left to
right. -/
def subexprs : Expr → List Expr
  | constant value => [constant value]
  | column name type => [column name type]
  | binary lhs op rhs => binary lhs op rhs :: (lhs.subexprs ++ rhs.subexprs)
  | call kind args => call kind args :: subexprsAll args
  | named expr name => named expr name :: expr.subexprs

/-- The expressions of a list and all expressions inside them. -/
def subexprsAll : List Expr → List Expr
  | [] => []
  | e :: es => e.subexprs ++ subexprsAll es

end

/-- An expression is one of those it is made of. -/
theorem mem_subexprs_self (e : Expr) : e ∈ e.subexprs := by
  cases e <;> exact List.mem_cons_self

/-- What is inside some expressions is inside one of them. -/
theorem mem_subexprsAll {x : Expr} {es : List Expr} :
    x ∈ subexprsAll es ↔ ∃ e ∈ es, x ∈ e.subexprs := by
  induction es with
  | nil => simp [subexprsAll]
  | cons e es ih => simp [subexprsAll, ih]

/-- What is inside some expressions is listed expression by expression. -/
theorem subexprsAll_eq_flatMap (es : List Expr) : subexprsAll es = es.flatMap subexprs := by
  induction es with
  | nil => rfl
  | cons e es ih => rw [subexprsAll, ih, List.flatMap_cons]

/-! ## Kinds of calls -/

/-- The kind of an expression that is a call. -/
def kind? : Expr → Option NodeKind
  | call kind _ => some kind
  | constant _ | column _ _ | binary _ _ _ | named _ _ => none

/-- The kinds of the calls in an expression, that of a call before those in its arguments, and from
left to right. -/
def kinds (e : Expr) : List NodeKind :=
  e.subexprs.filterMap kind?

/-- A kind is one of an expression if a call of it is inside. -/
theorem mem_kinds {e : Expr} {k : NodeKind} : k ∈ e.kinds ↔ ∃ args, call k args ∈ e.subexprs := by
  rw [kinds, List.mem_filterMap]
  constructor
  · rintro ⟨x, hx, hk⟩
    cases x with
    | call l args =>
      obtain rfl : l = k := Option.some.inj hk
      exact ⟨args, hx⟩
    | constant | column | binary | named => cases hk
  · rintro ⟨args, hmem⟩
    exact ⟨_, hmem, rfl⟩

/-- The kinds in an operator are those on the left and then those on the right. -/
theorem kinds_binary (lhs : Expr) (op : Op) (rhs : Expr) :
    (binary lhs op rhs).kinds = lhs.kinds ++ rhs.kinds := by
  simp only [kinds, subexprs, List.filterMap_cons, kind?, List.filterMap_append]

/-- The kinds in a call are its own and then those in its arguments. -/
theorem kinds_call (k : NodeKind) (args : List Expr) :
    (call k args).kinds = k :: args.flatMap kinds := by
  simp only [kinds, subexprs, List.filterMap_cons, kind?, subexprsAll_eq_flatMap,
    List.filterMap_flatMap]
  rfl

/-- The kinds in an alias are those in what is named. -/
theorem kinds_named (e : Expr) (name : String) : (named e name).kinds = e.kinds := by
  simp only [kinds, subexprs, List.filterMap_cons, kind?]

/-! ## Conditions on calls and constants -/

/-- Every call in the expression has the rule that calls its function by name. -/
def Registered (rules : TranslationTable) (e : Expr) : Prop :=
  ∀ k args, call k args ∈ e.subexprs → rules[k.id]? = some (Registry.callRule k)

/-- No constant in the expression is a float. -/
def RealFree (e : Expr) : Prop :=
  ∀ x, constant (.real x) ∉ e.subexprs

variable {rules : TranslationTable} {e lhs rhs : Expr} {op : Op} {k : NodeKind} {args : List Expr}
  {name : String}

/-- Calls that have their rules have them in a part of the expression too. -/
theorem Registered.of_subset {e' : Expr} (h : e.Registered rules)
    (hsub : e'.subexprs ⊆ e.subexprs) : e'.Registered rules :=
  fun k args hmem => h k args (hsub hmem)

/-- Where no float is, none is in a part. -/
theorem RealFree.of_subset {e' : Expr} (h : e.RealFree) (hsub : e'.subexprs ⊆ e.subexprs) :
    e'.RealFree :=
  fun x hmem => h x (hsub hmem)

/-- The left side of an operator is a part of it. -/
theorem subexprs_subset_binary_left : lhs.subexprs ⊆ (binary lhs op rhs).subexprs := by
  rw [subexprs]
  exact List.subset_cons_of_subset _ (List.subset_append_left _ _)

/-- The right side of an operator is a part of it. -/
theorem subexprs_subset_binary_right : rhs.subexprs ⊆ (binary lhs op rhs).subexprs := by
  rw [subexprs.eq_def (binary lhs op rhs)]
  exact List.subset_cons_of_subset _ (List.subset_append_right _ _)

/-- What an alias names is a part of it. -/
theorem subexprs_subset_named : e.subexprs ⊆ (named e name).subexprs := by
  rw [subexprs.eq_def (named e name)]
  exact List.subset_cons_self _ _

/-- An argument of a call is a part of it. -/
theorem subexprs_subset_call {a : Expr} (ha : a ∈ args) :
    a.subexprs ⊆ (call k args).subexprs := by
  intro x hx
  rw [subexprs]
  exact List.mem_cons_of_mem _ (mem_subexprsAll.mpr ⟨a, ha, hx⟩)

/-- What is asked of the calls is asked of their kinds. -/
theorem registered_iff : e.Registered rules ↔
    ∀ k ∈ e.kinds, rules[k.id]? = some (Registry.callRule k) := by
  simp only [Registered, mem_kinds]
  constructor
  · rintro h k ⟨args, hmem⟩
    exact h k args hmem
  · intro h k args hmem
    exact h k ⟨args, hmem⟩

/-- The kind of a call in place has its rule. -/
theorem Registered.rule_call (h : (call k args).Registered rules) :
    rules[k.id]? = some (Registry.callRule k) :=
  h k args (mem_subexprs_self _)

/-- An operator has what it takes if its operands have. -/
theorem Registered.binary (hl : lhs.Registered rules) (hr : rhs.Registered rules) :
    (Expr.binary lhs op rhs).Registered rules := by
  intro k args hmem
  rw [subexprs, List.mem_cons, List.mem_append] at hmem
  rcases hmem with heq | hleft | hright
  · exact absurd heq (by simp)
  · exact hl k args hleft
  · exact hr k args hright

end Expr

/-- The expressions of a query: its items and its condition. -/
def Query.exprs (q : Query) : List Expr :=
  q.items ++ q.filter?.toList

/-- The kinds of the calls in a query. -/
def Query.kinds (q : Query) : List NodeKind :=
  q.exprs.flatMap Expr.kinds

end UdfBridge
