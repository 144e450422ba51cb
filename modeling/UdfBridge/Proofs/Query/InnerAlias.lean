import UdfBridge.Proofs.Query.Fault

/-!
# Aliases below the top

An alias names a column of the result only where it is a whole item. Below the top of an item
aliases are dropped, and nothing else is: an operand translates as the expression without aliases
does, and an item as its operand, under the outermost name if it has one. So aliases below the top
of the items and of the condition make no difference to what a query compiles to
(`Query.inner_aliases_dropped`).
-/

namespace UdfBridge

namespace Expr

variable {rules : TranslationTable} {e : Expr}

/-! ## Expressions without inner aliases -/

/-- The expression without the aliases below the top of it. -/
def eraseInner : Expr → Expr
  | named expr name => named expr.erase name
  | e => e.erase

/-- Inner aliases have no part in the type. -/
theorem type_eraseInner (e : Expr) : e.eraseInner.type = e.type := by
  cases e <;> exact type_erase _

/-- Without its aliases an expression has calls of the same kinds, in the same order. -/
theorem kinds_erase (e : Expr) : e.erase.kinds = e.kinds := by
  match e with
  | constant value | column name type => rfl
  | binary lhs op rhs => rw [erase, kinds_binary, kinds_binary, kinds_erase lhs, kinds_erase rhs]
  | call k args =>
    have hargs : ∀ a ∈ args, a.erase.kinds = a.kinds := fun a ha => kinds_erase a
    rw [erase, eraseAll_eq_map, kinds_call, kinds_call, List.flatMap_map]
    exact congrArg (k :: ·) (List.flatMap_congr hargs)
  | named e name =>
    rw [erase, kinds_named]
    exact kinds_erase e

/-- Inner aliases have no part in the kinds of the calls. -/
theorem kinds_eraseInner (e : Expr) : e.eraseInner.kinds = e.kinds := by
  cases e with
  | named e name => rw [eraseInner, kinds_named, kinds_named, kinds_erase]
  | constant | column | binary | call => exact kinds_erase _

/-- An item translates as it does without its inner aliases. -/
theorem translate_eraseInner (e : Expr) (hcalls : e.Registered rules) :
    e.eraseInner.translate rules .item = e.translate rules .item := by
  cases e with
  | named e name =>
    rw [eraseInner, translate_named_item, translate_named_item,
      translate_erase e (hcalls.of_subset subexprs_subset_named)]
  | constant | column | binary | call =>
    -- Only an alias has a name to keep, so the item is an operand.
    rw [eraseInner, translate_item_eq_operand (erase_ne_named _), translate_erase _ hcalls,
      translate_item_eq_operand (by simp)]
    simp

/-- Items translate as they do without their inner aliases. -/
theorem translateAll_map_eraseInner (es : List Expr) (hcalls : ∀ e ∈ es, e.Registered rules) :
    translateAll rules .item (es.map eraseInner) = translateAll rules .item es := by
  induction es with
  | nil => rfl
  | cons e es ih =>
    rw [List.forall_mem_cons] at hcalls
    rw [List.map_cons, translateAll_cons, translateAll_cons, translate_eraseInner e hcalls.1,
      ih hcalls.2]

/-- Expressions that differ in inner aliases alone have the same calls, up to the arguments. -/
theorem Registered.of_eraseInner {e' : Expr} (h : e.eraseInner = e'.eraseInner)
    (hcalls : e.Registered rules) : e'.Registered rules := by
  rw [registered_iff, ← kinds_eraseInner] at hcalls ⊢
  rwa [← h]

end Expr

/-! ## Queries -/

namespace Query

variable {rules : TranslationTable} {q q' : Query}

/-- The query without the aliases below the top of its items and of its condition. -/
def eraseInner (q : Query) : Query :=
  { q with items := q.items.map Expr.eraseInner, filter? := q.filter?.map Expr.eraseInner }

/-- The expressions of a query lose their inner aliases one by one. -/
theorem exprs_eraseInner (q : Query) : q.eraseInner.exprs = q.exprs.map Expr.eraseInner := by
  cases h : q.filter? <;> simp [exprs, eraseInner, h]

/-- Inner aliases have no part in whether a condition is refused for its type. -/
theorem filterError?_eraseInner (q : Query) : q.eraseInner.filterError? = q.filterError? := by
  cases h : q.filter? <;> simp [filterError?, eraseInner, h, Expr.type_eraseInner]

/-- A condition translates as it does without its inner aliases. -/
theorem translateFilter_eraseInner (hcalls : ∀ e ∈ q.exprs, e.Registered rules) :
    q.eraseInner.translateFilter rules = q.translateFilter rules := by
  cases h : q.filter? with
  | none => simp [translateFilter, eraseInner, h]
  | some e =>
    have he := Expr.translate_eraseInner e (hcalls e (by simp [exprs, h]))
    simp only [translateFilter, eraseInner, h, Option.map_some, he]

/-- A query compiles as it does without its inner aliases. -/
theorem compile_eraseInner (hcalls : ∀ e ∈ q.exprs, e.Registered rules) :
    q.eraseInner.compile rules = q.compile rules := by
  have hitems := Expr.translateAll_map_eraseInner q.items
    fun e he => hcalls e (List.mem_append_left _ he)
  have hselect : q.eraseInner.select rules = q.select rules := by
    unfold select
    rw [filterError?_eraseInner, translateFilter_eraseInner hcalls]
    simp only [eraseInner, List.isEmpty_map, hitems, Table.reference]
  rw [compile, compile, hselect]

/-- Queries that differ in inner aliases alone have registered calls alike. -/
theorem registered_of_eraseInner (h : q.eraseInner = q'.eraseInner)
    (hcalls : ∀ e ∈ q.exprs, e.Registered rules) : ∀ e ∈ q'.exprs, e.Registered rules := by
  intro e he
  have hmem : e.eraseInner ∈ q.exprs.map Expr.eraseInner := by
    rw [← exprs_eraseInner, h, exprs_eraseInner]
    exact List.mem_map_of_mem he
  obtain ⟨e', he', heq⟩ := List.mem_map.mp hmem
  exact (hcalls e' he').of_eraseInner heq

/-- **Aliases below the top are dropped, and nothing else is.** An expression whose calls are
registered translates as an operand to what it translates to without its aliases, in which no name
is left at any depth; and as an item to the same, under the outermost name if it is itself an alias.
So queries that differ only in aliases below the top of their items and of their condition compile
to the same text. -/
theorem inner_aliases_dropped (rules : TranslationTable) :
    (∀ e : Expr, e.Registered rules → ∃ x : SqlExpr,
      e.translate rules .operand = .ok x ∧ e.erase.translate rules .item = .ok x ∧
        x.hasLabel = false ∧ e.translate rules .item = .ok (e.name?.elim x x.label)) ∧
      ∀ q q' : Query, (∀ e ∈ q.exprs, e.Registered rules) → q.eraseInner = q'.eraseInner →
        q.compile rules = q'.compile rules := by
  constructor
  · intro e hcalls
    obtain ⟨x, hx⟩ := hcalls.exists_translate .operand
    refine ⟨x, hx, ?_, Expr.hasLabel_of_translate e hcalls hx, ?_⟩
    · rw [Expr.translate_item_eq_operand (Expr.erase_ne_named e), Expr.translate_erase e hcalls]
      exact hx
    · rw [Expr.translate_item, hx]
      rfl
  · intro q q' hcalls h
    rw [← compile_eraseInner hcalls, h, compile_eraseInner (registered_of_eraseInner h hcalls)]

/-- A call under two names, of a sum that has a name and a part with a name. -/
def stacked : Expr :=
  .named (.named (.call checkKind
    [.named (.binary (.named number "m") .add (.constant (.int 1))) "n"]) "b") "c"

/-- The call under the outermost name alone. -/
def unstacked : Expr :=
  .named (.call checkKind [.binary number .add (.constant (.int 1))]) "c"

/-- The call under the stacked aliases has its rule. -/
theorem registered_stacked : stacked.Registered checkRules := by
  rw [Expr.registered_iff]
  have hkinds : stacked.kinds = [checkKind] := by decide +kernel
  simp [hkinds, checkRules]

/-- Of four names the outermost is left, and the other ones change nothing. -/
theorem inner_aliases_dropped_of_stacked :
    (∃ x, stacked.translate checkRules .operand = .ok x ∧
      stacked.erase.translate checkRules .item = .ok x ∧ x.hasLabel = false ∧
        stacked.translate checkRules .item = .ok (.label x "c")) ∧
      (flagged.query [stacked]).compile checkRules =
        (flagged.query [unstacked]).compile checkRules ∧
      (flagged.query [unstacked]).compile checkRules = .ok "SELECT f((a + 1)) AS c FROM t" := by
  obtain ⟨hexpr, hquery⟩ := inner_aliases_dropped checkRules
  refine ⟨hexpr stacked registered_stacked, ?_, by decide +kernel⟩
  exact hquery _ _ (by simpa [exprs, Table.query] using registered_stacked) rfl

end Query

end UdfBridge
