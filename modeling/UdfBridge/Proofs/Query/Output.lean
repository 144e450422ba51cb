import UdfBridge.Proofs.Query.Alias

/-!
# What an expression yields

An operator and a call have the shape that `shapeLike` gives for their arguments, and an alias has
the output of what it names. So an expression yields one value for each row exactly if a column
occurs in it, at any depth, and no alias in it changes what it yields. A call is accepted by the
types of its arguments alone; so it is accepted exactly if it is without the aliases in them
(`Expr.output_transparent`).
-/

namespace UdfBridge

namespace Expr

variable {e : Expr} {args : List Expr} {t : DataType}

/-! ## Shapes -/

/-- One of some expressions yields a value for each row if any of them does. -/
theorem anyColumnar_eq_any (es : List Expr) : anyColumnar es = es.any isColumnar := by
  induction es with
  | nil => rfl
  | cons e es ih => rw [anyColumnar, ih, List.any_cons]

/-- An output is columnar if the expression yields a value for each row. -/
theorem shape_output_iff : e.output.shape = .columnar ↔ e.isColumnar = true := by
  rw [output, shape]
  cases e.isColumnar <;> simp

/-- An operation yields a value for each row as soon as one argument does. -/
theorem shape_shapeLike_iff :
    (shapeLike args t).shape = .columnar ↔ ∃ a ∈ args, a.output.shape = .columnar := by
  simp only [shapeLike, anyColumnar_eq_any, shape_output_iff, ← List.any_eq_true]
  cases args.any isColumnar <;> simp

/-- The output of an operator is that of an operation on its two sides. -/
theorem output_binary (lhs : Expr) (op : Op) (rhs : Expr) :
    (binary lhs op rhs).output = shapeLike [lhs, rhs] (binary lhs op rhs).type := by
  rw [output, shape, isColumnar, shapeLike, anyColumnar_eq_any]
  simp only [List.any_cons, List.any_nil, Bool.or_false]

/-- The output of a call is that of an operation on its arguments. -/
theorem output_call (k : NodeKind) (args : List Expr) :
    (call k args).output = shapeLike args k.signature.output := by
  rw [output, shape, isColumnar, type, shapeLike]

/-- An alias does not change the output. -/
theorem output_named (e : Expr) (name : String) : (named e name).output = e.output := by
  rw [output, output, shape, shape, isColumnar, type]

/-- A column occurs in the expression, at any depth. -/
def HasColumn (e : Expr) : Prop :=
  ∃ name type, column name type ∈ e.subexprs

/-- A column occurs in an operator if it occurs in a side. -/
theorem hasColumn_binary (lhs : Expr) (op : Op) (rhs : Expr) :
    (binary lhs op rhs).HasColumn ↔ lhs.HasColumn ∨ rhs.HasColumn := by
  simp only [HasColumn, subexprs, List.mem_cons, List.mem_append, reduceCtorEq, false_or,
    exists_or]

/-- A column occurs in a call if it occurs in an argument. -/
theorem hasColumn_call (k : NodeKind) (args : List Expr) :
    (call k args).HasColumn ↔ ∃ a ∈ args, a.HasColumn := by
  simp only [HasColumn, subexprs, List.mem_cons, reduceCtorEq, false_or, mem_subexprsAll]
  constructor
  · rintro ⟨name, type, a, ha, hmem⟩
    exact ⟨a, ha, name, type, hmem⟩
  · rintro ⟨a, ha, name, type, hmem⟩
    exact ⟨name, type, a, ha, hmem⟩

/-- A column occurs in an alias if it occurs in what is named. -/
theorem hasColumn_named (e : Expr) (name : String) : (named e name).HasColumn ↔ e.HasColumn := by
  simp only [HasColumn, subexprs, List.mem_cons, reduceCtorEq, false_or]

/-- An expression yields one value for each row exactly if a column occurs in it. -/
theorem shape_output_eq_columnar_iff (e : Expr) : e.output.shape = .columnar ↔ e.HasColumn := by
  match e with
  | constant _ | column _ _ => simp [output, shape, isColumnar, HasColumn, subexprs]
  | binary lhs op rhs =>
    rw [output_binary, shape_shapeLike_iff, hasColumn_binary,
      ← shape_output_eq_columnar_iff lhs, ← shape_output_eq_columnar_iff rhs]
    simp
  | call k args =>
    have hargs : ∀ a ∈ args, a.output.shape = .columnar ↔ a.HasColumn :=
      fun a ha => shape_output_eq_columnar_iff a
    rw [output_call, shape_shapeLike_iff, hasColumn_call]
    exact exists_congr fun a => and_congr_right (hargs a)
  | named e name =>
    rw [output_named, hasColumn_named]
    exact shape_output_eq_columnar_iff e

/-! ## Aliases -/

/-- An alias leaves the columns of what it names. -/
theorem hasColumn_erase (e : Expr) : e.erase.HasColumn ↔ e.HasColumn := by
  match e with
  | constant value | column name type => rfl
  | binary lhs op rhs =>
    rw [erase, hasColumn_binary, hasColumn_binary, hasColumn_erase lhs, hasColumn_erase rhs]
  | call k args =>
    have hargs : ∀ a ∈ args, a.erase.HasColumn ↔ a.HasColumn := fun a ha => hasColumn_erase a
    rw [erase, eraseAll_eq_map, hasColumn_call, hasColumn_call]
    simp only [List.mem_map, exists_exists_and_eq_and]
    exact exists_congr fun a => and_congr_right (hargs a)
  | named e name =>
    rw [erase, hasColumn_named]
    exact hasColumn_erase e

/-- No alias changes the type or the shape of what an expression yields. -/
theorem output_erase (e : Expr) : e.erase.output = e.output := by
  have hcolumnar : e.erase.isColumnar = e.isColumnar := by
    rw [Bool.eq_iff_iff, ← shape_output_iff, ← shape_output_iff, shape_output_eq_columnar_iff,
      shape_output_eq_columnar_iff, hasColumn_erase]
  rw [output, output, shape, shape, type_erase, hcolumnar]

end Expr

/-! ## Arguments -/

namespace NodeKind

variable {k : NodeKind} {args : List Expr} {ps : List Signature.Parameter} {x : Expr}

/-- The arguments fit the parameters: there is one for each, and it passes for it. -/
def Fits (args : List Expr) (ps : List Signature.Parameter) : Prop :=
  List.Forall₂ (fun a p => a.type.castableTo p.type = true) args ps

/-- Nothing is wrong with the types of as many arguments as parameters exactly if they fit. -/
theorem firstMistyped?_eq_none_iff (hlength : args.length = ps.length) :
    k.firstMistyped? ps args = none ↔ Fits args ps := by
  induction ps generalizing args with
  | nil =>
    obtain rfl := List.length_eq_zero_iff.mp hlength
    exact iff_of_true rfl .nil
  | cons p ps ih =>
    obtain ⟨a, args, rfl⟩ := List.exists_cons_of_length_eq_add_one hlength
    rw [firstMistyped?, Fits, List.forall₂_cons, ← Fits, ← ih (Nat.succ.inj hlength)]
    by_cases hcast : a.type.castableTo p.type = true
    · simp [hcast]
    · simp [hcast]

/-- A call is built exactly if the arguments fit the parameters. -/
theorem instantiate_eq_ok :
    k.instantiate args = .ok x ↔ Fits args k.signature.parameters ∧ x = .call k args := by
  unfold instantiate
  by_cases hlength : args.length = k.signature.parameters.length
  · -- The count is right, so only a type can be wrong.
    rw [if_neg (not_not_intro hlength), ← firstMistyped?_eq_none_iff hlength]
    cases k.firstMistyped? k.signature.parameters args with
    | none => simp [eq_comm]
    | some err => simp
  · have hfits : ¬ Fits args k.signature.parameters := fun h => hlength h.length_eq
    simp [hlength, hfits]

/-- Arguments fit by their types alone, which their aliases do not change. -/
theorem fits_map_erase : Fits (args.map Expr.erase) ps ↔ Fits args ps := by
  rw [Fits, List.forall₂_map_left_iff, Fits]
  simp only [Expr.type_erase]

end NodeKind

/-- A function can be called with some arguments exactly if these fit its parameters. -/
theorem Udf.call_eq_ok {f : Udf} {args : List Expr} {x : Expr} :
    f.call args = .ok x ↔ NodeKind.Fits args f.kind.signature.parameters ∧ x = .call f.kind args := by
  rw [Udf.call, mapError_eq_ok, NodeKind.instantiate_eq_ok]

/-- **Aliases and calls are transparent to what an expression yields.** It is one value for each row
exactly if a column occurs in the expression, whatever calls and aliases it stands in; without its
aliases the expression yields values of the same type in the same shape; and a function accepts some
arguments exactly if it accepts them without their aliases. -/
theorem Expr.output_transparent :
    (∀ e : Expr, e.output.shape = .columnar ↔ ∃ name type, column name type ∈ e.subexprs) ∧
      (∀ e : Expr, e.erase.output = e.output) ∧
      ∀ (f : Udf) (args : List Expr),
        (∃ x, f.call (args.map Expr.erase) = .ok x) ↔ ∃ x, f.call args = .ok x := by
  refine ⟨shape_output_eq_columnar_iff, output_erase, ?_⟩
  intro f args
  simp only [Udf.call_eq_ok, NodeKind.fits_map_erase, exists_and_left, exists_eq, and_true]

end UdfBridge
