import UdfBridge.Proofs.Query.Output
import UdfBridge.Proofs.Session.Creation
import UdfBridge.Proofs.Session.Undisturbed

/-!
# Expressions that are built in a session

A `Workspace` is a session with all that its client was given so far: what the steps of the session
answered, and the expressions that were built, each known by its number. Expressions are built from
constants and columns, from expressions built before, and from kinds minted before; they may be
shared, named, joined by operators and passed to calls as often as one likes.

Each way to build an expression keeps what holds of those before it (`Expr.WellTyped`): its calls are
of minted kinds, and their arguments fit. A kind never changes, so this is preserved by whatever
a client does in the session (`sound_act`, `sound_run`), and no ill-typed call is ever built
(`built_calls_fit`).
-/

namespace UdfBridge

open NodeKind (Fits)

/-! ## Well-typed calls -/

/-- Arguments fit parameters if there are as many, and each passes for the one at its place. -/
theorem NodeKind.fits_iff {args : List Expr} {ps : List Signature.Parameter} : Fits args ps ↔
    args.length = ps.length ∧ ∀ (i : Nat) (a : Expr) (p : Signature.Parameter),
      args[i]? = some a → ps[i]? = some p → a.type.castableTo p.type = true := by
  rw [Fits, List.forall₂_iff_get]
  refine and_congr_right fun _ => ⟨fun h i a p ha hp => ?_, fun h i hi hi' => ?_⟩
  · obtain ⟨hi, rfl⟩ := List.getElem?_eq_some_iff.mp ha
    obtain ⟨hi', rfl⟩ := List.getElem?_eq_some_iff.mp hp
    exact h i hi hi'
  · exact h i _ _ (List.getElem?_eq_getElem hi) (List.getElem?_eq_getElem hi')

namespace Expr

variable {ks : List NodeKind} {e lhs rhs : Expr} {op : Op} {k : NodeKind} {args : List Expr}

/-- Every call in the expression is of one of the kinds, and its arguments fit. -/
def WellTyped (ks : List NodeKind) (e : Expr) : Prop :=
  ∀ k args, call k args ∈ e.subexprs → k ∈ ks ∧ Fits args k.signature.parameters

/-- A constant has no calls that could be ill-typed. -/
theorem wellTyped_constant (ks : List NodeKind) (value : Constant) :
    (constant value).WellTyped ks := by
  intro k args h
  simp [subexprs] at h

/-- A column has no calls that could be ill-typed. -/
theorem wellTyped_column (ks : List NodeKind) (name : String) (type : DataType) :
    (column name type).WellTyped ks := by
  intro k args h
  simp [subexprs] at h

/-- The calls in an operator are well-typed if those on both sides are. -/
theorem WellTyped.binary (hl : lhs.WellTyped ks) (hr : rhs.WellTyped ks) :
    (Expr.binary lhs op rhs).WellTyped ks := by
  intro k args h
  rw [subexprs, List.mem_cons, List.mem_append] at h
  rcases h with heq | hleft | hright
  · exact absurd heq (by simp)
  · exact hl k args hleft
  · exact hr k args hright

/-- The calls under an alias stay well-typed. -/
theorem WellTyped.named (h : e.WellTyped ks) (name : String) : (Expr.named e name).WellTyped ks := by
  intro k args hcall
  rw [subexprs, List.mem_cons] at hcall
  rcases hcall with heq | hinside
  · exact absurd heq (by simp)
  · exact h k args hinside

/-- A call is well typed if its own arguments fit and are well typed. -/
theorem wellTyped_call (hk : k ∈ ks) (hfits : Fits args k.signature.parameters)
    (hargs : ∀ a ∈ args, a.WellTyped ks) : (Expr.call k args).WellTyped ks := by
  intro l as hcall
  rw [subexprs, List.mem_cons, mem_subexprsAll] at hcall
  rcases hcall with heq | ⟨a, ha, hinside⟩
  · obtain ⟨rfl, rfl⟩ := Expr.call.inj heq
    exact ⟨hk, hfits⟩
  · exact hargs a ha l as hinside

/-- Calls of kinds in a list are calls of kinds in a longer one. -/
theorem WellTyped.mono {ls : List NodeKind} (h : e.WellTyped ks) (hsub : ks ⊆ ls) :
    e.WellTyped ls :=
  fun k args hcall => ⟨hsub (h k args hcall).1, (h k args hcall).2⟩

end Expr

/-! ## Building expressions -/

/-- What the client of a session was given. -/
inductive Workspace.Item where
  /-- A step of the session gave this. -/
  | outcome (outcome : Session.Outcome)
  /-- This expression was built. -/
  | expr (expr : Expr)

/-- A session with all that its client was given, in order. -/
structure Workspace (σ : Type) where
  /-- The session. -/
  session : Session σ
  /-- What the client was given. -/
  items : List Workspace.Item

namespace Workspace

/-- How an expression is built. Numbers are those of items. -/
inductive Construction where
  | constant (value : Constant)
  | column (name : String) (type : DataType)
  /-- The column of a table. -/
  | tableColumn (table : Table) (name : String)
  | binary (lhs : Nat) (op : Op) (rhs : Nat)
  | named (expr : Nat) (name : String)
  /-- A call of a function that was bound. -/
  | call (function : Nat) (args : List Nat)
  /-- A call of a kind, whether a function was bound to it or not. -/
  | instantiate (kind : Nat) (args : List Nat)

/-- Why nothing was given. -/
inductive Failure where
  /-- There is no item of that number, or none of the sort that is asked for. -/
  | missing (number : Nat)
  /-- The table has no such column. -/
  | column (cause : TranslationError)
  /-- The call, or the step of the session, failed. -/
  | failed (cause : Error)

/-- What the client can do. -/
inductive Action where
  /-- Takes a step of the session. -/
  | step (x : Session.Step)
  /-- Builds an expression. -/
  | build (c : Construction)

variable {σ : Type}

/-- The expression of a number. -/
def exprAt (w : Workspace σ) (n : Nat) : Except Failure Expr :=
  match w.items[n]? with
  | some (.expr e) => .ok e
  | _ => .error (.missing n)

/-- The function of a number. -/
def functionAt (w : Workspace σ) (n : Nat) : Except Failure Udf :=
  match w.items[n]? with
  | some (.outcome (.bound f)) => .ok f
  | _ => .error (.missing n)

/-- The kind of a number, minted alone or with a function bound to it. -/
def kindAt (w : Workspace σ) (n : Nat) : Except Failure NodeKind :=
  match w.items[n]? with
  | some (.outcome (.bound f)) => .ok f.kind
  | some (.outcome (.minted k)) => .ok k
  | _ => .error (.missing n)

/-- The expression that is built. -/
def construct (w : Workspace σ) : Construction → Except Failure Expr
  | .constant value => .ok (.constant value)
  | .column name type => .ok (.column name type)
  | .tableColumn table name => (table.column name).mapError .column
  | .binary lhs op rhs => do
    let l ← w.exprAt lhs
    let r ← w.exprAt rhs
    return .binary l op r
  | .named expr name => do
    let e ← w.exprAt expr
    return .named e name
  | .call function args => do
    let f ← w.functionAt function
    let es ← args.mapM w.exprAt
    (f.call es).mapError .failed
  | .instantiate kind args => do
    let k ← w.kindAt kind
    let es ← args.mapM w.exprAt
    (k.instantiate es).mapError fun cause => .failed (.argument cause)

/-! ## What holds of the items -/

/-- The kinds `ks` are those that the session has minted, the client was given none but these, and
the expressions that were built are well typed in them. -/
structure Sound (w : Workspace σ) (ks : List NodeKind) : Prop where
  /-- The registry records the kinds. -/
  records : w.session.registry.Records ks
  /-- A kind that the client was given is one of them. -/
  kinds : ∀ o k, .outcome o ∈ w.items → o.kind? = some k → k ∈ ks
  /-- The expressions are well typed. -/
  exprs : ∀ e, .expr e ∈ w.items → e.WellTyped ks

variable {w : Workspace σ} {ks : List NodeKind} {n : Nat}

/-- The expression at a place is there if the client was given an expression there. -/
theorem exprAt_eq_ok {e : Expr} : w.exprAt n = .ok e ↔ w.items[n]? = some (.expr e) := by
  unfold exprAt
  split <;> simp_all

/-- The kind of a number was given with the item of that number. -/
theorem exists_of_kindAt {k : NodeKind} (h : w.kindAt n = .ok k) :
    ∃ o, .outcome o ∈ w.items ∧ o.kind? = some k := by
  unfold kindAt at h
  split at h
  · rename_i f hitem
    obtain rfl := Except.ok.inj h
    exact ⟨.bound f, List.mem_of_getElem? hitem, rfl⟩
  · rename_i l hitem
    obtain rfl := Except.ok.inj h
    exact ⟨.minted l, List.mem_of_getElem? hitem, rfl⟩
  · simp at h

/-- A function that was bound is called by its kind. -/
theorem kindAt_of_functionAt {f : Udf} (h : w.functionAt n = .ok f) : w.kindAt n = .ok f.kind := by
  unfold functionAt at h
  split at h
  · rename_i g hitem
    obtain rfl := Except.ok.inj h
    rw [kindAt, hitem]
  · simp at h

namespace Sound

/-- The expression at a place of a sound workspace is well-typed. -/
theorem exprAt (h : Sound w ks) {e : Expr} (he : w.exprAt n = .ok e) : e.WellTyped ks :=
  h.exprs e (List.mem_of_getElem? (exprAt_eq_ok.mp he))

/-- A call of expressions that were built is well typed, if they fit. -/
theorem call (h : Sound w ks) {k : NodeKind} {args : List Nat} {es : List Expr}
    (hk : w.kindAt n = .ok k) (hes : args.mapM w.exprAt = .ok es)
    (hfits : Fits es k.signature.parameters) : (Expr.call k es).WellTyped ks := by
  obtain ⟨o, ho, hkind⟩ := exists_of_kindAt hk
  refine Expr.wellTyped_call (h.kinds o k ho hkind) hfits fun e he => ?_
  obtain ⟨m, -, hm⟩ := exists_of_mem_mapM hes he
  exact h.exprAt hm

/-- Whatever is built is well typed. -/
theorem construct (h : Sound w ks) {c : Construction} {e : Expr} (hc : w.construct c = .ok e) :
    e.WellTyped ks := by
  cases c with
  | constant value =>
    obtain rfl := Except.ok.inj hc
    exact Expr.wellTyped_constant ks value
  | column name type =>
    obtain rfl := Except.ok.inj hc
    exact Expr.wellTyped_column ks name type
  | tableColumn table name =>
    -- The table gives the column the type that it was declared with.
    rw [Workspace.construct, mapError_eq_ok, Table.column] at hc
    split at hc
    · obtain rfl := Except.ok.inj hc
      exact Expr.wellTyped_column ks _ _
    · simp at hc
  | binary lhs op rhs =>
    simp only [Workspace.construct, bind_eq_ok, pure, Except.pure, Except.ok.injEq] at hc
    obtain ⟨l, hl, r, hr, rfl⟩ := hc
    exact (h.exprAt hl).binary (h.exprAt hr)
  | named expr name =>
    simp only [Workspace.construct, bind_eq_ok, pure, Except.pure, Except.ok.injEq] at hc
    obtain ⟨e', he', rfl⟩ := hc
    exact (h.exprAt he').named name
  -- The kind of the call was given to the client, and the arguments were checked against it.
  | call function args =>
    simp only [Workspace.construct, bind_eq_ok, mapError_eq_ok, Udf.call_eq_ok] at hc
    obtain ⟨f, hf, es, hes, hfits, rfl⟩ := hc
    exact h.call (kindAt_of_functionAt hf) hes hfits
  | instantiate kind args =>
    simp only [Workspace.construct, bind_eq_ok, mapError_eq_ok, NodeKind.instantiate_eq_ok] at hc
    obtain ⟨k, hk, es, hes, hfits, rfl⟩ := hc
    exact h.call hk hes hfits

/-- An expression that is well typed can be added. -/
theorem concat_expr (h : Sound w ks) {e : Expr} (he : e.WellTyped ks) :
    Sound { w with items := w.items ++ [.expr e] } ks where
  records := h.records
  kinds o k ho hk := by
    rcases List.mem_append.mp ho with hbefore | hlast
    · exact h.kinds o k hbefore hk
    · simp at hlast
  exprs e' he' := by
    rcases List.mem_append.mp he' with hbefore | hlast
    · exact h.exprs e' hbefore
    · obtain rfl : e' = e := Item.expr.inj (List.mem_singleton.mp hlast)
      exact he

/-- What a step gave can be added, with the kind that it minted. -/
theorem concat_outcome (h : Sound w ks) {session : Session σ} {o : Session.Outcome}
    (hrecords : session.registry.Records (ks ++ o.kind?.toList)) :
    Sound ⟨session, w.items ++ [.outcome o]⟩ (ks ++ o.kind?.toList) where
  records := hrecords
  kinds o' k ho' hk := by
    rcases List.mem_append.mp ho' with hbefore | hlast
    · exact List.mem_append_left _ (h.kinds o' k hbefore hk)
    · obtain rfl : o' = o := Item.outcome.inj (List.mem_singleton.mp hlast)
      rw [hk]
      exact List.mem_append_right _ List.mem_cons_self
  exprs e he := by
    rcases List.mem_append.mp he with hbefore | hlast
    · exact (h.exprs e hbefore).mono (List.subset_append_left _ _)
    · simp at hlast

end Sound

/-! ## What a client can do -/

variable [Connection σ]

/-- Takes an action, and gives the item that it adds. -/
def act (w : Workspace σ) : Action → Except Failure Item × Workspace σ
  | .step x =>
    match w.session.step x with
    | (.error e, session) => (.error (.failed e), { w with session })
    | (.ok o, session) => (.ok (.outcome o), ⟨session, w.items ++ [.outcome o]⟩)
  | .build c =>
    match w.construct c with
    | .error e => (.error e, w)
    | .ok e => (.ok (.expr e), { w with items := w.items ++ [.expr e] })

/-- Takes some actions in order; one that fails does not stop the others. -/
def run (w : Workspace σ) (actions : List Action) : Workspace σ :=
  actions.foldl (fun w x => (w.act x).2) w

/-- A session before its first step, whose client has nothing. -/
def start (connection : σ) : Workspace σ :=
  ⟨Session.start connection, []⟩

/-- An action keeps the workspace sound; there may be one kind more. -/
theorem sound_act (h : Sound w ks) (x : Action) : ∃ ls, Sound (w.act x).2 ls := by
  cases x with
  | step x =>
    have hrecords := Session.records_step h.records x
    cases hstep : w.session.step x with
    | mk answer session =>
      rw [hstep] at hrecords
      cases answer with
      | error e =>
        -- A step that fails mints nothing, so the same kinds are recorded.
        rw [Session.kindOf?, Option.toList_none, List.append_nil] at hrecords
        simp only [act, hstep]
        exact ⟨ks, hrecords, h.kinds, h.exprs⟩
      | ok o =>
        simp only [act, hstep]
        exact ⟨_, h.concat_outcome hrecords⟩
  | build c =>
    cases hc : w.construct c with
    | error e =>
      simp only [act, hc]
      exact ⟨ks, h⟩
    | ok e =>
      -- What was built is well-typed, and one more expression that the client holds.
      simp only [act, hc]
      exact ⟨ks, h.concat_expr (h.construct hc)⟩

/-- Actions keep the workspace sound. -/
theorem sound_run (h : Sound w ks) (actions : List Action) : ∃ ls, Sound (w.run actions) ls := by
  induction actions generalizing w ks with
  | nil => exact ⟨ks, h⟩
  | cons x actions ih =>
    obtain ⟨ls, hls⟩ := sound_act h x
    exact ih hls

omit [Connection σ] in
/-- A workspace that its client was given nothing in is sound. -/
theorem sound_start (connection : σ) : Sound (start connection) [] where
  records := Registry.records_empty
  kinds _ _ h := absurd h List.not_mem_nil
  exprs _ h := absurd h List.not_mem_nil

/-- A construction that fails changes nothing. -/
theorem act_build_of_error {c : Construction} {e : Failure}
    (h : (w.act (.build c)).1 = .error e) : (w.act (.build c)).2 = w := by
  cases hc : w.construct c with
  | error e' => simp only [act, hc]
  | ok e' => simp [act, hc] at h

/-- An action that fails leaves the items and the registry as they were. -/
theorem act_of_error {x : Action} {e : Failure} (h : (w.act x).1 = .error e) :
    (w.act x).2.items = w.items ∧ (w.act x).2.session.registry = w.session.registry := by
  cases x with
  | step x =>
    cases hstep : w.session.step x with
    | mk answer session =>
      cases answer with
      | error cause =>
        -- The connection may have changed, but the registry has not, and nothing is handed out.
        have hregistry := Session.registry_of_step_eq_error (congrArg Prod.fst hstep)
        rw [hstep] at hregistry
        have hact : (w.act (.step x)).2 = { w with session } := by rw [act, hstep]
        rw [hact]
        exact ⟨rfl, hregistry⟩
      | ok o => simp [act, hstep] at h
  | build c =>
    rw [act_build_of_error h]
    exact ⟨rfl, rfl⟩

/-- The construction is a call of a kind with some arguments. -/
inductive Calls (w : Workspace σ) : Construction → NodeKind → List Expr → Prop where
  | call {n : Nat} {args : List Nat} {f : Udf} {es : List Expr} (hf : w.functionAt n = .ok f)
      (hes : args.mapM w.exprAt = .ok es) : Calls w (.call n args) f.kind es
  | instantiate {n : Nat} {args : List Nat} {k : NodeKind} {es : List Expr}
      (hk : w.kindAt n = .ok k) (hes : args.mapM w.exprAt = .ok es) :
      Calls w (.instantiate n args) k es

/-- A call is built exactly if its arguments fit. -/
theorem exists_act_build_iff {c : Construction} {k : NodeKind} {es : List Expr}
    (h : w.Calls c k es) : (∃ item, (w.act (.build c)).1 = .ok item) ↔
      Fits es k.signature.parameters := by
  have hbuilt : (∃ item, (w.act (.build c)).1 = .ok item) ↔ ∃ e, w.construct c = .ok e := by
    cases hc : w.construct c <;> simp [act, hc]
  rw [hbuilt]
  cases h with
  | call hf hes =>
    simp only [construct, hf, hes, bind, Except.bind, mapError_eq_ok, Udf.call_eq_ok,
      exists_and_left, exists_eq, and_true]
  | instantiate hk hes =>
    simp only [construct, hk, hes, bind, Except.bind, mapError_eq_ok, NodeKind.instantiate_eq_ok,
      exists_and_left, exists_eq, and_true]

/-- **No ill-typed call is ever built.** Whatever a client does in a session, every call in an
expression that it has built, at any depth, is of a kind that the registry knows, with as many
arguments as the kind has parameters, each of a type that passes for that of its parameter; and the
call has the type that the kind gives. A call whose arguments fit is built, and one that is not
built changes nothing; nor does anything else that fails take away from what was built or
registered. -/
theorem built_calls_fit (connection : σ) (actions : List Action) :
    let w := (start connection).run actions
    (∀ e, .expr e ∈ w.items → ∀ k args, .call k args ∈ e.subexprs →
        w.session.registry.lookup? k.id = some k ∧
          args.length = k.signature.parameters.length ∧
          (∀ (i : Nat) (a : Expr) (p : Signature.Parameter), args[i]? = some a →
            k.signature.parameters[i]? = some p → a.output.type.castableTo p.type = true) ∧
          (Expr.call k args).output.type = k.signature.output) ∧
      (∀ c k es, w.Calls c k es →
        ((∃ item, (w.act (.build c)).1 = .ok item) ↔ Fits es k.signature.parameters)) ∧
      (∀ c e, (w.act (.build c)).1 = .error e → (w.act (.build c)).2 = w) ∧
      ∀ x e, (w.act x).1 = .error e → (w.act x).2.items = w.items ∧
        (w.act x).2.session.registry = w.session.registry := by
  obtain ⟨ks, hsound⟩ := sound_run (sound_start connection) actions
  refine ⟨fun e he k args hcall => ?_, fun c k es hc => exists_act_build_iff hc,
    fun c e he => act_build_of_error he, fun x e he => act_of_error he⟩
  obtain ⟨hk, hfits⟩ := hsound.exprs e he k args hcall
  obtain ⟨hlength, hcastable⟩ := NodeKind.fits_iff.mp hfits
  exact ⟨hsound.records.known k hk, hlength, hcastable, rfl⟩

/-- A function of a text is bound and called for a column. The result is compared with itself, and
both go to a kind that takes a truth value and a number. -/
def nestedActions : List Action := [
  .step (.bind (Session.lengthDraft .string)),
  .step (.mint ⟨"check", [.boolean, .int64], .string, none, some ["x", "y"]⟩),
  .build (.column "name" .string), .build (.call 0 [2]), .build (.binary 3 .equal 3),
  .build (.named 4 "same"), .build (.instantiate 1 [5, 3])]

/-- The call of the function. -/
def innerCall : Expr :=
  .call (Session.lengthKind 0 .string) [.column "name" .string]

/-- The call around it. -/
def outerCall : Expr :=
  .call ⟨"check_0", ⟨"check", [⟨"x", .boolean⟩, ⟨"y", .int64⟩], .string, none⟩⟩
    [.named (.binary innerCall .equal innerCall) "same", innerCall]

/-- The inner call is built as a part of the outer one, and the function does not take a truth
value. -/
theorem built_calls_fit_of_nested :
    let w := (start Server.fresh).run nestedActions
    w.items[6]? = some (.expr outerCall) ∧ innerCall ∈ outerCall.subexprs ∧
      w.session.registry.lookup? "length_0" = some (Session.lengthKind 0 .string) ∧
      innerCall.output.type = .int32 ∧
      (∃ e, (w.act (.build (.call 0 [5]))).1 = .error e) ∧
      (w.act (.build (.call 0 [5]))).2 = w := by
  intro w
  have hitem : w.items[6]? = some (.expr outerCall) := rfl
  have hinner : innerCall ∈ outerCall.subexprs := by
    simp [outerCall, innerCall, Expr.subexprs, Expr.subexprsAll]
  obtain ⟨hbuilt, -, hfailed, -⟩ := built_calls_fit Server.fresh nestedActions
  obtain ⟨hlookup, -, -, htype⟩ := hbuilt outerCall (List.mem_of_getElem? hitem) _ _ hinner
  obtain ⟨e, herror⟩ : ∃ e, (w.act (.build (.call 0 [5]))).1 = .error e := ⟨_, rfl⟩
  exact ⟨hitem, hinner, hlookup, htype, ⟨e, herror⟩, hfailed _ e herror⟩

end Workspace

end UdfBridge
