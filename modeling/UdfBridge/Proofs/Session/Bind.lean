import UdfBridge.Proofs.Session.Undisturbed

/-!
# Binding a function that exists

Binding succeeds exactly if the draft describes a signature, and then adds one kind with one rule;
otherwise it changes nothing (`bind_registers_iff`). That the kind and the rule are new holds of the
sessions that can be reached: there the registry has numbered the kinds that it knows, and has rules
for no others (`Reachable.exists_records`). A step may give a rule to a kind only when that has been
minted, as nothing but minting makes a kind.
-/

namespace UdfBridge

/-- No kind has a rule but those in the list. -/
def Registry.RulesOnly (r : Registry) (ks : List NodeKind) : Prop :=
  ∀ id rule, r.rules[id]? = some rule → ∃ k ∈ ks, k.id = id

/-- No kind has a rule before any registration. -/
theorem Registry.rulesOnly_empty : empty.RulesOnly [] := by
  intro id rule h
  simp [empty] at h

/-- A recorded registry knows a kind only if it has minted one of that identity. -/
theorem Registry.Records.exists_of_lookup? {r : Registry} {ks : List NodeKind} {id : String}
    {k : NodeKind} (h : r.Records ks) (hk : r.lookup? id = some k) : ∃ l ∈ ks, l.id = id := by
  by_contra hnone
  rw [h.unknown id fun l hl hid => hnone ⟨l, hl, hid⟩] at hk
  simp at hk

namespace Session

variable {σ : Type} [Connection σ] {s : Session σ} {ks : List NodeKind}

/-- The sessions that can be reached. Their steps give rules only to kinds that the registry knows,
and meanwhile the connection may change in any way. -/
inductive Reachable : Session σ → Prop where
  | start (connection : σ) : Reachable (start connection)
  | step {s : Session σ} (x : Step) (h : Reachable s)
      (hx : ∀ k rule, x.ruling? = some (k, rule) → s.registry.lookup? k.id = some k) :
      Reachable (s.step x).2
  | connect {s : Session σ} (connection : σ) (h : Reachable s) : Reachable { s with connection }

/-- A kind that a step has given a rule was minted before, or the step has minted it. -/
theorem exists_of_given? (hrecords : s.registry.Records ks) {x : Step} {l : NodeKind}
    {rule : RegisteredRule}
    (hx : ∀ k rule, x.ruling? = some (k, rule) → s.registry.lookup? k.id = some k)
    (h : given? x (s.step x).1 = some (l, rule)) :
    ∃ k ∈ ks ++ (kindOf? (s.step x).1).toList, k.id = l.id := by
  unfold given? at h
  split at h
  · obtain ⟨k, hk, hpair⟩ := Option.map_eq_some_iff.mp h
    obtain ⟨rfl, -⟩ := Prod.mk.inj hpair
    rw [hk]
    exact ⟨k, List.mem_append_right _ List.mem_cons_self, rfl⟩
  · obtain ⟨k, hk, hid⟩ := hrecords.exists_of_lookup? (hx l rule h)
    exact ⟨k, List.mem_append_left _ hk, hid⟩

/-- After a step, the kinds with rules are those minted before and the one that the step minted. -/
theorem rulesOnly_step (hrecords : s.registry.Records ks) (h : s.registry.RulesOnly ks) {x : Step}
    (hx : ∀ k rule, x.ruling? = some (k, rule) → s.registry.lookup? k.id = some k) :
    (s.step x).2.registry.RulesOnly (ks ++ (kindOf? (s.step x).1).toList) := by
  intro id rule hrule
  by_cases hgiven : ∃ l given, given? x (s.step x).1 = some (l, given) ∧ l.id = id
  · obtain ⟨l, given, hl, rfl⟩ := hgiven
    exact exists_of_given? hrecords hx hl
  · -- The rule is one of those before the step.
    have hold : s.registry.rules[id]? = some rule := by
      rw [gives_step s x id] at hrule
      split at hrule
      · rename_i l given hl
        rwa [if_neg fun hid => hgiven ⟨l, given, hl, hid⟩] at hrule
      · exact hrule
    obtain ⟨k, hk, hid⟩ := h id rule hold
    exact ⟨k, List.mem_append_left _ hk, hid⟩

/-- The registry of a session that can be reached records the kinds that were minted, and has rules
for no others. -/
theorem Reachable.exists_records (h : Reachable s) :
    ∃ ks, s.registry.Records ks ∧ s.registry.RulesOnly ks := by
  induction h with
  | start connection => exact ⟨[], Registry.records_empty, Registry.rulesOnly_empty⟩
  | step x _ hx ih =>
    obtain ⟨ks, hrecords, hrules⟩ := ih
    exact ⟨_, records_step hrecords x, rulesOnly_step hrecords hrules hx⟩
  | connect connection _ ih => exact ih

/-- The kind that is minted next has an identity that is not known yet, and no rule. -/
theorem Reachable.fresh (h : Reachable s) (signature : Signature) :
    s.registry.lookup? (s.registry.nextKind signature).id = none ∧
      s.registry.rules[(s.registry.nextKind signature).id]? = none := by
  obtain ⟨ks, hrecords, hrules⟩ := h.exists_records
  have hne := hrecords.ne_nextKind signature
  refine ⟨hrecords.unknown _ hne, Option.eq_none_iff_forall_ne_some.mpr fun rule hrule => ?_⟩
  obtain ⟨k, hk, hid⟩ := hrules _ rule hrule
  exact hne k hk hid

/-- A function was bound for a draft: its kind has the signature that the draft describes, and it
is the only thing that the registry has gained. -/
structure Binds (d : Signature.Draft) (s s' : Session σ) (f : Udf) : Prop where
  /-- The function is called by the name of the draft. -/
  name : f.kind.signature.name = d.name
  /-- The function lives in the schema of the draft. -/
  schema : f.kind.signature.schema? = d.schema?
  /-- The result has the type of the draft. -/
  output : f.kind.signature.output = d.output
  /-- The parameters have the types of the draft, in order. -/
  inputs : f.kind.signature.inputs = d.inputs
  /-- The parameters have the names of the draft, in order, or else `v0`, `v1`, …. -/
  names : f.kind.signature.parameterNames =
    d.names?.getD ((List.range d.inputs.length).map fun i => "v" ++ toString i)
  /-- The names are all different. -/
  distinct : f.kind.signature.parameterNames.Nodup
  /-- The kind is counted under its name, known by its identity and called by its name, and nothing
  else has changed. -/
  gains : s.registry.Gains s'.registry f.kind
  /-- The database was not asked. -/
  connection : s'.connection = s.connection

omit [Connection σ] in
/-- A session binds what its registry binds. -/
theorem bind_eq (d : Signature.Draft) (s : Session σ) :
    s.bind d = ((s.registry.bind d).1, { s with registry := (s.registry.bind d).2 }) := rfl

omit [Connection σ] in
/-- A draft that describes a signature is bound. -/
theorem binds_of_build {d : Signature.Draft} {signature : Signature} (hbuild : d.build = .ok signature)
    (s : Session σ) : Binds d s (s.bind d).2 ⟨s.registry.nextKind signature⟩ := by
  have hinputs := Signature.inputs_of_build hbuild
  have hnames := Signature.names_of_build hbuild
  obtain ⟨-, names, hnames', hnodup, hsignature⟩ := Signature.Draft.build_eq_ok.mp hbuild
  -- The names of the parameters are those of the draft, for the signature was built from them.
  obtain rfl : names = signature.parameterNames := Except.ok.inj (hnames'.symm.trans hnames)
  have hbind : s.bind d = _ := bind_eq d s
  rw [Registry.bind_of_ok hbuild] at hbind
  rw [hbind]
  exact {
    name := congrArg Signature.name hsignature
    schema := congrArg Signature.schema? hsignature
    output := congrArg Signature.output hsignature
    inputs := hinputs
    names := Signature.names_eq_getD hnames
    distinct := hnodup
    gains := s.registry.gains_mint_register signature
    connection := rfl }

/-- **A function is bound exactly if its draft describes a signature, and otherwise nothing happens.**
The draft describes one if the function has a name, and the parameters have no names or one for each
type, all different. In a session that can be reached, the kind is a new one, and so is its rule. What
a draft describes can be described again by what it says of itself. -/
theorem bind_registers_iff (s : Session σ) (d : Signature.Draft) :
    ((∃ f, (s.bind d).1 = .ok f) ↔ d.name ≠ "" ∧
        ∀ names, d.names? = some names → names.length = d.inputs.length ∧ names.Nodup) ∧
      (∀ e, (s.bind d).1 = .error e →
        (∃ cause, e = .configuration cause) ∧ (s.bind d).2 = s) ∧
      (∀ f, (s.bind d).1 = .ok f → Binds d s (s.bind d).2 f ∧
        (Reachable s →
          s.registry.lookup? f.kind.id = none ∧ s.registry.rules[f.kind.id]? = none)) ∧
      ∀ signature, d.build = .ok signature →
        (⟨signature.name, signature.inputs, signature.output, signature.schema?,
          some signature.parameterNames⟩ : Signature.Draft).build = .ok signature := by
  refine ⟨?_, ?_, ?_, fun signature h => Signature.build_toDraft h⟩
  · -- Binding fails exactly where the signature cannot be built.
    rw [← Signature.exists_build_iff, bind_eq]
    cases h : d.build with
    | error cause => simp [Registry.bind_of_error h]
    | ok signature => simp [Registry.bind_of_ok h]
  · -- A draft that is refused leaves the registry as it was, and so the session.
    intro e he
    rw [bind_eq] at he ⊢
    cases h : d.build with
    | error cause =>
      rw [Registry.bind_of_error h] at he ⊢
      exact ⟨⟨cause, (Except.error.inj he).symm⟩, rfl⟩
    | ok signature => simp [Registry.bind_of_ok h] at he
  · -- The function that is bound is of the kind that the registry mints next.
    intro f hf
    cases h : d.build with
    | error cause => simp [bind_eq, Registry.bind_of_error h] at hf
    | ok signature =>
      obtain rfl : ⟨s.registry.nextKind signature⟩ = f := by
        simpa [bind_eq, Registry.bind_of_ok h] using hf
      exact ⟨binds_of_build h s, fun hs => hs.fresh signature⟩

/-- A session in which a function was bound, and its kind was then given a rule that fails. -/
def boundOnce : Session Server :=
  (((start Server.fresh).step (.bind (lengthDraft .string))).2.step
    (.addRule (lengthKind 0 .string) (.always (.fail "no such function")))).2

/-- The session in which the function is bound once can be reached. -/
theorem reachable_boundOnce : Reachable boundOnce := by
  refine .step _ (.step _ (.start _) (by simp [Step.ruling?])) fun k rule hruling => ?_
  obtain ⟨rfl, -⟩ : lengthKind 0 .string = k ∧ _ := by simpa [Step.ruling?] using hruling
  decide +kernel

/-- The function is bound once more, for two arguments without names, and is refused with one name
for its argument too many. -/
theorem bind_registers_iff_of_boundOnce : Reachable boundOnce ∧
    (∃ f, (boundOnce.bind { lengthDraft .string with inputs := [.string, .binary] }).1 = .ok f ∧
      f.kind.signature.parameterNames = ["v0", "v1"] ∧
      boundOnce.registry.lookup? f.kind.id = none ∧
      (boundOnce.bind { lengthDraft .string with inputs := [.string, .binary] }).2.registry.kindCount
        "length" = 2) ∧
    (∃ e, (boundOnce.bind { lengthDraft .string with names? := some ["a", "b"] }).1 = .error e) ∧
    (boundOnce.bind { lengthDraft .string with names? := some ["a", "b"] }).2 = boundOnce := by
  have hreachable := reachable_boundOnce
  obtain ⟨hiff, -, hbinds, -⟩ :=
    bind_registers_iff boundOnce { lengthDraft .string with inputs := [.string, .binary] }
  obtain ⟨-, hrefused, -, -⟩ :=
    bind_registers_iff boundOnce { lengthDraft .string with names? := some ["a", "b"] }
  obtain ⟨f, hf⟩ := hiff.mpr (by decide)
  obtain ⟨hbinds, hfresh⟩ := hbinds f hf
  have hcount : boundOnce.registry.kindCount "length" = 1 := by decide +kernel
  have herror : (boundOnce.bind { lengthDraft .string with names? := some ["a", "b"] }).1 =
      .error (.configuration (.lengthMismatch "length" 1 2)) := by
    decide +kernel
  refine ⟨hreachable, ⟨f, hf, hbinds.names, (hfresh hreachable).1, ?_⟩, ⟨_, herror⟩,
    (hrefused _ herror).2⟩
  rw [hbinds.gains.count, hbinds.name, hcount]
  rfl

end Session

end UdfBridge
