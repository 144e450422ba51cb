import UdfBridge.Proofs.Session.Define

/-!
# The kinds that a session mints

Whatever a session is asked to do, each step mints one kind, for the signature that the step asks
for, or none (`step_cases`). So the registry records the kinds that the steps of a session minted,
in the order in which they were answered (`records_run`), and with that all that the record says of
their identities.
-/

namespace UdfBridge

open Source (FunctionDef)

namespace Session

/-! ## What a step mints -/

/-- The kind that was minted, if one was. -/
def Outcome.kind? : Outcome → Option NodeKind
  | .minted kind => some kind
  | .bound f => some f.kind
  | .deployed _ | .done => none

/-- The kind that a step minted, by its answer; a step that fails mints none. -/
def kindOf? : Except Error Outcome → Option NodeKind
  | .ok outcome => outcome.kind?
  | .error _ => none

/-- The signature that a step asks a kind for, if it asks for one and what it is given describes
one. -/
def Step.signature? : Step → Option Signature
  | .mint draft | .bind draft => draft.build.toOption
  | .mintSignature signature => some signature
  | .define f inputs? output? options =>
    (Routine.ofTypes? f inputs? output? options).toOption.map Routine.signature
  | .defineSource source inputs output options =>
    (FunctionDef.parse source).toOption.bind fun f =>
      (Routine.build f inputs output options).toOption.map Routine.signature
  | .deploy _ _ _ _ | .register _ | .addRule _ _ => none

variable {σ : Type} [Connection σ] {s : Session σ} {ks : List NodeKind}

/-- A step has minted nothing: whatever it answered, at most the rules have changed. -/
def MintsNone (s s' : Session σ) (answer : Except Error Outcome) : Prop :=
  kindOf? answer = none ∧ ∃ rules, s'.registry = { s.registry with rules }

/-- A step has minted a kind for `signature`, and answered it. -/
def MintsOne (signature : Signature) (s s' : Session σ) (answer : Except Error Outcome) : Prop :=
  kindOf? answer = some (s.registry.nextKind signature) ∧
    ∃ rules, s'.registry = { s.registry.mint signature with rules }

/-- What creating a function and binding it mints. -/
theorem step_define_cases (s : Session σ) (f : FunctionDef) (inputs? : Option (List DataType))
    (output? : Option DataType) (options : DeployOptions) :
    MintsNone s (s.step (.define f inputs? output? options)).2
        (s.step (.define f inputs? output? options)).1 ∨
      ∃ r, Routine.ofTypes? f inputs? output? options = .ok r ∧
        MintsOne r.signature s (s.step (.define f inputs? output? options)).2
          (s.step (.define f inputs? output? options)).1 := by
  rcases define_cases f inputs? output? options s with
    ⟨e, -, hdefine⟩ | ⟨r, cause, connection, -, -, hdefine⟩ |
      ⟨r, rows, connection, hroutine, -, hdefine⟩
  · simp only [step, hdefine]
    exact .inl ⟨rfl, s.registry.rules, rfl⟩
  · simp only [step, hdefine]
    exact .inl ⟨rfl, s.registry.rules, rfl⟩
  · simp only [step, hdefine]
    exact .inr ⟨r, hroutine, rfl, _, rfl⟩

/-- A step mints a kind for the signature that it asks for, or none. -/
theorem step_cases (s : Session σ) (x : Step) :
    MintsNone s (s.step x).2 (s.step x).1 ∨
      ∃ signature, x.signature? = some signature ∧
        MintsOne signature s (s.step x).2 (s.step x).1 := by
  cases x with
  | mint d =>
    -- Without a signature nothing is minted.
    cases h : d.build with
    | error cause =>
      simp only [step, mint, h]
      exact .inl ⟨rfl, s.registry.rules, rfl⟩
    | ok signature =>
      simp only [step, mint, h, Step.signature?]
      exact .inr ⟨signature, rfl, rfl, s.registry.rules, rfl⟩
  | mintSignature signature => exact .inr ⟨signature, rfl, rfl, s.registry.rules, rfl⟩
  | bind d =>
    cases h : d.build with
    | error cause =>
      simp only [step, bind, Registry.bind_of_error h]
      exact .inl ⟨rfl, s.registry.rules, rfl⟩
    | ok signature =>
      simp only [step, bind, Registry.bind_of_ok h, Step.signature?, h]
      exact .inr ⟨signature, rfl, rfl, _, rfl⟩
  | deploy f inputs? output? options =>
    -- A function that is only created gets no kind.
    have hregistry : (s.deploy f inputs? output? options).2.registry = s.registry := rfl
    cases hdeploy : s.deploy f inputs? output? options with
    | mk answer s' =>
      rw [hdeploy] at hregistry
      simp only [step, hdeploy]
      refine .inl ⟨?_, s.registry.rules, hregistry⟩
      cases answer <;> rfl
  | define f inputs? output? options =>
    rcases step_define_cases s f inputs? output? options with hnone | ⟨r, hroutine, hone⟩
    · exact .inl hnone
    · refine .inr ⟨r.signature, ?_, hone⟩
      simp only [Step.signature?, hroutine, Except.toOption, Option.map_some]
  | defineSource source inputs output options =>
    -- The source must be one of a definition first; then it is created and bound as such.
    cases h : FunctionDef.parse source with
    | error cause =>
      rw [step, defineSource_of_error h]
      exact .inl ⟨rfl, s.registry.rules, rfl⟩
    | ok f =>
      rw [step_defineSource_of_ok h]
      rcases step_define_cases s f (some inputs) (some output) options with
        hnone | ⟨r, hroutine, hone⟩
      · exact .inl hnone
      · have hbuild : Routine.build f inputs output options = .ok r := hroutine
        refine .inr ⟨r.signature, ?_, hone⟩
        simp only [Step.signature?, h, hbuild, Except.toOption, Option.bind_some, Option.map_some]
  | register k => exact .inl ⟨rfl, _, rfl⟩
  | addRule k rule => exact .inl ⟨rfl, _, rfl⟩

/-! ## What a run mints -/

/-- The steps that mint a kind, each with its kind, in the order in which they are taken. -/
def mintings (s : Session σ) : List Step → List (Step × NodeKind)
  | [] => []
  | x :: steps =>
    ((kindOf? (s.step x).1).map fun k => (x, k)).toList ++ (s.step x).2.mintings steps

/-- The kinds that some steps mint, in order. -/
def minted (s : Session σ) (steps : List Step) : List NodeKind :=
  (s.mintings steps).map Prod.snd

/-- The kinds that a run mints are the one of its first step, if that minted one, and those of the
others. -/
theorem minted_cons (s : Session σ) (x : Step) (steps : List Step) :
    s.minted (x :: steps) = (kindOf? (s.step x).1).toList ++ (s.step x).2.minted steps := by
  unfold minted
  rw [mintings, List.map_append]
  cases kindOf? (s.step x).1 <;> rfl

/-- What is minted later stands behind what was minted before. -/
theorem minted_append (s : Session σ) (steps later : List Step) :
    s.minted (steps ++ later) = s.minted steps ++ (s.run steps).minted later := by
  induction steps generalizing s with
  | nil => rfl
  | cons x steps ih =>
    rw [List.cons_append, minted_cons, ih, minted_cons, List.append_assoc]
    rfl

/-- A kind that is minted has the signature that its step asks for. -/
theorem signature?_of_mem_mintings {m : Step × NodeKind} {steps : List Step}
    (h : m ∈ s.mintings steps) : m.1.signature? = some m.2.signature := by
  induction steps generalizing s with
  | nil => exact absurd h List.not_mem_nil
  | cons x steps ih =>
    rw [mintings, List.mem_append] at h
    rcases h with h | h
    · rcases step_cases s x with ⟨hnone, -⟩ | ⟨signature, hsignature, hone, -⟩
      · rw [hnone] at h
        exact absurd h List.not_mem_nil
      · rw [hone] at h
        obtain rfl : m = (x, s.registry.nextKind signature) := List.mem_singleton.mp h
        exact hsignature
    · exact ih h

/-- After a step the registry records the kind that it minted, if it did. -/
theorem records_step (h : s.registry.Records ks) (x : Step) :
    (s.step x).2.registry.Records (ks ++ (kindOf? (s.step x).1).toList) := by
  rcases step_cases s x with ⟨hnone, rules, hregistry⟩ | ⟨signature, -, hone, rules, hregistry⟩
  · rw [hnone, hregistry, Option.toList_none, List.append_nil]
    exact h.withRules rules
  · rw [hone, hregistry]
    exact (h.mint signature).withRules rules

/-- After a run the registry records the kinds that its steps minted. -/
theorem records_run (h : s.registry.Records ks) (steps : List Step) :
    (s.run steps).registry.Records (ks ++ s.minted steps) := by
  induction steps generalizing s ks with
  | nil => rwa [minted, mintings, List.map_nil, List.append_nil]
  | cons x steps ih =>
    rw [minted_cons, ← List.append_assoc]
    exact ih (records_step h x)

/-- A session before its first step. -/
def start (connection : σ) : Session σ :=
  ⟨Registry.empty, connection⟩

/-- The registry records the kinds minted since the start. -/
theorem records_start (connection : σ) (steps : List Step) :
    ((start connection).run steps).registry.Records ((start connection).minted steps) := by
  have h := records_run (s := start connection) Registry.records_empty steps
  rwa [List.nil_append] at h

/-- **The identities of kinds never collide.** Whatever steps a session takes, and under whatever
names: the kinds of a name are numbered from 0, no two kinds have one identity, every kind has the
signature that was asked for, the registry counts the kinds of each name, and whatever steps follow,
it knows each kind by its identity; it knows no other. -/
theorem minted_distinct (connection : σ) (steps : List Step) :
    let s := start connection
    let ks := s.minted steps
    (∀ before k after, ks = before ++ k :: after → k.id = k.signature.name ++ "_" ++
        toString (before.countP fun l => l.signature.name = k.signature.name)) ∧
      (ks.map NodeKind.id).Nodup ∧ ks.Nodup ∧
      (∀ m ∈ s.mintings steps, m.1.signature? = some m.2.signature) ∧
      (∀ name, (s.run steps).registry.kindCount name =
        ks.countP fun k => k.signature.name = name) ∧
      (∀ later, ∀ k ∈ ks, (s.run (steps ++ later)).registry.lookup? k.id = some k) ∧
      ∀ id, (∀ k ∈ ks, k.id ≠ id) → (s.run steps).registry.lookup? id = none := by
  have hrecords := records_start connection steps
  have hids := hrecords.numbered.nodup_ids
  refine ⟨hrecords.numbered, hids, List.Nodup.of_map _ hids,
    fun m hm => signature?_of_mem_mintings hm, hrecords.count, ?_, hrecords.unknown⟩
  intro later k hk
  have hlater := records_start connection (steps ++ later)
  rw [minted_append] at hlater
  exact hlater.known k (List.mem_append_left _ hk)

/-- The signature of a function without parameters. -/
def nullary (name : String) : Signature :=
  ⟨name, [], .int32, none⟩

/-- Steps under names that look like identities. One draft repeats the name of a parameter and is
refused, and one function has no name at all. -/
def entangledSteps : List Step := [
  .mintSignature (nullary "f"), .mintSignature (nullary "f_0"),
  .bind ⟨"f", [.int32, .int32], .int32, none, some ["a", "a"]⟩,
  .bind ⟨"f", [.string], .int32, some "s", none⟩, .mintSignature (nullary "f_0_0"),
  .mintSignature (nullary ""), .mintSignature (nullary "f_0")]

/-- The kinds that the steps mint. -/
def entangledKinds : List NodeKind := [
  ⟨"f_0", nullary "f"⟩, ⟨"f_0_0", nullary "f_0"⟩,
  ⟨"f_1", ⟨"f", [⟨"v0", .string⟩], .int32, some "s"⟩⟩, ⟨"f_0_0_0", nullary "f_0_0"⟩,
  ⟨"_0", nullary ""⟩, ⟨"f_0_1", nullary "f_0"⟩]

/-- Names that look like identities do not get in each other's way. -/
theorem minted_distinct_of_entangled : (start Server.fresh).minted entangledSteps = entangledKinds ∧
    ((start Server.fresh).run entangledSteps).registry.kindCount "f_0" = 2 ∧
    (∀ later, ((start Server.fresh).run (entangledSteps ++ later)).registry.lookup? "f_0_0" =
      some ⟨"f_0_0", nullary "f_0"⟩) ∧
    ((start Server.fresh).run entangledSteps).registry.lookup? "f_0_2" = none := by
  have hkinds : (start Server.fresh).minted entangledSteps = entangledKinds := by decide +kernel
  obtain ⟨-, -, -, -, hcount, hknown, hunknown⟩ := minted_distinct Server.fresh entangledSteps
  rw [hkinds] at hcount hknown hunknown
  refine ⟨hkinds, hcount "f_0", fun later => ?_, hunknown "f_0_2" (by decide)⟩
  exact hknown later ⟨"f_0_0", nullary "f_0"⟩ (by decide)

end Session

end UdfBridge
