import Mathlib.Data.List.Nodup
import UdfBridge.Proofs.Text.Apart
import UdfBridge.Signature

/-!
# Signatures and their drafts

A draft describes a signature exactly if the function has a name and the parameters have one each,
all different; the names that are given to parameters without one always are
(`exists_build_iff`). What the draft says can then be read off the signature, so a signature that is
taken apart into a draft is built from it again (`build_toDraft`).
-/

namespace UdfBridge.Signature

/-- No name is repeated if they are all different and none of them was seen. -/
theorem firstRepeated?_eq_none_iff {seen names : List String} :
    firstRepeated? seen names = none ↔ names.Nodup ∧ ∀ x ∈ names, x ∉ seen := by
  induction names generalizing seen with
  | nil => simp [firstRepeated?]
  | cons x names ih =>
    rw [firstRepeated?]
    split
    · simp_all
    · rw [ih, List.nodup_cons]
      simp only [List.mem_cons, not_or]
      grind

/-- The names `v0`, `v1`, … are all different, however many there are. -/
theorem nodup_numberedNames (n : Nat) : (numberedNames n).Nodup := by
  refine List.Nodup.map (fun i j h => ?_) List.nodup_range
  have hchars := congrArg String.toList h
  simp only [String.toList_append, List.append_cancel_left_eq, Nat.toString_eq_repr,
    Nat.toList_repr] at hchars
  exact Text.toDigits_inj hchars

/-- A draft has as many names as types. -/
theorem Draft.length_names {d : Draft} {names : List String} (h : d.names = .ok names) :
    names.length = d.inputs.length := by
  unfold Draft.names at h
  split at h
  · rw [Except.ok.injEq] at h
    rw [← h, numberedNames, List.length_map, List.length_range]
  · split at h
    · rename_i hlength
      rw [Except.ok.injEq] at h
      rwa [← h]
    · simp at h

/-- What a draft describes, if it does: the function has a name, the parameters have different ones,
and the signature says what the draft does. -/
theorem Draft.build_eq_ok {d : Draft} {s : Signature} : d.build = .ok s ↔
    d.name.isEmpty = false ∧ ∃ names, d.names = .ok names ∧ names.Nodup ∧
      s = ⟨d.name, List.zipWith Parameter.mk names d.inputs, d.output, d.schema?⟩ := by
  unfold Draft.build
  cases d.name.isEmpty with
  | true => simp
  | false =>
    cases d.names with
    | error e => simp
    | ok names =>
      -- Names are refused if one of them comes again, and that is so if they are not all different.
      cases hrepeated : firstRepeated? [] names with
      | some x =>
        have hnodup : ¬ names.Nodup := by
          intro h
          have hnone := firstRepeated?_eq_none_iff.mpr ⟨h, fun x _ => List.not_mem_nil⟩
          rw [hrepeated] at hnone
          simp at hnone
        simp [hrepeated, hnodup]
      | none =>
        have hnodup : names.Nodup := (firstRepeated?_eq_none_iff.mp hrepeated).1
        simp [hrepeated, hnodup, eq_comm]

variable {d : Draft} {s : Signature}

/-- A draft describes a signature exactly if the function has a name, and the parameters have no names
or one for each type, all different. -/
theorem exists_build_iff : (∃ s, d.build = .ok s) ↔ d.name ≠ "" ∧
    ∀ names, d.names? = some names → names.length = d.inputs.length ∧ names.Nodup := by
  have hnames : (∃ names, d.names = .ok names ∧ names.Nodup) ↔
      ∀ names, d.names? = some names → names.length = d.inputs.length ∧ names.Nodup := by
    -- Without names the parameters are numbered, and numbers are never the same.
    unfold Draft.names
    cases d.names? with
    | none => simp [nodup_numberedNames]
    | some names => by_cases hlength : names.length = d.inputs.length <;> simp [hlength]
  rw [← hnames]
  simp only [Draft.build_eq_ok, String.isEmpty_eq_false_iff]
  constructor
  · rintro ⟨_, hname, names, h, hnodup, -⟩
    exact ⟨hname, names, h, hnodup⟩
  · rintro ⟨hname, names, h, hnodup⟩
    exact ⟨_, hname, names, h, hnodup, rfl⟩

/-- The names that a draft gives are those that the parameters get; without any they are numbered. -/
theorem names_eq_getD {names : List String} (h : d.names = .ok names) :
    names = d.names?.getD (numberedNames d.inputs.length) := by
  unfold Draft.names at h
  cases hgiven : d.names? with
  | none => simpa [hgiven, eq_comm] using h
  | some given =>
    by_cases hlength : given.length = d.inputs.length <;> simp [hgiven, hlength] at h
    exact h.symm

/-- The parameters of a signature have the types of its draft, in order. -/
theorem inputs_of_build (h : d.build = .ok s) : s.inputs = d.inputs := by
  obtain ⟨-, names, hnames, -, rfl⟩ := Draft.build_eq_ok.mp h
  rw [inputs, ← List.map_uncurry_zip_eq_zipWith, List.map_map]
  exact List.map_snd_zip (Nat.le_of_eq (Draft.length_names hnames).symm)

/-- The parameters of a signature have the names of its draft, in order. -/
theorem names_of_build (h : d.build = .ok s) : d.names = .ok s.parameterNames := by
  obtain ⟨-, names, hnames, -, rfl⟩ := Draft.build_eq_ok.mp h
  rw [hnames, parameterNames, ← List.map_uncurry_zip_eq_zipWith, List.map_map]
  exact congrArg _ (List.map_fst_zip (Nat.le_of_eq (Draft.length_names hnames))).symm

/-- The parameters of a signature are their names with their types. -/
theorem zipWith_parameters (s : Signature) :
    List.zipWith Parameter.mk s.parameterNames s.inputs = s.parameters := by
  rw [parameterNames, inputs, List.zipWith_map, List.zipWith_self]
  exact List.map_id _

/-- A signature that is taken apart into a draft is built from it again. -/
theorem build_toDraft (h : d.build = .ok s) : s.toDraft.build = .ok s := by
  have hnames := names_of_build h
  obtain ⟨hname, names, hnames', hnodup, hs⟩ := Draft.build_eq_ok.mp h
  -- The names are those that the draft was built with, so they are given once more.
  obtain rfl : names = s.parameterNames := by
    rw [hnames, Except.ok.injEq] at hnames'
    exact hnames'.symm
  have hnamesOf : s.toDraft.names = .ok s.parameterNames := by
    simp [Draft.names, toDraft, parameterNames, inputs]
  refine Draft.build_eq_ok.mpr ⟨?_, s.parameterNames, hnamesOf, hnodup, ?_⟩
  · rw [hs]
    exact hname
  · rw [toDraft, zipWith_parameters]

end UdfBridge.Signature
