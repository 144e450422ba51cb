import Mathlib.Data.List.Induction
import Mathlib.Data.List.Nodup
import UdfBridge.Proofs.Text.Apart
import UdfBridge.Registry

/-!
# The identities of kinds

An identity glues a number to a name that may itself end in an underscore and digits. Still it says
both: no digit is an underscore, so the number starts behind the last one (`kindId_inj`).

The registry numbers the kinds of each name as they are minted. `Records` says what it then knows
of them: how many there are of each name, and each by its identity, which no other kind has.
Minting preserves this, since the number it gives is that of no kind minted before
(`Numbered.fresh`).
-/

namespace UdfBridge.Registry

open Text (append_inj_of_span)

/-! ## Names with numbers -/

/-- Read from its end, an identity is a number, an underscore and a name. -/
theorem reverse_toList_kindId (name : String) (n : Nat) : (kindId name n).toList.reverse =
    (Nat.toDigits 10 n).reverse ++ '_' :: name.toList.reverse := by
  simp [kindId, Nat.toList_repr]

/-- An identity says which name and which number it is made of, whatever characters the name
has. -/
theorem kindId_inj {a b : String} {m n : Nat} (h : kindId a m = kindId b n) : a = b ∧ m = n := by
  have hdigits : ∀ k : Nat, ∀ c ∈ (Nat.toDigits 10 k).reverse, c.isDigit = true := by
    intro k c hc
    exact Nat.isDigit_of_mem_toDigits (by decide) (by decide) (List.mem_reverse.mp hc)
  have hunderscore : ∀ s : List Char, ∀ c ∈ ('_' :: s).head?, c.isDigit = false := by
    intro s c hc
    obtain rfl : '_' = c := by simpa using hc
    decide
  have hreverse := congrArg (fun s => s.toList.reverse) h
  simp only [reverse_toList_kindId] at hreverse
  obtain ⟨hnumber, hname⟩ :=
    append_inj_of_span (hdigits m) (hdigits n) (hunderscore _) (hunderscore _) hreverse
  constructor
  · exact String.toList_inj.mp (List.reverse_inj.mp (List.cons.inj hname).2)
  · exact Text.toDigits_inj (List.reverse_inj.mp hnumber)

/-! ## Numbered kinds -/

/-- How many of the kinds call a function of some name. -/
def countNamed (ks : List NodeKind) (name : String) : Nat :=
  ks.countP fun k => k.signature.name = name

/-- Among no kinds none is of a name. -/
theorem countNamed_nil (name : String) : countNamed [] name = 0 := rfl

/-- The kinds of a name in two lists are counted together. -/
theorem countNamed_append (ks ls : List NodeKind) (name : String) :
    countNamed (ks ++ ls) name = countNamed ks name + countNamed ls name :=
  List.countP_append

/-- The first kind counts if it is of the name. -/
theorem countNamed_cons (k : NodeKind) (ks : List NodeKind) (name : String) :
    countNamed (k :: ks) name = countNamed ks name + if k.signature.name = name then 1 else 0 := by
  simp [countNamed, List.countP_cons]

/-- The identity of each kind is the name of its function with the number of kinds of that name
before it. -/
def Numbered (ks : List NodeKind) : Prop :=
  ∀ before k after, ks = before ++ k :: after →
    k.id = kindId k.signature.name (countNamed before k.signature.name)

/-- No kinds are numbered. -/
theorem numbered_nil : Numbered [] := by
  intro before k after h
  simp at h

namespace Numbered

variable {ks : List NodeKind} {k : NodeKind}

/-- Kinds stay numbered if the one behind them has the next number of its name. -/
theorem concat (h : Numbered ks)
    (hk : k.id = kindId k.signature.name (countNamed ks k.signature.name)) :
    Numbered (ks ++ [k]) := by
  intro before l after hsplit
  rcases List.eq_nil_or_concat after with rfl | ⟨after, k', rfl⟩
  · obtain ⟨rfl, hkl⟩ := List.append_inj' hsplit rfl
    obtain rfl : k = l := by simpa using hkl
    exact hk
  · rw [List.concat_eq_append, ← List.cons_append, ← List.append_assoc] at hsplit
    exact h before l after (List.append_inj' hsplit rfl).1

/-- Numbered kinds are numbered without the last one. -/
theorem of_concat (h : Numbered (ks ++ [k])) : Numbered ks := by
  intro before l after hsplit
  refine h before l (after ++ [k]) ?_
  rw [hsplit, List.append_assoc, List.cons_append]

/-- The next number of a name makes an identity that no kind has. -/
theorem fresh (h : Numbered ks) (name : String) :
    ∀ k ∈ ks, k.id ≠ kindId name (countNamed ks name) := by
  intro k hk hid
  obtain ⟨before, after, rfl⟩ := List.append_of_mem hk
  rw [h before k after rfl] at hid
  obtain ⟨rfl, hcount⟩ := kindId_inj hid
  -- The kind itself is one of those of its name, so there are more of them than before it.
  rw [countNamed_append, countNamed_cons, if_pos rfl] at hcount
  omega

/-- Numbered kinds have different identities. -/
theorem nodup_ids (h : Numbered ks) : (ks.map NodeKind.id).Nodup := by
  induction ks using List.reverseRecOn with
  | nil => exact List.nodup_nil
  | append_singleton ks k ih =>
    have hfresh := h.of_concat.fresh k.signature.name
    have hk := h ks k [] rfl
    rw [List.map_append, List.map_singleton, ← List.concat_eq_append, List.nodup_concat]
    refine ⟨?_, ih h.of_concat⟩
    intro hmem
    obtain ⟨l, hl, hid⟩ := List.mem_map.mp hmem
    exact hfresh l hl (hid.trans hk)

end Numbered

/-! ## What the registry records -/

/-- The kinds `ks` are those that the registry has minted, in order: it counts them by name and
knows them, and no others, by their identities. -/
structure Records (r : Registry) (ks : List NodeKind) : Prop where
  /-- The kinds are numbered. -/
  numbered : Numbered ks
  /-- The registry has the number of the kinds of each name. -/
  count : ∀ name, r.kindCount name = countNamed ks name
  /-- The registry knows each of the kinds. -/
  known : ∀ k ∈ ks, r.lookup? k.id = some k
  /-- The registry knows no other kind. -/
  unknown : ∀ id, (∀ k ∈ ks, k.id ≠ id) → r.lookup? id = none

/-- An empty registry records no kinds. -/
theorem records_empty : empty.Records [] where
  numbered := numbered_nil
  count name := by simp [kindCount, empty, countNamed]
  known k hk := absurd hk List.not_mem_nil
  unknown id _ := by simp [lookup?, empty]

namespace Records

variable {r : Registry} {ks : List NodeKind}

/-- The rules are no matter of the record. -/
theorem withRules (h : r.Records ks) (rules : Std.TreeMap String RegisteredRule) :
    { r with rules := rules }.Records ks :=
  ⟨h.numbered, h.count, h.known, h.unknown⟩

/-- No kind minted before has the identity of the next one. -/
theorem ne_nextKind (h : r.Records ks) (s : Signature) : ∀ k ∈ ks, k.id ≠ (r.nextKind s).id := by
  intro k hk
  rw [nextKind, h.count]
  exact h.numbered.fresh s.name k hk

/-- A kind that is minted is the last one recorded. -/
theorem mint (h : r.Records ks) (s : Signature) : (r.mint s).Records (ks ++ [r.nextKind s]) where
  numbered := by
    apply h.numbered.concat
    rw [nextKind, h.count]
  count name := by
    rw [kindCount_mint, h.count, countNamed_append, countNamed_cons, countNamed_nil, Nat.zero_add]
    rfl
  known := by
    intro k hk
    rw [lookup?_mint]
    rcases List.mem_append.mp hk with hk | hk
    · -- The identity of an earlier kind is not the new one, so looking it up gives what it gave.
      rw [if_neg (h.ne_nextKind s k hk).symm]
      exact h.known k hk
    · obtain rfl : k = r.nextKind s := List.mem_singleton.mp hk
      rw [if_pos rfl]
  unknown := by
    intro id hid
    have hlast : (r.nextKind s).id ≠ id :=
      hid _ (List.mem_append_right _ List.mem_cons_self)
    rw [lookup?_mint, if_neg hlast]
    exact h.unknown id fun k hk => hid k (List.mem_append_left _ hk)

end Records

end UdfBridge.Registry
