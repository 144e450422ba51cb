import UdfBridge.Proofs.Grammar.Match

/-!
# What a pattern does at a character

Some things can be read off a pattern without running it. A pattern that consumes leaves less than
it found (`Pattern.length_lt_of_consumes`), so its repetition never stops for lack of progress. A
total pattern matches every text (`Pattern.exists_run_of_isTotal`). And at many a character a
pattern does not match, or matches nothing, whatever follows: `Pattern.peek` knows such characters
(`Pattern.peek_sound`).
-/

namespace UdfBridge.Grammar

variable {ρ : Type}

namespace Pattern

/-! ## Progress -/

/-- Whether every match takes a character. -/
def consumes : Pattern ρ → Bool
  | empty | star _ | notAhead _ => false
  | one _ | balanced _ => true
  | seq p q => p.consumes || q.consumes
  | orElse p q => p.consumes && q.consumes
  | node _ p => p.consumes

/-- A match takes nothing from the rest. -/
theorem length_le_of_run {p : Pattern ρ} {s r : List Char} {f : Forest ρ}
    (h : p.run s = some (f, r)) : r.length ≤ s.length := by
  rw [lossless_run p s f r h, List.length_append]
  omega

/-- A match of a pattern that consumes leaves less. -/
theorem length_lt_of_consumes {p : Pattern ρ} (hp : p.consumes = true) {s r : List Char}
    {f : Forest ρ} (h : p.run s = some (f, r)) : r.length < s.length := by
  induction p generalizing s r f with
  | empty | star _ | notAhead _ => simp [consumes] at hp
  | one accepts =>
    obtain ⟨c, -, rfl, -⟩ := run_one.mp h
    exact Nat.lt_succ_self r.length
  | seq p q ihp ihq =>
    obtain ⟨f₁, r₁, f₂, h₁, h₂, -⟩ := run_seq.mp h
    -- One of the two takes a character, and the other one gives none back.
    rcases Bool.or_eq_true_iff.mp hp with hp | hq
    · exact Nat.lt_of_le_of_lt (length_le_of_run h₂) (ihp hp h₁)
    · exact Nat.lt_of_lt_of_le (ihq hq h₂) (length_le_of_run h₁)
  | orElse p q ihp ihq =>
    obtain ⟨hp, hq⟩ := Bool.and_eq_true_iff.mp hp
    rcases run_orElse.mp h with h | ⟨-, h⟩
    · exact ihp hp h
    · exact ihq hq h
  | node rule p ih =>
    obtain ⟨g, hg, -⟩ := run_node.mp h
    exact ih hp hg
  | balanced leaf _ =>
    obtain ⟨c, w, t, g, -, rfl, hg, -⟩ := run_balanced.mp h
    -- The bracket itself is a character that is taken.
    rw [(lossless_run leaf).closeGroups _ _ _ _ hg, List.length_cons, List.length_append]
    omega

/-- To show something of all texts, it may be assumed of the rests that the matches of such a pattern
leave. -/
theorem rest_induction {p : Pattern ρ} (hp : p.consumes = true) {motive : List Char → Prop}
    (step : ∀ s, (∀ {f r}, p.run s = some (f, r) → motive r) → motive s) (s : List Char) :
    motive s := by
  induction hlen : s.length using Nat.strongRecOn generalizing s with
  | ind n ih => exact step s fun h => ih _ (hlen ▸ length_lt_of_consumes hp h) _ rfl

/-- A repetition of such a pattern takes a match and goes on behind it. -/
theorem run_star_of_some {p : Pattern ρ} (hp : p.consumes = true) {s r : List Char} {f : Forest ρ}
    (h : p.run s = some (f, r)) :
    (star p).run s = ((star p).run r).map fun m => (f ++ m.1, m.2) := by
  rw [run_star, run_star, many_of_some h (length_lt_of_consumes hp h), Option.map_some]

/-! ## Totality -/

/-- Whether the pattern is made so that it matches every text. -/
def isTotal : Pattern ρ → Bool
  | empty | star _ => true
  | one _ | notAhead _ | balanced _ => false
  | seq p q => p.isTotal && q.isTotal
  | orElse p q => p.isTotal || q.isTotal
  | node _ p => p.isTotal

/-- A total pattern matches every text. -/
theorem exists_run_of_isTotal {p : Pattern ρ} (hp : p.isTotal = true) (s : List Char) :
    ∃ f r, p.run s = some (f, r) := by
  induction p generalizing s with
  | empty => exact ⟨.nil, s, rfl⟩
  | star p _ => exact ⟨_, _, run_star⟩
  | one _ | notAhead _ _ | balanced _ _ => simp [isTotal] at hp
  | seq p q ihp ihq =>
    obtain ⟨hp, hq⟩ := Bool.and_eq_true_iff.mp hp
    obtain ⟨f₁, r₁, h₁⟩ := ihp hp s
    obtain ⟨f₂, r₂, h₂⟩ := ihq hq r₁
    exact ⟨_, _, run_seq.mpr ⟨f₁, r₁, f₂, h₁, h₂, rfl⟩⟩
  | orElse p q ihp ihq =>
    cases hrun : p.run s with
    | some m => exact ⟨m.1, m.2, run_orElse.mpr (.inl hrun)⟩
    | none =>
      -- The first of the two is refused, so it is not the one that matches always.
      have hq : q.isTotal = true := by
        refine (Bool.or_eq_true_iff.mp hp).resolve_left fun hp => ?_
        obtain ⟨f, r, h⟩ := ihp hp s
        simp [hrun] at h
      obtain ⟨f, r, h⟩ := ihq hq s
      exact ⟨f, r, run_orElse.mpr (.inr ⟨hrun, h⟩)⟩
  | node rule p ih =>
    obtain ⟨f, r, h⟩ := ih hp s
    exact ⟨_, r, run_node.mpr ⟨f, h, rfl⟩⟩

/-! ## The first character -/

/-- Whether the pattern matches nothing at the character `c` (`true`) or does not match there
(`false`), where that character alone decides it. -/
def peek : Pattern ρ → Char → Option Bool
  | empty, _ => some true
  | one accepts, c => if accepts c then none else some false
  | seq p q, c =>
    match p.peek c with
    | some true => q.peek c
    | answer => answer
  | orElse p q, c =>
    match p.peek c with
    | some false => q.peek c
    | answer => answer
  | star p, c => (p.peek c).map fun _ => true
  | notAhead p, c => (p.peek c).map not
  | node _ p, c => if p.peek c = some false then some false else none
  | balanced _, c => if (closer? c).isSome then none else some false

/-- What the first character decides about a match. -/
def Decides (step : Step ρ) (c : Char) : Option Bool → Prop
  | none => True
  | some false => ∀ s, step (c :: s) = none
  | some true => ∀ s, step (c :: s) = some (.nil, c :: s)

/-- What `peek` says holds whatever follows the character. -/
theorem peek_sound (p : Pattern ρ) (c : Char) : Decides p.run c (p.peek c) := by
  induction p with
  | empty => exact fun s => rfl
  | one accepts =>
    unfold peek
    cases haccepts : accepts c with
    | true => trivial
    | false => exact fun s => by simp [run, haccepts]
  | seq p q ihp ihq =>
    unfold peek
    rcases hp : p.peek c with _ | _ | _ <;> rw [hp] at ihp
    · trivial
    · exact fun s => by rw [run, ihp s]
    · -- The first pattern matches nothing, so the second one decides.
      rcases hq : q.peek c with _ | _ | _ <;> rw [hq] at ihq
      · trivial
      · exact fun s => by simp [run, ihp s, ihq s]
      · exact fun s => by simp [run, ihp s, ihq s]
  | orElse p q ihp ihq =>
    unfold peek
    rcases hp : p.peek c with _ | _ | _ <;> rw [hp] at ihp
    · trivial
    · rcases hq : q.peek c with _ | _ | _ <;> rw [hq] at ihq
      · trivial
      · exact fun s => by rw [run, ihp s, ihq s]
      · exact fun s => by rw [run, ihp s, ihq s]
    · exact fun s => by rw [run, ihp s]
  | star p ih =>
    unfold peek
    rcases hp : p.peek c with _ | _ | _ <;> rw [hp] at ih
    · trivial
    · exact fun s => by rw [run, many_of_none (ih s)]
    · -- A match of nothing ends the repetition at once.
      exact fun s => by rw [run, many_of_not_lt (ih s) (Nat.lt_irrefl _)]
  | notAhead p ih =>
    unfold peek
    rcases hp : p.peek c with _ | _ | _ <;> rw [hp] at ih
    · trivial
    · exact fun s => by rw [run, ih s]
    · exact fun s => by rw [run, ih s]
  | node rule p ih =>
    unfold peek
    split
    · rename_i hp
      rw [hp] at ih
      exact fun s => by rw [run, ih s]; rfl
    · trivial
  | balanced leaf _ =>
    unfold peek
    split
    · trivial
    · rename_i hc
      exact fun s => by rw [run, group, Option.not_isSome_iff_eq_none.mp hc]

/-- A pattern that refuses the first character does not match. -/
theorem run_of_peek_false {p : Pattern ρ} {c : Char} (h : p.peek c = some false) (s : List Char) :
    p.run (c :: s) = none := by
  have := p.peek_sound c
  rw [h] at this
  exact this s

/-- A pattern that passes over the first character matches nothing. -/
theorem run_of_peek_true {p : Pattern ρ} {c : Char} (h : p.peek c = some true) (s : List Char) :
    p.run (c :: s) = some (.nil, c :: s) := by
  have := p.peek_sound c
  rw [h] at this
  exact this s

end Pattern

end UdfBridge.Grammar
