import UdfBridge.Text.Line

/-!
# Slices of a text

A `Position` counts the bytes before a place of a text. `IsSlice` says of two such places that they
are boundaries of characters, and what stands between them. The places that `Position.advance` comes
to are of this kind (`isSlice_advance`).
-/

namespace UdfBridge.Text

/-- Each character of a text moves the offset on by its bytes. -/
theorem Position.offset_advance (p : Position) (s : List Char) :
    (p.advance s).offset = p.offset + (String.ofList s).utf8ByteSize := by
  induction s generalizing p with
  | nil => simp
  | cons c s ih =>
    have hnext : (p.next c).offset = p.offset + c.utf8Size := by
      unfold next
      split <;> rfl
    rw [advance_cons, ih, hnext, String.ofList_cons, String.utf8ByteSize_append]
    simp [Nat.add_assoc]

/-- The places `p` and `q` of `text` are boundaries of its characters, and `t` stands between
them. -/
def IsSlice (text : String) (p q : Position) (t : String) : Prop :=
  ∃ b e : text.Pos, b ≤ e ∧ b.offset.byteIdx = p.offset ∧ e.offset.byteIdx = q.offset ∧
    text.extract b e = t

/-- What is in the middle of a text is the slice behind the bytes before it. -/
theorem isSlice_append (s t u : String) {p q : Position} (hp : p.offset = s.utf8ByteSize)
    (hq : q.offset = s.utf8ByteSize + t.utf8ByteSize) : IsSlice (s ++ (t ++ u)) p q t := by
  have hstart : s.rawEndPos.IsValid (s ++ (t ++ u)) :=
    String.Pos.Raw.isValid_iff_exists_append.mpr ⟨s, t ++ u, rfl, rfl⟩
  have hstop : (s ++ t).rawEndPos.IsValid (s ++ (t ++ u)) :=
    String.Pos.Raw.isValid_iff_exists_append.mpr ⟨s ++ t, u, (String.append_assoc ..).symm, rfl⟩
  have hsize : (s ++ t).utf8ByteSize = s.utf8ByteSize + t.utf8ByteSize := String.utf8ByteSize_append
  refine ⟨⟨_, hstart⟩, ⟨_, hstop⟩, ?_, hp.symm, hsize.trans hq.symm, ?_⟩
  · show s.utf8ByteSize ≤ (s ++ t).utf8ByteSize
    omega
  · rw [← String.toByteArray_inj, String.toByteArray_extract, String.toByteArray_append,
      String.toByteArray_append]
    show (s.toByteArray ++ (t.toByteArray ++ u.toByteArray)).extract (s.utf8ByteSize + 0)
      (s ++ t).utf8ByteSize = t.toByteArray
    rw [hsize, ← String.size_toByteArray, ← String.size_toByteArray,
      ByteArray.extract_append_size_add, ByteArray.extract_append_eq_left rfl]

/-- Places that are reached along a text are boundaries of its characters. -/
theorem isSlice_advance {text : String} {a m r : List Char} (h : text.toList = a ++ (m ++ r)) :
    IsSlice text (Position.origin.advance a) ((Position.origin.advance a).advance m)
      (.ofList m) := by
  have hoffset : (Position.origin.advance a).offset = (String.ofList a).utf8ByteSize := by
    rw [Position.offset_advance]
    exact Nat.zero_add _
  rw [← String.ofList_toList (s := text), h, String.ofList_append, String.ofList_append]
  refine isSlice_append _ _ _ hoffset ?_
  rw [Position.offset_advance, hoffset]

end UdfBridge.Text
