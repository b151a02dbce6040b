import CallVicinity.Proofs.Lists
import CallVicinity.Proofs.Text.Lines
import CallVicinity.Proofs.Text.Offsets
import CallVicinity.Proofs.Text.Parts

/-!
# Positions, bytes and lines

A position is made by a walk over characters, but it counts bytes, and the lines of the text are
enough to get back to the offset:

> `Text.position_eq_ofBytes`: the row of an offset is the number of line feeds among the bytes
> before it, and the column is the number of bytes since the last one.

> `Text.offset_position`: the lines above the row and the column add up to the offset.

Characters and bytes agree about line feeds because no byte of another character is a line feed
(`Text.lineFeed_not_mem_utf8`).
-/

namespace CallVicinity.Text

/-! ## Bytes -/

/-- The bytes of a text in UTF-8. -/
def bytes (cs : List Char) : List UInt8 :=
  cs.flatMap String.utf8EncodeChar

theorem bytes_cons (c : Char) (cs : List Char) :
    bytes (c :: cs) = String.utf8EncodeChar c ++ bytes cs := rfl

/-- A byte whose highest bit is set is no line feed. -/
theorem lineFeed_ne_or {x mask : UInt8} (h : mask.toBitVec[7] = true) : 10 ≠ x ||| mask := by
  intro heq
  have hbit := congrArg (fun b : UInt8 => b.toBitVec.getLsbD 7) heq
  simp [h] at hbit

/-- **Only a line feed has the byte of a line feed.** -/
theorem lineFeed_not_mem_utf8 {c : Char} (hc : c ≠ '\n') : 10 ∉ String.utf8EncodeChar c := by
  rcases c.utf8Size_eq with h | h | h | h
  · rw [String.utf8EncodeChar_eq_singleton h, List.mem_singleton]
    have hle : c.val.toNat ≤ 127 := UInt32.le_iff_toNat_le.mp (Char.utf8Size_eq_one_iff.mp h)
    intro hbyte
    have hmod : 10 = c.val.toNat % 256 := by
      rw [← UInt32.toNat_toUInt8, ← hbyte]
      rfl
    refine hc (Char.ext (UInt32.toNat_inj.mp ?_))
    rw [← Nat.mod_eq_of_lt (show c.val.toNat < 256 by omega), ← hmod]
    rfl
  -- the bytes of all other characters have the highest bit
  · rw [String.utf8EncodeChar_eq_cons_cons h]
    simp only [List.mem_cons, List.not_mem_nil, not_or]
    exact ⟨lineFeed_ne_or (by decide), lineFeed_ne_or (by decide), not_false⟩
  · rw [String.utf8EncodeChar_eq_cons_cons_cons h]
    simp only [List.mem_cons, List.not_mem_nil, not_or]
    exact ⟨lineFeed_ne_or (by decide), lineFeed_ne_or (by decide), lineFeed_ne_or (by decide),
      not_false⟩
  · rw [String.utf8EncodeChar_eq_cons_cons_cons_cons h]
    simp only [List.mem_cons, List.not_mem_nil, not_or]
    exact ⟨lineFeed_ne_or (by decide), lineFeed_ne_or (by decide), lineFeed_ne_or (by decide),
      lineFeed_ne_or (by decide), not_false⟩

/-- The position behind the given bytes: the line feeds among them, and the bytes since the last
one. -/
def Position.ofBytes (before : List UInt8) : Position :=
  ⟨before.count 10, (before.reverse.takeWhile (· != 10)).length⟩

namespace Position

theorem ofBytes_lineFeed (before : List UInt8) :
    ofBytes (before ++ [10]) = ⟨(ofBytes before).row + 1, 0⟩ := by
  simp [ofBytes]

theorem ofBytes_append (before : List UInt8) {more : List UInt8} (h : 10 ∉ more) :
    ofBytes (before ++ more)
      = { ofBytes before with column := (ofBytes before).column + more.length } := by
  have hmore := forall_bne_of_not_mem (mt List.mem_reverse.mp h)
  unfold ofBytes
  rw [List.count_append, List.count_eq_zero.mpr h, List.reverse_append,
    List.takeWhile_append_of_pos hmore, List.length_append, List.length_reverse,
    Nat.add_comm more.length]
  rfl

/-- Walking over characters counts the bytes of the text. -/
theorem advance_ofBytes (cs : List Char) : ∀ (before : List UInt8) (k : Nat), k ≤ byteSize cs →
    (ofBytes before).advance cs k = ofBytes (before ++ (bytes cs).take k) := by
  induction cs with
  | nil =>
    intro before k hk
    obtain rfl := Nat.le_zero.mp hk
    rw [advance_zero, List.take_zero, List.append_nil]
  | cons c cs ih =>
    intro before k hk
    rw [byteSize] at hk
    have hlength := String.length_utf8EncodeChar c
    by_cases hk0 : k = 0
    · rw [hk0, advance_zero, List.take_zero, List.append_nil]
    · rw [advance, if_neg hk0, bytes_cons]
      by_cases hc : c = '\n'
      · subst hc
        obtain ⟨j, rfl⟩ := Nat.exists_eq_succ_of_ne_zero hk0
        rw [show '\n'.utf8Size = 1 from rfl] at hk
        rw [if_pos rfl, ← ofBytes_lineFeed, ih _ _ (by omega), List.append_assoc]
        rfl
      · have hten := lineFeed_not_mem_utf8 hc
        rw [if_neg hc]
        by_cases hin : k < c.utf8Size
        · have hten' : 10 ∉ (String.utf8EncodeChar c).take k :=
            fun h => hten (List.mem_of_mem_take h)
          rw [if_pos hin, List.take_append_of_le_length (by omega), ofBytes_append _ hten',
            List.length_take, hlength, Nat.min_eq_left (by omega)]
        · rw [if_neg hin, List.take_append, hlength, List.take_of_length_le (by omega),
            ← List.append_assoc, ← ih _ _ (by omega), ofBytes_append _ hten, hlength]

end Position

/-- **Positions count bytes**: line feeds before the offset, and bytes since the last one. -/
theorem position_eq_ofBytes {cs : List Char} {k : Nat} (h : k ≤ byteSize cs) :
    position cs k = Position.ofBytes ((bytes cs).take k) :=
  Position.advance_ofBytes cs [] k h

/-! ## Lines -/

/-- The byte offset of a position: the lines above its row with their line feeds, and its column. -/
def offset (cs : List Char) (p : Position) : Nat :=
  byteSize (((cs.splitOn '\n').take p.row).flatMap (· ++ ['\n'])) + p.column

namespace Position

/-- On a line only the column goes up. -/
theorem advance_line {x : List Char} (hx : '\n' ∉ x) (y : List Char) (here : Position) {k : Nat}
    (hk : k ≤ byteSize x) : here.advance (x ++ y) k = { here with column := here.column + k } := by
  induction x generalizing here k with
  | nil =>
    obtain rfl := Nat.le_zero.mp hk
    exact advance_zero here y
  | cons c x ih =>
    rw [List.mem_cons, not_or] at hx
    rw [byteSize] at hk
    by_cases hk0 : k = 0
    · rw [hk0, advance_zero]
      rfl
    · rw [List.cons_append, advance, if_neg hk0, if_neg (Ne.symm hx.1)]
      by_cases hin : k < c.utf8Size
      · rw [if_pos hin]
      · rw [if_neg hin, ih hx.2 _ (by omega), Nat.add_assoc, Nat.add_sub_cancel' (by omega)]

/-- Behind a line feed the next row begins, whatever the column was. -/
theorem advance_lineFeed {x : List Char} (hx : '\n' ∉ x) (y : List Char) (here : Position)
    (k : Nat) : here.advance (x ++ '\n' :: y) (byteSize x + 1 + k)
      = Position.advance ⟨here.row + 1, 0⟩ y k := by
  induction x generalizing here with
  | nil =>
    rw [List.nil_append, byteSize, advance, if_neg (by omega), if_pos rfl,
      show 0 + 1 + k - 1 = k by omega]
  | cons c x ih =>
    rw [List.mem_cons, not_or] at hx
    have hsize := c.utf8Size_pos
    rw [List.cons_append, byteSize, advance, if_neg (by omega), if_neg (Ne.symm hx.1),
      if_neg (by omega), show c.utf8Size + byteSize x + 1 + k - c.utf8Size = byteSize x + 1 + k by
        omega, ih hx.2]

end Position

theorem offset_position_line {x : List Char} (hx : '\n' ∉ x) (y : List Char) {k : Nat}
    (hk : k ≤ byteSize x) : offset (x ++ y) (position (x ++ y) k) = k := by
  rw [position, Position.advance_line hx y _ hk]
  simp [offset, byteSize]

/-- **A position leads back to its offset.** -/
theorem offset_position {cs : List Char} {k : Nat} (h : k ≤ byteSize cs) :
    offset cs (position cs k) = k := by
  induction cs using lines_induction generalizing k with
  | hline x hx =>
    have hline := offset_position_line hx [] h
    rw [List.append_nil] at hline
    exact hline
  | hmore x y hx ih =>
    rw [byteSize_lineFeed] at h
    by_cases hk : k ≤ byteSize x
    · exact offset_position_line hx _ hk
    · obtain ⟨j, rfl⟩ : ∃ j, k = byteSize x + 1 + j := ⟨k - byteSize x - 1, by omega⟩
      -- one row less, and the line `x` less
      have hrow : position (x ++ '\n' :: y) (byteSize x + 1 + j) = (position y j).lowered 1 := by
        rw [position, Position.advance_lineFeed hx, position, ← Position.advance_lowered]
        rfl
      have hrest : offset y (position y j) = j := ih (by omega)
      rw [hrow, offset, splitOn_lineFeed, splitOn_line hx, List.singleton_append, Position.lowered,
        List.take_succ_cons, List.flatMap_cons, byteSize_append, byteSize_lineFeed, Nat.add_assoc]
      exact congrArg (byteSize x + 1 + ·) hrest

end CallVicinity.Text
