import Mathlib.Data.List.Basic
import CallVicinity.Text.Offset

/-!
# Parts of a text

What is cut out of a text is a part of it: some text stands before it and some behind it, and the
two offsets are the sizes of what stands before its start and before its end (`Text.cut_eq_some`).
Offsets with that property are those between characters (`Text.IsBoundary`). A part whose range
lies inside the range of another part is a part of that one (`Text.cut_inside`).
-/

namespace CallVicinity.Text

theorem byteSize_append (x y : List Char) : byteSize (x ++ y) = byteSize x + byteSize y := by
  induction x with
  | nil => exact (Nat.zero_add _).symm
  | cons c x ih =>
    rw [List.cons_append, byteSize, byteSize, ih]
    omega

theorem byteSize_lineFeed (x y : List Char) :
    byteSize (x ++ '\n' :: y) = byteSize x + 1 + byteSize y := by
  have hfeed : '\n'.utf8Size = 1 := by decide
  rw [byteSize_append, byteSize, hfeed]
  omega

theorem byteSize_pos {x : List Char} (h : x ≠ []) : 0 < byteSize x := by
  obtain ⟨c, x, rfl⟩ := List.exists_cons_of_ne_nil h
  have hsize := c.utf8Size_pos
  rw [byteSize]
  omega

/-- Of two ways to part a text, the first part of the one begins with the first part of the
other. -/
theorem exists_append_of_byteSize_le {x y x' y' : List Char} (h : x ++ y = x' ++ y')
    (hle : byteSize x ≤ byteSize x') : ∃ z, x' = x ++ z ∧ y = z ++ y' := by
  rcases List.append_eq_append_iff.mp h with hlonger | ⟨z, rfl, rfl⟩
  · exact hlonger
  · rw [byteSize_append] at hle
    by_cases hz : z = []
    · exact ⟨[], by simp [hz], by simp [hz]⟩
    · have := byteSize_pos hz
      omega

/-- An offset between characters, or at one of the two ends of the text. -/
def IsBoundary (cs : List Char) (k : Nat) : Prop :=
  ∃ before after, cs = before ++ after ∧ byteSize before = k

theorem IsBoundary.le_byteSize {cs : List Char} {k : Nat} (h : IsBoundary cs k) :
    k ≤ byteSize cs := by
  obtain ⟨before, after, rfl, rfl⟩ := h
  rw [byteSize_append]
  exact Nat.le_add_right _ _

theorem dropBytes_eq_some {cs rest : List Char} {k : Nat} :
    dropBytes k cs = some rest ↔ ∃ before, cs = before ++ rest ∧ byteSize before = k := by
  constructor
  · intro h
    induction cs generalizing k with
    | nil =>
      cases k with
      | zero => exact ⟨[], Option.some.inj h, rfl⟩
      | succ k => cases h
    | cons c cs ih =>
      cases k with
      | zero => exact ⟨[], Option.some.inj h, rfl⟩
      | succ k =>
        rw [dropBytes] at h
        split at h
        next hle =>
          obtain ⟨before, rfl, hsize⟩ := ih h
          refine ⟨c :: before, rfl, ?_⟩
          rw [byteSize]
          omega
        next => cases h
  · rintro ⟨before, rfl, rfl⟩
    induction before with
    | nil => rw [byteSize, dropBytes]; rfl
    | cons c before ih =>
      have hsize := c.utf8Size_pos
      obtain ⟨k, hk⟩ := Nat.exists_eq_succ_of_ne_zero (n := byteSize (c :: before))
        (by rw [byteSize]; omega)
      rw [hk, List.cons_append, dropBytes]
      rw [byteSize] at hk
      rw [if_pos (by omega), show k + 1 - c.utf8Size = byteSize before by omega]
      exact ih

instance (cs : List Char) (k : Nat) : Decidable (IsBoundary cs k) :=
  decidable_of_iff ((dropBytes k cs).isSome = true) <| by
    rw [Option.isSome_iff_exists]
    exact ⟨fun ⟨rest, h⟩ => (dropBytes_eq_some.mp h).imp fun _ hb => ⟨rest, hb⟩,
      fun ⟨before, rest, hb⟩ => ⟨rest, dropBytes_eq_some.mpr ⟨before, hb⟩⟩⟩

theorem takeBytes_eq_some {cs part : List Char} {k : Nat} :
    takeBytes k cs = some part ↔ ∃ after, cs = part ++ after ∧ byteSize part = k := by
  constructor
  · intro h
    induction cs generalizing k part with
    | nil =>
      cases k with
      | zero =>
        obtain rfl := Option.some.inj h
        exact ⟨[], rfl, rfl⟩
      | succ k => cases h
    | cons c cs ih =>
      cases k with
      | zero =>
        obtain rfl := Option.some.inj h
        exact ⟨c :: cs, rfl, rfl⟩
      | succ k =>
        rw [takeBytes] at h
        split at h
        next hle =>
          obtain ⟨rest, hrest, rfl⟩ := Option.map_eq_some_iff.mp h
          obtain ⟨after, rfl, hsize⟩ := ih hrest
          refine ⟨after, rfl, ?_⟩
          rw [byteSize]
          omega
        next => cases h
  · rintro ⟨after, rfl, rfl⟩
    induction part with
    | nil => rw [byteSize, takeBytes]
    | cons c part ih =>
      have hsize := c.utf8Size_pos
      obtain ⟨k, hk⟩ := Nat.exists_eq_succ_of_ne_zero (n := byteSize (c :: part))
        (by rw [byteSize]; omega)
      rw [hk, List.cons_append, takeBytes]
      rw [byteSize] at hk
      rw [if_pos (by omega), show k + 1 - c.utf8Size = byteSize part by omega, ih]
      rfl

/-- **What is cut out of a text is the part between the two offsets.** -/
theorem cut_eq_some {cs part : List Char} {start stop : Nat} :
    cut cs start stop = some part ↔ ∃ before after, cs = before ++ (part ++ after) ∧
      byteSize before = start ∧ start + byteSize part = stop := by
  unfold cut
  constructor
  · intro h
    split at h
    next hle =>
      obtain ⟨rest, hrest, hpart⟩ := Option.bind_eq_some_iff.mp h
      obtain ⟨before, rfl, hstart⟩ := dropBytes_eq_some.mp hrest
      obtain ⟨after, rfl, hsize⟩ := takeBytes_eq_some.mp hpart
      exact ⟨before, after, rfl, hstart, by omega⟩
    next => cases h
  · rintro ⟨before, after, rfl, rfl, rfl⟩
    rw [if_pos (Nat.le_add_right _ _), dropBytes_eq_some.mpr ⟨before, rfl, rfl⟩, Option.bind_some,
      Nat.add_sub_cancel_left]
    exact takeBytes_eq_some.mpr ⟨after, rfl, rfl⟩

/-- Between two boundaries there is a part. -/
theorem exists_cut {cs : List Char} {start stop : Nat} (hstart : IsBoundary cs start)
    (hstop : IsBoundary cs stop) (hle : start ≤ stop) : ∃ part, cut cs start stop = some part := by
  obtain ⟨x, y, rfl, rfl⟩ := hstart
  obtain ⟨x', y', heq, rfl⟩ := hstop
  obtain ⟨part, rfl, rfl⟩ := exists_append_of_byteSize_le heq hle
  exact ⟨part, cut_eq_some.mpr ⟨x, y', rfl, rfl, (byteSize_append x part).symm⟩⟩

/-- **A part inside the range of another part is a part of it.** -/
theorem cut_inside {cs part part' : List Char} {start stop start' stop' : Nat}
    (h : cut cs start stop = some part) (h' : cut cs start' stop' = some part')
    (hstart : start ≤ start') (hstop : stop' ≤ stop) :
    ∃ x y, part = x ++ (part' ++ y) ∧ start + byteSize x = start' := by
  obtain ⟨before, after, heq, rfl, rfl⟩ := cut_eq_some.mp h
  obtain ⟨before', after', heq', rfl, rfl⟩ := cut_eq_some.mp h'
  obtain ⟨x, rfl, hx⟩ := exists_append_of_byteSize_le (heq.symm.trans heq') hstart
  -- what is behind `before` is parted behind `part`, and behind `x` and `part'` before that
  rw [← List.append_assoc x] at hx
  rw [byteSize_append] at hstop ⊢
  obtain ⟨y, hy, -⟩ := exists_append_of_byteSize_le hx.symm
    (by rw [byteSize_append]; omega)
  exact ⟨x, y, by rw [hy, List.append_assoc], rfl⟩

end CallVicinity.Text
