import Mathlib.Data.Prod.Lex
import Mathlib.Order.Monotone.Basic
import CallVicinity.Text.Offset

/-!
# Offsets, positions and line feeds in front

A position says as much as the offset that it was made from, whatever the text is: also inside a
character and past the end one byte further is a later position.

> `Text.position_injective`: different offsets have different positions.

Line feeds in front of a text move everything down and nothing sideways. An offset that is moved by
their number cuts out the same text (`Text.cut_lineFeeds`), and its position is in the same column
of a row that is lower by that number (`Text.position_lineFeeds`).
-/

namespace CallVicinity.Text

/-! ## Positions tell offsets apart -/

namespace Position

/-- The row first, then the column. -/
def key (p : Position) : Nat ×ₗ Nat := toLex (p.row, p.column)

theorem key_lt_key {p q : Position} :
    p.key < q.key ↔ p.row < q.row ∨ p.row = q.row ∧ p.column < q.column :=
  Prod.Lex.toLex_lt_toLex

theorem advance_zero (here : Position) (cs : List Char) : here.advance cs 0 = here := by
  cases cs <;> simp [advance]

/-- One byte further the position is a later one. -/
theorem key_advance_lt (cs : List Char) : ∀ (here : Position) (k : Nat),
    (here.advance cs k).key < (here.advance cs (k + 1)).key := by
  induction cs with
  | nil =>
    intro here k
    rw [key_lt_key]
    exact Or.inr ⟨rfl, Nat.lt_succ_self _⟩
  | cons c cs ih =>
    intro here k
    have hsize := c.utf8Size_pos
    by_cases hc : c = '\n'
    · cases k with
      | zero =>
        -- the line feed itself: the next byte is at the start of the next row
        simp [advance, hc, advance_zero, key_lt_key]
      | succ k =>
        simp only [advance, hc, Nat.add_one_ne_zero, if_false, if_true, Nat.add_sub_cancel]
        exact ih _ k
    · rcases Nat.lt_trichotomy (k + 1) c.utf8Size with hin | hend | hpast
      · -- both offsets are inside the character
        have hk : k < c.utf8Size := by omega
        by_cases hk0 : k = 0
        · simp [advance, hk0, hc, show 1 < c.utf8Size by omega, key_lt_key]
        · simp [advance, hk0, hc, hk, hin, key_lt_key]
      · -- the later offset is right behind the character
        have hk : k < c.utf8Size := by omega
        have hlater : here.advance (c :: cs) (k + 1)
            = { here with column := here.column + c.utf8Size } := by
          rw [hend]
          simp [advance, hc, hsize.ne', advance_zero]
        rw [hlater]
        by_cases hk0 : k = 0
        · simp [advance, hk0, key_lt_key]
          omega
        · simp [advance, hk0, hc, hk, key_lt_key]
      · have hk0 : k ≠ 0 := by omega
        have hk : ¬ k < c.utf8Size := by omega
        have hk' : ¬ k + 1 < c.utf8Size := by omega
        have hstep := ih { here with column := here.column + c.utf8Size } (k - c.utf8Size)
        rw [show k - c.utf8Size + 1 = k + 1 - c.utf8Size by omega] at hstep
        simpa only [advance, hk0, hc, hk, hk', Nat.add_one_ne_zero, if_false] using hstep

end Position

/-- **Different offsets have different positions**, also inside a character and past the end. -/
theorem position_injective (cs : List Char) : Function.Injective (position cs) := by
  have hmono : StrictMono fun k => (position cs k).key :=
    strictMono_nat_of_lt_succ fun k => Position.key_advance_lt cs ⟨0, 0⟩ k
  intro j k h
  exact hmono.injective (congrArg Position.key h)

/-! ## Line feeds in front of a text -/

/-- A text with line feeds put in front. -/
def lineFeeds (n : Nat) (cs : List Char) : List Char :=
  List.replicate n '\n' ++ cs

theorem lineFeeds_succ (n : Nat) (cs : List Char) : lineFeeds (n + 1) cs = '\n' :: lineFeeds n cs :=
  rfl

theorem dropBytes_lineFeeds (cs : List Char) (k : Nat) :
    ∀ n, dropBytes (k + n) (lineFeeds n cs) = dropBytes k cs
  | 0 => rfl
  | n + 1 => by
    have hsize : '\n'.utf8Size = 1 := by decide
    rw [lineFeeds_succ, ← Nat.add_assoc, dropBytes, hsize, if_pos (by omega), Nat.add_sub_cancel]
    exact dropBytes_lineFeeds cs k n

/-- A moved range cuts out the same text. -/
theorem cut_lineFeeds (cs : List Char) (start stop n : Nat) :
    cut (lineFeeds n cs) (start + n) (stop + n) = cut cs start stop := by
  unfold cut
  rw [dropBytes_lineFeeds]
  simp only [Nat.add_le_add_iff_right, Nat.add_sub_add_right]

/-- The text before a moved offset is the text before the offset, behind the line feeds. -/
theorem takeBytes_lineFeeds (cs : List Char) (k : Nat) :
    ∀ n, takeBytes (k + n) (lineFeeds n cs) = (takeBytes k cs).map (lineFeeds n)
  | 0 => Option.map_id'.symm
  | n + 1 => by
    have hsize : '\n'.utf8Size = 1 := by decide
    rw [lineFeeds_succ, ← Nat.add_assoc, takeBytes, hsize, if_pos (by omega), Nat.add_sub_cancel,
      takeBytes_lineFeeds cs k n, Option.map_map]
    rfl

/-- Where the text can be parted, it has a first part. -/
theorem exists_takeBytes {cs rest : List Char} {k : Nat} (h : dropBytes k cs = some rest) :
    ∃ before, takeBytes k cs = some before := by
  induction cs generalizing k with
  | nil =>
    cases k with
    | zero => exact ⟨[], rfl⟩
    | succ k => exact absurd h (by simp [dropBytes])
  | cons c cs ih =>
    cases k with
    | zero => exact ⟨[], rfl⟩
    | succ k =>
      rw [dropBytes] at h
      rw [takeBytes]
      split at h
      next hle =>
        obtain ⟨before, hbefore⟩ := ih h
        rw [if_pos hle, hbefore]
        exact ⟨c :: before, rfl⟩
      next => exact absurd h (by simp)

/-- Positions lower down. -/
def Position.lowered (n : Nat) (p : Position) : Position :=
  { p with row := p.row + n }

/-- From a place that is lower by `n` rows, all that follows is lower by `n` rows. -/
theorem Position.advance_lowered (n : Nat) (cs : List Char) : ∀ (here : Position) (k : Nat),
    (here.lowered n).advance cs k = (here.advance cs k).lowered n := by
  induction cs with
  | nil => intro here k; rfl
  | cons c cs ih =>
    intro here k
    by_cases hk : k = 0
    · simp [advance, hk]
    · by_cases hc : c = '\n'
      · have hnext := ih ⟨here.row + 1, 0⟩ (k - 1)
        simp only [advance, hk, hc, if_false, if_true]
        rw [← hnext]
        simp only [lowered, Nat.add_right_comm]
      · by_cases hin : k < c.utf8Size
        · simp [advance, hk, hc, hin, lowered]
        · have hnext := ih { here with column := here.column + c.utf8Size } (k - c.utf8Size)
          simp only [advance, hk, hc, hin, if_false]
          exact hnext

/-- **Behind `n` line feeds, positions are lower by `n` rows.** -/
theorem position_lineFeeds (cs : List Char) (k n : Nat) :
    position (lineFeeds n cs) (k + n) = (position cs k).lowered n := by
  have hfeeds : ∀ (m row : Nat), Position.advance ⟨row, 0⟩ (lineFeeds m cs) (k + m)
      = Position.advance ⟨row + m, 0⟩ cs k := by
    intro m
    induction m with
    | zero => intro row; rfl
    | succ m ih =>
      intro row
      rw [lineFeeds_succ, ← Nat.add_assoc, Position.advance, if_neg (by omega), if_pos rfl,
        Nat.add_sub_cancel, ih (row + 1), Nat.add_right_comm]
      rfl
  unfold position
  rw [hfeeds n 0, ← Position.advance_lowered]
  rfl

end CallVicinity.Text
