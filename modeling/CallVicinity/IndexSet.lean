/-!
# Finite sets of indexes

An `IndexSet` is a strictly ascending list of numbers, so two sets with the same members are equal
(`IndexSet.ext_mem`) and listing a set gives its members in ascending order.
-/

namespace CallVicinity

/-- A finite set of numbers, listed in ascending order. -/
structure IndexSet where
  toList : List Nat
  ascending : toList.Pairwise (· < ·)

namespace IndexSet

instance : DecidableEq IndexSet := fun s t =>
  if h : s.toList = t.toList then
    isTrue (by cases s; cases t; cases h; rfl)
  else
    isFalse fun e => h (congrArg toList e)

instance : Membership Nat IndexSet where
  mem s i := i ∈ s.toList

instance (i : Nat) (s : IndexSet) : Decidable (i ∈ s) :=
  inferInstanceAs (Decidable (i ∈ s.toList))

theorem mem_toList {i : Nat} {s : IndexSet} : i ∈ s.toList ↔ i ∈ s := Iff.rfl

/-- The set without members. -/
def empty : IndexSet := ⟨[], List.Pairwise.nil⟩

instance : EmptyCollection IndexSet := ⟨empty⟩

instance : Inhabited IndexSet := ⟨empty⟩

@[simp] theorem not_mem_empty (i : Nat) : i ∉ (∅ : IndexSet) := by
  intro h
  exact List.not_mem_nil h

/-- `i` put in its place in an ascending list that may hold it already. -/
def place (i : Nat) : List Nat → List Nat
  | [] => [i]
  | j :: js => if i < j then i :: j :: js else if i = j then j :: js else j :: place i js

@[simp] theorem mem_place {i j : Nat} {js : List Nat} : j ∈ place i js ↔ j = i ∨ j ∈ js := by
  induction js with
  | nil => simp [place]
  | cons k ks ih =>
    simp only [place]
    split
    · simp
    · split
      · next h => subst h; simp
      · simp only [List.mem_cons, ih]
        grind

theorem place_ascending {i : Nat} {js : List Nat} (h : js.Pairwise (· < ·)) :
    (place i js).Pairwise (· < ·) := by
  induction js with
  | nil => simp [place]
  | cons k ks ih =>
    have hk : ∀ {j : Nat}, j ∈ ks → k < j := fun hj => List.rel_of_pairwise_cons h hj
    simp only [place]
    split
    · next hlt =>
      refine List.pairwise_cons.2 ⟨?_, h⟩
      intro j hj
      rcases List.mem_cons.1 hj with rfl | hj
      · exact hlt
      · exact Nat.lt_trans hlt (hk hj)
    · split
      · exact h
      · next hlt hne =>
        refine List.pairwise_cons.2 ⟨?_, ih h.of_cons⟩
        intro j hj
        rcases mem_place.1 hj with rfl | hj
        · omega
        · exact hk hj

/-- The set with `i` added. -/
def insert (i : Nat) (s : IndexSet) : IndexSet :=
  ⟨place i s.toList, place_ascending s.ascending⟩

@[simp] theorem mem_insert {i j : Nat} {s : IndexSet} : j ∈ s.insert i ↔ j = i ∨ j ∈ s :=
  mem_place

/-- The set of the members of a list. -/
def ofList (is : List Nat) : IndexSet :=
  is.foldr insert ∅

@[simp] theorem mem_ofList {i : Nat} {is : List Nat} : i ∈ ofList is ↔ i ∈ is := by
  induction is with
  | nil => simp [ofList]
  | cons j js ih =>
    have h : ofList (j :: js) = (ofList js).insert j := rfl
    rw [h, mem_insert, ih, List.mem_cons]

/-- The members of either set. -/
def union (s t : IndexSet) : IndexSet :=
  s.toList.foldr insert t

@[simp] theorem mem_union {i : Nat} {s t : IndexSet} : i ∈ s.union t ↔ i ∈ s ∨ i ∈ t := by
  have h : ∀ is : List Nat, i ∈ is.foldr insert t ↔ i ∈ is ∨ i ∈ t := by
    intro is
    induction is with
    | nil => simp
    | cons j js ih => rw [List.foldr_cons, mem_insert, ih, List.mem_cons, or_assoc]
  exact h s.toList

/-- The members with property `p`. -/
def filter (p : Nat → Bool) (s : IndexSet) : IndexSet :=
  ⟨s.toList.filter p, s.ascending.filter p⟩

@[simp] theorem mem_filter {p : Nat → Bool} {i : Nat} {s : IndexSet} :
    i ∈ s.filter p ↔ i ∈ s ∧ p i = true :=
  List.mem_filter

/-- The number of members. -/
def size (s : IndexSet) : Nat := s.toList.length

/-- Whether the set has no members. -/
def isEmpty (s : IndexSet) : Bool := s.toList.isEmpty

/-- Two ascending lists with the same members are equal. -/
theorem ascending_ext {is js : List Nat} (hi : is.Pairwise (· < ·)) (hj : js.Pairwise (· < ·))
    (h : ∀ k, k ∈ is ↔ k ∈ js) : is = js := by
  induction is generalizing js with
  | nil =>
    cases js with
    | nil => rfl
    | cons j js => exact absurd ((h j).2 List.mem_cons_self) List.not_mem_nil
  | cons i is ih =>
    cases js with
    | nil => exact absurd ((h i).1 List.mem_cons_self) List.not_mem_nil
    | cons j js =>
      have hi' : ∀ k ∈ is, i < k := fun _ hk => List.rel_of_pairwise_cons hi hk
      have hj' : ∀ k ∈ js, j < k := fun _ hk => List.rel_of_pairwise_cons hj hk
      have hij : i = j := by
        have h1 := (h i).1 List.mem_cons_self
        have h2 := (h j).2 List.mem_cons_self
        rcases List.mem_cons.1 h1 with e | m
        · exact e
        · rcases List.mem_cons.1 h2 with e | m'
          · exact e.symm
          · exact absurd (hi' j m') (Nat.lt_asymm (hj' i m))
      subst hij
      congr 1
      refine ih hi.of_cons hj.of_cons fun k => ⟨fun hk => ?_, fun hk => ?_⟩
      · rcases List.mem_cons.1 ((h k).1 (List.mem_cons_of_mem _ hk)) with e | m
        · exact absurd (hi' k hk) (by omega)
        · exact m
      · rcases List.mem_cons.1 ((h k).2 (List.mem_cons_of_mem _ hk)) with e | m
        · exact absurd (hj' k hk) (by omega)
        · exact m

/-- Two sets with the same members are equal. -/
theorem ext_mem {s t : IndexSet} (h : ∀ i, i ∈ s ↔ i ∈ t) : s = t := by
  obtain ⟨is, hi⟩ := s
  obtain ⟨js, hj⟩ := t
  obtain rfl : is = js := ascending_ext hi hj h
  rfl

end IndexSet

end CallVicinity
