import Mathlib.Data.List.Forall2
import CallVicinity.IndexSet

/-!
# Numbered lists, look-ups that can fail, and changed items

Three shapes come back all over the library: the numbers of the list items with a property, a
look-up for every item of a list that fails if one of them fails, and a list in which one item is
changed. This file says once what they give.
-/

namespace CallVicinity

/-- The numbers of the list items with a property. -/
theorem mem_map_snd_filter_zipIdx {α : Type} {l : List α} {p : α × Nat → Bool} {i : Nat} :
    i ∈ (l.zipIdx.filter p).map (·.2) ↔ ∃ x, l[i]? = some x ∧ p (x, i) = true := by
  constructor
  · intro hi
    obtain ⟨⟨x, k⟩, hx, rfl⟩ := List.mem_map.mp hi
    obtain ⟨hmem, hp⟩ := List.mem_filter.mp hx
    exact ⟨x, List.mk_mem_zipIdx_iff_getElem?.mp hmem, hp⟩
  · intro h
    obtain ⟨x, hx, hp⟩ := h
    exact List.mem_map.mpr
      ⟨(x, i), List.mem_filter.mpr ⟨List.mk_mem_zipIdx_iff_getElem?.mpr hx, hp⟩, rfl⟩

/-- The numbers of the list items with a property are listed in ascending order. -/
theorem map_snd_filter_zipIdx_ascending {α : Type} (l : List α) (p : α × Nat → Bool) :
    ((l.zipIdx.filter p).map (·.2)).Pairwise (· < ·) := by
  have hsub : ((l.zipIdx.filter p).map (·.2)).Sublist (l.zipIdx.map (·.2)) :=
    List.filter_sublist.map _
  refine List.Pairwise.sublist hsub ?_
  rw [List.zipIdx_map_snd]
  exact List.pairwise_lt_range'

/-- Among the list items with a property, the one with number `m` is the one before which `m` of
them stand. -/
theorem getElem?_filter_zipIdx {α : Type} {p : α → Bool} :
    ∀ {l : List α} {start m k : Nat},
      ((l.zipIdx start).filter fun c => p c.1)[m]?.map (·.2) = some (start + k) ↔
        ∃ a, l[k]? = some a ∧ p a = true ∧ (l.take k).countP p = m := by
  intro l
  induction l with
  | nil => intro start m k; simp
  | cons b l ih =>
    intro start m k
    have hlater : ∀ m : Nat, ¬ ((l.zipIdx (start + 1)).filter fun c => p c.1)[m]?.map (·.2)
        = some start := by
      intro m h
      obtain ⟨c, hc, hstart⟩ := Option.map_eq_some_iff.mp h
      have hle := List.le_snd_of_mem_zipIdx (List.mem_of_mem_filter (List.mem_of_getElem? hc))
      omega
    have hnext : ∀ k, start + (k + 1) = start + 1 + k := by omega
    rw [List.zipIdx_cons]
    by_cases hb : p b = true
    · rw [List.filter_cons_of_pos (p := fun c : α × Nat => p c.1) hb]
      cases m with
      | zero => cases k <;> simp [hb]
      | succ m =>
        cases k with
        | zero => simpa using hlater m
        | succ k =>
          rw [List.getElem?_cons_succ, hnext k, ih, List.getElem?_cons_succ, List.take_succ_cons,
            List.countP_cons_of_pos hb]
          simp only [Nat.add_right_cancel_iff]
    · rw [List.filter_cons_of_neg (p := fun c : α × Nat => p c.1) hb]
      cases k with
      | zero => simpa [hb] using hlater m
      | succ k =>
        rw [hnext k, ih, List.getElem?_cons_succ, List.take_succ_cons, List.countP_cons_of_neg hb]

/-- An item added at the end does not matter for where the others are. -/
theorem getElem?_concat_of_ne {α : Type} {l : List α} {a b : α} (hne : b ≠ a) {k : Nat} :
    (l ++ [a])[k]? = some b ↔ l[k]? = some b := by
  rcases Nat.lt_trichotomy k l.length with hk | rfl | hk
  · rw [List.getElem?_append_left hk]
  · rw [List.getElem?_concat_length, List.getElem?_eq_none (Nat.le_refl _)]
    refine ⟨fun h => absurd (Option.some.inj h).symm hne, fun h => absurd h (by simp)⟩
  · rw [List.getElem?_eq_none (by rw [List.length_append]; exact hk),
      List.getElem?_eq_none (Nat.le_of_lt hk)]

/-- Where a list is cut off depends on what is asked of its items only. -/
theorem takeWhile_congr_of_mem {α : Type} {p q : α → Bool} :
    ∀ {l : List α}, (∀ a ∈ l, p a = q a) → l.takeWhile p = l.takeWhile q := by
  intro l
  induction l with
  | nil => intro _; rfl
  | cons a l ih =>
    intro h
    rw [List.takeWhile_cons, List.takeWhile_cons, h a List.mem_cons_self,
      ih fun b hb => h b (List.mem_cons_of_mem _ hb)]

/-- A list without an item is passed over by a search for it. -/
theorem forall_bne_of_not_mem {α : Type} [BEq α] [LawfulBEq α] {l : List α} {a : α} (h : a ∉ l) :
    ∀ b ∈ l, (b != a) = true := by
  intro b hb
  rw [bne_iff_ne]
  rintro rfl
  exact h hb

/-- Where every look-up succeeds, looking up a whole list succeeds item by item. -/
theorem exists_mapM {α β : Type} {f : α → Option β} {P : α → β → Prop} :
    ∀ {l : List α}, (∀ a ∈ l, ∃ b, f a = some b ∧ P a b) →
      ∃ bs, l.mapM f = some bs ∧ List.Forall₂ P l bs := by
  intro l
  induction l with
  | nil => intro _; exact ⟨[], rfl, .nil⟩
  | cons a l ih =>
    intro h
    obtain ⟨b, hb, hP⟩ := h a List.mem_cons_self
    obtain ⟨bs, hbs, hPs⟩ := ih fun a' ha' => h a' (List.mem_cons_of_mem _ ha')
    refine ⟨b :: bs, ?_, .cons hP hPs⟩
    rw [List.mapM_cons, hb, hbs]
    rfl

theorem exists_mapM_of_some {α β : Type} {f : α → Option β} {l : List α}
    (h : ∀ a ∈ l, ∃ b, f a = some b) : ∃ bs, l.mapM f = some bs := by
  obtain ⟨bs, hbs, -⟩ := exists_mapM (P := fun _ _ => True) fun a ha => by
    obtain ⟨b, hb⟩ := h a ha
    exact ⟨b, hb, trivial⟩
  exact ⟨bs, hbs⟩

/-- Looking up a whole list looks up every item of it. -/
theorem forall₂_of_mapM {α β : Type} {f : α → Option β} :
    ∀ {l : List α} {bs : List β}, l.mapM f = some bs →
      List.Forall₂ (fun a b => f a = some b) l bs := by
  intro l
  induction l with
  | nil => intro bs h; rw [← Option.some.inj h]; exact .nil
  | cons a l ih =>
    intro bs h
    rw [List.mapM_cons] at h
    obtain ⟨b, hb, h⟩ := Option.bind_eq_some_iff.mp h
    obtain ⟨rest, hrest, h⟩ := Option.bind_eq_some_iff.mp h
    rw [← Option.some.inj h]
    exact .cons hb (ih hrest)

/-- Reading something off every item that is looked up is reading it off all that was found. -/
theorem mapM_map_eq_some {α β γ : Type} {f : α → Option β} {l : List α} {bs : List β}
    (h : l.mapM f = some bs) (k : β → γ) : l.mapM (fun a => (f a).map k) = some (bs.map k) := by
  have hall := forall₂_of_mapM h
  clear h
  induction hall with
  | nil => rfl
  | cons hab _ ih =>
    rw [List.mapM_cons, hab, ih]
    rfl

/-- Looking up a part of a list gives a part of what looking up all of it gives. -/
theorem mapM_sublist {α β : Type} {f : α → Option β} {l l' : List α} (hsub : l.Sublist l') :
    ∀ {bs' : List β}, l'.mapM f = some bs' → ∃ bs, l.mapM f = some bs ∧ bs.Sublist bs' := by
  induction hsub with
  | slnil => intro bs' h; exact ⟨bs', h, .refl _⟩
  | @cons l l' a _ ih =>
    intro bs' h
    rw [List.mapM_cons] at h
    obtain ⟨b, -, h⟩ := Option.bind_eq_some_iff.mp h
    obtain ⟨rest, hrest, h⟩ := Option.bind_eq_some_iff.mp h
    obtain ⟨bs, hbs, hle⟩ := ih hrest
    refine ⟨bs, hbs, ?_⟩
    rw [← Option.some.inj h]
    exact hle.cons b
  | @cons_cons l l' a _ ih =>
    intro bs' h
    rw [List.mapM_cons] at h
    obtain ⟨b, hb, h⟩ := Option.bind_eq_some_iff.mp h
    obtain ⟨rest, hrest, h⟩ := Option.bind_eq_some_iff.mp h
    obtain ⟨bs, hbs, hle⟩ := ih hrest
    refine ⟨b :: bs, ?_, ?_⟩
    · rw [List.mapM_cons, hb, hbs]
      rfl
    · rw [← Option.some.inj h]
      exact hle.cons_cons b

/-- Two lists that are related item by item have an item with a property together. -/
theorem exists_mem_iff_of_forall₂ {α β : Type} {R : α → β → Prop} {p : α → Prop} {q : β → Prop}
    {l : List α} {bs : List β} (h : List.Forall₂ R l bs) (hR : ∀ a b, R a b → (p a ↔ q b)) :
    (∃ a ∈ l, p a) ↔ ∃ b ∈ bs, q b := by
  induction h with
  | nil => simp
  | cons hab _ ih => simp only [List.mem_cons, exists_eq_or_imp, hR _ _ hab, ih]

/-- What looking up a whole list gives is what looking up one of its items gives. -/
theorem mem_of_mapM {α β : Type} {f : α → Option β} {l : List α} {bs : List β}
    (h : l.mapM f = some bs) {b : β} : b ∈ bs ↔ ∃ a ∈ l, f a = some b := by
  rw [exists_mem_iff_of_forall₂ (forall₂_of_mapM h) (q := fun c => c = b)
    fun a c hac => by rw [hac, Option.some.injEq]]
  simp

/-- Every item of a list has one beside it in a list that is related to it item by item. -/
theorem exists_mem_zip {α β : Type} {R : α → β → Prop} {l : List α} {bs : List β}
    (h : List.Forall₂ R l bs) {a : α} (ha : a ∈ l) : ∃ b, (a, b) ∈ l.zip bs ∧ R a b := by
  induction h with
  | nil => exact absurd ha List.not_mem_nil
  | @cons c b l bs hR _ ih =>
    rw [List.zip_cons_cons]
    rcases List.mem_cons.mp ha with rfl | ha
    · exact ⟨b, List.mem_cons_self, hR⟩
    · obtain ⟨b', hb', hR'⟩ := ih ha
      exact ⟨b', List.mem_cons_of_mem _ hb', hR'⟩

/-- A set is listed without repetition. -/
theorem IndexSet.toList_nodup (s : IndexSet) : s.toList.Nodup :=
  s.ascending.imp Nat.ne_of_lt

theorem IndexSet.not_mem_of_isEmpty {s : IndexSet} (h : s.isEmpty = true) (i : Nat) : i ∉ s := by
  intro hi
  have hnil : s.toList = [] := List.isEmpty_iff.mp h
  rw [← IndexSet.mem_toList, hnil] at hi
  exact List.not_mem_nil hi

/-- The set of a list without repetition has as many members as the list. -/
theorem IndexSet.size_ofList {is : List Nat} (h : is.Nodup) :
    (IndexSet.ofList is).size = is.length := by
  have hperm : (IndexSet.ofList is).toList.Perm is := by
    refine (List.perm_ext_iff_of_nodup (IndexSet.toList_nodup _) h).mpr ?_
    intro i
    rw [IndexSet.mem_toList, IndexSet.mem_ofList]
  exact hperm.length_eq

/-- A set with one more member has one more. -/
theorem IndexSet.size_insert {i : Nat} {s : IndexSet} (h : i ∉ s) :
    (s.insert i).size = s.size + 1 := by
  have hperm : (s.insert i).toList.Perm (i :: s.toList) := by
    refine (List.perm_ext_iff_of_nodup (IndexSet.toList_nodup _)
      (List.nodup_cons.mpr ⟨h, s.toList_nodup⟩)).mpr ?_
    intro j
    rw [IndexSet.mem_toList, IndexSet.mem_insert, List.mem_cons, IndexSet.mem_toList]
  exact hperm.length_eq

/-- A map of an array with one item changed is the map with the item changed accordingly. -/
theorem map_modify {α β : Type} {f : α → β} {g : α → α} {h : β → β}
    (hgh : ∀ a, f (g a) = h (f a)) (as : Array α) (i : Nat) :
    (as.modify i g).map f = (as.map f).modify i h := by
  refine Array.ext_getElem? fun k => ?_
  rw [Array.getElem?_map, Array.getElem?_modify, Array.getElem?_modify, Array.getElem?_map]
  split
  next =>
    rw [Option.map_map, Option.map_map]
    exact congrArg (fun f' => as[k]?.map f') (funext hgh)
  next => rfl

/-- A map that does not see the change of an item. -/
theorem map_modify_of_eq {α β : Type} {f : α → β} {g : α → α} (h : ∀ a, f (g a) = f a)
    (as : Array α) (i : Nat) : (as.modify i g).map f = as.map f := by
  rw [map_modify (h := id) h]
  refine Array.ext_getElem? fun k => ?_
  rw [Array.getElem?_modify, Option.map_id, id, ite_self]

/-- A change of one item changes a sum over the items as it changes the item. -/
theorem foldr_add_modify {α : Type} (f : α → Nat) (g : α → α) {a : α} :
    ∀ {as : List α} {i : Nat}, as[i]? = some a →
      (as.modify i g).foldr (fun b total => f b + total) 0 + f a
        = as.foldr (fun b total => f b + total) 0 + f (g a) := by
  intro as
  induction as with
  | nil => intro i h; cases h
  | cons b as ih =>
    intro i h
    cases i with
    | zero =>
      obtain rfl := Option.some.inj h
      rw [List.modify_zero_cons, List.foldr_cons, List.foldr_cons]
      omega
    | succ i =>
      have hrest := ih (i := i) h
      rw [List.modify_succ_cons, List.foldr_cons, List.foldr_cons]
      omega

/-- What is added to a sum is at most the sum. -/
theorem le_foldr_add {α : Type} (f : α → Nat) {a : α} :
    ∀ {as : List α}, a ∈ as → f a ≤ as.foldr (fun b total => f b + total) 0 := by
  intro as
  induction as with
  | nil => intro h; cases h
  | cons b as ih =>
    intro h
    rw [List.foldr_cons]
    rcases List.mem_cons.mp h with rfl | htail
    · omega
    · have := ih htail
      omega

end CallVicinity
