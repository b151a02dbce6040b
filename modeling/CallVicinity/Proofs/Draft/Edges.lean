import CallVicinity.Proofs.Draft.Enclosing

/-!
# The two sides of a call edge

A draft keeps every call edge twice: the callee in the set of calls of the caller, and the caller in
the set of callers of the callee. Adding an edge looks at the first set only, and touches the second
one only if the first one changed, so that the two agree is something that every step has to keep:

> `Draft.Paired`: the calls of the records are the callers of the records, seen from the other side.

`Draft.addEdge_paired` proves it of one edge and `Draft.foldl_addEdge_paired` of many. In a paired
draft the edges join recorded slots (`Draft.Paired.lt_size`). What is counted along the way is by
how much the sets of calls grow (`Draft.foldl_addEdge_count`). Nothing but the two sets changes
(`Draft.foldl_addEdge_bare`).
-/

namespace CallVicinity

/-- A record without its calls and callers. -/
def Record.bare (r : Record) : Record :=
  { r with calls := ∅, calledBy := ∅ }

namespace Draft

/-- The record in slot `s` has slot `t` in one of its sets. -/
def Lists (d : Draft) (side : Record → IndexSet) (s t : Nat) : Prop :=
  ∃ r, d.records[s]? = some r ∧ t ∈ side r

/-- The declaration in slot `s` calls the one in slot `t`, as far as the draft knows. -/
def Calls (d : Draft) : Nat → Nat → Prop :=
  d.Lists Record.calls

/-- The declaration in slot `t` is called by the one in slot `s`, as far as the draft knows. -/
def CalledBy (d : Draft) : Nat → Nat → Prop :=
  d.Lists Record.calledBy

/-- Every call edge is kept at both of its ends. -/
def Paired (d : Draft) : Prop :=
  ∀ s t, d.Calls s t ↔ d.CalledBy t s

/-- The number of call edges, counted at the callers. -/
def callCount (d : Draft) : Nat :=
  d.records.toList.foldr (fun r total => r.calls.size + total) 0

theorem Lists.lt_size {d : Draft} {side : Record → IndexSet} {s t : Nat} (h : d.Lists side s t) :
    s < d.records.size := by
  obtain ⟨r, hr, -⟩ := h
  exact (Array.getElem?_eq_some_iff.mp hr).1

/-- The edges of a paired draft join recorded slots. -/
theorem Paired.lt_size {d : Draft} (hd : d.Paired) {s t : Nat} (h : d.Calls s t) :
    s < d.records.size ∧ t < d.records.size :=
  ⟨h.lt_size, ((hd s t).mp h).lt_size⟩

/-- A draft without calls has no edges. -/
theorem not_calls_of_callCount {d : Draft} (h : d.callCount = 0) (s t : Nat) : ¬ d.Calls s t := by
  intro hcalls
  obtain ⟨r, hr, ht⟩ := hcalls
  have hle : r.calls.size ≤ d.callCount :=
    le_foldr_add (fun r : Record => r.calls.size)
      (Array.mem_toList_iff.mpr (Array.mem_of_getElem? hr))
  have hpos : 0 < r.calls.size := List.length_pos_of_mem ht
  omega

theorem hasCall_iff {d : Draft} {s t : Nat} : d.hasCall s t = true ↔ d.Calls s t := by
  unfold hasCall Calls Lists
  rw [Option.any_eq_true]
  simp only [decide_eq_true_eq]

/-- A draft without its call edges. -/
def bare (d : Draft) : Draft :=
  { d with records := d.records.map Record.bare }

/-- What a record is apart from its calls and callers can be told from the bare draft. -/
theorem exists_record_of_bare {d d' : Draft} (h : d'.bare = d.bare) {slot : Nat} {r : Record}
    (hr : d'.records[slot]? = some r) :
    ∃ q, d.records[slot]? = some q ∧ r.site = q.site ∧ r.id = q.id ∧ r.heading = q.heading ∧
      r.owner = q.owner := by
  have hget : (d.bare.records)[slot]? = some r.bare := by
    rw [← h, bare, Array.getElem?_map, hr]
    rfl
  rw [bare, Array.getElem?_map] at hget
  obtain ⟨q, hq, hqr⟩ := Option.map_eq_some_iff.mp hget
  refine ⟨q, hq, ?_⟩
  simpa only [Record.bare, Record.mk.injEq, and_true] using hqr.symm

theorem size_of_bare {d d' : Draft} (h : d'.bare = d.bare) :
    d'.records.size = d.records.size := by
  have hsize := congrArg (·.records.size) h
  simpa only [bare, Array.size_map] using hsize

theorem exists_mem_of_bare {d d' : Draft} (h : d'.bare = d.bare) {r : Record}
    (hr : r ∈ d'.records.toList) :
    ∃ q ∈ d.records.toList, r.site = q.site ∧ r.id = q.id ∧ r.heading = q.heading := by
  obtain ⟨slot, hslot⟩ := List.mem_iff_getElem?.mp hr
  rw [Array.getElem?_toList] at hslot
  obtain ⟨q, hq, hsite, hid, hheading, -⟩ := exists_record_of_bare h hslot
  exact ⟨q, Array.mem_toList_iff.mpr (Array.mem_of_getElem? hq), hsite, hid, hheading⟩

/-- What does not depend on the calls and the callers can be told from the bare draft. -/
theorem map_of_bare {α : Type} {f : Record → α} (hf : ∀ r, f r.bare = f r) {d d' : Draft}
    (h : d'.bare = d.bare) : d'.records.toList.map f = d.records.toList.map f := by
  have hbare : ∀ d : Draft, d.bare.records.toList.map f = d.records.toList.map f := by
    intro d
    rw [bare, Array.toList_map, List.map_map]
    exact List.map_congr_left fun r _ => hf r
  rw [← hbare d', h, hbare d]

/-! ## One edge -/

/-- The record in slot `k` once a new edge from `s` to `t` is added. -/
def joined (s t k : Nat) (r : Record) : Record :=
  { r with
    calls := if s = k then r.calls.insert t else r.calls
    calledBy := if t = k then r.calledBy.insert s else r.calledBy }

section AddEdge

variable {d : Draft} {count s t : Nat}

/-- Adding an edge that is there changes nothing. -/
theorem addEdge_of_calls (h : d.Calls s t) : addEdge (d, count) (s, t) = (d, count) :=
  if_pos (hasCall_iff.mpr h)

/-- Adding a new edge puts its ends into the sets of each other and counts it. -/
theorem addEdge_of_not_calls (h : ¬ d.Calls s t) :
    addEdge (d, count) (s, t) =
      ({ d with
          records := (d.records.modify s fun r => { r with calls := r.calls.insert t }).modify t
            fun r => { r with calledBy := r.calledBy.insert s } }, count + 1) :=
  if_neg fun hhas => h (hasCall_iff.mp hhas)

theorem getElem?_addEdge (h : ¬ d.Calls s t) (k : Nat) :
    (addEdge (d, count) (s, t)).1.records[k]? = d.records[k]?.map (joined s t k) := by
  rw [addEdge_of_not_calls h]
  simp only [Array.getElem?_modify]
  cases d.records[k]? with
  | none => simp
  | some r =>
    unfold joined
    split <;> split <;> rfl

/-- One set of the records after a new edge: it has the far end of the edge at the near end. -/
theorem lists_addEdge (h : ¬ d.Calls s t) {side : Record → IndexSet} {near far : Nat}
    (hside : ∀ k r, side (joined s t k r) = if near = k then (side r).insert far else side r)
    (hnear : near < d.records.size) {a b : Nat} :
    (addEdge (d, count) (s, t)).1.Lists side a b ↔
      d.Lists side a b ∨ a = near ∧ b = far := by
  have hmap : (addEdge (d, count) (s, t)).1.Lists side a b ↔
      ∃ r, d.records[a]? = some r ∧ b ∈ side (joined s t a r) := by
    unfold Lists
    rw [getElem?_addEdge h]
    simp only [Option.map_eq_some_iff, exists_exists_and_eq_and]
  rw [hmap]
  constructor
  · intro hmem
    obtain ⟨r, hr, hb⟩ := hmem
    rw [hside] at hb
    split at hb
    next hna =>
      rcases IndexSet.mem_insert.mp hb with hfar | hold
      · exact Or.inr ⟨hna.symm, hfar⟩
      · exact Or.inl ⟨r, hr, hold⟩
    next => exact Or.inl ⟨r, hr, hb⟩
  · intro hor
    rcases hor with ⟨r, hr, hb⟩ | ⟨rfl, rfl⟩
    · refine ⟨r, hr, ?_⟩
      rw [hside]
      split
      next => exact IndexSet.mem_insert.mpr (Or.inr hb)
      next => exact hb
    · refine ⟨_, Array.getElem?_eq_getElem hnear, ?_⟩
      rw [hside, if_pos rfl]
      exact IndexSet.mem_insert.mpr (Or.inl rfl)

/-- After adding an edge, the old ones and this one are among the calls. -/
theorem addEdge_calls (hs : s < d.records.size) {a b : Nat} :
    (addEdge (d, count) (s, t)).1.Calls a b ↔ d.Calls a b ∨ a = s ∧ b = t := by
  by_cases h : d.Calls s t
  · rw [addEdge_of_calls h]
    refine ⟨Or.inl, fun hor => ?_⟩
    rcases hor with hold | ⟨rfl, rfl⟩
    · exact hold
    · exact h
  · exact lists_addEdge h (fun _ _ => rfl) hs

/-- After adding an edge to a paired draft, the old ones and this one are among the callers: if the
calls had it before, so had the callers. -/
theorem addEdge_calledBy (hd : d.Paired) (ht : t < d.records.size) {a b : Nat} :
    (addEdge (d, count) (s, t)).1.CalledBy b a ↔ d.CalledBy b a ∨ b = t ∧ a = s := by
  by_cases h : d.Calls s t
  · rw [addEdge_of_calls h]
    refine ⟨Or.inl, fun hor => ?_⟩
    rcases hor with hold | ⟨rfl, rfl⟩
    · exact hold
    · exact (hd a b).mp h
  · exact lists_addEdge h (fun _ _ => rfl) ht

/-- **Adding an edge keeps a draft paired.** -/
theorem addEdge_paired (hd : d.Paired) (hs : s < d.records.size) (ht : t < d.records.size) :
    (addEdge (d, count) (s, t)).1.Paired := by
  intro a b
  rw [addEdge_calls hs, addEdge_calledBy hd ht, hd a b, and_comm]

/-- Adding an edge changes nothing but the two sets. -/
theorem addEdge_bare (st : Draft × Nat) (e : Nat × Nat) : (addEdge st e).1.bare = st.1.bare := by
  obtain ⟨d, count⟩ := st
  obtain ⟨s, t⟩ := e
  by_cases h : d.Calls s t
  · rw [addEdge_of_calls h]
  · rw [addEdge_of_not_calls h]
    refine congrArg (fun rs => { d with records := rs }) ?_
    dsimp only
    rw [map_modify_of_eq, map_modify_of_eq]
    · intro r; rfl
    · intro r; rfl

/-- What adding an edge counts is by how much the calls grow. -/
theorem addEdge_count (hs : s < d.records.size) :
    (addEdge (d, count) (s, t)).2 + d.callCount
      = count + (addEdge (d, count) (s, t)).1.callCount := by
  by_cases h : d.Calls s t
  · rw [addEdge_of_calls h]
  · have hr := Array.getElem?_eq_getElem hs
    have hnew : t ∉ (d.records[s]).calls := fun ht => h ⟨_, hr, ht⟩
    rw [← Array.getElem?_toList] at hr
    have hsum := foldr_add_modify (fun r : Record => r.calls.size)
      (fun r => { r with calls := r.calls.insert t }) hr
    simp only [IndexSet.size_insert hnew] at hsum
    -- the second change leaves the calls alone
    have hback : ∀ rs : Array Record,
        (rs.modify t fun r => { r with calledBy := r.calledBy.insert s }).toList.foldr
            (fun r total => r.calls.size + total) 0
          = rs.toList.foldr (fun r total => r.calls.size + total) 0 := by
      intro rs
      have hsizes := map_modify_of_eq (f := fun r : Record => r.calls.size)
        (g := fun r => { r with calledBy := r.calledBy.insert s }) (fun _ => rfl) rs t
      have hlists := congrArg Array.toList hsizes
      rw [Array.toList_map, Array.toList_map] at hlists
      simpa only [List.foldr_map] using congrArg (List.foldr (· + ·) 0) hlists
    rw [addEdge_of_not_calls h]
    simp only [callCount, hback]
    rw [Array.toList_modify]
    omega

end AddEdge

/-! ## Many edges -/

section Edges

/-- Adding edges changes nothing but the two sets. -/
theorem foldl_addEdge_bare (es : List (Nat × Nat)) (st : Draft × Nat) :
    (es.foldl addEdge st).1.bare = st.1.bare := by
  refine List.foldlRecOn (motive := fun st' => st'.1.bare = st.1.bare) es addEdge rfl ?_
  intro st' hst' e _
  rw [addEdge_bare, hst']

/-- What holds of a draft and the number of its edges and is kept by adding an edge between recorded
slots is kept by adding many. -/
theorem foldl_addEdge_keeps {P : Draft × Nat → Prop} {es : List (Nat × Nat)} {st : Draft × Nat}
    (hin : ∀ e ∈ es, e.1 < st.1.records.size ∧ e.2 < st.1.records.size)
    (hstep : ∀ d count s t, s < d.records.size → t < d.records.size → P (d, count) →
      P (addEdge (d, count) (s, t)))
    (hst : P st) : P (es.foldl addEdge st) := by
  have hboth : (es.foldl addEdge st).1.bare = st.1.bare ∧ P (es.foldl addEdge st) := by
    refine List.foldlRecOn (motive := fun st' => st'.1.bare = st.1.bare ∧ P st') es addEdge
      ⟨rfl, hst⟩ ?_
    intro st' hst' e he
    have hsize := size_of_bare hst'.1
    refine ⟨by rw [addEdge_bare, hst'.1], ?_⟩
    exact hstep st'.1 st'.2 e.1 e.2 (by rw [hsize]; exact (hin e he).1)
      (by rw [hsize]; exact (hin e he).2) hst'.2
  exact hboth.2

variable {es : List (Nat × Nat)} {st : Draft × Nat}
  (hin : ∀ e ∈ es, e.1 < st.1.records.size ∧ e.2 < st.1.records.size)

include hin

/-- **Adding edges keeps a draft paired.** -/
theorem foldl_addEdge_paired (hd : st.1.Paired) : (es.foldl addEdge st).1.Paired :=
  foldl_addEdge_keeps (P := fun st' => st'.1.Paired) hin
    (fun _ _ _ _ hs ht hp => addEdge_paired hp hs ht) hd

/-- What adding edges counts is by how much the calls grow. -/
theorem foldl_addEdge_count :
    (es.foldl addEdge st).2 + st.1.callCount = st.2 + (es.foldl addEdge st).1.callCount := by
  refine foldl_addEdge_keeps
    (P := fun st' => st'.2 + st.1.callCount = st.2 + st'.1.callCount) hin ?_ rfl
  intro d count s t hs _ hd
  have hstep : (addEdge (d, count) (s, t)).2 + d.callCount
      = count + (addEdge (d, count) (s, t)).1.callCount := addEdge_count hs
  dsimp only at hd ⊢
  omega

end Edges

/-- After adding edges between recorded slots, the old ones and these are among the calls. -/
theorem foldl_addEdge_calls {a b : Nat} : ∀ (es : List (Nat × Nat)) (st : Draft × Nat),
    (∀ e ∈ es, e.1 < st.1.records.size ∧ e.2 < st.1.records.size) →
      ((es.foldl addEdge st).1.Calls a b ↔ st.1.Calls a b ∨ (a, b) ∈ es) := by
  intro es
  induction es with
  | nil => intro st _; simp
  | cons e es ih =>
    intro st hin
    have hsize := size_of_bare (addEdge_bare st e)
    rw [List.foldl_cons, ih]
    · rw [show addEdge st e = addEdge (st.1, st.2) (e.1, e.2) from rfl,
        addEdge_calls (hin e List.mem_cons_self).1, List.mem_cons, or_assoc, Prod.ext_iff]
    · intro f hf
      rw [hsize]
      exact hin f (List.mem_cons_of_mem _ hf)

/-- Adding edges that are all there changes nothing. -/
theorem foldl_addEdge_of_calls : ∀ (es : List (Nat × Nat)) (st : Draft × Nat),
    (∀ e ∈ es, st.1.Calls e.1 e.2) → es.foldl addEdge st = st := by
  intro es
  induction es with
  | nil => intro st _; rfl
  | cons e es ih =>
    intro st hst
    have hstep : addEdge st e = st := addEdge_of_calls (hst e List.mem_cons_self)
    rw [List.foldl_cons, hstep]
    exact ih st fun f hf => hst f (List.mem_cons_of_mem _ hf)

end Draft

end CallVicinity
