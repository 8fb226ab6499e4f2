import Mathlib.Data.List.Basic
import Mathlib.Data.List.Nodup

/-!
# Sorting by script id

Everything that a corpus lists is sorted by script id, and what shares an
id stays in the given order. Two facts follow for every sorted list:

- where no two elements share an id, the given order leaves no trace
  (`mergeSort_eq_of_perm`);
- leaving elements out before or after sorting is the same
  (`filter_mergeSort`), so one more element with an id of its own shows up
  in its place and moves nothing else (`mergeSort_of_inserted`).
-/

namespace BehaviorScript

/-! ## One more element -/

/-- The list `after` is `before` with `a` put in somewhere. -/
def Inserted {α : Type} (a : α) (before after : List α) : Prop :=
  ∃ front back, before = front ++ back ∧ after = front ++ a :: back

namespace Inserted

variable {α β : Type} {a : α} {before after : List α}

theorem perm (h : Inserted a before after) : after.Perm (a :: before) := by
  obtain ⟨front, back, rfl, rfl⟩ := h
  exact List.perm_middle

theorem mem_iff (h : Inserted a before after) {b : α} : b ∈ after ↔ b = a ∨ b ∈ before := by
  rw [h.perm.mem_iff, List.mem_cons]

theorem map (h : Inserted a before after) (f : α → β) :
    Inserted (f a) (before.map f) (after.map f) := by
  obtain ⟨front, back, rfl, rfl⟩ := h
  exact ⟨front.map f, back.map f, List.map_append, by rw [List.map_append, List.map_cons]⟩

theorem append_left (h : Inserted a before after) (l : List α) :
    Inserted a (l ++ before) (l ++ after) := by
  obtain ⟨front, back, rfl, rfl⟩ := h
  exact ⟨l ++ front, back, (List.append_assoc ..).symm, (List.append_assoc ..).symm⟩

theorem append_right (h : Inserted a before after) (l : List α) :
    Inserted a (before ++ l) (after ++ l) := by
  obtain ⟨front, back, rfl, rfl⟩ := h
  exact ⟨front, back ++ l, List.append_assoc .., by rw [List.append_assoc, List.cons_append]⟩

theorem filterMap_some (h : Inserted a before after) {f : α → Option β} {b : β}
    (ha : f a = some b) : Inserted b (before.filterMap f) (after.filterMap f) := by
  obtain ⟨front, back, rfl, rfl⟩ := h
  refine ⟨front.filterMap f, back.filterMap f, List.filterMap_append, ?_⟩
  rw [List.filterMap_append, List.filterMap_cons_some ha]

theorem filterMap_none (h : Inserted a before after) {f : α → Option β} (ha : f a = none) :
    after.filterMap f = before.filterMap f := by
  obtain ⟨front, back, rfl, rfl⟩ := h
  rw [List.filterMap_append, List.filterMap_append, List.filterMap_cons_none ha]

end Inserted

/-! ## Sorting -/

/-- An order in which no two elements are tied sorts them in one way. -/
theorem mergeSort_eq_of_antisymm {α : Type} {le : α → α → Bool} {l l' : List α}
    (htrans : ∀ a b c, le a b = true → le b c = true → le a c = true)
    (htotal : ∀ a b, (le a b || le b a) = true) (hperm : l.Perm l')
    (hanti : ∀ a ∈ l, ∀ b ∈ l, le a b = true → le b a = true → a = b) :
    l.mergeSort le = l'.mergeSort le := by
  refine List.Perm.eq_of_pairwise ?_ (List.pairwise_mergeSort htrans htotal l)
    (List.pairwise_mergeSort htrans htotal l')
    (((List.mergeSort_perm l le).trans hperm).trans (List.mergeSort_perm l' le).symm)
  intro a b ha hb hab hba
  have ha : a ∈ l := List.mem_mergeSort.mp ha
  have hb : b ∈ l := hperm.mem_iff.mpr (List.mem_mergeSort.mp hb)
  exact hanti a ha b hb hab hba

namespace ById

variable {α : Type} (key : α → UInt16)

theorem trans (a b c : α) (hab : decide (key a ≤ key b)) (hbc : decide (key b ≤ key c)) :
    decide (key a ≤ key c) := by
  simp only [decide_eq_true_eq] at hab hbc ⊢
  exact UInt16.le_trans hab hbc

theorem total (a b : α) : decide (key a ≤ key b) || decide (key b ≤ key a) := by
  simpa using UInt16.le_total (key a) (key b)

theorem pairwise_mergeSort (l : List α) :
    (l.mergeSort fun a b => key a ≤ key b).Pairwise fun a b => key a ≤ key b := by
  simpa using List.pairwise_mergeSort (trans key) (total key) l

/-- An id cuts a sorted list in two. -/
theorem filter_append_filter {l : List α} (h : l.Pairwise fun a b => key a ≤ key b)
    (id : UInt16) :
    (l.filter fun a => key a < id) ++ (l.filter fun a => id ≤ key a) = l := by
  induction l with
  | nil => rfl
  | cons a l ih =>
      obtain ⟨habove, hl⟩ := List.pairwise_cons.mp h
      rcases UInt16.lt_or_le (key a) id with hid | hid
      · have hnot : ¬ id ≤ key a := UInt16.not_le.mpr hid
        simp only [List.filter_cons, hid, hnot, decide_true, decide_false, if_true,
          List.cons_append]
        exact congrArg (a :: ·) (ih hl)
      · have hall : ∀ b ∈ a :: l, id ≤ key b := by
          intro b hb
          rcases List.mem_cons.mp hb with rfl | hb
          · exact hid
          · exact UInt16.le_trans hid (habove b hb)
        have hnone : ((a :: l).filter fun b => key b < id) = [] :=
          List.filter_eq_nil_iff.mpr fun b hb => by simpa using hall b hb
        have hself : ((a :: l).filter fun b => id ≤ key b) = a :: l :=
          List.filter_eq_self.mpr fun b hb => by simpa using hall b hb
        rw [hnone, hself, List.nil_append]

/-- The first element goes behind the smaller ids and before all others,
those equal to its own included. -/
theorem mergeSort_cons (a : α) (l : List α) :
    ((a :: l).mergeSort fun a b => key a ≤ key b)
      = ((l.mergeSort fun a b => key a ≤ key b).filter fun b => key b < key a)
        ++ a :: ((l.mergeSort fun a b => key a ≤ key b).filter fun b => key a ≤ key b) := by
  obtain ⟨below, above, hcons, hl, hbelow⟩ := List.mergeSort_cons (trans key) (total key) a l
  have hsorted := pairwise_mergeSort key (a :: l)
  rw [hcons] at hsorted
  have habove : ∀ b ∈ above, key a ≤ key b :=
    (List.pairwise_cons.mp (List.pairwise_append.mp hsorted).2.1).1
  have hbelow : ∀ b ∈ below, key b < key a := by simpa using hbelow
  have hlt : ((below ++ above).filter fun b => key b < key a) = below := by
    rw [List.filter_append, List.filter_eq_self.mpr fun b hb => by simpa using hbelow b hb,
      List.filter_eq_nil_iff.mpr fun b hb => by simpa using habove b hb, List.append_nil]
  have hle : ((below ++ above).filter fun b => key a ≤ key b) = above := by
    rw [List.filter_append, List.filter_eq_nil_iff.mpr fun b hb => by simpa using hbelow b hb,
      List.filter_eq_self.mpr fun b hb => by simpa using habove b hb, List.nil_append]
  rw [hcons, hl, hlt, hle]

theorem filter_mergeSort (p : α → Bool) (l : List α) :
    (l.mergeSort fun a b => key a ≤ key b).filter p
      = (l.filter p).mergeSort fun a b => key a ≤ key b := by
  induction l with
  | nil => simp
  | cons a l ih =>
      have hcut := filter_append_filter key (pairwise_mergeSort key l) (key a)
      rw [mergeSort_cons, List.filter_append, List.filter_cons]
      cases hp : p a with
      | true =>
          -- what is left out of the two halves is what is left out before
          rw [List.filter_cons_of_pos hp, mergeSort_cons, ← ih, if_pos rfl]
          simp only [List.filter_filter, Bool.and_comm]
      | false =>
          rw [List.filter_cons_of_neg (by simp [hp]), ← ih, if_neg Bool.false_ne_true,
            ← List.filter_append, hcut]

theorem mergeSort_eq_of_perm {l l' : List α} (hperm : l.Perm l') (hnodup : (l.map key).Nodup) :
    (l.mergeSort fun a b => key a ≤ key b) = l'.mergeSort fun a b => key a ≤ key b := by
  refine mergeSort_eq_of_antisymm (trans key) (total key) hperm ?_
  intro a ha b hb hab hba
  exact List.inj_on_of_nodup_map hnodup ha hb
    (UInt16.le_antisymm (of_decide_eq_true hab) (of_decide_eq_true hba))

/-- Only one list in strictly ascending order has given members. -/
theorem eq_mergeSort_of_perm {l l' : List α} (hsorted : l.Pairwise fun a b => key a < key b)
    (hperm : l.Perm l') : l = l'.mergeSort fun a b => key a ≤ key b := by
  have hnodup : (l.map key).Nodup :=
    List.pairwise_map.mpr (hsorted.imp fun h heq => UInt16.ne_of_lt h heq)
  have hle : l.Pairwise fun a b => decide (key a ≤ key b) = true :=
    hsorted.imp fun h => decide_eq_true (UInt16.le_of_lt h)
  rw [← mergeSort_eq_of_perm key hperm hnodup, List.mergeSort_of_pairwise hle]

theorem filter_of_inserted {before after : List α} {a : α} (h : Inserted a before after)
    (hfresh : ∀ b ∈ before, key b ≠ key a) :
    (after.filter fun b => key b ≠ key a) = before := by
  have hself := List.filter_eq_self.mpr fun b hb => decide_eq_true (hfresh b hb)
  obtain ⟨front, back, rfl, rfl⟩ := h
  rw [List.filter_append] at hself ⊢
  rw [List.filter_cons_of_neg (by simp), hself]

/-- One more element, wherever it is put, turns up in one place of the
sorted list. -/
theorem mergeSort_of_inserted {before after : List α} {a : α} (h : Inserted a before after)
    (hfresh : ∀ b ∈ before, key b ≠ key a) :
    Inserted a (before.mergeSort fun a b => key a ≤ key b)
      (after.mergeSort fun a b => key a ≤ key b) := by
  have hmem : a ∈ after.mergeSort fun a b => key a ≤ key b :=
    List.mem_mergeSort.mpr (h.mem_iff.mpr (Or.inl rfl))
  obtain ⟨front, back, hsorted⟩ := List.append_of_mem hmem
  have hrest : Inserted a (front ++ back) (after.mergeSort fun a b => key a ≤ key b) :=
    ⟨front, back, rfl, hsorted⟩
  have hperm : (front ++ back).Perm before :=
    (hrest.perm.symm.trans ((List.mergeSort_perm after _).trans h.perm)).cons_inv
  have hfresh' : ∀ b ∈ front ++ back, key b ≠ key a := fun b hb =>
    hfresh b (hperm.mem_iff.mp hb)
  -- the other elements are those with another id, before sorting and after it
  have hbefore : (before.mergeSort fun a b => key a ≤ key b) = front ++ back := by
    rw [← filter_of_inserted key h hfresh, ← filter_mergeSort,
      filter_of_inserted key hrest hfresh']
  exact ⟨front, back, hbefore, hsorted⟩

end ById

end BehaviorScript
