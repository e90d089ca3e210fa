/-
# Stable sorting by a key

`stableSort key` is insertion sort by the value of a key, which keeps the elements of one
value in the order they came in.  That is all there is to it: a sorted list with the same
elements of each value in the same order is the sorted list (`eq_stableSort`).  So sorting
commutes with leaving elements out (`filter_stableSort`), and a list that was sorted in part
before is sorted as if it had not been (`stableSort_append_left`).
-/

import Mathlib

namespace Canforge
namespace Lib

variable {α κ : Type*} [LinearOrder κ] {key : α → κ} {l l' : List α}

/-- `std::stable_sort` by a key. -/
def stableSort (key : α → κ) (l : List α) : List α := l.insertionSort fun a b => key a ≤ key b

/-- The keys do not decrease. -/
def SortedBy (key : α → κ) (l : List α) : Prop := l.Pairwise fun a b => key a ≤ key b

theorem perm_stableSort (key : α → κ) (l : List α) : (stableSort key l).Perm l :=
  List.perm_insertionSort _ l

@[simp] theorem mem_stableSort {a : α} : a ∈ stableSort key l ↔ a ∈ l :=
  (perm_stableSort key l).mem_iff

@[simp] theorem length_stableSort (key : α → κ) (l : List α) :
    (stableSort key l).length = l.length := (perm_stableSort key l).length_eq

theorem sortedBy_stableSort (key : α → κ) (l : List α) : SortedBy key (stableSort key l) := by
  have : Std.Total fun a b : α => key a ≤ key b := ⟨fun a b => le_total _ _⟩
  have : IsTrans α fun a b => key a ≤ key b := ⟨fun _ _ _ => le_trans⟩
  exact List.pairwise_insertionSort _ l

theorem SortedBy.stableSort_eq (h : SortedBy key l) : stableSort key l = l :=
  List.Pairwise.insertionSort_eq h

/-! ### Leaving elements out -/

theorem orderedInsert_of_forall {r : α → α → Prop} [DecidableRel r] {a : α}
    (h : ∀ b ∈ l, r a b) : l.orderedInsert r a = a :: l := by
  cases l with
  | nil => rfl
  | cons b l => exact List.orderedInsert_cons_of_le r l (h b (List.mem_cons_self ..))

theorem filter_orderedInsert (p : α → Bool) (a : α) (h : SortedBy key l) :
    (l.orderedInsert (fun a b => key a ≤ key b) a).filter p =
      if p a then (l.filter p).orderedInsert (fun a b => key a ≤ key b) a else l.filter p := by
  induction l with
  | nil => cases hp : p a <;> simp [hp]
  | cons b l ih =>
    obtain ⟨hb, hl⟩ := List.pairwise_cons.1 h
    rw [List.orderedInsert_cons]
    by_cases hab : key a ≤ key b
    · rw [if_pos hab, List.filter_cons]
      split_ifs with hp
      · -- everything behind `b` is above `a` too, whatever the filter leaves of it
        refine (orderedInsert_of_forall fun c hc => ?_).symm
        rcases List.mem_cons.1 (List.mem_filter.1 hc).1 with rfl | hc
        · exact hab
        · exact hab.trans (hb c hc)
      · rfl
    · rw [if_neg hab, List.filter_cons, ih hl, List.filter_cons]
      split_ifs with hpb hpa hpa
      · rw [List.orderedInsert_cons, if_neg hab]
      · rfl
      · rfl
      · rfl

/-- **Sorting commutes with leaving elements out.** -/
theorem filter_stableSort (p : α → Bool) :
    (stableSort key l).filter p = stableSort key (l.filter p) := by
  induction l with
  | nil => rfl
  | cons a l ih =>
    have hcons : stableSort key (a :: l) =
        (stableSort key l).orderedInsert (fun a b => key a ≤ key b) a := rfl
    rw [hcons, filter_orderedInsert p a (sortedBy_stableSort key l), ih, List.filter_cons]
    split_ifs
    · rfl
    · rfl

/-- The elements of one value keep their order. -/
theorem filter_key_stableSort (v : κ) :
    (stableSort key l).filter (key · = v) = l.filter (key · = v) := by
  rw [filter_stableSort]
  refine SortedBy.stableSort_eq (List.pairwise_of_forall_mem_list ?_)
  intro a ha b hb
  have ha := of_decide_eq_true (List.mem_filter.1 ha).2
  have hb := of_decide_eq_true (List.mem_filter.1 hb).2
  exact (ha.trans hb.symm).le

/-! ### There is one sorted list -/

/-- The first element of a sorted list has the least key, so with the same elements of each
value two lists have the same head. -/
theorem SortedBy.eq_of_filter (h : SortedBy key l) (h' : SortedBy key l')
    (hf : ∀ v, l.filter (key · = v) = l'.filter (key · = v)) : l = l' := by
  have mem : ∀ a, a ∈ l ↔ a ∈ l' := by
    intro a
    have := congrArg (a ∈ ·) (hf (key a))
    simpa using this
  induction l generalizing l' with
  | nil => exact (List.eq_nil_iff_forall_not_mem.2 fun a ha => nomatch (mem a).2 ha).symm
  | cons a l ih =>
    cases l' with
    | nil => nomatch (mem a).1 (List.mem_cons_self ..)
    | cons b l' =>
      obtain ⟨ha, hl⟩ := List.pairwise_cons.1 h
      obtain ⟨hb, hl'⟩ := List.pairwise_cons.1 h'
      have hab : key a = key b := by
        refine le_antisymm ?_ ?_
        · rcases List.mem_cons.1 ((mem b).2 (List.mem_cons_self ..)) with rfl | hm
          · exact le_rfl
          · exact ha b hm
        · rcases List.mem_cons.1 ((mem a).1 (List.mem_cons_self ..)) with rfl | hm
          · exact le_rfl
          · exact hb a hm
      have hhead := hf (key a)
      rw [List.filter_cons_of_pos (by simp), List.filter_cons_of_pos (by simp [hab])] at hhead
      obtain ⟨rfl, -⟩ := List.cons.inj hhead
      have hrest : ∀ v, l.filter (key · = v) = l'.filter (key · = v) := by
        intro v
        have := hf v
        by_cases hv : key a = v
        · rw [List.filter_cons_of_pos (by simpa using hv),
            List.filter_cons_of_pos (by simpa using hv)] at this
          exact (List.cons.inj this).2
        · rwa [List.filter_cons_of_neg (by simpa using hv),
            List.filter_cons_of_neg (by simpa using hv)] at this
      refine congrArg _ (ih hl hl' hrest fun c => ?_)
      have := congrArg (c ∈ ·) (hrest (key c))
      simpa using this

/-- **A sorted list with the same elements of each value in the same order is the sorted
list.** -/
theorem eq_stableSort (h : SortedBy key l)
    (hf : ∀ v, l.filter (key · = v) = l'.filter (key · = v)) : l = stableSort key l' :=
  h.eq_of_filter (sortedBy_stableSort key l') fun v => by rw [hf v, filter_key_stableSort]

/-- What was sorted before may be sorted again. -/
theorem stableSort_append_left : stableSort key (stableSort key l ++ l') = stableSort key (l ++ l') :=
  eq_stableSort (sortedBy_stableSort key _) fun v => by
    rw [filter_key_stableSort, List.filter_append, filter_key_stableSort, List.filter_append]

end Lib
end Canforge
