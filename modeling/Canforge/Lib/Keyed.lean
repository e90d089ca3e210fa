/-
# Lists with keys

`changeFirst p f l` changes the first element with `p`.  Elements are often told apart by a key that
a change keeps (`map_changeFirst`); where the keys differ, changing one element after the other
changes all of them (`foldl_changeFirst`).
-/

import Mathlib.Data.List.Nodup

namespace Canforge
namespace Lib

variable {α β κ : Type} {p : α → Prop} [DecidablePred p] {f g : α → α} {l : List α}

/-- The list after a change of the first element with `p`. -/
def changeFirst (p : α → Prop) [DecidablePred p] (f : α → α) (l : List α) : List α :=
  l.replaceF fun a => if p a then some (f a) else none

@[simp] theorem changeFirst_nil : changeFirst p f [] = [] := rfl

theorem changeFirst_cons (a : α) (l : List α) :
    changeFirst p f (a :: l) = if p a then f a :: l else a :: changeFirst p f l := by
  unfold changeFirst
  rw [List.replaceF]
  split_ifs <;> rfl

theorem changeFirst_of_pos {a : α} (h : p a) : changeFirst p f (a :: l) = f a :: l := by
  rw [changeFirst_cons, if_pos h]

theorem changeFirst_of_neg {a : α} (h : ¬p a) :
    changeFirst p f (a :: l) = a :: changeFirst p f l := by
  rw [changeFirst_cons, if_neg h]

/-- Only what becomes of the first element counts. -/
theorem changeFirst_congr (h : ∀ a ∈ l.find? p, f a = g a) :
    changeFirst p f l = changeFirst p g l := by
  induction l with
  | nil => rfl
  | cons a l ih =>
    by_cases ha : p a
    · rw [changeFirst_of_pos ha, changeFirst_of_pos ha, h a (by simp [ha])]
    · rw [changeFirst_of_neg ha, changeFirst_of_neg ha, ih fun b hb => h b (by simpa [ha] using hb)]

/-- A change that does nothing. -/
theorem changeFirst_self (h : ∀ a ∈ l, p a → f a = a) : changeFirst p f l = l := by
  induction l with
  | nil => rfl
  | cons a l ih =>
    by_cases ha : p a
    · rw [changeFirst_of_pos ha, h a List.mem_cons_self ha]
    · rw [changeFirst_of_neg ha, ih fun b hb => h b (List.mem_cons_of_mem _ hb)]

/-- Two changes of one element. -/
theorem changeFirst_changeFirst (h : ∀ a, p a → p (g a)) :
    changeFirst p f (changeFirst p g l) = changeFirst p (f ∘ g) l := by
  induction l with
  | nil => rfl
  | cons a l ih =>
    by_cases ha : p a
    · rw [changeFirst_of_pos ha, changeFirst_of_pos (h a ha), changeFirst_of_pos ha]
      rfl
    · rw [changeFirst_of_neg ha, changeFirst_of_neg ha, changeFirst_of_neg ha, ih]

/-- What a change keeps of the elements it keeps of the list. -/
theorem map_changeFirst {view : α → β} (h : ∀ a, view (f a) = view a) :
    (changeFirst p f l).map view = l.map view := by
  induction l with
  | nil => rfl
  | cons a l ih =>
    by_cases ha : p a
    · rw [changeFirst_of_pos ha, List.map_cons, List.map_cons, h]
    · rw [changeFirst_of_neg ha, List.map_cons, List.map_cons, ih]

/-- What is found depends on what `view` shows of the elements. -/
theorem map_find?_congr {view : α → β} {q : β → Bool} {l' : List α} (h : l.map view = l'.map view) :
    (l.find? (q ∘ view)).map view = (l'.find? (q ∘ view)).map view := by
  rw [← List.find?_map, ← List.find?_map, h]

/-- An element is found by its key. -/
theorem find?_of_nodup [DecidableEq κ] {key : α → κ} (h : (l.map key).Nodup) {a : α} (ha : a ∈ l) :
    l.find? (fun b => key b = key a) = some a := by
  induction l with
  | nil => cases ha
  | cons b l ih =>
    rw [List.map_cons, List.nodup_cons] at h
    rcases List.mem_cons.1 ha with rfl | ha
    · exact List.find?_cons_of_pos (decide_eq_true rfl)
    · have hne : key b ≠ key a := fun heq => h.1 (heq ▸ List.mem_map_of_mem ha)
      rw [List.find?_cons_of_neg (by simpa using hne), ih h.2 ha]

/-- What stands in front of the first element with `p` stays there. -/
theorem changeFirst_append_of_neg {front : List α} (h : ∀ a ∈ front, ¬p a) (l : List α) :
    changeFirst p f (front ++ l) = front ++ changeFirst p f l := by
  induction front with
  | nil => rfl
  | cons a front ih =>
    rw [List.cons_append, changeFirst_of_neg (h a List.mem_cons_self),
      ih fun b hb => h b (List.mem_cons_of_mem _ hb), List.cons_append]

/-- **Changing one element after the other changes all of them**, where `key` tells apart what
they are made of. -/
theorem foldl_changeFirst [DecidableEq κ] {l : List α} {key : α → κ} {key' : β → κ} {G : α → β}
    {F : α → β → β} (hnodup : (l.map key).Nodup) (hG : ∀ a, key' (G a) = key a)
    (hF : ∀ a b, key' (F a b) = key' b) :
    l.foldl (fun bs a => changeFirst (fun b => key' b = key a) (F a) bs) (l.map G) =
      l.map fun a => F a (G a) := by
  have hfront (done rest : List α) (hnodup : ((done ++ rest).map key).Nodup) :
      rest.foldl (fun bs a => changeFirst (fun b => key' b = key a) (F a) bs)
        ((done.map fun a => F a (G a)) ++ rest.map G) = (done ++ rest).map fun a => F a (G a) := by
    induction rest generalizing done with
    | nil => simp
    | cons a rest ih =>
      have hother : ∀ b ∈ done.map fun a => F a (G a), ¬key' b = key a := by
        intro b hb heq
        obtain ⟨c, hc, rfl⟩ := List.mem_map.1 hb
        rw [hF, hG] at heq
        rw [List.map_append, List.nodup_append] at hnodup
        exact hnodup.2.2 _ (List.mem_map_of_mem hc) _ (List.mem_map_of_mem List.mem_cons_self) heq
      have hfirst : changeFirst (fun b => key' b = key a) (F a) (G a :: rest.map G) =
          F a (G a) :: rest.map G := changeFirst_of_pos (hG a)
      rw [List.foldl_cons, changeFirst_append_of_neg hother, List.map_cons, hfirst]
      have hstep := ih (done ++ [a]) (by simpa using hnodup)
      simpa using hstep
  exact hfront [] l hnodup

end Lib
end Canforge
