/-
# Outcomes of code with undefined operations

A computation gives a value, reports an error, or does something that the language leaves
undefined: an access outside of a table, or a loop that never ends.  `fetch` and `store`
are the two accesses.  `Outcome.Ensures p` says that nothing undefined happens and that
a value, if there is one, meets `p`; `Ensures.bind` is the rule for one step behind
another.
-/

import Mathlib

namespace Canforge
namespace Lib

/-- A value, an error, or an undefined operation. -/
inductive Outcome (ε : Type*) (α : Type*)
  | ok (a : α)
  | error (e : ε)
  | undefined
  deriving DecidableEq

namespace Outcome

universe u v

variable {ε : Type v} {α β : Type u} {x : Outcome ε α} {f : α → Outcome ε β}
variable {p q : α → Prop} {r : β → Prop}

/-- One computation behind another. -/
protected def bind : Outcome ε α → (α → Outcome ε β) → Outcome ε β
  | ok a, f => f a
  | error e, _ => error e
  | undefined, _ => undefined

instance : Monad (Outcome ε) where
  pure := ok
  bind := Outcome.bind

@[simp] theorem pure_eq (a : α) : (pure a : Outcome ε α) = ok a := rfl

@[simp] theorem ok_bind (a : α) (f : α → Outcome ε β) : (ok a >>= f) = f a := rfl

@[simp] theorem error_bind (e : ε) (f : α → Outcome ε β) : (error e >>= f) = error e := rfl

/-- Nothing undefined happens, and a value meets `p`. -/
inductive Ensures : Outcome ε α → (α → Prop) → Prop
  | ok {a : α} {p : α → Prop} (h : p a) : Ensures (Outcome.ok a) p
  | error {e : ε} {p : α → Prop} : Ensures (Outcome.error e) p

theorem Ensures.value {a : α} (h : (Outcome.ok a : Outcome ε α).Ensures p) : p a := by
  cases h with
  | ok h => exact h

/-- **The rule for a step behind another.** -/
theorem Ensures.bind (h : x.Ensures p) (hf : ∀ a, p a → (f a).Ensures r) :
    (x >>= f).Ensures r := by
  cases h with
  | ok h => exact hf _ h
  | error => exact .error

theorem Ensures.mono (h : x.Ensures p) (hpq : ∀ a, p a → q a) : x.Ensures q := by
  cases h with
  | ok h => exact .ok (hpq _ h)
  | error => exact .error

theorem Ensures.ite {c : Prop} [Decidable c] {x y : Outcome ε α} (hx : c → x.Ensures p)
    (hy : ¬ c → y.Ensures p) : (if c then x else y).Ensures p := by
  split_ifs with h
  · exact hx h
  · exact hy h

/-- `xs[i]`. -/
def fetch (xs : List α) (i : ℕ) : Outcome ε α :=
  match xs[i]? with
  | some a => ok a
  | none => undefined

/-- `xs[i] = a`. -/
def store (xs : List α) (i : ℕ) (a : α) : Outcome ε (List α) :=
  if i < xs.length then ok (xs.set i a) else undefined

/-- `a - b` as an index. -/
def indexSub (a b : ℕ) : Outcome ε ℕ := if b ≤ a then ok (a - b) else undefined

theorem fetch_eq {xs : List α} {i : ℕ} (h : i < xs.length) :
    (fetch xs i : Outcome ε α) = ok xs[i] := by
  rw [fetch, List.getElem?_eq_getElem h]

theorem fetch_of_getElem? {xs : List α} {i : ℕ} {a : α} (h : xs[i]? = some a) :
    (fetch xs i : Outcome ε α) = ok a := by
  rw [fetch, h]

theorem store_eq {xs : List α} {i : ℕ} (a : α) (h : i < xs.length) :
    (store xs i a : Outcome ε (List α)) = ok (xs.set i a) := if_pos h

theorem indexSub_eq {a b : ℕ} (h : b ≤ a) : (indexSub a b : Outcome ε ℕ) = ok (a - b) := if_pos h

end Outcome

end Lib
end Canforge
