/-
# Runs of a step function and their invariants

A component is a step function `step : σ → ε → Option σ` on its states, driven by
events; `none` means that the event cannot happen in that state.  `Reach step ok
s₀ s` says that `s` is the state after some finite sequence of events from `s₀`,
each meeting the condition `ok` in the state it happens in.  The condition is
how a theorem speaks of the runs of a restricted environment (no expired
deadline, no lost frame) and `fun _ _ => True` is no restriction.

`Reach.invariant` is the one induction: what holds initially and is kept by
every allowed step holds in every reachable state.
-/

import Mathlib

namespace Canforge
namespace Lib

variable {σ ε : Type*}

/-- The states of the runs from `s₀` all of whose steps meet `ok`. -/
inductive Reach (step : σ → ε → Option σ) (ok : σ → ε → Prop) (s₀ : σ) : σ → Prop
  | refl : Reach step ok s₀ s₀
  | tail {s t : σ} {e : ε} (h : Reach step ok s₀ s) (hok : ok s e) (hstep : step s e = some t) :
      Reach step ok s₀ t

namespace Reach

variable {step : σ → ε → Option σ} {ok ok' : σ → ε → Prop} {s₀ s : σ}

/-- **The invariant rule.** -/
theorem invariant {Inv : σ → Prop} (h₀ : Inv s₀)
    (hstep : ∀ s e t, Inv s → ok s e → step s e = some t → Inv t) (h : Reach step ok s₀ s) :
    Inv s := by
  induction h with
  | refl => exact h₀
  | tail _ hok hs ih => exact hstep _ _ _ ih hok hs

/-- Fewer conditions, more runs. -/
theorem mono (hok : ∀ s e, ok s e → ok' s e) (h : Reach step ok s₀ s) : Reach step ok' s₀ s := by
  induction h with
  | refl => exact .refl
  | tail _ ho hs ih => exact ih.tail (hok _ _ ho) hs

end Reach

/-- The state after a list of events, if all of them can happen and meet `ok`. -/
def run (step : σ → ε → Option σ) (ok : σ → ε → Prop) [∀ s e, Decidable (ok s e)] :
    σ → List ε → Option σ
  | s, [] => some s
  | s, e :: es => if ok s e then (step s e).bind fun t => run step ok t es else none

/-- A list of events that can happen and meet the condition is a run. -/
theorem Reach.of_run {step : σ → ε → Option σ} {ok : σ → ε → Prop} [∀ s e, Decidable (ok s e)]
    {s₀ s t : σ} (h : Reach step ok s₀ s) :
    ∀ {es : List ε}, run step ok s es = some t → Reach step ok s₀ t := by
  intro es
  induction es generalizing s with
  | nil => intro ht; exact Option.some.inj ht ▸ h
  | cons e es ih =>
    intro ht
    rw [run] at ht
    split_ifs at ht with hok
    obtain ⟨u, hu, ht⟩ := Option.bind_eq_some_iff.1 ht
    exact ih (h.tail hok hu) ht

/-- What a list of events leads to can be reached. -/
theorem Reach.exists_of_run {step : σ → ε → Option σ} {ok : σ → ε → Prop}
    [∀ s e, Decidable (ok s e)] {s₀ : σ} {p : σ → Prop} (es : List ε)
    (h : ∃ s ∈ run step ok s₀ es, p s) : ∃ s, Reach step ok s₀ s ∧ p s :=
  h.imp fun _ hs => ⟨Reach.of_run .refl hs.1, hs.2⟩

/-- Every step of the run `es` from `s` satisfies `P`. -/
def Along (step : σ → ε → Option σ) (P : σ → ε → σ → Prop) : σ → List ε → Prop
  | _, [] => True
  | s, e :: es => ∀ t, step s e = some t → P s e t ∧ Along step P t es

instance Along.decidable {step : σ → ε → Option σ} {P : σ → ε → σ → Prop}
    [∀ s e t, Decidable (P s e t)] : ∀ s es, Decidable (Along step P s es)
  | _, [] => .isTrue trivial
  | s, e :: es =>
    match h : step s e with
    | none => .isTrue fun t ht => by cases h.symm.trans ht
    | some t =>
      have : Decidable (Along step P t es) := Along.decidable t es
      decidable_of_iff (P s e t ∧ Along step P t es)
        ⟨fun hp u hu => by cases h.symm.trans hu; exact hp, fun hp => hp t h⟩

/-- **Two properties of steps that agree in reachable states agree on runs.** -/
theorem Along.congr {step : σ → ε → Option σ} {P Q : σ → ε → σ → Prop} {s₀ s : σ}
    (hs : Reach step (fun _ _ => True) s₀ s)
    (h : ∀ s e t, Reach step (fun _ _ => True) s₀ s → step s e = some t → (P s e t ↔ Q s e t))
    (es : List ε) : Along step P s es ↔ Along step Q s es := by
  induction es generalizing s with
  | nil => exact Iff.rfl
  | cons e es ih =>
    refine forall₂_congr fun t ht => ?_
    rw [h s e t hs ht, ih (hs.tail trivial ht)]

/-- Two properties of steps that agree where `Inv` holds agree on the runs along which `R` holds
and keeps `Inv`. -/
theorem Along.congr_along {step : σ → ε → Option σ} {P Q R : σ → ε → σ → Prop} {Inv : σ → Prop}
    (hinv : ∀ s e t, Inv s → R s e t → step s e = some t → Inv t)
    (h : ∀ s e t, Inv s → R s e t → step s e = some t → (P s e t ↔ Q s e t)) {es : List ε}
    {s : σ} (hs : Inv s) (hR : Along step R s es) : Along step P s es ↔ Along step Q s es := by
  induction es generalizing s with
  | nil => exact Iff.rfl
  | cons e es ih =>
    refine forall₂_congr fun t ht => ?_
    obtain ⟨hr, hrest⟩ := hR t ht
    rw [h s e t hs hr ht, ih (hinv s e t hs hr ht) hrest]

end Lib
end Canforge
