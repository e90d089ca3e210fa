/-
# The course of a run

A `Course` is what is asked of code that reports (`Lib.Reporting`): which stops are excused, which
states are sound, how large they are, and the way from one state to another with what is reported
on it.  Ways are joined where one piece of code follows another (`Goes.bind`), so that a loop whose
rounds go on only towards smaller states ends, and goes the whole way (`Ends.loop`).
-/

import Canforge.Lib.Reporting

namespace Canforge
namespace Lib

/-- What is asked of a run. -/
structure Course (σ δ ε : Type) where
  stops : ε → Prop
  sound : σ → Prop
  size : σ → ℕ
  way : σ → List δ → σ → Prop
  still : ∀ s, way s [] s
  join : ∀ {s₁ s₂ s₃ out out'}, way s₁ out s₂ → way s₂ out' s₃ → way s₁ (out ++ out') s₃

namespace Course

open Reporting

variable {σ δ ε α β : Type} (c : Course σ δ ε)

/-- The code keeps to the course and makes the state smaller by `n` at least. -/
def Goes (p : Reporting σ δ ε α) (s : σ) (n : α → ℕ) : Prop :=
  c.sound s →
    match p s with
    | .error e => c.stops e
    | .ok (a, s', out) => c.sound s' ∧ c.way s out s' ∧ c.size s' + n a ≤ c.size s

/-- The code keeps to the course. -/
def Ends (p : Reporting σ δ ε α) : Prop := ∀ s, c.Goes p s fun _ => 0

/-- A round that keeps to the course, towards a smaller state if another round follows. -/
def Advancing (round : β → Reporting σ δ ε (β × Bool)) : Prop :=
  ∀ b s, c.Goes (round b) s (·.2.toNat)

variable {c} {s : σ} {p : Reporting σ δ ε α} {f : α → Reporting σ δ ε β}

theorem Goes.mono {n m : α → ℕ} (h : c.Goes p s n) (hle : ∀ a, m a ≤ n a) : c.Goes p s m := by
  intro hsound
  have hp := h hsound
  cases hrun : p s with
  | error e => rwa [hrun] at hp
  | ok r =>
    rw [hrun] at hp
    obtain ⟨hsound', hway, hsize⟩ := hp
    exact ⟨hsound', hway, Nat.le_trans (Nat.add_le_add_left (hle r.1) _) hsize⟩

/-- **One piece of code behind another**, which is run with what the first one gives. -/
theorem Goes.bind_of_run {n : α → ℕ} {m : β → ℕ} (h : c.Goes p s n)
    (hf : ∀ a s' out, p s = .ok (a, s', out) → c.Goes (f a) s' fun b => m b - n a) :
    c.Goes (p >>= f) s m := by
  intro hsound
  have hdef : (p >>= f) s = Reporting.bind p f s := rfl
  have hp := h hsound
  rw [hdef, Reporting.bind]
  cases hrun : p s with
  | error e => rwa [hrun] at hp
  | ok r =>
    obtain ⟨a, s₁, out₁⟩ := r
    rw [hrun] at hp
    obtain ⟨hsound₁, hway₁, hsize₁⟩ := hp
    have hnext := hf a s₁ out₁ hrun hsound₁
    dsimp only at hsize₁ ⊢
    cases hrun' : f a s₁ with
    | error e => rwa [hrun'] at hnext
    | ok r' =>
      rw [hrun'] at hnext
      obtain ⟨hsound₂, hway₂, hsize₂⟩ := hnext
      refine ⟨hsound₂, c.join hway₁ hway₂, ?_⟩
      dsimp only at hsize₂ ⊢
      omega

theorem Goes.bind {n : α → ℕ} {m : β → ℕ} (h : c.Goes p s n)
    (hf : ∀ a s', c.Goes (f a) s' fun b => m b - n a) : c.Goes (p >>= f) s m :=
  h.bind_of_run fun a s' _ _ => hf a s'

/-- Code that ends, behind code that goes on. -/
theorem Goes.andThen {n : ℕ} (h : c.Goes p s fun _ => n) (hf : ∀ a, c.Ends (f a)) :
    c.Goes (p >>= f) s fun _ => n :=
  h.bind fun a s' => (hf a s').mono fun _ => by omega

/-- A round whose first piece makes the state smaller. -/
theorem Goes.round {f : α → Reporting σ δ ε (β × Bool)} (h : c.Goes p s fun _ => 1)
    (hf : ∀ a, c.Ends (f a)) : c.Goes (p >>= f) s (·.2.toNat) :=
  (h.andThen hf).mono fun r => Bool.toNat_le r.2

theorem Goes.ite {b : Prop} [Decidable b] {p q : Reporting σ δ ε α} {n : α → ℕ}
    (hp : b → c.Goes p s n) (hq : ¬b → c.Goes q s n) : c.Goes (if b then p else q) s n := by
  split_ifs with h
  · exact hp h
  · exact hq h

/-- What follows quiet code that leaves the state as it is. -/
theorem Goes.of_quiet {a : α} {n : β → ℕ} (h : Quiet p s a s) (hf : c.Goes (f a) s n) :
    c.Goes (p >>= f) s n := by
  intro hsound
  have hdef : (p >>= f) s = Reporting.bind p f s := rfl
  have hnext := hf hsound
  rw [hdef, Reporting.bind, h]
  dsimp only
  cases hrun : f a s with
  | error e => rwa [hrun] at hnext
  | ok r => rwa [hrun] at hnext

theorem Ends.bind (h : c.Ends p) (hf : ∀ a, c.Ends (f a)) : c.Ends (p >>= f) :=
  fun s => (h s).andThen hf

theorem Ends.ite {b : Prop} [Decidable b] {p q : Reporting σ δ ε α} (hp : c.Ends p)
    (hq : c.Ends q) : c.Ends (if b then p else q) :=
  fun s => .ite (fun _ => hp s) fun _ => hq s

theorem ends_pure (a : α) : c.Ends (pure a : Reporting σ δ ε α) :=
  fun s hsound => ⟨hsound, c.still s, Nat.le_refl _⟩

theorem ends_get : c.Ends (get : Reporting σ δ ε σ) := fun s hsound => ⟨hsound, c.still s, Nat.le_refl _⟩

/-- A value, or a stop that is excused. -/
theorem ends_orStop {e : ε} {o : Option α} (h : o = none → c.stops e) :
    c.Ends (orStop e o : Reporting σ δ ε α) := by
  cases o with
  | none => exact fun _ _ => h rfl
  | some a => exact ends_pure a

/-- The last round of a loop. -/
theorem goes_last (b : β) : c.Goes (pure (b, false) : Reporting σ δ ε (β × Bool)) s (·.2.toNat) :=
  ends_pure (b, false) s

/-- **The rule for loops**, which are as far as the first round has come: with fuel for a round at
each size there are no more rounds. -/
theorem Advancing.loop_from {e : ε} {round : β → Reporting σ δ ε (β × Bool)}
    (h : c.Advancing round) {n k : ℕ} {b : β} {s : σ} (hfuel : c.size s < n)
    (hfirst : c.Goes (round b) s fun r => max k r.2.toNat) :
    c.Goes (Reporting.loop e round n b) s fun _ => k := by
  induction n generalizing b s k with
  | zero => exact absurd hfuel (Nat.not_lt_zero _)
  | succ n ih =>
    intro hsound
    have hdef : Reporting.loop e round (n + 1) b s = Reporting.bind (round b)
        (fun r => if r.2 then Reporting.loop e round n r.1 else pure r.1) s := rfl
    have hone := hfirst hsound
    rw [hdef, Reporting.bind]
    cases hrun : round b s with
    | error e => rwa [hrun] at hone
    | ok r =>
      obtain ⟨⟨b₁, again⟩, s₁, out₁⟩ := r
      rw [hrun] at hone
      obtain ⟨hsound₁, hway₁, hsize₁⟩ := hone
      dsimp only at hsize₁ ⊢
      cases again with
      | false =>
        refine ⟨hsound₁, c.join hway₁ (c.still s₁), ?_⟩
        omega
      | true =>
        have hless : c.size s₁ + max k 1 ≤ c.size s := hsize₁
        have hrest := ih (k := 0) (by omega) ((h b₁ s₁).mono fun r => by omega) hsound₁
        rw [if_pos rfl]
        cases hrun' : Reporting.loop e round n b₁ s₁ with
        | error e => rwa [hrun'] at hrest
        | ok r' =>
          rw [hrun'] at hrest
          obtain ⟨hsound₂, hway₂, hsize₂⟩ := hrest
          refine ⟨hsound₂, c.join hway₁ hway₂, ?_⟩
          dsimp only at hsize₂ ⊢
          omega

theorem Advancing.loop {e : ε} {round : β → Reporting σ δ ε (β × Bool)} (h : c.Advancing round)
    {n : ℕ} (b : β) {s : σ} (hfuel : c.size s < n) :
    c.Goes (Reporting.loop e round n b) s fun _ => 0 :=
  h.loop_from hfuel ((h b s).mono fun _ => by omega)

end Course

end Lib
end Canforge
