/-
# Code that reports as it goes

`Reporting σ δ ε α` is code on a state `σ` that gives an `α`, adds reports `δ` to a list that
nothing takes anything from, and may stop with `ε`.  `Quiet p s a s'` is a run of `p` that
reports nothing.  As reports are never taken back, a quiet run is quiet in all its parts
(`quiet_bind`), so a quiet run of a program is read off its text, branch by branch: no branch
that reports is taken.

`Leads stops p s Q` is about any run: it ends as `Q` says, or stops with what `stops` allows.  A
loop whose every round makes a measure smaller does not use up its fuel (`Leads.loop`).

`Gives allowed p s Q` is a run that ends as `Q` says, and reports only what is `allowed`.
-/

import Mathlib.Data.List.Basic
import Mathlib.Tactic.SplitIfs

namespace Canforge
namespace Lib

/-- Code that changes a state, reports and may stop. -/
def Reporting (σ δ ε α : Type) : Type := σ → Except ε (α × σ × List δ)

namespace Reporting

variable {σ δ ε α β : Type}

/-- One piece of code behind another. -/
protected def bind (p : Reporting σ δ ε α) (f : α → Reporting σ δ ε β) : Reporting σ δ ε β :=
  fun s =>
    match p s with
    | .error e => .error e
    | .ok (a, s₁, out₁) =>
      match f a s₁ with
      | .error e => .error e
      | .ok (b, s₂, out₂) => .ok (b, s₂, out₁ ++ out₂)

instance : Monad (Reporting σ δ ε) where
  pure a := fun s => .ok (a, s, [])
  bind := Reporting.bind

/-- The state. -/
def get : Reporting σ δ ε σ := fun s => .ok (s, s, [])

/-- A new state. -/
def modify (f : σ → σ) : Reporting σ δ ε Unit := fun s => .ok ((), f s, [])

/-- A report. -/
def report (d : δ) : Reporting σ δ ε Unit := fun s => .ok ((), s, [d])

/-- The end of the run. -/
def stop (e : ε) : Reporting σ δ ε α := fun _ => .error e

/-- A value, or the end of the run where there is none. -/
def orStop (e : ε) : Option α → Reporting σ δ ε α
  | some a => pure a
  | none => stop e

/-- A loop whose round says whether another one follows.  It stops with `e` when its fuel is
used up. -/
def loop (e : ε) (round : β → Reporting σ δ ε (β × Bool)) : ℕ → β → Reporting σ δ ε β
  | 0, _ => stop e
  | n + 1, b => do
    let (b, again) ← round b
    if again then loop e round n b else pure b

/-- A run that ends and reports nothing. -/
def Quiet (p : Reporting σ δ ε α) (s : σ) (a : α) (s' : σ) : Prop := p s = .ok (a, s', [])

variable {s s' : σ} {a : α} {b : β}

@[simp] theorem quiet_pure {c : α} : Quiet (pure c : Reporting σ δ ε α) s a s' ↔ c = a ∧ s = s' := by
  constructor
  · rintro h
    cases h
    exact ⟨rfl, rfl⟩
  · rintro ⟨rfl, rfl⟩
    rfl

/-- **A run is quiet when its parts are.** -/
@[simp] theorem quiet_bind {p : Reporting σ δ ε α} {f : α → Reporting σ δ ε β} :
    Quiet (p >>= f) s b s' ↔ ∃ a s₁, Quiet p s a s₁ ∧ Quiet (f a) s₁ b s' := by
  have hdef : (p >>= f) s = Reporting.bind p f s := rfl
  unfold Quiet
  rw [hdef, Reporting.bind]
  constructor
  · intro h
    split at h
    · cases h
    rename_i a s₁ out₁ hp
    split at h
    · cases h
    rename_i c s₂ out₂ hf
    cases out₁ with
    | cons d out₁ => cases h
    | nil =>
      cases h
      exact ⟨a, s₁, hp, hf⟩
  · rintro ⟨a, s₁, hp, hf⟩
    rw [hp]
    dsimp only
    rw [hf]
    rfl

@[simp] theorem quiet_get {c : σ} : Quiet (get : Reporting σ δ ε σ) s c s' ↔ s = c ∧ s = s' := by
  constructor
  · rintro h
    cases h
    exact ⟨rfl, rfl⟩
  · rintro ⟨rfl, rfl⟩
    rfl

@[simp] theorem quiet_modify {f : σ → σ} {u : Unit} :
    Quiet (modify f : Reporting σ δ ε Unit) s u s' ↔ f s = s' := by
  constructor
  · rintro h
    cases h
    rfl
  · rintro rfl
    rfl

@[simp] theorem not_quiet_report {d : δ} {u : Unit} :
    ¬Quiet (report d : Reporting σ δ ε Unit) s u s' := by
  rintro h
  cases h

@[simp] theorem not_quiet_stop {e : ε} : ¬Quiet (stop e : Reporting σ δ ε α) s a s' := by
  rintro h
  cases h

@[simp] theorem quiet_orStop {e : ε} {o : Option α} :
    Quiet (orStop e o : Reporting σ δ ε α) s a s' ↔ o = some a ∧ s = s' := by
  cases o with
  | none => simp [orStop]
  | some c => simp [orStop]

theorem quiet_ite {c : Prop} [Decidable c] {p q : Reporting σ δ ε α} :
    Quiet (if c then p else q) s a s' ↔ c ∧ Quiet p s a s' ∨ ¬c ∧ Quiet q s a s' := by
  split_ifs with h <;> simp [h]

/-- **The rule for loops**: what a quiet round preserves as long as another one follows, and
what the last round makes of it. -/
theorem Quiet.loop {e : ε} {round : β → Reporting σ δ ε (β × Bool)} {holds final : β → σ → Prop}
    (hround : ∀ b s b' again s', holds b s → Quiet (round b) s (b', again) s' →
      if again then holds b' s' else final b' s')
    {n : ℕ} {b b' : β} {s s' : σ} (h : holds b s)
    (hrun : Quiet (Reporting.loop e round n b) s b' s') : final b' s' := by
  induction n generalizing b s with
  | zero => exact absurd hrun not_quiet_stop
  | succ n ih =>
    rw [Reporting.loop, quiet_bind] at hrun
    obtain ⟨⟨b₁, again⟩, s₁, hone, hrest⟩ := hrun
    have hnext := hround _ _ _ _ _ h hone
    cases again with
    | false =>
      obtain ⟨rfl, rfl⟩ := quiet_pure.1 hrest
      exact hnext
    | true => exact ih hnext hrest

/-! ### Any run -/

/-- **Where a run leads**: to what `Q` says if it ends, and to what `stops` allows if it stops. -/
def Leads (stops : ε → Prop) (p : Reporting σ δ ε α) (s : σ) (Q : α → σ → Prop) : Prop :=
  match p s with
  | .error e => stops e
  | .ok (a, s', _) => Q a s'

namespace Leads

variable {stops : ε → Prop} {p : Reporting σ δ ε α} {Q Q' : α → σ → Prop}

theorem mono (h : Leads stops p s Q) (himp : ∀ a s', Q a s' → Q' a s') : Leads stops p s Q' := by
  unfold Leads at h ⊢
  split
  · rename_i hp
    rwa [hp] at h
  · rename_i hp
    rw [hp] at h
    exact himp _ _ h

theorem of_quiet (h : Quiet p s a s') (hQ : Q a s') : Leads stops p s Q := by
  rw [Leads, h]
  exact hQ

/-- **One piece of code behind another.** -/
theorem bind {f : α → Reporting σ δ ε β} {Q : β → σ → Prop}
    (h : Leads stops p s fun a s' => Leads stops (f a) s' Q) : Leads stops (p >>= f) s Q := by
  have hdef : (p >>= f) s = Reporting.bind p f s := rfl
  unfold Leads at h ⊢
  rw [hdef, Reporting.bind]
  cases hp : p s with
  | error e =>
    rw [hp] at h
    exact h
  | ok r =>
    obtain ⟨a, s₁, out₁⟩ := r
    rw [hp] at h
    dsimp only at h ⊢
    cases hf : f a s₁ with
    | error e =>
      rw [hf] at h
      exact h
    | ok r' =>
      rw [hf] at h
      exact h

/-- **The rule for loops that end**: a round that is followed by another one makes `size` smaller,
and there is fuel for all of them. -/
theorem loop {e : ε} {round : β → Reporting σ δ ε (β × Bool)} {holds : σ → Prop} {size : σ → ℕ}
    (hround : ∀ b s, holds s → Leads stops (round b) s fun r s' =>
      holds s' ∧ size s' + r.2.toNat ≤ size s)
    {n : ℕ} (b : β) (hs : holds s) (hfuel : size s < n) :
    Leads stops (Reporting.loop e round n b) s fun _ s' => holds s' ∧ size s' ≤ size s := by
  induction n generalizing b s with
  | zero => exact absurd hfuel (Nat.not_lt_zero _)
  | succ n ih =>
    refine bind ((hround b s hs).mono ?_)
    rintro ⟨b', again⟩ s₁ ⟨hs₁, hsize⟩
    cases again with
    | false => exact ⟨hs₁, hsize⟩
    | true =>
      have hless : size s₁ + 1 ≤ size s := hsize
      refine (ih b' hs₁ (by omega)).mono ?_
      rintro _ s₂ ⟨hs₂, hsize₂⟩
      exact ⟨hs₂, by omega⟩

/-- A loop whose first round makes `size` smaller, whether another one follows or not. -/
theorem loop_first {e : ε} {round : β → Reporting σ δ ε (β × Bool)} {holds : σ → Prop}
    {size : σ → ℕ}
    (hround : ∀ b s, holds s → Leads stops (round b) s fun r s' =>
      holds s' ∧ size s' + r.2.toNat ≤ size s)
    {n : ℕ} {b : β} {s : σ}
    (hfirst : Leads stops (round b) s fun _ s' => holds s' ∧ size s' + 1 ≤ size s)
    (hfuel : size s < n) :
    Leads stops (Reporting.loop e round n b) s fun _ s' => holds s' ∧ size s' + 1 ≤ size s := by
  cases n with
  | zero => exact absurd hfuel (Nat.not_lt_zero _)
  | succ n =>
    refine bind (hfirst.mono ?_)
    rintro ⟨b', again⟩ s₁ ⟨hs₁, hsize⟩
    cases again with
    | false => exact ⟨hs₁, hsize⟩
    | true =>
      refine (loop hround b' hs₁ (by omega)).mono ?_
      rintro _ s₂ ⟨hs₂, hsize₂⟩
      exact ⟨hs₂, by omega⟩

end Leads

/-! ### Runs that report what is allowed -/

/-- **A run that ends as `Q` says**, and reports nothing but what is allowed. -/
def Gives (allowed : δ → Prop) (p : Reporting σ δ ε α) (s : σ) (Q : α → σ → Prop) : Prop :=
  ∃ a s' out, p s = .ok (a, s', out) ∧ (∀ d ∈ out, allowed d) ∧ Q a s'

namespace Gives

variable {allowed : δ → Prop} {p : Reporting σ δ ε α} {Q Q' : α → σ → Prop}

theorem mono (h : Gives allowed p s Q) (himp : ∀ a s', Q a s' → Q' a s') :
    Gives allowed p s Q' := by
  obtain ⟨a, s', out, hp, hout, hQ⟩ := h
  exact ⟨a, s', out, hp, hout, himp a s' hQ⟩

theorem of_quiet (h : Quiet p s a s') (hQ : Q a s') : Gives allowed p s Q :=
  ⟨a, s', [], h, by simp, hQ⟩

theorem pure (hQ : Q a s) : Gives allowed (pure a : Reporting σ δ ε α) s Q :=
  of_quiet (quiet_pure.2 ⟨rfl, rfl⟩) hQ

/-- **One piece of code behind another.** -/
theorem bind {f : α → Reporting σ δ ε β} {Q : β → σ → Prop}
    (h : Gives allowed p s fun a s' => Gives allowed (f a) s' Q) :
    Gives allowed (p >>= f) s Q := by
  obtain ⟨a, s₁, out₁, hp, hout₁, b, s₂, out₂, hf, hout₂, hQ⟩ := h
  have hdef : (p >>= f) s = Reporting.bind p f s := rfl
  refine ⟨b, s₂, out₁ ++ out₂, ?_, fun d hd => ?_, hQ⟩
  · rw [hdef, Reporting.bind, hp]
    dsimp only
    rw [hf]
  · rcases List.mem_append.1 hd with hd | hd
    · exact hout₁ d hd
    · exact hout₂ d hd

theorem report {d : δ} {Q : Unit → σ → Prop} (hd : allowed d) (hQ : Q () s) :
    Gives allowed (Reporting.report d : Reporting σ δ ε Unit) s Q :=
  ⟨(), s, [d], rfl, by simpa using hd, hQ⟩

end Gives

end Reporting

end Lib
end Canforge
