/-
# Two runs in step

Two pieces of code that report (`Lib.Reporting`) are run from states that a `Pairing` relates.
`Tracks` says that the second one does what the first one does: where the first ends and reports
nothing grave, so does the second, with the same result, related states and reports that say the
same.  The first run may end in what is excused, as long as what follows cannot make it good again
(`Tracks.bind`, `Tracks.loop`).
-/

import Canforge.Lib.Reporting

namespace Canforge
namespace Lib

/-- What two runs have in common: related states, and what a report says. -/
structure Pairing (σ δ μ : Type) where
  same : σ → σ → Prop
  grave : δ → Prop
  said : δ → μ

namespace Reporting

variable {σ δ ε α β μ : Type}

/-- Every run that ends reports something grave. -/
def Grave (grave : δ → Prop) (p : Reporting σ δ ε α) (s : σ) : Prop :=
  ∀ a t out, p s = .ok (a, t, out) → ∃ d ∈ out, grave d

/-- Every run that ends gives such a result. -/
def Returns (p : Reporting σ δ ε α) (P : α → Prop) : Prop :=
  ∀ s a t out, p s = .ok (a, t, out) → P a

section

variable {p : Reporting σ δ ε α} {f : α → Reporting σ δ ε β} {s : σ} {b : β} {t : σ} {out : List δ}

/-- A run of one piece of code behind another. -/
theorem bind_ok (h : (p >>= f) s = .ok (b, t, out)) : ∃ a s₁ out₁ out₂,
    p s = .ok (a, s₁, out₁) ∧ f a s₁ = .ok (b, t, out₂) ∧ out = out₁ ++ out₂ := by
  have hdef : (p >>= f) s = Reporting.bind p f s := rfl
  rw [hdef, Reporting.bind] at h
  cases hp : p s with
  | error e =>
    rw [hp] at h
    cases h
  | ok r =>
    obtain ⟨a, s₁, out₁⟩ := r
    rw [hp] at h
    dsimp only at h
    cases hf : f a s₁ with
    | error e =>
      rw [hf] at h
      cases h
    | ok r' =>
      obtain ⟨b', s₂, out₂⟩ := r'
      rw [hf] at h
      cases h
      exact ⟨a, s₁, out₁, out₂, rfl, hf, rfl⟩

theorem ok_bind {a : α} {s₁ : σ} {out₁ out₂ : List δ} (hp : p s = .ok (a, s₁, out₁))
    (hf : f a s₁ = .ok (b, t, out₂)) : (p >>= f) s = .ok (b, t, out₁ ++ out₂) := by
  have hdef : (p >>= f) s = Reporting.bind p f s := rfl
  rw [hdef, Reporting.bind, hp]
  dsimp only
  rw [hf]

variable {grave : δ → Prop}

theorem Grave.bind (h : Grave grave p s) : Grave grave (p >>= f) s := by
  intro b t out hrun
  obtain ⟨a, s₁, out₁, out₂, hp, -, rfl⟩ := bind_ok hrun
  obtain ⟨d, hd, hgrave⟩ := h a s₁ out₁ hp
  exact ⟨d, List.mem_append_left _ hd, hgrave⟩

/-- What follows quiet code. -/
theorem Grave.of_quiet {a : α} {s₁ : σ} (h : Quiet p s a s₁) (hf : Grave grave (f a) s₁) :
    Grave grave (p >>= f) s := by
  intro b t out hrun
  obtain ⟨a', s₂, out₁, out₂, hp, hnext, rfl⟩ := bind_ok hrun
  have hsame := h.symm.trans hp
  cases hsame
  exact hf b t out₂ hnext

theorem returns_pure {P : α → Prop} {a : α} (h : P a) :
    Returns (pure a : Reporting σ δ ε α) P := by
  rintro s a' t out hrun
  cases hrun
  exact h

theorem Returns.bind {P : β → Prop} (h : ∀ a, Returns (f a) P) : Returns (p >>= f) P := by
  intro s b t out hrun
  obtain ⟨a, s₁, -, out₂, -, hf, -⟩ := bind_ok hrun
  exact h a s₁ b t out₂ hf

theorem Returns.bind_of {P : α → Prop} {Q : β → Prop} (hp : Returns p P)
    (h : ∀ a, P a → Returns (f a) Q) : Returns (p >>= f) Q := by
  intro s b t out hrun
  obtain ⟨a, s₁, out₁, out₂, hone, hf, -⟩ := bind_ok hrun
  exact h a (hp s a s₁ out₁ hone) s₁ b t out₂ hf

theorem Returns.ite {c : Prop} [Decidable c] {q : Reporting σ δ ε α} {P : α → Prop}
    (hp : Returns p P) (hq : Returns q P) : Returns (if c then p else q) P := by
  split_ifs
  · exact hp
  · exact hq

end

/-- **The second run does what the first one does**, unless the first ends in what is excused. -/
def Tracks (c : Pairing σ δ μ) (excused : α → σ → Prop) (good : α → Prop)
    (p p' : Reporting σ δ ε α) (s s' : σ) : Prop :=
  ∀ a t out, p s = .ok (a, t, out) → (∀ d ∈ out, ¬c.grave d) → excused a t ∨
    good a ∧ ∃ t' out', p' s' = .ok (a, t', out') ∧ out'.map c.said = out.map c.said ∧ c.same t t'

/-- Nothing is excused. -/
def never {α σ : Type} (_ : α) (_ : σ) : Prop := False

/-- Any result is good. -/
def always {α : Type} (_ : α) : Prop := True

namespace Tracks

variable {c : Pairing σ δ μ} {excused : α → σ → Prop} {good : α → Prop}
  {p p' : Reporting σ δ ε α} {s s' : σ}

theorem of_grave (h : Grave c.grave p s) : Tracks c excused good p p' s s' := by
  intro a t out hrun hclean
  obtain ⟨d, hd, hgrave⟩ := h a t out hrun
  exact absurd hgrave (hclean d hd)

theorem pure {a : α} (hgood : good a) (h : c.same s s') :
    Tracks c excused good (pure a : Reporting σ δ ε α) (Pure.pure a) s s' := by
  rintro b t out hrun -
  cases hrun
  exact .inr ⟨hgood, s', [], rfl, rfl, h⟩

theorem excuse (h : Tracks c never good p p' s s') : Tracks c excused good p p' s s' :=
  fun a t out hrun hclean => .inr ((h a t out hrun hclean).resolve_left id)

theorem any (h : Tracks c excused good p p' s s') : Tracks c excused always p p' s s' :=
  fun a t out hrun hclean => (h a t out hrun hclean).imp_right fun hok => ⟨trivial, hok.2⟩

theorem ite {q q' : Reporting σ δ ε α} {b b' : Prop} [Decidable b] [Decidable b'] (hiff : b' ↔ b)
    (hp : b → Tracks c excused good p p' s s') (hq : ¬b → Tracks c excused good q q' s s') :
    Tracks c excused good (if b then p else q) (if b' then p' else q') s s' := by
  by_cases hb : b
  · rw [if_pos hb, if_pos (hiff.2 hb)]
    exact hp hb
  · rw [if_neg hb, if_neg fun h => hb (hiff.1 h)]
    exact hq hb

variable {f f' : α → Reporting σ δ ε β} {excused' : β → σ → Prop} {good' : β → Prop}

/-- **One piece of code behind another**; what is excused stays so. -/
theorem bind_run (h : Tracks c excused good p p' s s')
    (hf : ∀ a t t' out, good a → p s = .ok (a, t, out) → c.same t t' →
      Tracks c excused' good' (f a) (f' a) t t')
    (hstays : ∀ a t b u out, excused a t → f a t = .ok (b, u, out) → excused' b u) :
    Tracks c excused' good' (p >>= f) (p' >>= f') s s' := by
  intro b u out hrun hclean
  obtain ⟨a, t, out₁, out₂, hp, hnext, rfl⟩ := bind_ok hrun
  obtain ⟨hclean₁, hclean₂⟩ := List.forall_mem_append.1 hclean
  rcases h a t out₁ hp hclean₁ with hexcused | ⟨hgood, t', out₁', hp', hsaid₁, hsame⟩
  · exact .inl (hstays a t b u out₂ hexcused hnext)
  rcases hf a t t' out₁ hgood hp hsame b u out₂ hnext hclean₂ with
    hexcused | ⟨hgood', u', out₂', hnext', hsaid₂, hsame'⟩
  · exact .inl hexcused
  · refine .inr ⟨hgood', u', out₁' ++ out₂', ok_bind hp' hnext', ?_, hsame'⟩
    rw [List.map_append, List.map_append, hsaid₁, hsaid₂]

theorem bind_of (h : Tracks c excused good p p' s s')
    (hf : ∀ a t t', good a → c.same t t' → Tracks c excused' good' (f a) (f' a) t t')
    (hstays : ∀ a t b u out, excused a t → f a t = .ok (b, u, out) → excused' b u) :
    Tracks c excused' good' (p >>= f) (p' >>= f') s s' :=
  h.bind_run (fun a t t' _ hgood _ => hf a t t' hgood) hstays

theorem bind (h : Tracks c never good p p' s s')
    (hf : ∀ a t t', good a → c.same t t' → Tracks c excused' good' (f a) (f' a) t t') :
    Tracks c excused' good' (p >>= f) (p' >>= f') s s' :=
  h.bind_of hf fun _ _ _ _ _ hnever => hnever.elim

/-- What follows quiet code, which may give two different results. -/
theorem of_quiet {γ γ' : Type} {q : Reporting σ δ ε γ} {q' : Reporting σ δ ε γ'}
    {g : γ → Reporting σ δ ε α} {g' : γ' → Reporting σ δ ε α} {a : γ} {a' : γ'} {t t' : σ}
    (h : Quiet q s a t) (h' : Quiet q' s' a' t') (hg : Tracks c excused good (g a) (g' a') t t') :
    Tracks c excused good (q >>= g) (q' >>= g') s s' := by
  intro b u out hrun hclean
  obtain ⟨a₁, t₁, out₁, out₂, hone, hrest, rfl⟩ := bind_ok hrun
  have hsame := h.symm.trans hone
  cases hsame
  refine (hg b u out₂ hrest hclean).imp_right ?_
  rintro ⟨hgood, u', out', hrest', hsaid, hsame⟩
  exact ⟨hgood, u', out', ok_bind h' hrest', hsaid, hsame⟩

/-- **The rule for loops.**  The second one may have more fuel. -/
theorem loop {e : ε} {round round' : β → Reporting σ δ ε (β × Bool)}
    (hround : ∀ b t t', c.same t t' →
      Tracks c (fun r u => excused' r.1 u) always (round b) (round' b) t t')
    (hstays : ∀ b t r u out, excused' b t → round b t = .ok (r, u, out) → excused' r.1 u)
    {n n' : ℕ} (hle : n ≤ n') (b : β) {s s' : σ} (h : c.same s s') :
    Tracks c excused' always (Reporting.loop e round n b) (Reporting.loop e round' n' b) s s' := by
  -- what is excused stays so to the end of the loop
  have hloop : ∀ n b t b' u out, excused' b t → Reporting.loop e round n b t = .ok (b', u, out) →
      excused' b' u := by
    intro n
    induction n with
    | zero => intro b t b' u out _ hrun; cases hrun
    | succ n ih =>
      intro b t b' u out hexcused hrun
      obtain ⟨⟨b₁, again⟩, t₁, out₁, out₂, hone, hrest, -⟩ := bind_ok hrun
      have hnext := hstays b t _ t₁ out₁ hexcused hone
      cases again with
      | false =>
        cases hrest
        exact hnext
      | true => exact ih _ _ _ _ _ hnext hrest
  induction n generalizing n' b s s' with
  | zero => intro a t out hrun; cases hrun
  | succ n ih =>
    obtain ⟨n', rfl⟩ : ∃ m, n' = m + 1 := ⟨n' - 1, by omega⟩
    refine bind_of (hround b s s' h) ?_ ?_
    · rintro ⟨b₁, again⟩ t t' - hsame
      cases again with
      | false =>
        have hdone : always b₁ := trivial
        exact pure hdone hsame
      | true => exact ih (Nat.le_of_succ_le_succ hle) b₁ hsame
    · rintro ⟨b₁, again⟩ t b' u out hexcused hrest
      cases again with
      | false =>
        cases hrest
        exact hexcused
      | true => exact hloop _ _ _ _ _ _ hexcused hrest

end Tracks

end Reporting

end Lib
end Canforge
