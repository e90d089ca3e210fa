/-
# The rounds of a loop

A loop of code that reports is some rounds, each of which another one follows, and a last one
(`Rounds.of_loop`).  On a course whose rounds advance every such sequence is what the loop does,
with fuel for the size of the state (`Rounds.loop`), so a loop can be cut in two: at a state between
the rounds of a first run another run may begin (`Rounds.trans`).
-/

import Canforge.Lib.Course
import Canforge.Lib.Lockstep

namespace Canforge
namespace Lib

open Reporting

variable {σ δ ε β μ : Type}

/-- Rounds of a loop, each of which another one follows. -/
inductive Rounds (round : β → Reporting σ δ ε (β × Bool)) : β → σ → List δ → β → σ → Prop
  | stay (b : β) (s : σ) : Rounds round b s [] b s
  | go {b b₁ b₂ : β} {s s₁ s₂ : σ} {out out' : List δ} : round b s = .ok ((b₁, true), s₁, out) →
    Rounds round b₁ s₁ out' b₂ s₂ → Rounds round b s (out ++ out') b₂ s₂

namespace Rounds

variable {round round' : β → Reporting σ δ ε (β × Bool)} {b b₁ b₂ : β} {s s₁ s₂ : σ}
  {out out' : List δ}

theorem trans (h : Rounds round b s out b₁ s₁) (h' : Rounds round b₁ s₁ out' b₂ s₂) :
    Rounds round b s (out ++ out') b₂ s₂ := by
  induction h with
  | stay => exact h'
  | go hone _ ih =>
    rw [List.append_assoc]
    exact .go hone (ih h')

/-- A loop that has come to its end has had some rounds, and the last one. -/
theorem of_loop {e : ε} {n : ℕ} (h : Reporting.loop e round n b s = .ok (b₂, s₂, out)) :
    ∃ b₁ s₁ out₁ out₂, Rounds round b s out₁ b₁ s₁ ∧
      round b₁ s₁ = .ok ((b₂, false), s₂, out₂) ∧ out = out₁ ++ out₂ := by
  induction n generalizing b s out with
  | zero => cases h
  | succ n ih =>
    obtain ⟨⟨b₁, again⟩, s₁, out₁, out₂, hone, hrest, rfl⟩ := bind_ok h
    cases again with
    | false =>
      cases hrest
      exact ⟨b, s, [], out₁, .stay b s, hone, List.append_nil _⟩
    | true =>
      obtain ⟨b₂, s₂, out₃, out₄, hrounds, hlast, rfl⟩ := ih hrest
      exact ⟨b₂, s₂, out₁ ++ out₃, out₄, .go hone hrounds, hlast, (List.append_assoc _ _ _).symm⟩

section

variable {c : Course σ δ ε}

/-- A round that another one follows. -/
theorem one (h : round b s = .ok ((b₁, true), s₁, out)) (hround : c.Advancing round)
    (hsound : c.sound s) : c.sound s₁ ∧ c.way s out s₁ ∧ c.size s₁ < c.size s := by
  have hgoes := hround b s hsound
  rwa [h] at hgoes

/-- The rounds keep to the course. -/
theorem way (h : Rounds round b s out b₁ s₁) (hround : c.Advancing round) (hsound : c.sound s) :
    c.sound s₁ ∧ c.way s out s₁ ∧ c.size s₁ ≤ c.size s := by
  induction h with
  | stay b s => exact ⟨hsound, c.still s, Nat.le_refl _⟩
  | go hone _ ih =>
    obtain ⟨hsound₁, hway₁, hsize₁⟩ := one hone hround hsound
    obtain ⟨hsound₂, hway₂, hsize₂⟩ := ih hsound₁
    exact ⟨hsound₂, c.join hway₁ hway₂, Nat.le_trans hsize₂ (Nat.le_of_lt hsize₁)⟩

/-- **The loop does the rounds**, with fuel for the size of the state. -/
theorem loop {e : ε} {n : ℕ} (h : Rounds round b s out b₁ s₁)
    (hlast : round b₁ s₁ = .ok ((b₂, false), s₂, out')) (hround : c.Advancing round)
    (hsound : c.sound s) (hfuel : c.size s < n) :
    Reporting.loop e round n b s = .ok (b₂, s₂, out ++ out') := by
  induction h generalizing n with
  | stay b s =>
    obtain ⟨n, rfl⟩ : ∃ m, n = m + 1 := ⟨n - 1, by omega⟩
    have hdone : (pure b₂ : Reporting σ δ ε β) s₂ = .ok (b₂, s₂, []) := rfl
    have hloop := ok_bind (f := fun r => if r.2 then Reporting.loop e round n r.1 else pure r.1)
      hlast hdone
    rwa [List.append_nil] at hloop
  | go hone _ ih =>
    obtain ⟨n, rfl⟩ : ∃ m, n = m + 1 := ⟨n - 1, by omega⟩
    obtain ⟨hsound₁, -, hsize₁⟩ := one hone hround hsound
    have hrest := ih hlast hsound₁ (n := n) (by omega)
    rw [List.append_assoc]
    exact ok_bind (f := fun r => if r.2 then Reporting.loop e round n r.1 else pure r.1) hone hrest

end

/-- A loop that comes to a grave round. -/
theorem grave {grave : δ → Prop} {e : ε} {n : ℕ} (h : Rounds round b s out b₁ s₁)
    (hgrave : Grave grave (round b₁) s₁) : Grave grave (Reporting.loop e round n b) s := by
  induction h generalizing n with
  | stay b s =>
    cases n with
    | zero => rintro a t out hrun; cases hrun
    | succ n => exact hgrave.bind
  | go hone _ ih =>
    cases n with
    | zero => rintro a t out hrun; cases hrun
    | succ n =>
      intro a t out hrun
      obtain ⟨r, u, out₁, out₂, hfirst, hrest, rfl⟩ := bind_ok hrun
      have hsame := hone.symm.trans hfirst
      cases hsame
      obtain ⟨d, hd, hd'⟩ := ih hgrave a t out₂ hrest
      exact ⟨d, List.mem_append_right _ hd, hd'⟩

/-- Of two sequences of rounds from one state the one is the beginning of the other. -/
theorem linear (h : Rounds round b s out b₁ s₁) (h' : Rounds round b s out' b₂ s₂) :
    (∃ more, Rounds round b₁ s₁ more b₂ s₂ ∧ out' = out ++ more) ∨
      ∃ more, Rounds round b₂ s₂ more b₁ s₁ ∧ out = out' ++ more := by
  induction h generalizing out' b₂ s₂ with
  | stay => exact .inl ⟨out', h', rfl⟩
  | go hone hrest ih =>
    cases h' with
    | stay => exact .inr ⟨_, .go hone hrest, rfl⟩
    | go hone' hrest' =>
      have hsame := hone.symm.trans hone'
      cases hsame
      refine (ih hrest').imp ?_ ?_
      · rintro ⟨more, hmore, rfl⟩
        exact ⟨more, hmore, (List.append_assoc _ _ _).symm⟩
      · rintro ⟨more, hmore, rfl⟩
        exact ⟨more, hmore, (List.append_assoc _ _ _).symm⟩

/-- **Rounds in step**: those of the second loop follow those of the first one.  What is asked of
a round is asked on the way, where `seen` is kept and the last state is still to come. -/
theorem tracks {c : Pairing σ δ μ} (excused seen : β → σ → Prop) {s' : σ}
    (h : Rounds round b s out b₁ s₁) (hclean : ∀ d ∈ out, ¬c.grave d) (hsame : c.same s s')
    (hseen : seen b s)
    (hkeeps : ∀ b t b₁ u out, seen b t → round b t = .ok ((b₁, true), u, out) → seen b₁ u)
    (hround : ∀ b t t' b₂ u out more, seen b t → c.same t t' →
      round b t = .ok ((b₂, true), u, out) → Rounds round b₂ u more b₁ s₁ →
        Tracks c (fun r u => excused r.1 u) always (round b) (round' b) t t')
    (hstays : ∀ b t b₁ u out, seen b t → excused b t → round b t = .ok ((b₁, true), u, out) →
      excused b₁ u) :
    excused b₁ s₁ ∨ ∃ s₁' out', Rounds round' b s' out' b₁ s₁' ∧
      out'.map c.said = out.map c.said ∧ c.same s₁ s₁' := by
  -- what is excused stays so
  have hexcused : ∀ {b b₁ s s₁ out}, Rounds round b s out b₁ s₁ → seen b s → excused b s →
      excused b₁ s₁ := by
    intro b b₁ s s₁ out h
    induction h with
    | stay => exact fun _ hex => hex
    | go hone _ ih =>
      intro hseen hex
      exact ih (hkeeps _ _ _ _ _ hseen hone) (hstays _ _ _ _ _ hseen hex hone)
  induction h generalizing s' with
  | stay b s => exact .inr ⟨s', [], .stay b s', rfl, hsame⟩
  | go hone hrest ih =>
    obtain ⟨hclean₁, hclean₂⟩ := List.forall_mem_append.1 hclean
    have hseen₁ := hkeeps _ _ _ _ _ hseen hone
    rcases hround _ _ _ _ _ _ _ hseen hsame hone hrest _ _ _ hone hclean₁ with
      hex | ⟨-, t', out₁, hone', hsaid₁, hsame₁⟩
    · exact .inl (hexcused hrest hseen₁ hex)
    · refine (ih hclean₂ hsame₁ hseen₁ hround).imp_right ?_
      rintro ⟨s₁', out₂, hrest', hsaid₂, hsame₂⟩
      refine ⟨s₁', out₁ ++ out₂, .go hone' hrest', ?_, hsame₂⟩
      rw [List.map_append, List.map_append, hsaid₁, hsaid₂]

end Rounds

end Lib
end Canforge
