/-
# Signal sources and their history

A random walk advances as it is sampled, and goes back to its start when it is asked for an
earlier time.  At any moment it is its own reset after as many strides as its index says
(`RandomWalk.Reached`), so what it gives at a time is what a new walk gives there.  `Reached` says
so of every walk of a tree; samples and resets keep it, so a source is a function of time alone
(`SourceExpr.sample_history`).
-/

import Canforge.Sim.Restart

namespace Canforge
namespace Sim

open Canforge.Core

variable {G R : Type} [Scalar R] [Engine G R]

namespace RandomWalk

variable {w : RandomWalk G R}

theorem advance_add (n k : ℕ) (w : RandomWalk G R) : advance (n + k) w = advance k (advance n w) := by
  induction n generalizing w with
  | zero => rw [Nat.zero_add, advance]
  | succ n ih =>
    rw [Nat.succ_add, advance, advance]
    exact ih _

theorem advance_index (n : ℕ) (w : RandomWalk G R) : (advance n w).index = w.index + n := by
  induction n generalizing w with
  | zero => rfl
  | succ n ih =>
    rw [advance]
    refine (ih _).trans ?_
    change w.index + 1 + n = _
    omega

/-- The walk is where a new one gets after as many strides. -/
def Reached (w : RandomWalk G R) : Prop := advance w.index w.reset = w

theorem reached_reset (w : RandomWalk G R) : w.reset.Reached := rfl

/-- What a new walk gives at a time. -/
theorem sample_reset_eq (w : RandomWalk G R) (t : ℕ) :
    w.reset.sample t = (let w := advance (t / w.interval) w.reset; (w.value, w)) := by
  have hzero : ¬t / w.reset.interval < w.reset.index := Nat.not_lt_zero _
  rw [sample, if_neg hzero]
  rfl

/-- The walk a sample leads to, whatever came before. -/
theorem Reached.sample_eq (h : w.Reached) (t : ℕ) : w.sample t = w.reset.sample t := by
  rw [sample_reset_eq, sample]
  by_cases hback : t / w.interval < w.index
  · rw [if_pos hback]
    rfl
  · have hstrides : advance (t / w.interval - w.index) w = advance (t / w.interval) w.reset := by
      have hindex : w.index + (t / w.interval - w.index) = t / w.interval := by omega
      calc advance (t / w.interval - w.index) w
          = advance (t / w.interval - w.index) (advance w.index w.reset) := by rw [h]
        _ = advance (t / w.interval) w.reset := by rw [← advance_add, hindex]
    rw [if_neg hback, hstrides]

theorem Reached.sample (h : w.Reached) (t : ℕ) : (w.sample t).2.Reached := by
  have hafter : (w.sample t).2 = advance (t / w.interval) w.reset := by
    rw [h.sample_eq, sample_reset_eq]
  rw [hafter, Reached, advance_index, advance_reset]
  exact congrArg (advance · w.reset) (Nat.zero_add _)

end RandomWalk

namespace SignalSource

mutual

/-- Every walk of the tree is where a new one gets. -/
def Reached : SignalSource G R → Prop
  | .randomWalk walk => walk.Reached
  | .combine parts _ => ReachedAll parts
  | .affine inner _ _ => Reached inner
  | .clamped inner _ _ => Reached inner
  | .constant _ => True
  | .ramp .. => True
  | .sine .. => True
  | .square .. => True
  | .keyframes .. => True

/-- Every walk of some trees is where a new one gets. -/
def ReachedAll : List (SignalSource G R) → Prop
  | [] => True
  | part :: parts => Reached part ∧ ReachedAll parts

end

mutual

theorem reached_reset : ∀ s : SignalSource G R, s.reset.Reached
  | .constant _ => trivial
  | .ramp .. => trivial
  | .sine .. => trivial
  | .square .. => trivial
  | .randomWalk walk => walk.reached_reset
  | .keyframes .. => trivial
  | .combine parts _ => reachedAll_reset parts
  | .affine inner _ _ => reached_reset inner
  | .clamped inner _ _ => reached_reset inner

theorem reachedAll_reset : ∀ parts : List (SignalSource G R), ReachedAll (resetAll parts)
  | [] => trivial
  | part :: parts => ⟨reached_reset part, reachedAll_reset parts⟩

end

mutual

/-- **A sample is that of a new source**, and leads to where a sample of a new source leads. -/
theorem Reached.sample_eq : ∀ {s : SignalSource G R}, s.Reached → ∀ t, s.sample t = s.reset.sample t
  | .constant _, _, _ => rfl
  | .ramp .., _, _ => rfl
  | .sine .., _, _ => rfl
  | .square .., _, _ => rfl
  | .randomWalk walk, h, t => by
    have hwalk : walk.Reached := h
    simp only [SignalSource.sample, reset, hwalk.sample_eq t]
  | .keyframes .., _, _ => rfl
  | .combine parts multiply, h, t => by
    have hparts : ReachedAll parts := h
    simp only [SignalSource.sample, reset, hparts.sampleAll_eq]
  | .affine inner _ _, h, t => by
    simp only [SignalSource.sample, reset, Reached.sample_eq (s := inner) h t]
  | .clamped inner _ _, h, t => by
    simp only [SignalSource.sample, reset, Reached.sample_eq (s := inner) h t]

theorem ReachedAll.sampleAll_eq : ∀ {parts : List (SignalSource G R)}, ReachedAll parts →
    ∀ (multiply : Bool) (acc : R) (t : ℕ),
      sampleAll multiply acc parts t = sampleAll multiply acc (resetAll parts) t
  | [], _, _, _, _ => rfl
  | part :: parts, h, multiply, acc, t => by
    simp only [sampleAll, resetAll, Reached.sample_eq h.1 t, ReachedAll.sampleAll_eq h.2]

end

mutual

theorem Reached.sample : ∀ {s : SignalSource G R}, s.Reached → ∀ t, (s.sample t).2.Reached
  | .constant _, _, _ => trivial
  | .ramp .., _, _ => trivial
  | .sine .., _, _ => trivial
  | .square .., _, _ => trivial
  | .randomWalk walk, h, t => RandomWalk.Reached.sample (w := walk) h t
  | .keyframes .., _, _ => trivial
  | .combine parts multiply, h, t => by
    have hparts : ReachedAll parts := h
    exact hparts.sampleAll multiply _ t
  | .affine inner _ _, h, t => Reached.sample (s := inner) h t
  | .clamped inner _ _, h, t => Reached.sample (s := inner) h t

theorem ReachedAll.sampleAll : ∀ {parts : List (SignalSource G R)}, ReachedAll parts →
    ∀ (multiply : Bool) (acc : R) (t : ℕ), ReachedAll (sampleAll multiply acc parts t).2
  | [], _, _, _, _ => trivial
  | _ :: _, h, multiply, _, t => ⟨Reached.sample h.1 t, ReachedAll.sampleAll h.2 multiply _ t⟩

end

end SignalSource

/-! ### Histories -/

/-- A call of a source. -/
inductive SourceCall
  | sample (t : ℕ)
  | reset

/-- The source after a call. -/
def SourceCall.after (s : SignalSource G R) : SourceCall → SignalSource G R
  | .sample t => (s.sample t).2
  | .reset => s.reset

/-- The source after some calls. -/
def afterCalls (s : SignalSource G R) (calls : List SourceCall) : SignalSource G R :=
  calls.foldl SourceCall.after s

theorem SourceCall.reached {s : SignalSource G R} (h : s.Reached) (call : SourceCall) :
    (call.after s).Reached := by
  cases call with
  | sample t => exact h.sample t
  | reset => exact s.reached_reset

theorem SourceCall.reset_after (s : SignalSource G R) (hs : s.reset.reset = s.reset)
    (call : SourceCall) : (call.after s).reset = s.reset := by
  cases call with
  | sample t => exact s.sample_reset t
  | reset => exact hs

namespace SignalSource

section

omit [Scalar R]

mutual

theorem reset_reset : ∀ s : SignalSource G R, s.reset.reset = s.reset
  | .constant _ => rfl
  | .ramp .. => rfl
  | .sine .. => rfl
  | .square .. => rfl
  | .randomWalk _ => rfl
  | .keyframes .. => rfl
  | .combine parts _ => congrArg (SignalSource.combine · _) (resetAll_resetAll parts)
  | .affine inner _ _ => congrArg (SignalSource.affine · _ _) (reset_reset inner)
  | .clamped inner _ _ => congrArg (SignalSource.clamped · _ _) (reset_reset inner)

theorem resetAll_resetAll : ∀ parts : List (SignalSource G R),
    resetAll (resetAll parts) = resetAll parts
  | [] => rfl
  | part :: parts => congrArg₂ List.cons (reset_reset part) (resetAll_resetAll parts)

end

end

/-- **What a source gives is what its reset gives**, after any calls. -/
theorem Reached.sample_afterCalls {s : SignalSource G R} (h : s.Reached) (calls : List SourceCall)
    (t : ℕ) : (afterCalls s calls).sample t = s.reset.sample t := by
  induction calls generalizing s with
  | nil => exact h.sample_eq t
  | cons call calls ih =>
    have hnext := ih (call.reached h)
    rw [call.reset_after s s.reset_reset] at hnext
    exact hnext

end SignalSource

/-! ### Trees -/

/-- A tree of the generators and combinators of the library. -/
inductive SourceExpr (R : Type)
  | constant (value : R)
  | ramp (start stop : R) (overNs : ℕ) (mode : RampMode)
  | sine (amplitude hz offset phaseDegrees : R)
  | square (low high : R) (periodNs : ℕ) (duty : R)
  | randomWalk (start stride low high : R) (seed intervalNs : ℕ)
  | keyframes (frames : List (Keyframe R)) (interpolate : Bool)
  | sum (parts : List (SourceExpr R))
  | product (parts : List (SourceExpr R))
  | scale (inner : SourceExpr R) (factor offset : R)
  | clampTo (inner : SourceExpr R) (low high : R)

namespace SourceExpr

mutual

/-- The source the library builds. -/
def build : SourceExpr R → SignalSource G R
  | .constant value => .constant value
  | .ramp start stop overNs mode => SignalSource.makeRamp start stop overNs mode
  | .sine amplitude hz offset phaseDegrees =>
    SignalSource.makeSine amplitude hz offset phaseDegrees
  | .square low high periodNs duty => SignalSource.makeSquare low high periodNs duty
  | .randomWalk start stride low high seed intervalNs =>
    SignalSource.makeRandomWalk start stride low high seed intervalNs
  | .keyframes frames interpolate => SignalSource.makeKeyframes frames interpolate
  | .sum parts => SignalSource.sum (buildAll parts)
  | .product parts => SignalSource.product (buildAll parts)
  | .scale inner factor offset => SignalSource.scale (build inner) factor offset
  | .clampTo inner low high => SignalSource.clampTo (build inner) low high

/-- The sources of the parts. -/
def buildAll : List (SourceExpr R) → List (SignalSource G R)
  | [] => []
  | part :: parts => build part :: buildAll parts

end

mutual

theorem reached_build : ∀ e : SourceExpr R, (build (G := G) e).Reached
  | .constant _ => trivial
  | .ramp .. => trivial
  | .sine .. => trivial
  | .square .. => trivial
  | .randomWalk .. => rfl
  | .keyframes .. => trivial
  | .sum parts => reached_buildAll parts
  | .product parts => reached_buildAll parts
  | .scale inner _ _ => reached_build inner
  | .clampTo inner _ _ => reached_build inner

theorem reached_buildAll : ∀ parts : List (SourceExpr R),
    SignalSource.ReachedAll (buildAll (G := G) parts)
  | [] => trivial
  | part :: parts => ⟨reached_build part, reached_buildAll parts⟩

end

/-- **A source depends on time alone**: after any two histories it gives the same. -/
theorem sample_history (e : SourceExpr R) (calls others : List SourceCall) (t : ℕ) :
    ((afterCalls (build (G := G) e) calls).sample t).1 =
      ((afterCalls (build (G := G) e) others).sample t).1 := by
  have h := reached_build (G := G) e
  rw [h.sample_afterCalls calls t, h.sample_afterCalls others t]

end SourceExpr

end Sim
end Canforge
