/-
# Scripts of requests

A server answers requests and has steps of its own in between.  `Server.serve` runs it
over a list of turns and collects the answers.  `Server.Triple P r A Q` is a Hoare triple
for one request: in a state with `P` the request `r` is answered, the answer meets `A`
and the state after it `Q`.  `Server.Script` chains triples whose conditions the steps of
the server's own keep, and `Script.serve` is the one induction: whatever such steps stand
between the requests, every answer is as the script says, and so is the last state.
-/

import Mathlib

namespace Canforge
namespace Lib

variable {σ ρ τ ι α : Type*}

/-- A request at some time, or a step of the server's own. -/
inductive Turn (ρ τ ι : Type*)
  | ask (request : ρ) (time : τ)
  | idle (step : ι)

/-- The requests of a list of turns. -/
def asked : List (Turn ρ τ ι) → List ρ
  | [] => []
  | .ask r _ :: turns => r :: asked turns
  | .idle _ :: turns => asked turns

/-- A component that answers requests and has steps of its own. -/
structure Server (σ ρ τ ι α : Type*) where
  handle : σ → ρ → τ → Option (α × σ)
  idle : σ → ι → σ

namespace Server

variable (S : Server σ ρ τ ι α)

/-- The answers to the requests among the turns, and the state after them. -/
def serve : σ → List (Turn ρ τ ι) → Option (List α × σ)
  | s, [] => some ([], s)
  | s, .ask r c :: turns =>
    (S.handle s r c).bind fun (a, t) => (serve t turns).map fun (as, u) => (a :: as, u)
  | s, .idle i :: turns => serve (S.idle s i) turns

/-- The steps of the server's own keep `P`. -/
def Stable (P : σ → Prop) : Prop := ∀ s i, P s → P (S.idle s i)

/-- In a state with `P`, `r` is answered with an `A`, and then `Q`. -/
def Triple (P : σ → Prop) (r : ρ) (A : α → Prop) (Q : σ → Prop) : Prop :=
  ∀ s c, P s → ∃ a t, S.handle s r c = some (a, t) ∧ A a ∧ Q t

/-- Requests and what their answers meet, one triple behind the other. -/
inductive Script : (σ → Prop) → List (ρ × (α → Prop)) → (σ → Prop) → Prop
  | done {P : σ → Prop} (stable : S.Stable P) : Script P [] P
  | ask {P Q R : σ → Prop} {r : ρ} {A : α → Prop} {rows : List (ρ × (α → Prop))}
      (stable : S.Stable P) (first : S.Triple P r A Q) (rest : Script Q rows R) :
      Script P ((r, A) :: rows) R

variable {S} {P Q R : σ → Prop} {rows rows' : List (ρ × (α → Prop))} {s : σ}

theorem Script.append (h : S.Script P rows Q) (h' : S.Script Q rows' R) :
    S.Script P (rows ++ rows') R := by
  induction h with
  | done _ => exact h'
  | ask stable first _ ih => exact .ask stable first (ih h')

theorem Script.stable (h : S.Script P rows Q) : S.Stable P := by
  cases h with
  | done stable => exact stable
  | ask stable _ _ => exact stable

/-- **A script is served**, whatever the server does of its own between the requests. -/
theorem Script.serve (turns : List (Turn ρ τ ι)) (h : S.Script P rows Q) (hs : P s)
    (hr : asked turns = rows.map Prod.fst) : ∃ answers t,
      S.serve s turns = some (answers, t) ∧ rows.Forall₂ (fun row a => row.2 a) answers ∧ Q t := by
  induction turns generalizing P rows s with
  | nil =>
    cases h with
    | done stable => exact ⟨[], s, rfl, .nil, hs⟩
    | ask stable first rest => cases hr
  | cons turn turns ih =>
    cases turn with
    | idle i => exact ih h (h.stable s i hs) hr
    | ask r c =>
      cases h with
      | done stable => cases hr
      | ask stable first rest =>
        obtain ⟨rfl, hrest⟩ := List.cons.inj hr
        obtain ⟨a, t, hhandle, ha, ht⟩ := first s c hs
        obtain ⟨as, u, hserve, has, hu⟩ := ih rest ht hrest
        refine ⟨a :: as, u, ?_, .cons ha has, hu⟩
        rw [Server.serve, hhandle]
        exact congrArg (Option.map _) hserve

end Server

end Lib
end Canforge
