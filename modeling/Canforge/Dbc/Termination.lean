/-
# The parser ends

Whatever its tokens are, as long as the last one is an end, the parser comes to it (`run_ends`).
A statement is taken away by the production of its word or by `resynchronise`, which stops only at
the words of `kWords`, and those all have a production (`mem_kWords`).
-/

import Canforge.Dbc.Productions

namespace Canforge
namespace Dbc

open Canforge.Core Text Lib Reporting

variable {R : Type} [Scalar R]

namespace Parser

variable {β : Type}

/-- Another round follows only behind a token. -/
def GoesOn (round : β → ParserM R (β × Bool)) : Prop :=
  ∀ b s b' s' out, Terminated s.tokens → round b s = .ok ((b', true), s', out) →
    s'.tokens.length < s.tokens.length

theorem Advancing.goesOn {round : β → ParserM R (β × Bool)} (h : Advancing Free round) :
    GoesOn round := by
  intro b s b' s' out hterm hround
  have hleads := h b s hterm
  rw [Leads, hround] at hleads
  exact hleads.2

/-- The loops of the parser, each of which goes on only behind a token. -/
structure LoopsGoOn (R : Type) [Scalar R] : Prop where
  run : GoesOn (runRound : Unit → ParserM R (Unit × Bool))
  resynchronise : GoesOn (resynchroniseRound : Unit → ParserM R (Unit × Bool))
  names : GoesOn (parseNameListRound : List Text → ParserM R (List Text × Bool))
  newSymbols : GoesOn (parseNewSymbolsRound : List Text → ParserM R (List Text × Bool))
  nodes : GoesOn (parseNodesRound : Unit → ParserM R (Unit × Bool))
  descriptions : GoesOn (parseDescriptionsRound : List ValueDescription × List (Number R) → _)
  signals : GoesOn (parseSignalsRound : Message R × List (SignalLine R) → _)
  enum : GoesOn (parseEnumRound : List Text → ParserM R (List Text × Bool))
  ranges : ∀ rawId : Token R, GoesOn (parseRangesRound rawId)

theorem loopsGoOn : LoopsGoOn R where
  run := advancing_run.goesOn
  resynchronise := advancing_resynchronise.goesOn
  names := advancing_parseNameList.goesOn
  newSymbols := advancing_parseNewSymbols.goesOn
  nodes := advancing_parseNodes.goesOn
  descriptions := advancing_parseDescriptions.goesOn
  signals := advancing_parseSignals.goesOn
  enum := advancing_parseEnum.goesOn
  ranges rawId := (advancing_parseRanges rawId).goesOn

/-- **The parser ends** on every list of tokens whose last one is an end, unless it casts a number
that does not fit, which is not defined.  Each of its loops goes on only behind a token, and
each statement takes one away, whatever the token it begins with. -/
theorem run_ends (R : Type) [Scalar R] :
    (∀ s : Parser R, Terminated s.tokens →
      (∃ s' out, run s = .ok ((), s', out)) ∨
        run s = .error .undefinedCast ∧ ∃ v : R, toInt64 v = none) ∧
    LoopsGoOn R ∧
    ∀ (s s' : Parser R) (out : List Diagnostic), Terminated s.tokens → (s.ahead 0).kind ≠ .end →
      parseStatement (s.ahead 0) s = .ok ((), s', out) → s'.tokens.length < s.tokens.length := by
  refine ⟨fun s hterm => ?_, loopsGoOn, fun s s' out hterm hkind hstatement => ?_⟩
  · have hleads := ends_while advancing_run () s hterm
    unfold run
    unfold Leads at hleads
    split at hleads
    · rename_i stop hstop
      obtain ⟨rfl, hcast⟩ := hleads
      exact .inr ⟨hstop, hcast⟩
    · rename_i u s' out hrun
      exact .inl ⟨s', out, hrun⟩
  · have hleads := consumes_parseStatement hkind hterm
    rw [Leads, hstatement] at hleads
    exact hleads.2

end Parser

end Dbc
end Canforge
