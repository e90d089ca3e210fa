/-
# The parser of configurations ends

Whatever its tokens are, as long as the last one is an end, the parser comes to it
(`run_comes_to_end`).  On its way it goes over the tokens once, and every report of it is about the token
it stands at (`Walk`), so the reports are in the order of the tokens; the nodes it has read stay.
-/

import Canforge.Lib.Course
import Canforge.Sim.ConfigParser
import Canforge.Text.Tokens

namespace Canforge
namespace Sim

open Canforge.Core Text Lib Reporting

variable {R : Type}

/-- A diagnostic about a token. -/
structure About (source : Source) (t : Token R) (d : Diagnostic) : Prop where
  location : d.location = t.location
  token : d.token = if t.kind = .end then ascii "<end of file>" else t.text
  sourceLine : d.sourceLine = source.line t.location.line

/-- A way over some tokens, with a report at some of them. -/
inductive Walk (source : Source) : List (Token R) → List Diagnostic → List (Token R) → Prop
  | stay (tokens : List (Token R)) : Walk source tokens [] tokens
  | next {t : Token R} {tokens later : List (Token R)} {out : List Diagnostic} :
    Walk source tokens out later → Walk source (t :: tokens) out later
  | report {t : Token R} {tokens later : List (Token R)} {d : Diagnostic} {out : List Diagnostic} :
    About source t d → Walk source (t :: tokens) out later → Walk source (t :: tokens) (d :: out) later

theorem Walk.trans {source : Source} {tokens₁ tokens₂ tokens₃ : List (Token R)}
    {out out' : List Diagnostic} (h : Walk source tokens₁ out tokens₂)
    (h' : Walk source tokens₂ out' tokens₃) : Walk source tokens₁ (out ++ out') tokens₃ := by
  induction h with
  | stay => exact h'
  | next _ ih => exact .next (ih h')
  | report habout _ ih => exact .report habout (ih h')

/-- The tokens end in an end. -/
def Terminated (tokens : List (Token R)) : Prop := ∃ t ∈ tokens.getLast?, t.kind = .end

variable [Scalar R]

/-- The way of the parser: over its tokens, and nodes are added to the configuration. -/
structure Onward (s : ConfigParser R) (out : List Diagnostic) (s' : ConfigParser R) : Prop where
  source : s'.source = s.source
  walk : Walk s.source s.tokens out s'.tokens
  nodes : s.config.nodes <+: s'.config.nodes

theorem Onward.refl (s : ConfigParser R) : Onward s [] s :=
  ⟨rfl, .stay _, List.prefix_rfl⟩

theorem Onward.trans {s₁ s₂ s₃ : ConfigParser R} {out out' : List Diagnostic}
    (h : Onward s₁ out s₂) (h' : Onward s₂ out' s₃) : Onward s₁ (out ++ out') s₃ := by
  refine ⟨h'.source.trans h.source, h.walk.trans ?_, h.nodes.trans h'.nodes⟩
  have hwalk := h'.walk
  rwa [h.source] at hwalk

namespace ConfigParser

/-- What is asked of the parser. -/
def course (R : Type) [Scalar R] : Course (ConfigParser R) Diagnostic ConfigStop where
  stops e := e = .undefinedCast
  sound s := Terminated s.tokens
  size s := s.tokens.length
  way := Onward
  still := Onward.refl
  join := Onward.trans

/-- The code ends. -/
abbrev Ends {α : Type} (p : ConfigM R α) : Prop := (course R).Ends p

/-- Another round follows only behind a token. -/
abbrev Advancing {β : Type} (round : β → ConfigM R (β × Bool)) : Prop := (course R).Advancing round

variable {α β : Type} {s : ConfigParser R}

/-- The code ends behind the token it begins at. -/
def Consumes (p : ConfigM R α) : Prop := ∀ s, s.head.kind ≠ .end → (course R).Goes p s fun _ => 1

theorem Consumes.bind {p : ConfigM R α} {f : α → ConfigM R β} (h : Consumes p)
    (hf : ∀ a, Ends (f a)) : Consumes (p >>= f) := fun s hkind => (h s hkind).andThen hf

/-- The tokens of a state at one that is no end. -/
theorem tokens_cons (hterm : Terminated s.tokens) (hkind : s.head.kind ≠ .end) :
    ∃ u rest, s.tokens = s.head :: u :: rest ∧ Terminated (u :: rest) := by
  obtain ⟨e, he, hend⟩ := hterm
  unfold head at hkind ⊢
  match htokens : s.tokens with
  | [] => simp [htokens] at he
  | [t] =>
    have hlast : t = e := by simpa [htokens] using he
    rw [htokens, hlast] at hkind
    exact absurd hend hkind
  | t :: u :: rest => exact ⟨u, rest, rfl, e, by simpa [htokens] using he, hend⟩

/-! ### The pieces -/

theorem quiet_current : Quiet current s s.head s :=
  quiet_bind.2 ⟨s, s, quiet_get.2 ⟨rfl, rfl⟩, quiet_pure.2 ⟨rfl, rfl⟩⟩

theorem ends_current : Ends (current : ConfigM R (Token R)) :=
  Course.ends_get.bind fun _ => Course.ends_pure _

/-- What follows `current` is about the token of the state. -/
theorem goes_current {f : Token R → ConfigM R β} {n : β → ℕ} (h : (course R).Goes (f s.head) s n) :
    (course R).Goes (current >>= f) s n :=
  .of_quiet quiet_current h

theorem quiet_advance : Quiet advance s s.head (behind s) :=
  quiet_bind.2 ⟨s, s, quiet_get.2 ⟨rfl, rfl⟩, quiet_bind.2
    ⟨(), behind s, quiet_modify.2 rfl, quiet_pure.2 ⟨rfl, rfl⟩⟩⟩

/-- A token that is no end is taken away. -/
theorem consumes_advance : Consumes (advance : ConfigM R (Token R)) := by
  intro s hkind hterm
  obtain ⟨u, rest, htokens, hterm'⟩ := tokens_cons hterm hkind
  have hbehind : behind s = { s with tokens := u :: rest } := by simp [behind, htokens]
  rw [quiet_advance, hbehind]
  refine ⟨hterm', ⟨rfl, ?_, List.prefix_rfl⟩, ?_⟩
  · rw [htokens]
    exact .next (.stay _)
  · change (u :: rest).length + 1 ≤ s.tokens.length
    rw [htokens]
    exact le_rfl

theorem ends_advance : Ends (advance : ConfigM R (Token R)) := by
  intro s hterm
  by_cases hkind : s.head.kind = .end
  · rw [quiet_advance]
    by_cases hone : 1 < s.tokens.length
    · obtain ⟨t, u, rest, htokens⟩ : ∃ t u rest, s.tokens = t :: u :: rest := by
        match htokens : s.tokens with
        | [] | [_] => simp [htokens] at hone
        | t :: u :: rest => exact ⟨t, u, rest, rfl⟩
      obtain ⟨e, he, hend⟩ := hterm
      have hbehind : behind s = { s with tokens := u :: rest } := by simp [behind, htokens]
      rw [hbehind]
      refine ⟨⟨e, by simpa [htokens] using he, hend⟩, ⟨rfl, ?_, List.prefix_rfl⟩, ?_⟩
      · rw [htokens]
        exact .next (.stay _)
      · change (u :: rest).length + 0 ≤ s.tokens.length
        rw [htokens]
        exact Nat.le_succ _
    · have hbehind : behind s = s := if_neg hone
      rw [hbehind]
      exact ⟨hterm, Onward.refl s, le_rfl⟩
  · exact (consumes_advance s hkind).mono (fun _ => Nat.zero_le 1) hterm

/-- A change of the configuration that keeps the nodes, or adds one. -/
theorem ends_modifyConfig {f : SimConfig R → SimConfig R} (hf : ∀ c, c.nodes <+: (f c).nodes) :
    Ends (modifyConfig f) :=
  fun s hterm => ⟨hterm, ⟨rfl, .stay _, hf s.config⟩, le_rfl⟩

theorem ends_while {round : β → ConfigM R (β × Bool)} (h : Advancing round) (b : β) :
    Ends (while_ round b) := by
  intro s
  refine .of_quiet (quiet_get.2 ⟨rfl, rfl⟩) ?_
  exact h.loop b (Nat.lt_succ_self _)

theorem ends_report (severity : Severity) (message note : Text) :
    Ends (report severity message note : ConfigM R Unit) := by
  intro s
  refine .of_quiet (quiet_get.2 ⟨rfl, rfl⟩) (goes_current fun hterm => ?_)
  refine ⟨hterm, ⟨rfl, ?_, List.prefix_rfl⟩, le_rfl⟩
  obtain ⟨t, rest, htokens⟩ : ∃ t rest, s.tokens = t :: rest := by
    obtain ⟨e, he, -⟩ := hterm
    exact List.exists_cons_of_ne_nil fun hnil => by simp [hnil] at he
  have hhead : s.head = t := by simp [head, htokens]
  rw [htokens, hhead]
  exact .report ⟨rfl, rfl, rfl⟩ (.stay _)

theorem ends_error (message note : Text) : Ends (error message note : ConfigM R Unit) :=
  ends_report _ _ _

/-- An error leaves the parser where it is. -/
theorem goes_error {message note : Text} {f : Unit → ConfigM R β} {n : β → ℕ}
    (h : (course R).Goes (f ()) s n) : (course R).Goes (error message note >>= f) s n := by
  refine (ends_error message note s).bind_of_run fun _ s' out hrun => ?_
  obtain ⟨-, hstate⟩ := Prod.mk.inj (Except.ok.inj hrun)
  obtain ⟨rfl, -⟩ := Prod.mk.inj hstate
  exact h

theorem ends_warn (message note : Text) : Ends (warn message note : ConfigM R Unit) :=
  ends_report _ _ _

/-- A cast that is not defined is excused. -/
theorem ends_cast (o : Option α) : Ends (orStop .undefinedCast o : ConfigM R α) :=
  Course.ends_orStop fun _ => rfl

theorem advancing_line (line : BitVec 32) :
    Advancing (lineRound line : Unit → ConfigM R (Unit × Bool)) := by
  intro _ s
  refine goes_current (.ite (fun h => ?_) fun _ => Course.goes_last _)
  exact (consumes_advance s h.1).round fun _ => Course.ends_pure _

theorem ends_skipLine : Ends (skipLine : ConfigM R Unit) :=
  ends_current.bind fun _ => ends_while (advancing_line _) ()

theorem ends_name : Ends (name : ConfigM R (Option Text)) := by
  refine ends_current.bind fun t => .ite ?_ ?_
  · exact (ends_error _ _).bind fun _ => Course.ends_pure _
  · exact ends_advance.bind fun _ => Course.ends_pure _

theorem ends_numberSign : Ends (numberSign : ConfigM R R) := by
  refine ends_current.bind fun t => .ite ?_ (.ite ?_ (Course.ends_pure _))
  · exact ends_advance.bind fun _ => Course.ends_pure _
  · exact ends_advance.bind fun _ => Course.ends_pure _

theorem ends_number : Ends (number : ConfigM R (Option R)) := by
  refine ends_numberSign.bind fun sign => ends_current.bind fun t => .ite ?_ ?_
  · exact ends_advance.bind fun _ => Course.ends_pure _
  · split
    · exact ends_advance.bind fun _ => Course.ends_pure _
    · exact (ends_error _ _).bind fun _ => Course.ends_pure _

theorem ends_durationUnit : Ends (durationUnit : ConfigM R ℕ) := by
  refine ends_current.bind fun t => ?_
  split
  · exact ends_advance.bind fun _ => ends_cast _
  · exact Course.ends_pure _

theorem ends_duration : Ends (duration : ConfigM R (Option ℕ)) := by
  refine ends_current.bind fun t => ?_
  split
  · exact ends_advance.bind fun _ => (ends_cast _).bind fun _ => Course.ends_pure _
  · refine .ite ?_ ((ends_error _ _).bind fun _ => Course.ends_pure _)
    refine ends_advance.bind fun token => ends_durationUnit.bind fun scaleNs => ?_
    exact (ends_cast _).bind fun _ => Course.ends_pure _

theorem ends_restOfLine : Ends (restOfLine : ConfigM R Text) :=
  Course.ends_get.bind fun _ => ends_current.bind fun _ =>
    (ends_while (advancing_line _) ()).bind fun _ => Course.ends_pure _

/-! ### The sections -/

/-- A change of the configuration that does not touch the nodes. -/
theorem ends_set {f : SimConfig R → SimConfig R} (hf : ∀ c, (f c).nodes = c.nodes) :
    Ends (modifyConfig f) := ends_modifyConfig fun c => by rw [hf]

theorem ends_parseNominal : Ends (parseNominal : ConfigM R Unit) := by
  refine ends_current.bind fun t => ends_current.bind fun u => .ite ?_ (Course.ends_pure _)
  refine ends_number.bind ?_
  rintro (_ | v)
  · exact Course.ends_pure _
  · exact (ends_cast _).bind fun _ => ends_set fun _ => by rfl

theorem ends_parseDataRate : Ends (parseDataRate : ConfigM R Unit) := by
  refine ends_current.bind fun t => .ite (ends_number.bind ?_) (Course.ends_pure _)
  rintro (_ | v)
  · exact Course.ends_pure _
  · exact (ends_cast _).bind fun _ => ends_set fun _ => by rfl

theorem ends_setDuration (set : BitVec 64 → TxSpec) (tx : TxSpec) :
    Ends (setDuration set tx : ConfigM R (TxSpec × Bool)) := by
  refine ends_duration.bind ?_
  rintro (_ | ns)
  · exact Course.ends_pure _
  · exact Course.ends_pure _

omit [Scalar R] in
theorem not_end_of_isWord {t : Token R} {w : Text} (h : t.isWord w = true) : t.kind ≠ .end := by
  have hkind : t.kind = .identifier ∧ t.text = w := by simpa [Token.isWord] using h
  rw [hkind.1]
  decide

/-- What `match_word` does at a token. -/
theorem quiet_matchWord (w : String) : Quiet (matchWord w) s (s.head.isWord (ascii w))
    (if s.head.isWord (ascii w) then behind s else s) := by
  refine quiet_bind.2 ⟨_, s, quiet_current, ?_⟩
  by_cases hword : s.head.isWord (ascii w) = true
  · rw [if_pos hword, if_pos hword, hword]
    exact quiet_bind.2 ⟨_, _, quiet_advance, quiet_pure.2 ⟨rfl, rfl⟩⟩
  · rw [if_neg hword, if_neg hword, Bool.eq_false_iff.2 hword]
    exact quiet_pure.2 ⟨rfl, rfl⟩

/-- A round behind a word that is taken away, or at the same token without it. -/
theorem goes_word {w : String} {yes no : ConfigM R (β × Bool)} (hyes : Ends yes)
    (hno : (course R).Goes no s (·.2.toNat)) :
    (course R).Goes (do if ← matchWord w then yes else no) s (·.2.toNat) := by
  have hquiet := quiet_matchWord (s := s) w
  by_cases hword : s.head.isWord (ascii w) = true
  · have hmatch : (course R).Goes (matchWord w : ConfigM R Bool) s fun _ => 1 := by
      refine goes_current ?_
      rw [if_pos hword]
      exact (consumes_advance s (not_end_of_isWord hword)).andThen fun _ => Course.ends_pure _
    refine hmatch.bind_of_run fun b s' out hrun => ?_
    rw [hword] at hquiet
    obtain ⟨rfl, -⟩ := Prod.mk.inj (Except.ok.inj (hquiet.symm.trans hrun))
    exact (hyes s').mono fun r => Nat.sub_le_of_le_add (Bool.toNat_le r.2)
  · rw [if_neg hword, Bool.eq_false_iff.2 hword] at hquiet
    exact .of_quiet hquiet hno

/-- An option that is not known: the line is skipped, and the loop ends. -/
theorem goes_skip (message note : Text) (b : β) :
    (course R).Goes (do
      error message note
      skipLine
      return (b, false) : ConfigM R (β × Bool)) s (·.2.toNat) := by
  refine (ends_error _ _ s).bind fun _ s₁ => (ends_skipLine s₁).bind fun _ s₂ => ?_
  exact Course.goes_last _

theorem advancing_txOption : Advancing (txOptionRound : TxSpec → ConfigM R (TxSpec × Bool)) := by
  intro tx s
  refine goes_current (.ite (fun _ => ?_) fun _ => Course.goes_last _)
  refine goes_word (ends_setDuration _ _) ?_
  refine goes_word (ends_setDuration _ _) ?_
  refine goes_word (ends_setDuration _ _) ?_
  refine goes_word (Course.ends_pure _) (goes_word (Course.ends_pure _) ?_)
  exact goes_skip _ _ _

theorem consumes_parseBinding (tx : TxSpec) : Consumes (parseBinding tx : ConfigM R TxSpec) := by
  refine consumes_advance.bind fun _ => ends_name.bind ?_
  rintro (_ | signal)
  · exact ends_skipLine.bind fun _ => Course.ends_pure _
  · exact ends_restOfLine.bind fun _ => Course.ends_pure _

theorem consumes_parseCounter (tx : TxSpec) : Consumes (parseCounter tx : ConfigM R TxSpec) := by
  refine consumes_advance.bind fun _ => ends_name.bind ?_
  rintro (_ | signal)
  · exact ends_skipLine.bind fun _ => Course.ends_pure _
  · exact Course.ends_pure _

theorem ends_checksumKind : Ends (checksumKind : ConfigM R ChecksumKind) := by
  refine ends_current.bind fun t => .ite (ends_advance.bind fun token => ?_) (Course.ends_pure _)
  refine .ite (Course.ends_pure _) (.ite (Course.ends_pure _) ?_)
  exact (ends_warn _ _).bind fun _ => Course.ends_pure _

theorem consumes_parseChecksum (tx : TxSpec) : Consumes (parseChecksum tx : ConfigM R TxSpec) := by
  refine consumes_advance.bind fun _ => ends_name.bind ?_
  rintro (_ | signal)
  · exact ends_skipLine.bind fun _ => Course.ends_pure _
  · exact ends_checksumKind.bind fun _ => Course.ends_pure _

theorem advancing_txBody : Advancing (txBodyRound : TxSpec → ConfigM R (TxSpec × Bool)) := by
  intro tx s
  refine goes_current (.ite (fun h => ?_) fun _ => .ite (fun h => ?_) fun _ => .ite (fun h => ?_)
    fun _ => Course.goes_last _)
  · exact (consumes_parseBinding tx s (not_end_of_isWord h)).round fun _ => Course.ends_pure _
  · exact (consumes_parseCounter tx s (not_end_of_isWord h)).round fun _ => Course.ends_pure _
  · exact (consumes_parseChecksum tx s (not_end_of_isWord h)).round fun _ => Course.ends_pure _

theorem consumes_parseTx (node : NodeSpec) : Consumes (parseTx node : ConfigM R NodeSpec) := by
  refine consumes_advance.bind fun _ => ends_name.bind ?_
  rintro (_ | message)
  · exact ends_skipLine.bind fun _ => Course.ends_pure _
  · exact (ends_while advancing_txOption _).bind fun tx =>
      (ends_while advancing_txBody tx).bind fun _ => Course.ends_pure _

theorem advancing_tx : Advancing (txRound : NodeSpec → ConfigM R (NodeSpec × Bool)) := by
  intro node s
  refine goes_current (.ite (fun h => ?_) fun _ => Course.goes_last _)
  exact (consumes_parseTx node s (not_end_of_isWord h)).round fun _ => Course.ends_pure _

theorem consumes_parseNode : Consumes (parseNode : ConfigM R Unit) := by
  refine consumes_advance.bind fun _ => ends_name.bind ?_
  rintro (_ | nodeName)
  · exact ends_skipLine
  · exact (ends_while advancing_tx _).bind fun node =>
      ends_modifyConfig fun c => List.prefix_append c.nodes [node]

theorem consumes_parseBus : Consumes (parseBus : ConfigM R Unit) := by
  refine consumes_advance.bind fun _ => ends_name.bind ?_
  rintro (_ | bus)
  · exact ends_skipLine
  · exact (ends_set fun _ => by rfl).bind fun _ => ends_parseNominal.bind fun _ => ends_parseDataRate

theorem consumes_parseDatabase : Consumes (parseDatabase : ConfigM R Unit) := by
  refine consumes_advance.bind fun _ => ends_current.bind fun t => .ite ?_ ?_
  · exact ends_advance.bind fun token => ends_set fun _ => by rfl
  · refine ends_restOfLine.bind fun path => (ends_set fun _ => by rfl).bind fun _ => ?_
    exact .ite (ends_error _ _) (Course.ends_pure _)

theorem advancing_ratio : Advancing (ratioRound : List R → ConfigM R (List R × Bool)) := by
  intro ratios s
  refine goes_current (.ite (fun h => ?_) fun _ => Course.goes_last _)
  refine (consumes_advance s ?_).round fun _ => Course.ends_pure _
  rcases h.1 with hkind | hkind <;> · rw [hkind]; decide

theorem consumes_parseRatios : Consumes (parseRatios : ConfigM R Unit) := by
  refine consumes_advance.bind fun _ => (ends_while advancing_ratio []).bind fun ratios => ?_
  exact .ite (ends_error _ _) (ends_set fun _ => by rfl)

theorem advancing_plant : Advancing (plantRound : Unit → ConfigM R (Unit × Bool)) := by
  intro _ s
  refine goes_current (.ite (fun _ => Course.goes_last _) fun h => ?_)
  have hkind : s.head.kind ≠ .end := by
    rw [not_not.1 h]
    decide
  split
  · refine (consumes_advance s hkind).round fun _ => ends_number.bind ?_
    rintro (_ | v)
    · exact (Course.ends_pure _).bind fun _ => Course.ends_pure _
    · exact (ends_set fun _ => by rfl).bind fun _ => Course.ends_pure _
  · refine .ite (fun _ => ?_) fun _ => Course.goes_last _
    exact (consumes_parseRatios s hkind).round fun _ => Course.ends_pure _

theorem consumes_parsePlant : Consumes (parsePlant : ConfigM R Unit) := by
  refine consumes_advance.bind fun _ => (ends_set fun _ => by rfl).bind fun _ => ?_
  refine ends_current.bind fun t => .ite (ends_advance.bind fun _ => ?_) ?_
  · exact ends_while advancing_plant ()
  · exact ends_while advancing_plant ()

theorem advancing_input :
    Advancing (inputRound : DriveEvent R → ConfigM R (DriveEvent R × Bool)) := by
  intro event s
  refine goes_current (.ite (fun _ => ?_) fun _ => Course.goes_last _)
  refine goes_word (ends_number.bind ?_) ?_
  · rintro (_ | v) <;> exact Course.ends_pure _
  refine goes_word (ends_number.bind ?_) ?_
  · rintro (_ | v) <;> exact Course.ends_pure _
  refine goes_word (ends_number.bind ?_) (goes_skip _ _ _)
  rintro (_ | v)
  · exact Course.ends_pure _
  · exact (ends_cast _).bind fun _ => Course.ends_pure _

theorem advancing_drive : Advancing (driveRound : Unit → ConfigM R (Unit × Bool)) := by
  intro _ s
  refine goes_word (ends_duration.bind ?_) (Course.goes_last _)
  rintro (_ | atNs)
  · exact ends_skipLine.bind fun _ => Course.ends_pure _
  · refine (ends_while advancing_input _).bind fun event => ?_
    exact (ends_set fun _ => by rfl).bind fun _ => Course.ends_pure _

theorem consumes_parseDrive : Consumes (parseDrive : ConfigM R Unit) :=
  consumes_advance.bind fun _ => ends_while advancing_drive ()

theorem ends_parseFaultKind (kind : Text) (fault : Fault R) :
    Ends (parseFaultKind kind fault) := by
  unfold parseFaultKind
  refine .ite (ends_number.bind fun _ => Course.ends_pure _) ?_
  refine .ite (ends_number.bind fun _ => Course.ends_pure _) ?_
  refine .ite (ends_duration.bind ?_) ?_
  · rintro (_ | delayNs) <;> exact Course.ends_pure _
  refine .ite (ends_name.bind ?_) ?_
  · rintro (_ | signal) <;> exact Course.ends_pure _
  refine .ite (ends_name.bind ?_) (.ite (Course.ends_pure _) ?_)
  · rintro (_ | signal)
    · exact Course.ends_pure _
    · exact ends_number.bind fun _ => Course.ends_pure _
  · exact (ends_error _ _).bind fun _ => Course.ends_pure _

theorem ends_parseFaultId (fault : Fault R) : Ends (parseFaultId fault) := by
  refine ends_number.bind ?_
  rintro (_ | raw)
  · exact Course.ends_pure _
  refine (ends_cast _).bind fun packed => ?_
  dsimp only
  split
  · exact Course.ends_pure _
  · exact (ends_error _ _).bind fun _ => Course.ends_pure _

theorem advancing_faultOption :
    Advancing (faultOptionRound : Fault R → ConfigM R (Fault R × Bool)) := by
  intro fault s
  refine goes_current (.ite (fun _ => ?_) fun _ => Course.goes_last _)
  refine goes_word (ends_name.bind ?_) ?_
  · rintro (_ | node) <;> exact Course.ends_pure _
  refine goes_word (ends_parseFaultId fault) (goes_word (ends_parseFaultId fault) ?_)
  exact goes_word (Course.ends_pure _) (goes_skip _ _ _)

theorem consumes_parseFault : Consumes (parseFault : ConfigM R Unit) := by
  refine consumes_advance.bind fun _ => ends_name.bind ?_
  rintro (_ | faultName)
  · exact ends_skipLine
  refine ends_current.bind fun t => .ite ((ends_error _ _).bind fun _ => ends_skipLine) ?_
  refine ends_advance.bind fun kind => (ends_parseFaultKind _ _).bind ?_
  rintro (_ | fault)
  · exact ends_skipLine
  · exact (ends_while advancing_faultOption _).bind fun _ => ends_set fun _ => by rfl

/-- The token at which a line is skipped is taken away. -/
theorem consumes_skipLine : Consumes (skipLine : ConfigM R Unit) := by
  intro s hkind
  refine goes_current (.of_quiet (quiet_get.2 ⟨rfl, rfl⟩) ?_)
  refine Course.Advancing.loop_from (advancing_line _) (Nat.lt_succ_self _) (goes_current ?_)
  rw [if_pos ⟨hkind, rfl⟩]
  exact ((consumes_advance s hkind).andThen fun _ => Course.ends_pure _).mono fun r => by
    have := Bool.toNat_le r.2
    omega

theorem consumes_parseSection (word : Text) : Consumes (parseSection word : ConfigM R Unit) := by
  intro s hkind
  unfold parseSection
  refine .ite (fun _ => consumes_parseBus s hkind) fun _ => ?_
  refine .ite (fun _ => consumes_parseDatabase s hkind) fun _ => ?_
  refine .ite (fun _ => consumes_parseNode s hkind) fun _ => ?_
  refine .ite (fun _ => consumes_parsePlant s hkind) fun _ => ?_
  refine .ite (fun _ => consumes_parseDrive s hkind) fun _ => ?_
  refine .ite (fun _ => consumes_parseFault s hkind) fun _ => ?_
  exact goes_error (consumes_skipLine s hkind)

theorem advancing_run : Advancing (runRound : Unit → ConfigM R (Unit × Bool)) := by
  intro _ s
  refine goes_current (.ite (fun _ => Course.goes_last _) fun hkind => .ite (fun _ => ?_) fun _ => ?_)
  · exact goes_error ((consumes_skipLine s hkind).round fun _ => Course.ends_pure _)
  · exact (consumes_parseSection _ s hkind).round fun _ => Course.ends_pure _

theorem ends_run : Ends (run : ConfigM R Unit) := ends_while advancing_run ()

/-- **The parser ends** on every list of tokens whose last one is an end, unless it casts a number
that does not fit, which is not defined. -/
theorem run_comes_to_end (hterm : Terminated s.tokens) :
    run s = .error .undefinedCast ∨ ∃ s' out, run s = .ok ((), s', out) ∧ Onward s out s' := by
  have hends := ends_run s hterm
  cases hrun : run s with
  | error e =>
    rw [hrun] at hends
    exact .inl (congrArg Except.error hends)
  | ok r =>
    rw [hrun] at hends
    exact .inr ⟨r.2.1, r.2.2, rfl, hends.2.1⟩

/-- The parser at the beginning of a source. -/
def start (source : Source) (config : SimConfig R) : ConfigParser R :=
  { source, tokens := (tokenise source).1, config }

end ConfigParser

/-! ### Whole texts -/

theorem tokenise_terminated (source : Source) : Terminated (tokenise (R := R) source).1 :=
  (tokenise_tokens source).terminated

section

variable {G : Type} [Engine G R] {config : SimConfig R}

theorem parseConfigOver_eq (text filename : Text) : parseConfigOver G config text filename =
    match ConfigParser.run (.start (Source.normalise text filename) config) with
    | .error e => .error e
    | .ok (_, t, out) =>
      .ok { config := t.config,
            diagnostics := (tokenise (R := R) (Source.normalise text filename)).2 ++ out ++
              checkBindings G t.config } := by
  unfold parseConfigOver ConfigParser.start
  generalize Source.normalise text filename = source
  rfl

end

end Sim
end Canforge
