/-
# The productions

What the pieces of the parser do to its tokens and, as far as they are not about integers, to its
database.  `Goes K p s n` says that `p` does not use up its fuel, leaves at least `n` tokens fewer
and keeps the relation `K`.  `Ends` is code that leaves no more tokens than there were, `Consumes`
is code that takes one away unless the next one is an end, and `Advancing` is a round of a loop
that does so when another round follows.

A `Frame` is a relation that holds between two states when tokens are read and no integer of the
database is touched.  Most productions keep every frame; those that store integers keep `Free`,
which is no relation at all.
-/

import Canforge.Dbc.Integers

namespace Canforge
namespace Dbc

open Canforge.Core Text Lib Reporting

variable {R : Type}

/-- The tokens end in an end. -/
def Terminated (tokens : List (Token R)) : Prop := ∃ t ∈ tokens.getLast?, t.kind = .end

theorem Terminated.tail {t u : Token R} {rest : List (Token R)} (h : Terminated (t :: u :: rest)) :
    Terminated (u :: rest) := by
  obtain ⟨e, he, hkind⟩ := h
  exact ⟨e, by simpa using he, hkind⟩

/-- In front of a token that is no end there is another one. -/
theorem Terminated.one_lt {s : Parser R} [Scalar R] (h : Terminated s.tokens)
    (hkind : (s.ahead 0).kind ≠ .end) : 1 < s.tokens.length := by
  obtain ⟨e, he, hend⟩ := h
  match hs : s.tokens with
  | [] => simp [hs] at he
  | [t] =>
    have hahead : s.ahead 0 = t := by simp [Parser.ahead, hs]
    have hlast : t = e := by simpa [hs] using he
    rw [hahead, hlast] at hkind
    exact absurd hend hkind
  | _ :: _ :: rest => simp

variable [Scalar R]

/-- The stops that are no failure to end: a cast that is not defined, if there is one. -/
def Excused (R : Type) [Scalar R] (stop : Stop) : Prop :=
  stop = .undefinedCast ∧ ∃ v : R, toInt64 v = none

/-- The change touches no integer of the database. -/
def SameIntegers (f : Database R → Database R) : Prop :=
  ∀ db, Integers.ofDatabase (f db) = Integers.ofDatabase db

/-- A relation of the state behind some code to the state in front of it, for code that reads
tokens and touches no integer. -/
class Frame (K : Parser R → Parser R → Prop) : Prop where
  refl : ∀ s, K s s
  trans : ∀ {s₁ s₂ s₃}, K s₁ s₂ → K s₂ s₃ → K s₁ s₃
  tail : ∀ s, K s { s with tokens := s.tokens.tail }
  db : ∀ s {f}, SameIntegers f → K s { s with db := f s.db }

/-- No relation at all. -/
def Free (_ _ : Parser R) : Prop := True

instance : Frame (Free (R := R)) := ⟨fun _ => trivial, fun _ _ => trivial, fun _ => trivial,
  fun _ _ _ => trivial⟩

namespace Parser

variable {α β : Type} {K : Parser R → Parser R → Prop} {s : Parser R} {p : ParserM R α}
  {f : α → ParserM R β}

/-- The code ends, at least so many tokens further on. -/
def Goes (K : Parser R → Parser R → Prop) (p : ParserM R α) (s : Parser R) (n : α → ℕ) : Prop :=
  Terminated s.tokens → Leads (Excused R) p s fun a s' =>
    (Terminated s'.tokens ∧ K s s') ∧ s'.tokens.length + n a ≤ s.tokens.length

/-- The code ends. -/
def Ends (K : Parser R → Parser R → Prop) (p : ParserM R α) : Prop := ∀ s, Goes K p s fun _ => 0

/-- The code ends behind the token it begins at. -/
def Consumes (K : Parser R → Parser R → Prop) (p : ParserM R α) : Prop :=
  ∀ s, (s.ahead 0).kind ≠ .end → Goes K p s fun _ => 1

/-- A round that ends, behind a token if another round follows. -/
def Advancing (K : Parser R → Parser R → Prop) (round : β → ParserM R (β × Bool)) : Prop :=
  ∀ b s, Goes K (round b) s (·.2.toNat)

theorem Goes.mono {n m : α → ℕ} (h : Goes K p s n) (hle : ∀ a, m a ≤ n a) : Goes K p s m := by
  intro hterm
  refine (h hterm).mono ?_
  rintro a s' ⟨hkept, hlength⟩
  have := hle a
  exact ⟨hkept, by omega⟩

/-- What follows `peek` is about the tokens of the state. -/
theorem Goes.peek {f : Token R → ParserM R β} {n : β → ℕ} {k : ℕ} (h : Goes K (f (s.ahead k)) s n) :
    Goes K (peek k >>= f) s n := fun hterm => .bind (h hterm)

theorem Goes.current {f : Token R → ParserM R β} {n : β → ℕ} (h : Goes K (f (s.ahead 0)) s n) :
    Goes K (current >>= f) s n := h.peek

theorem Goes.atEnd {f : Bool → ParserM R β} {n : β → ℕ}
    (h : Goes K (f (decide ((s.ahead 0).kind = .end))) s n) : Goes K (atEnd >>= f) s n :=
  fun hterm => .bind (h hterm)

/-- A warning leaves the tokens where they are. -/
theorem Goes.warn {code : ErrorCode} {t : Token R} {message note : Text} {f : Unit → ParserM R β}
    {n : β → ℕ} (h : Goes K (f ()) s n) : Goes K (warn code t message note >>= f) s n :=
  fun hterm => .bind (h hterm)

theorem Goes.error {code : ErrorCode} {t : Token R} {message note : Text} {f : Unit → ParserM R β}
    {n : β → ℕ} (h : Goes K (f ()) s n) : Goes K (error code t message note >>= f) s n :=
  fun hterm => .bind (h hterm)

theorem Goes.of_quiet {a : α} {n : β → ℕ} (h : Quiet p s a s) (hf : Goes K (f a) s n) :
    Goes K (p >>= f) s n := fun hterm => .bind (.of_quiet h (hf hterm))

theorem Goes.ite {c : Prop} [Decidable c] {p q : ParserM R α} {n : α → ℕ} (hp : c → Goes K p s n)
    (hq : ¬c → Goes K q s n) : Goes K (if c then p else q) s n := by
  split_ifs with h
  · exact hp h
  · exact hq h

variable [Frame K]

theorem Goes.bind {n : α → ℕ} {m : β → ℕ} (h : Goes K p s n)
    (hf : ∀ a s', Goes K (f a) s' fun b => m b - n a) : Goes K (p >>= f) s m := by
  intro hterm
  refine .bind ((h hterm).mono ?_)
  rintro a s₁ ⟨⟨hterm₁, hkept₁⟩, hlength₁⟩
  refine (hf a s₁ hterm₁).mono ?_
  rintro b s₂ ⟨⟨hterm₂, hkept₂⟩, hlength₂ : _ + (m b - n a) ≤ _⟩
  exact ⟨⟨hterm₂, Frame.trans hkept₁ hkept₂⟩, by omega⟩

/-- Code that ends, behind code that goes on. -/
theorem Goes.andThen {n : ℕ} (h : Goes K p s fun _ => n) (hf : ∀ a, Ends K (f a)) :
    Goes K (p >>= f) s fun _ => n :=
  h.bind fun a s' => (hf a s').mono fun _ => by omega

theorem Ends.bind (h : Ends K p) (hf : ∀ a, Ends K (f a)) : Ends K (p >>= f) :=
  fun s => (h s).andThen hf

theorem Consumes.bind (h : Consumes K p) (hf : ∀ a, Ends K (f a)) : Consumes K (p >>= f) :=
  fun s hkind => (h s hkind).andThen hf

/-- A round whose first piece takes a token away. -/
theorem Goes.round {f : α → ParserM R (β × Bool)} (h : Goes K p s fun _ => 1)
    (hf : ∀ a, Ends K (f a)) : Goes K (p >>= f) s (·.2.toNat) :=
  (h.andThen hf).mono fun r => Bool.toNat_le r.2

/-! ### The pieces -/

theorem ends_pure (a : α) : Ends K (pure a : ParserM R α) := fun s hterm => ⟨⟨hterm, Frame.refl s⟩, le_rfl⟩

/-- The last round of a loop. -/
theorem goes_last (b : β) : Goes K (pure (b, false) : ParserM R (β × Bool)) s (·.2.toNat) :=
  fun hterm => ⟨⟨hterm, Frame.refl s⟩, le_rfl⟩

theorem ends_get : Ends K (Reporting.get : ParserM R (Parser R)) := fun s hterm => ⟨⟨hterm, Frame.refl s⟩, le_rfl⟩

theorem ends_modifyDb {f : Database R → Database R} (hf : SameIntegers f) :
    Ends K (modifyDb f) := fun s hterm => ⟨⟨hterm, Frame.db s hf⟩, le_rfl⟩

omit [Scalar R] [Frame K] in
theorem map_replaceF {α β : Type} {g : α → Option α} {h : α → β}
    (hg : ∀ a b, g a = some b → h b = h a) (l : List α) : (l.replaceF g).map h = l.map h := by
  induction l with
  | nil => rfl
  | cons a l ih =>
    cases hga : g a with
    | none => rw [List.replaceF, hga, List.map_cons, ih, List.map_cons]
    | some b => rw [List.replaceF, hga, List.map_cons, hg a b hga, List.map_cons]

omit [Scalar R] [Frame K] in
theorem sameIntegers_modifyMessage {id : CanId} {f : Message R → Message R}
    (hf : ∀ m, MessageIntegers.ofMessage (f m) = MessageIntegers.ofMessage m) :
    SameIntegers fun db : Database R =>
      { db with messages := db.messages.replaceF fun m => if m.id = id then some (f m) else none } := by
  intro db
  have hmessages := map_replaceF (g := fun m => if m.id = id then some (f m) else none)
    (h := MessageIntegers.ofMessage) (fun m m' hm => ?_) db.messages
  · simp only [Integers.ofDatabase, hmessages]
  · split_ifs at hm
    rw [← Option.some.inj hm, hf]

theorem ends_modifyMessage {id : CanId} {f : Message R → Message R}
    (hf : ∀ m, MessageIntegers.ofMessage (f m) = MessageIntegers.ofMessage m) :
    Ends K (modifyMessage id f) := ends_modifyDb (sameIntegers_modifyMessage hf)

theorem ends_modifySignal {id : CanId} {name : Text} {f : Signal R → Signal R}
    (hf : ∀ s, SignalIntegers.ofSignal (f s) = SignalIntegers.ofSignal s) :
    Ends K (modifySignal id name f) := by
  refine ends_modifyMessage fun m => ?_
  have hsignals := map_replaceF (g := fun s => if s.name = name then some (f s) else none)
    (h := SignalIntegers.ofSignal) (fun s s' hs => ?_) m.signals
  · simp only [MessageIntegers.ofMessage, hsignals]
  · split_ifs at hs
    rw [← Option.some.inj hs, hf]

/-- What the statements about integers do to the database. -/
theorem ends_changeDb (f : Database R → Database R) : Ends Free (modifyDb f) :=
  fun _ hterm => ⟨⟨hterm, trivial⟩, le_rfl⟩

theorem ends_changeSignal (id : CanId) (name : Text) (f : Signal R → Signal R) :
    Ends Free (modifySignal id name f) := by
  unfold modifySignal modifyMessage
  exact ends_changeDb _

theorem ends_record (statement : Statement R) : Ends Free (record statement) :=
  fun _ hterm => ⟨⟨hterm, trivial⟩, le_rfl⟩

theorem ends_database : Ends K (database : ParserM R (Database R)) :=
  ends_get.bind fun _ => ends_pure _

theorem ends_peek (n : ℕ) : Ends K (peek n : ParserM R (Token R)) :=
  ends_get.bind fun _ => ends_pure _

theorem ends_current : Ends K (current : ParserM R (Token R)) := ends_peek 0

omit [Scalar R] in
/-- The tokens behind the next one. -/
theorem goes_tail {s : Parser R} (hone : 1 < s.tokens.length) (hterm : Terminated s.tokens) :
    (Terminated s.tokens.tail ∧ K s { s with tokens := s.tokens.tail }) ∧
      s.tokens.tail.length + 1 ≤ s.tokens.length := by
  have htail := Frame.tail (K := K) s
  match hs : s.tokens with
  | [] | [_] => simp [hs] at hone
  | t :: u :: rest =>
    rw [hs] at hterm htail
    exact ⟨⟨hterm.tail, htail⟩, le_rfl⟩

/-- A token that is no end is taken away. -/
theorem consumes_advance : Consumes K (advance : ParserM R (Token R)) := by
  intro s hkind hterm
  have hone := hterm.one_lt hkind
  have hquiet : Quiet advance s (s.ahead 0) { s with tokens := s.tokens.tail } := by
    simp [advance, hone]
  exact .of_quiet hquiet (goes_tail hone hterm)

omit [Scalar R] in
theorem identifier_of_isWord {t : Token R} {w : Text} (h : t.isWord w = true) :
    t.kind = .identifier ∧ t.text = w := by
  simpa [Token.isWord] using h

theorem ends_advance : Ends K (advance : ParserM R (Token R)) := by
  intro s hterm
  by_cases hone : 1 < s.tokens.length
  · have hquiet : Quiet advance s (s.ahead 0) { s with tokens := s.tokens.tail } := by
      simp [advance, hone]
    obtain ⟨hkept, hlength⟩ := goes_tail (K := K) hone hterm
    exact .of_quiet hquiet ⟨hkept, Nat.le_of_succ_le hlength⟩
  · have hquiet : Quiet advance s (s.ahead 0) s := by
      simp [advance, hone]
    exact .of_quiet hquiet ⟨⟨hterm, Frame.refl s⟩, le_rfl⟩

/-- What a round keeps is kept from the start of the loop on. -/
theorem Advancing.leads {round : β → ParserM R (β × Bool)} (h : Advancing K round) (s : Parser R)
    (b : β) (s₁ : Parser R) (hs₁ : Terminated s₁.tokens ∧ K s s₁) :
    Leads (Excused R) (round b) s₁ fun r s' =>
      (Terminated s'.tokens ∧ K s s') ∧ s'.tokens.length + r.2.toNat ≤ s₁.tokens.length := by
  refine (h b s₁ hs₁.1).mono ?_
  rintro r s₂ ⟨⟨hterm₂, hkept₂⟩, hlength₂⟩
  exact ⟨⟨hterm₂, Frame.trans hs₁.2 hkept₂⟩, hlength₂⟩

theorem ends_while {round : β → ParserM R (β × Bool)} (h : Advancing K round) (b : β) :
    Ends K (while_ round b) := by
  intro s hterm
  refine .bind ?_
  change Leads (Excused R) (Reporting.loop .outOfFuel round (s.tokens.length + 1) b) s _
  exact .loop (h.leads s) b ⟨hterm, Frame.refl s⟩ (Nat.lt_succ_self _)

theorem ends_report (severity : Severity) (code : ErrorCode) (t : Token R) (message note : Text) :
    Ends K (report severity code t message note) :=
  ends_get.bind fun _ s hterm => ⟨⟨hterm, Frame.refl s⟩, le_rfl⟩

theorem ends_error (code : ErrorCode) (t : Token R) (message note : Text) :
    Ends K (error code t message note) := ends_report _ _ _ _ _

theorem ends_warn (code : ErrorCode) (t : Token R) (message note : Text) :
    Ends K (warn code t message note) := ends_report _ _ _ _ _

/-- A cast that is not defined is excused. -/
theorem ends_toInt64 (v : R) : Ends K (orStop .undefinedCast (toInt64 v) : ParserM R ℤ) := by
  intro s hterm
  cases hcast : toInt64 v with
  | none => exact ⟨rfl, v, hcast⟩
  | some i => exact ⟨⟨hterm, Frame.refl s⟩, le_rfl⟩

theorem ends_matchKind (k : TokenKind) : Ends K (matchKind k : ParserM R Bool) := by
  refine ends_current.bind fun t => ?_
  split_ifs
  · exact ends_advance.bind fun _ => ends_pure _
  · exact ends_pure _

theorem ends_expect (k : TokenKind) (what : String) : Ends K (expect k what : ParserM R Bool) := by
  refine ends_current.bind fun t => ?_
  split_ifs
  · exact ends_advance.bind fun _ => ends_pure _
  · exact (ends_error _ _ _ _).bind fun _ => ends_pure _

theorem ends_parseUnsigned : Ends K (parseUnsigned : ParserM R (Option (Token R))) := by
  refine ends_current.bind fun t => ?_
  split_ifs
  · exact (ends_error _ _ _ _).bind fun _ => ends_pure _
  · exact ends_advance.bind fun _ => ends_pure _

theorem ends_parseString : Ends K (parseString : ParserM R (Option Text)) := by
  refine ends_current.bind fun t => ?_
  split_ifs
  · exact (ends_error _ _ _ _).bind fun _ => ends_pure _
  · exact ends_advance.bind fun _ => ends_pure _

theorem ends_parseName : Ends K (parseName : ParserM R (Option Text)) := by
  refine ends_current.bind fun t => ?_
  split_ifs
  · exact (ends_error _ _ _ _).bind fun _ => ends_pure _
  · exact ends_advance.bind fun _ => ends_pure _

/-- The plus of a number that has no minus. -/
theorem ends_plus (negative : Bool) : Ends K (if negative then pure true else do
    let _ ← matchKind .plus
    return false : ParserM R Bool) := by
  split_ifs
  · exact ends_pure _
  · exact (ends_matchKind _).bind fun _ => ends_pure _

theorem ends_parseSign : Ends K (parseSign : ParserM R Bool) := (ends_matchKind _).bind ends_plus

/-- A number without its sign. -/
theorem ends_unsigned (negative : Bool) : Ends K (do
    let t ← current
    if t.kind ≠ .integer ∧ t.kind ≠ .real then
      error .parseBadNumber t (ascii "expected a number")
      return none
    else
      let token ← advance
      return some { negative, token } : ParserM R (Option (Number R))) := by
  refine ends_current.bind fun t => ?_
  split_ifs
  · exact (ends_error _ _ _ _).bind fun _ => ends_pure _
  · exact ends_advance.bind fun _ => ends_pure _

theorem ends_parseNumber : Ends K (parseNumber : ParserM R (Option (Number R))) :=
  ends_parseSign.bind ends_unsigned

/-- A token of another kind is left where it is. -/
theorem quiet_matchKind_ne {k : TokenKind} (hkind : (s.ahead 0).kind ≠ k) :
    Quiet (matchKind k) s false s := by
  simp [matchKind, current, peek, quiet_ite, hkind]

/-- A number is taken away, with a minus or without one. -/
theorem consumes_parseNumber (hkind : (s.ahead 0).kind = .integer ∨ (s.ahead 0).kind = .minus) :
    Goes K (parseNumber : ParserM R (Option (Number R))) s fun _ => 1 := by
  rcases hkind with hinteger | hminus
  · have hsign : Quiet parseSign s false s := by
      refine quiet_bind.2 ⟨false, s, quiet_matchKind_ne (by rw [hinteger]; decide), ?_⟩
      exact quiet_bind.2 ⟨false, s, quiet_matchKind_ne (by rw [hinteger]; decide),
        quiet_pure.2 ⟨rfl, rfl⟩⟩
    refine Goes.of_quiet hsign (Goes.current ?_)
    rw [if_neg (by rw [hinteger]; decide)]
    exact (consumes_advance s (by rw [hinteger]; decide)).andThen fun _ => ends_pure _
  · have hmatch : Goes K (matchKind .minus : ParserM R Bool) s fun _ => 1 := by
      refine Goes.current ?_
      rw [if_pos hminus]
      exact (consumes_advance s (by rw [hminus]; decide)).andThen fun _ => ends_pure _
    have hsign : Goes K (parseSign : ParserM R Bool) s fun _ => 1 :=
      hmatch.andThen ends_plus
    exact hsign.andThen ends_unsigned

/-! ### The loops -/

theorem advancing_resynchronise : Advancing K (resynchroniseRound : Unit → ParserM R (Unit × Bool)) := by
  intro _ s
  refine Goes.atEnd ?_
  split_ifs with hend
  · exact goes_last _
  have hkind : (s.ahead 0).kind ≠ .end := by simpa using hend
  refine Goes.current ?_
  split_ifs
  · exact (consumes_advance s hkind).round fun _ => ends_pure _
  · exact goes_last _
  · exact (consumes_advance s hkind).round fun _ => ends_pure _

theorem ends_resynchronise : Ends K (resynchronise : ParserM R Unit) :=
  ends_while advancing_resynchronise ()

theorem advancing_parseNameList :
    Advancing K (parseNameListRound : List Text → ParserM R (List Text × Bool)) := by
  intro names s
  refine Goes.current ?_
  split_ifs with hkind
  · exact goes_last _
  have hidentifier := not_not.1 hkind
  refine (consumes_advance s (by rw [hidentifier]; decide)).round fun token => ?_
  exact (ends_matchKind _).bind fun _ => ends_pure _

theorem ends_parseNameList : Ends K (parseNameList : ParserM R (List Text)) :=
  ends_while advancing_parseNameList []

theorem advancing_parseNewSymbols :
    Advancing K (parseNewSymbolsRound : List Text → ParserM R (List Text × Bool)) := by
  intro symbols s
  refine Goes.current (Goes.peek ?_)
  split_ifs with hkind
  · exact goes_last _
  · have hidentifier : (s.ahead 0).kind = .identifier := not_not.1 (not_or.1 hkind).1
    exact (consumes_advance s (by rw [hidentifier]; decide)).round fun token => ends_pure _
  · exact goes_last _

theorem advancing_parseNodes : Advancing K (parseNodesRound : Unit → ParserM R (Unit × Bool)) := by
  intro _ s
  refine Goes.current ?_
  split_ifs with hkind
  · exact goes_last _
  have hidentifier : (s.ahead 0).kind = .identifier := not_not.1 (not_or.1 hkind).1
  refine (consumes_advance s (by rw [hidentifier]; decide)).round fun token => ?_
  refine ends_database.bind fun db => ?_
  dsimp only
  split_ifs
  · refine Ends.bind (ends_modifyDb fun _ => rfl) fun _ => ?_
    exact (ends_matchKind _).bind fun _ => ends_pure _
  · exact (ends_matchKind _).bind fun _ => ends_pure _

theorem advancing_parseDescriptions :
    Advancing K (parseDescriptionsRound : List ValueDescription × List (Number R) → _) := by
  intro read s
  refine Goes.current ?_
  split_ifs with hkind
  · exact goes_last _
  have hnumber : (s.ahead 0).kind = .integer ∨ (s.ahead 0).kind = .minus := by
    by_contra hnone
    exact hkind (not_or.1 hnone)
  refine (consumes_parseNumber hnumber).round ?_
  rintro (_ | number)
  · exact ends_pure _
  refine (ends_toInt64 _).bind fun value => ends_parseString.bind ?_
  rintro (_ | text)
  · exact ends_pure _
  · exact ends_pure _

theorem ends_parseDescriptions :
    Ends K (parseDescriptions : ParserM R (List ValueDescription × List (Number R))) :=
  ends_while advancing_parseDescriptions _

theorem advancing_parseEnum : Advancing K (parseEnumRound : List Text → ParserM R (List Text × Bool)) := by
  intro values s
  refine Goes.current ?_
  split_ifs with hkind
  · exact goes_last _
  have hstring := not_not.1 hkind
  refine (consumes_advance s (by rw [hstring]; decide)).round fun token => ?_
  exact (ends_matchKind _).bind fun _ => ends_pure _

theorem ends_parseUpperBound (low : Token R) : Ends K (parseUpperBound low) := by
  refine (ends_matchKind _).bind fun upper => ?_
  split_ifs
  · refine ends_current.bind fun t => ?_
    split_ifs
    · exact (ends_error _ _ _ _).bind fun _ => ends_pure _
    · exact ends_advance.bind fun _ => ends_pure _
  · exact ends_pure _

theorem advancing_parseRanges (rawId : Token R) : Advancing K (parseRangesRound rawId) := by
  intro read s
  refine Goes.current ?_
  split_ifs with hkind
  · exact goes_last _
  have hinteger := not_not.1 hkind
  refine (consumes_advance s (by rw [hinteger]; decide)).round fun lowToken => ?_
  refine (ends_parseUpperBound lowToken).bind ?_
  rintro (_ | highToken)
  · exact ends_pure _
  dsimp only
  split_ifs
  · refine (ends_warn _ _ _ _).bind fun _ => ?_
    exact (ends_matchKind _).bind fun again => ends_pure _
  · exact (ends_matchKind _).bind fun again => ends_pure _

theorem ends_inRange (t : Token R) (ok : ℕ → Bool) (clamped : ℕ → ℕ) (code : ErrorCode)
    (message : String) : Ends K (inRange t ok clamped code message) := by
  unfold inRange
  split_ifs
  · exact ends_pure _
  · exact (ends_error _ _ _ _).bind fun _ => ends_pure _

theorem ends_parseIndicator : Ends K (parseIndicator : ParserM R (MultiplexRole × Option Text)) := by
  refine ends_current.bind fun t => ?_
  split_ifs
  · cases multiplexIndicator t.text with
    | none => exact ends_pure _
    | some read => exact ends_advance.bind fun _ => ends_pure _
  · exact ends_pure _

theorem ends_parseSignedness : Ends K (parseSignedness : ParserM R Signedness) := by
  refine (ends_matchKind _).bind fun plus => ?_
  split_ifs
  · exact ends_pure _
  refine (ends_matchKind _).bind fun minus => ?_
  split_ifs
  · exact ends_pure _
  · exact ends_current.bind fun t => (ends_error _ _ _ _).bind fun _ => ends_pure _

theorem ends_checkFactor (start : Token R) (name : Text) (layout : ScaledLayout R) :
    Ends K (checkFactor start name layout) := by
  unfold checkFactor
  split_ifs
  · exact (ends_warn _ _ _ _).bind fun _ => ends_pure _
  · exact ends_pure _

theorem ends_checkFits (start : Token R) (name : Text) (layout : ScaledLayout R)
    (message : Message R) : Ends K (checkFits start name layout message) := by
  unfold checkFits
  split_ifs
  · exact ends_pure _
  · exact ends_error _ _ _ _

/-- A line is taken away from its `SG_` on. -/
theorem consumes_parseSignal (open_ : Message R × List (SignalLine R)) :
    Consumes K (parseSignal open_) := by
  have hgive : Ends K (do
      resynchronise
      return open_ : ParserM R (Message R × List (SignalLine R))) :=
    ends_resynchronise.bind fun _ => ends_pure _
  refine consumes_advance.bind fun _ => ends_parseName.bind ?_
  rintro (_ | name)
  · exact hgive
  refine ends_parseIndicator.bind fun indicator => (ends_expect _ _).bind fun _ => ?_
  refine ends_parseUnsigned.bind ?_
  rintro (_ | start)
  · exact hgive
  refine (ends_inRange _ _ _ _ _).bind fun startBit => (ends_expect _ _).bind fun _ => ?_
  refine ends_parseUnsigned.bind ?_
  rintro (_ | length)
  · exact hgive
  refine (ends_inRange _ _ _ _ _).bind fun bitLength => (ends_expect _ _).bind fun _ => ?_
  refine ends_parseUnsigned.bind ?_
  rintro (_ | order)
  · exact hgive
  refine (ends_inRange _ _ _ _ _).bind fun byteOrder => ends_parseSignedness.bind fun sign => ?_
  refine (ends_expect _ _).bind fun _ => ends_parseNumber.bind ?_
  rintro (_ | factor)
  · exact hgive
  refine (ends_expect _ _).bind fun _ => ends_parseNumber.bind ?_
  rintro (_ | offset)
  · exact hgive
  refine (ends_expect _ _).bind fun _ => (ends_expect _ _).bind fun _ => ends_parseNumber.bind ?_
  rintro (_ | minimum)
  · exact hgive
  refine (ends_expect _ _).bind fun _ => ends_parseNumber.bind ?_
  rintro (_ | maximum)
  · exact hgive
  refine (ends_expect _ _).bind fun _ => ends_parseString.bind ?_
  rintro (_ | unit)
  · exact hgive
  refine ends_parseNameList.bind fun receivers => (ends_checkFactor _ _ _).bind fun layout => ?_
  exact (ends_checkFits _ _ _ _).bind fun _ => ends_pure _

theorem advancing_parseSignals :
    Advancing K (parseSignalsRound : Message R × List (SignalLine R) → _) := by
  intro open_ s
  refine Goes.current ?_
  split_ifs with hword
  · have hkind : (s.ahead 0).kind ≠ .end := by
      rw [(identifier_of_isWord hword).1]
      decide
    exact (consumes_parseSignal open_ s hkind).round fun _ => ends_pure _
  · exact goes_last _

/-! ### The sections -/

theorem consumes_parseVersion : Consumes K (parseVersion : ParserM R Unit) := by
  refine consumes_advance.bind fun _ => ends_parseString.bind ?_
  rintro (_ | version)
  · exact ends_resynchronise
  · exact ends_modifyDb fun _ => rfl

theorem consumes_parseNewSymbols : Consumes K (parseNewSymbols : ParserM R Unit) := by
  refine consumes_advance.bind fun _ => (ends_matchKind _).bind fun _ => ?_
  exact (ends_while advancing_parseNewSymbols _).bind fun _ => ends_modifyDb fun _ => rfl

theorem consumes_parseBitTiming : Consumes Free (parseBitTiming : ParserM R Unit) := by
  refine consumes_advance.bind fun _ => (ends_expect _ _).bind fun _ => ?_
  refine ends_current.bind fun t => ?_
  split_ifs
  · refine ends_parseUnsigned.bind fun baudrate => (ends_matchKind _).bind fun registers => ?_
    split_ifs
    · refine ends_parseUnsigned.bind fun btr1 => (ends_expect _ _).bind fun _ => ?_
      refine ends_parseUnsigned.bind fun btr2 => ?_
      exact (ends_record _).bind fun _ => ends_changeDb _
    · exact (ends_record _).bind fun _ => ends_changeDb _
  · exact ends_pure _

theorem consumes_parseNodes : Consumes K (parseNodes : ParserM R Unit) := by
  refine consumes_advance.bind fun _ => (ends_expect _ _).bind fun _ => ?_
  exact ends_while advancing_parseNodes ()

theorem consumes_parseValueTable : Consumes Free (parseValueTable : ParserM R Unit) := by
  refine consumes_advance.bind fun _ => ends_parseName.bind ?_
  rintro (_ | name)
  · exact ends_resynchronise
  refine ends_parseDescriptions.bind fun read => (ends_matchKind _).bind fun _ => ?_
  exact (ends_record _).bind fun _ => ends_changeDb _

theorem ends_parseMessageId (raw : Token R) : Ends K (parseMessageId raw) := by
  unfold parseMessageId
  dsimp only
  split
  · exact ends_pure _
  · split_ifs
    · exact (ends_warn _ _ _ _).bind fun _ => ends_pure _
    · exact (ends_error _ _ _ _).bind fun _ => ends_pure _

theorem ends_parseTransmitter : Ends K (parseTransmitter : ParserM R Text) := by
  refine ends_current.bind fun t => ?_
  split_ifs
  · exact ends_advance.bind fun _ => ends_pure _
  · exact (ends_warn _ _ _ _).bind fun _ => ends_pure _

theorem consumes_parseMessage : Consumes Free (parseMessage : ParserM R Unit) := by
  refine consumes_advance.bind fun _ => ends_parseUnsigned.bind ?_
  rintro (_ | rawId)
  · exact ends_resynchronise
  refine (ends_parseMessageId _).bind fun id => ends_parseName.bind ?_
  rintro (_ | name)
  · exact ends_resynchronise
  refine (ends_expect _ _).bind fun _ => ends_parseUnsigned.bind ?_
  rintro (_ | length)
  · exact ends_resynchronise
  refine (ends_inRange _ _ _ _ _).bind fun dlc => ends_parseTransmitter.bind fun transmitter => ?_
  refine (ends_while advancing_parseSignals _).bind fun read => ?_
  exact (ends_record _).bind fun _ => ends_changeDb _

theorem ends_findMessage (id : CanId) : Ends K (findMessage id : ParserM R (Option (Message R))) :=
  ends_database.bind fun _ => ends_pure _

theorem ends_findAttributeDefinition (name : Text) :
    Ends K (findAttributeDefinition name : ParserM R (Option (AttributeDefinition R))) :=
  ends_database.bind fun _ => ends_pure _

theorem consumes_parseMessageTransmitters :
    Consumes K (parseMessageTransmitters : ParserM R Unit) := by
  refine consumes_advance.bind fun _ => ends_parseUnsigned.bind ?_
  rintro (_ | rawId)
  · exact ends_resynchronise
  refine (ends_expect _ _).bind fun _ => (ends_parseMessageId _).bind fun id => ?_
  refine ends_parseNameList.bind fun names => (ends_matchKind _).bind fun _ => ?_
  refine (ends_findMessage id).bind ?_
  rintro (_ | m)
  · exact ends_warn _ _ _ _
  · exact ends_modifyMessage fun _ => rfl

theorem ends_finishComment : Ends K (finishComment : ParserM R (Option Text)) :=
  ends_parseString.bind fun _ => (ends_matchKind _).bind fun _ => ends_pure _

theorem ends_parseNodeComment (kind : Token R) : Ends K (parseNodeComment kind) := by
  refine ends_advance.bind fun _ => ends_parseName.bind ?_
  rintro (_ | node)
  · exact ends_resynchronise
  refine ends_database.bind fun db => ?_
  split
  · exact ends_finishComment.bind fun _ => ends_modifyDb fun _ => rfl
  · exact (ends_warn _ _ _ _).bind fun _ => ends_finishComment.bind fun _ => ends_pure _

theorem ends_parseMessageComment : Ends K (parseMessageComment : ParserM R Unit) := by
  refine ends_advance.bind fun _ => ends_parseUnsigned.bind ?_
  rintro (_ | rawId)
  · exact ends_resynchronise
  refine (ends_parseMessageId _).bind fun id => (ends_findMessage id).bind ?_
  rintro (_ | m)
  · exact (ends_warn _ _ _ _).bind fun _ => ends_finishComment.bind fun _ => ends_pure _
  · exact ends_finishComment.bind fun _ => ends_modifyMessage fun _ => rfl

theorem ends_parseSignalComment : Ends K (parseSignalComment : ParserM R Unit) := by
  refine ends_advance.bind fun _ => ends_parseUnsigned.bind ?_
  rintro (_ | rawId)
  · exact ends_resynchronise
  refine ends_parseName.bind ?_
  rintro (_ | name)
  · exact ends_resynchronise
  refine (ends_parseMessageId _).bind fun id => (ends_findMessage id).bind fun m => ?_
  split
  · exact ends_finishComment.bind fun _ => ends_modifySignal fun _ => rfl
  · exact (ends_warn _ _ _ _).bind fun _ => ends_finishComment.bind fun _ => ends_pure _

theorem consumes_parseComment : Consumes K (parseComment : ParserM R Unit) := by
  refine consumes_advance.bind fun _ => ends_current.bind fun kind => ?_
  split_ifs
  · exact ends_parseNodeComment kind
  · exact ends_parseMessageComment
  · exact ends_parseSignalComment
  · refine ends_advance.bind fun _ => ends_parseName.bind fun _ => ?_
    exact ends_finishComment.bind fun _ => ends_pure _
  · exact ends_finishComment.bind fun _ => ends_modifyDb fun _ => rfl

theorem consumes_skipUnsupportedSection (keyword why : Text) :
    Consumes K (skipUnsupportedSection keyword why : ParserM R Unit) := by
  intro s hkind
  refine Goes.current (Goes.warn ?_)
  exact (consumes_advance s hkind).andThen fun _ => ends_resynchronise

/-! ### Attributes -/

theorem ends_parseObjectKeyword (relation : Bool) :
    Ends K (parseObjectKeyword relation : ParserM R AttributeObject) := by
  have htaken (object : AttributeObject) : Ends K (do
      let _ ← advance
      return object : ParserM R AttributeObject) := ends_advance.bind fun _ => ends_pure _
  refine ends_current.bind fun t => ?_
  split_ifs
  · exact ends_pure _
  · exact htaken .node
  · exact htaken .message
  · exact htaken .signal
  · exact htaken .envVar
  · exact htaken .node
  · exact ends_pure _

theorem ends_parseBounds (definition : AttributeDefinition R) : Ends K (parseBounds definition) := by
  refine ends_parseNumber.bind ?_
  rintro (_ | minimum)
  · exact ends_pure _
  refine ends_parseNumber.bind ?_
  rintro (_ | maximum)
  · exact ends_pure _
  · exact ends_pure _

theorem ends_parseAttributeType (keyword : Token R) (definition : AttributeDefinition R) :
    Ends K (parseAttributeType keyword definition) := by
  refine ends_advance.bind fun token => ?_
  dsimp only
  split_ifs
  · exact ends_parseBounds _
  · exact ends_parseBounds _
  · exact ends_parseBounds _
  · exact ends_pure _
  · exact (ends_while advancing_parseEnum _).bind fun _ => ends_pure _
  · exact (ends_error _ _ _ _).bind fun _ => ends_pure _

theorem consumes_parseAttributeDefinition (relation : Bool) :
    Consumes K (parseAttributeDefinition relation : ParserM R Unit) := by
  refine consumes_advance.bind fun keyword => (ends_parseObjectKeyword _).bind fun object => ?_
  refine ends_parseString.bind ?_
  rintro (_ | name)
  · exact ends_resynchronise
  refine ends_current.bind fun t => ?_
  split_ifs
  · exact (ends_error _ _ _ _).bind fun _ => ends_resynchronise
  refine (ends_parseAttributeType _ _).bind ?_
  rintro (_ | definition)
  · exact ends_resynchronise
  refine (ends_matchKind _).bind fun _ => (ends_findAttributeDefinition name).bind ?_
  rintro (_ | known)
  · exact ends_modifyDb fun _ => rfl
  · exact ends_warn _ _ _ _

theorem ends_attributeNumber (definition : Option (AttributeDefinition R)) (v : R) :
    Ends K (attributeNumber definition v) := by
  unfold attributeNumber
  cases definition with
  | none => exact ends_pure _
  | some d =>
    dsimp only
    split
    · exact (ends_toInt64 v).bind fun _ => ends_pure _
    · exact (ends_toInt64 v).bind fun _ => ends_pure _
    · exact ends_pure _
    · exact (ends_toInt64 v).bind fun _ => ends_pure _
    · exact ends_pure _

theorem ends_parseAttributeLiteral (definition : Option (AttributeDefinition R)) :
    Ends K (parseAttributeLiteral definition) := by
  refine ends_current.bind fun t => ?_
  split_ifs
  · refine ends_advance.bind fun token => ?_
    cases definition with
    | none => exact ends_pure _
    | some d =>
      dsimp only
      split_ifs
      · exact ends_pure _
      · exact ends_pure _
  · refine ends_parseNumber.bind ?_
    rintro (_ | number)
    · exact ends_pure _
    · exact ends_attributeNumber _ _

theorem consumes_parseAttributeDefault : Consumes K (parseAttributeDefault : ParserM R Unit) := by
  refine consumes_advance.bind fun _ => ends_parseString.bind ?_
  rintro (_ | name)
  · exact ends_resynchronise
  refine (ends_findAttributeDefinition name).bind ?_
  rintro (_ | definition)
  · refine ends_current.bind fun t => (ends_warn _ _ _ _).bind fun _ => ?_
    refine (ends_parseAttributeLiteral _).bind fun value => (ends_matchKind _).bind fun _ => ?_
    exact ends_modifyDb fun _ => rfl
  · refine (ends_parseAttributeLiteral _).bind fun value => (ends_matchKind _).bind fun _ => ?_
    exact ends_modifyDb fun _ => rfl

theorem ends_assignAttribute (name : Text) (value : AttributeValue R) (target : Target)
    (t : Token R) : Ends K (assignAttribute name value target t) := by
  unfold assignAttribute
  split
  · exact ends_modifyDb fun _ => rfl
  · exact ends_modifyDb fun _ => rfl
  · exact ends_modifyMessage fun _ => rfl
  · exact ends_modifySignal fun _ => rfl
  · exact ends_pure _
  · exact ends_warn _ _ _ _
  · exact ends_warn _ _ _ _
  · exact ends_warn _ _ _ _

theorem ends_parseTarget : Ends K (parseTarget : ParserM R (Option Target)) := by
  refine ends_current.bind fun t => ?_
  split_ifs
  · exact ends_pure _
  · refine ends_advance.bind fun _ => ends_parseName.bind ?_
    rintro (_ | node)
    · exact ends_pure _
    · exact ends_database.bind fun db => ends_pure _
  · refine ends_advance.bind fun _ => ends_parseUnsigned.bind ?_
    rintro (_ | rawId)
    · exact ends_pure _
    · refine (ends_parseMessageId _).bind fun id => ?_
      exact (ends_findMessage id).bind fun m => ends_pure _
  · refine ends_advance.bind fun _ => ends_parseUnsigned.bind ?_
    rintro (_ | rawId)
    · exact ends_pure _
    refine ends_parseName.bind ?_
    rintro (_ | signal)
    · exact ends_pure _
    · refine (ends_parseMessageId _).bind fun id => ?_
      exact (ends_findMessage id).bind fun m => ends_pure _
  · exact ends_advance.bind fun _ => ends_parseName.bind fun _ => ends_pure _
  · exact ends_pure _

theorem consumes_parseAttributeValue : Consumes K (parseAttributeValue : ParserM R Unit) := by
  refine consumes_advance.bind fun keyword => ends_parseString.bind ?_
  rintro (_ | name)
  · exact ends_resynchronise
  refine (ends_findAttributeDefinition name).bind fun definition => ends_parseTarget.bind ?_
  rintro (_ | target)
  · exact ends_resynchronise
  refine (ends_parseAttributeLiteral _).bind fun value => (ends_matchKind _).bind fun _ => ?_
  exact ends_assignAttribute _ _ _ _

/-! ### Signals once more -/

theorem consumes_parseValueDescriptions : Consumes Free (parseValueDescriptions : ParserM R Unit) := by
  refine consumes_advance.bind fun _ => ends_parseUnsigned.bind ?_
  rintro (_ | rawId)
  · exact ends_resynchronise
  refine ends_parseName.bind ?_
  rintro (_ | name)
  · exact ends_resynchronise
  refine ends_parseDescriptions.bind fun read => (ends_matchKind _).bind fun _ => ?_
  refine (ends_parseMessageId _).bind fun id => (ends_findMessage id).bind fun m => ?_
  split
  · exact ends_warn _ _ _ _
  · exact (ends_record _).bind fun _ => ends_changeSignal _ _ _

theorem ends_parseValueType (kind : Token R) (layout : ScaledLayout R) :
    Ends K (parseValueType kind layout) := by
  unfold parseValueType
  split
  · exact ends_pure _
  · split_ifs
    · exact (ends_error _ _ _ _).bind fun _ => ends_pure _
    · exact ends_pure _
  · split_ifs
    · exact (ends_error _ _ _ _).bind fun _ => ends_pure _
    · exact ends_pure _
  · exact (ends_error _ _ _ _).bind fun _ => ends_pure _

theorem consumes_parseSignalValueType : Consumes K (parseSignalValueType : ParserM R Unit) := by
  refine consumes_advance.bind fun _ => ends_parseUnsigned.bind ?_
  rintro (_ | rawId)
  · exact ends_resynchronise
  refine ends_parseName.bind ?_
  rintro (_ | name)
  · exact ends_resynchronise
  refine (ends_matchKind _).bind fun _ => ends_parseUnsigned.bind ?_
  rintro (_ | kind)
  · exact ends_resynchronise
  refine (ends_matchKind _).bind fun _ => (ends_parseMessageId _).bind fun id => ?_
  refine (ends_findMessage id).bind fun m => ?_
  split
  · exact ends_warn _ _ _ _
  · refine (ends_parseValueType _ _).bind ?_
    rintro (_ | layout)
    · exact ends_pure _
    · exact ends_modifySignal fun _ => rfl

theorem consumes_parseExtendedMultiplexing :
    Consumes Free (parseExtendedMultiplexing : ParserM R Unit) := by
  refine consumes_advance.bind fun _ => ends_parseUnsigned.bind ?_
  rintro (_ | rawId)
  · exact ends_resynchronise
  refine ends_parseName.bind ?_
  rintro (_ | multiplexed)
  · exact ends_resynchronise
  refine ends_parseName.bind ?_
  rintro (_ | multiplexorName)
  · exact ends_resynchronise
  refine (ends_while (advancing_parseRanges _) _).bind fun read => ?_
  refine (ends_matchKind _).bind fun _ => (ends_parseMessageId _).bind fun id => ?_
  refine (ends_findMessage id).bind fun m => ?_
  split
  · exact ends_warn _ _ _ _
  dsimp only
  split
  · refine (ends_warn _ _ _ _).bind fun _ => ?_
    exact (ends_record _).bind fun _ => ends_changeSignal _ _ _
  · exact (ends_record _).bind fun _ => ends_changeSignal _ _ _

/-! ### The file -/

/-- The words `resynchronise` stops at. -/
def AtKeyword (t : Token R) : Prop := t.kind = .identifier ∧ isTopLevelKeyword t.text = true

/-- Away from those words it takes a token away. -/
theorem consumes_resynchronise (hkind : (s.ahead 0).kind ≠ .end) (hword : ¬AtKeyword (s.ahead 0)) :
    Goes K (resynchronise : ParserM R Unit) s fun _ => 1 := by
  have hfirst : Goes K (resynchroniseRound () : ParserM R (Unit × Bool)) s fun _ => 1 := by
    refine Goes.atEnd ?_
    rw [if_neg (by simpa using hkind)]
    refine Goes.current ?_
    split_ifs with hsemicolon hstops
    · exact (consumes_advance s hkind).andThen fun _ => ends_pure _
    · exact absurd hstops.2 hword
    · exact (consumes_advance s hkind).andThen fun _ => ends_pure _
  intro hterm
  refine .bind ?_
  change Leads (Excused R) (Reporting.loop .outOfFuel _ (s.tokens.length + 1) ()) s _
  exact .loop_first (advancing_resynchronise.leads s) (hfirst hterm) (Nat.lt_succ_self _)

/-- The words of `run` that have a production of their own. -/
def kDispatched : List Text :=
  ["VERSION", "NS_", "BS_", "BU_", "VAL_TABLE_", "BO_", "BO_TX_BU_", "CM_", "BA_DEF_",
    "BA_DEF_REL_", "BA_DEF_DEF_", "BA_DEF_DEF_REL_", "BA_", "BA_REL_", "VAL_", "SIG_VALTYPE_",
    "SG_MUL_VAL_", "EV_"].map ascii

/-- **The two lists agree**: where `resynchronise` stops, `run` has a production or skips. -/
theorem mem_kWords {w : Text} (h : w ∈ kWords) : w ∈ kDispatched ∨ w ∈ kSkipped := by
  have hall : ∀ w ∈ kWords, w ∈ kDispatched ∨ w ∈ kSkipped := by decide
  exact hall w h

omit [Scalar R] in
theorem not_atKeyword {t : Token R} (hnone : ∀ w ∈ kDispatched, ¬t.isWord w = true)
    (hskipped : ¬kSkipped.contains t.text = true) : ¬AtKeyword t := by
  rintro ⟨hidentifier, hword⟩
  rcases mem_kWords (List.contains_iff_mem.1 hword) with hmem | hmem
  · exact hnone _ hmem (by simp [Token.isWord, hidentifier])
  · exact hskipped (List.contains_iff_mem.2 hmem)

/-- **A statement is taken away**: its word by the production it has, and a token that begins no
statement by `resynchronise`. -/
theorem consumes_parseStatement (hkind : (s.ahead 0).kind ≠ .end) :
    Goes Free (parseStatement (s.ahead 0)) s fun _ => 1 := by
  refine .ite (fun hidentifier => ?_) fun _ => ?_
  · refine Goes.error (consumes_resynchronise hkind ?_)
    exact fun hword => hidentifier hword.1
  refine .ite (fun _ => consumes_parseVersion s hkind) fun hversion => ?_
  refine .ite (fun _ => consumes_parseNewSymbols s hkind) fun hns => ?_
  refine .ite (fun _ => consumes_parseBitTiming s hkind) fun hbs => ?_
  refine .ite (fun _ => consumes_parseNodes s hkind) fun hbu => ?_
  refine .ite (fun _ => consumes_parseValueTable s hkind) fun hvalTable => ?_
  refine .ite (fun _ => consumes_parseMessage s hkind) fun hbo => ?_
  refine .ite (fun _ => consumes_parseMessageTransmitters s hkind) fun hboTxBu => ?_
  refine .ite (fun _ => consumes_parseComment s hkind) fun hcm => ?_
  refine .ite (fun _ => consumes_parseAttributeDefinition _ s hkind) fun hbaDef => ?_
  refine .ite (fun _ => consumes_parseAttributeDefinition _ s hkind) fun hbaDefRel => ?_
  refine .ite (fun _ => consumes_parseAttributeDefault s hkind) fun hbaDefDef => ?_
  refine .ite (fun _ => consumes_parseAttributeDefault s hkind) fun hbaDefDefRel => ?_
  refine .ite (fun _ => consumes_parseAttributeValue s hkind) fun hba => ?_
  refine .ite (fun _ => consumes_parseAttributeValue s hkind) fun hbaRel => ?_
  refine .ite (fun _ => consumes_parseValueDescriptions s hkind) fun hval => ?_
  refine .ite (fun _ => consumes_parseSignalValueType s hkind) fun hsigValtype => ?_
  refine .ite (fun _ => consumes_parseExtendedMultiplexing s hkind) fun hsgMulVal => ?_
  refine .ite (fun _ => consumes_skipUnsupportedSection _ _ s hkind) fun hev => ?_
  refine .ite (fun _ => consumes_skipUnsupportedSection _ _ s hkind) fun hskipped => ?_
  have hnone : ∀ w ∈ kDispatched, ¬(s.ahead 0).isWord w = true := by
    simp only [kDispatched, List.map_cons, List.map_nil, List.forall_mem_cons]
    exact ⟨hversion, hns, hbs, hbu, hvalTable, hbo, hboTxBu, hcm, hbaDef, hbaDefRel, hbaDefDef,
      hbaDefDefRel, hba, hbaRel, hval, hsigValtype, hsgMulVal, hev, fun _ hmem => by cases hmem⟩
  have hword := not_atKeyword hnone hskipped
  refine .ite (fun _ => ?_) fun _ => ?_
  · exact Goes.error (consumes_resynchronise hkind hword)
  · exact Goes.error (consumes_resynchronise hkind hword)

theorem advancing_run : Advancing Free (runRound : Unit → ParserM R (Unit × Bool)) := by
  intro _ s
  refine Goes.atEnd ?_
  split_ifs with hend
  · exact goes_last _
  have hkind : (s.ahead 0).kind ≠ .end := by simpa using hend
  exact Goes.current ((consumes_parseStatement hkind).round fun _ => ends_pure _)

end Parser

end Dbc
end Canforge
