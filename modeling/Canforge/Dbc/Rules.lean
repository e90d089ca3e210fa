/-
# What is read of a written text

`Reads N p ls db Q`: where the tokens spell the lexemes `ls` and the one behind them is as `N`
says, `p` consumes just these, reports no error, and ends as `Q` says of its result and of the
database.  Here are the rules for the pieces of the parser; a production follows by one rule for
every piece of it.

`Ahead` is the condition for a piece that looks at the token behind what it consumes.
-/

import Canforge.Dbc.Lexemes

namespace Canforge
namespace Dbc

open Canforge.Core Text Lib Reporting

variable {R : Type} [Scalar R]

/-- A report that is no error. -/
def Tolerable (d : Diagnostic) : Prop := d.severity ≠ .error

/-- The kind of the token of a lexeme. -/
def Lexeme.kind : Lexeme → TokenKind
  | word _ => .identifier
  | number w => if w.all isDigit then .integer else .real
  | string _ => .string
  | mark c => Lexer.punctuation c

@[simp] theorem Lexeme.token_kind (l : Lexeme) (location : SourceLocation) (first : Bool) :
    (l.token location first : Token R).kind = l.kind := by
  cases l with
  | number w => simp only [token, kind]; split_ifs <;> rfl
  | word w | string w | mark w => rfl

theorem Spells.of_append {ls ls' : List (Lexeme × Bool)} {tokens : List (Token R)}
    (h : Spells (ls ++ ls') tokens) :
    ∃ ts ts', Spells ls ts ∧ Spells ls' ts' ∧ tokens = ts ++ ts' := by
  induction ls generalizing tokens with
  | nil => exact ⟨[], tokens, .nil, h, rfl⟩
  | cons l ls ih =>
    obtain ⟨t, ts, ht, hts, rfl⟩ := List.forall₂_cons_left_iff.1 h
    obtain ⟨us, us', hus, hus', rfl⟩ := ih hts
    exact ⟨t :: us, us', .cons ht hus, hus', rfl⟩

namespace Parser

variable {α β : Type} {N N' : Token R → Prop} {p : ParserM R α} {f : α → ParserM R β}
  {ls ls' : List (Lexeme × Bool)} {l : Lexeme} {first : Bool} {db db' : Database R}
  {Q Q' : α → Database R → Prop} {Q₂ : β → Database R → Prop}

/-- **The code reads these lexemes** in front of a token as `N` says. -/
def Reads (N : Token R → Prop) (p : ParserM R α) (ls : List (Lexeme × Bool)) (db : Database R)
    (Q : α → Database R → Prop) : Prop :=
  ∀ (s : Parser R) (tokens rest : List (Token R)), s.tokens = tokens ++ rest → Spells ls tokens →
    (∃ t ∈ rest.head?, N t) → s.db = db →
    Gives Tolerable p s fun a s' => s'.tokens = rest ∧ Q a s'.db

/-- Any token. -/
def Any (_ : Token R) : Prop := True

/-- The token behind what a piece consumes is as `N'` says: that of the next lexeme, or the one
behind all of them. -/
def Ahead (N' : Token R → Prop) (ls : List (Lexeme × Bool)) (N : Token R → Prop) : Prop :=
  match ls with
  | [] => ∀ t, N t → N' t
  | l :: _ => ∀ location, N' (l.1.token location l.2)

theorem Ahead.of_forall (h : ∀ t, N' t) : Ahead N' ls N := by
  cases ls with
  | nil => exact fun t _ => h t
  | cons l ls => exact fun location => h _

theorem Ahead.mono {M : Token R → Prop} (h : Ahead N' ls N) (hM : ∀ t, N' t → M t) : Ahead M ls N := by
  cases ls with
  | nil => exact fun t ht => hM t (h t ht)
  | cons l ls => exact fun location => hM _ (h location)

namespace Reads

theorem mono (h : Reads N' p ls db Q') (hN : ∀ t, N t → N' t)
    (hQ : ∀ a db', Q' a db' → Q a db') : Reads N p ls db Q := by
  rintro s tokens rest htokens hspells ⟨t, ht, hnext⟩ hdb
  exact (h s tokens rest htokens hspells ⟨t, ht, hN t hnext⟩ hdb).mono
    fun a s' ⟨hrest, hq⟩ => ⟨hrest, hQ a s'.db hq⟩

/-- Code that does not look ahead. -/
theorem any (h : Reads Any p ls db Q) : Reads N p ls db Q := h.mono (fun _ _ => trivial) fun _ _ => id

theorem pure {a : α} (h : Q a db) : Reads N (pure a) [] db Q := by
  rintro s tokens rest htokens hspells - rfl
  obtain rfl := List.forall₂_nil_left_iff.1 hspells
  exact Gives.pure ⟨htokens, h⟩

/-- **One piece of code behind another.** -/
theorem bind (hp : Reads N' p ls db Q) (hahead : Ahead N' ls' N)
    (hf : ∀ a db', Q a db' → Reads N (f a) ls' db' Q₂) : Reads N (p >>= f) (ls ++ ls') db Q₂ := by
  rintro s tokens rest htokens hspells hnext hdb
  obtain ⟨ts, ts', hts, hts', rfl⟩ := hspells.of_append
  rw [List.append_assoc] at htokens
  have hnext' : ∃ t ∈ (ts' ++ rest).head?, N' t := by
    cases hts' with
    | nil =>
      obtain ⟨t, ht, hn⟩ := hnext
      exact ⟨t, ht, hahead t hn⟩
    | cons hone =>
      obtain ⟨location, rfl⟩ := hone
      exact ⟨_, rfl, hahead location⟩
  refine Gives.bind ((hp s ts (ts' ++ rest) htokens hts hnext' hdb).mono ?_)
  rintro a s' ⟨hrest, hq⟩
  exact hf a s'.db hq s' ts' rest hrest hts' hnext rfl

/-- Code behind code that does not look ahead. -/
theorem next (hp : Reads Any p ls db Q) (hf : ∀ a db', Q a db' → Reads N (f a) ls' db' Q₂) :
    Reads N (p >>= f) (ls ++ ls') db Q₂ := by
  exact hp.bind (Ahead.of_forall fun _ => trivial) hf

/-- Code behind code that reads one lexeme. -/
theorem step (hp : Reads Any p [(l, first)] db Q)
    (hf : ∀ a db', Q a db' → Reads N (f a) ls db' Q₂) :
    Reads N (p >>= f) ((l, first) :: ls) db Q₂ := hp.next hf

/-- Code behind code that reads nothing. -/
theorem skip (hp : Reads N' p [] db Q) (hahead : Ahead N' ls N)
    (hf : ∀ a db', Q a db' → Reads N (f a) ls db' Q₂) : Reads N (p >>= f) ls db Q₂ :=
  hp.bind hahead hf

/-! ### The state -/

/-- The token of the next lexeme is looked at. -/
theorem current {f : Token R → ParserM R β}
    (h : ∀ location, Reads N (f (l.token location first)) ((l, first) :: ls) db Q₂) :
    Reads N (Parser.current >>= f) ((l, first) :: ls) db Q₂ := by
  rintro s tokens rest htokens hspells hnext hdb
  obtain ⟨t, ts, ⟨location, rfl⟩, hts, rfl⟩ := List.forall₂_cons_left_iff.1 hspells
  have hcurrent : Quiet Parser.current s (l.token location first) s := by
    have hahead : s.ahead 0 = l.token location first := by rw [ahead, htokens]; rfl
    rw [← hahead]
    rfl
  exact Gives.bind (Gives.of_quiet hcurrent (h location s _ rest htokens hspells hnext hdb))

/-- The token behind all of the lexemes is looked at. -/
theorem current_behind {f : Token R → ParserM R β} (h : ∀ t, N t → Reads N (f t) [] db Q₂) :
    Reads N (Parser.current >>= f) [] db Q₂ := by
  rintro s tokens rest htokens hspells ⟨t, ht, hnext⟩ hdb
  obtain rfl := List.forall₂_nil_left_iff.1 hspells
  have hcurrent : Quiet Parser.current s t s := by
    have hahead : s.ahead 0 = t := by
      rw [ahead, htokens, List.nil_append]
      cases rest with
      | nil => cases ht
      | cons u rest => exact Option.some.inj ht
    rw [← hahead]
    rfl
  exact Gives.bind (Gives.of_quiet hcurrent (h t hnext s [] rest htokens hspells ⟨t, ht, hnext⟩ hdb))

/-- The next token is looked at, whether it is one of the lexemes or the one behind them. -/
theorem current_ahead {f : Token R → ParserM R β} (hahead : Ahead N' ls N)
    (h : ∀ t, N' t → Reads N (f t) ls db Q₂) : Reads N (Parser.current >>= f) ls db Q₂ := by
  cases ls with
  | nil => exact current_behind fun t ht => h t (hahead t ht)
  | cons l ls => exact current fun location => h _ (hahead location)

/-- The token behind the next one is looked at. -/
theorem peek_one {f : Token R → ParserM R β} (hahead : Ahead N' ls N)
    (h : ∀ t, N' t → Reads N (f t) ((l, first) :: ls) db Q₂) :
    Reads N (Parser.peek 1 >>= f) ((l, first) :: ls) db Q₂ := by
  rintro s tokens rest htokens hspells ⟨t, ht, hnext⟩ hdb
  obtain ⟨u, ts, hu, hts, rfl⟩ := List.forall₂_cons_left_iff.1 hspells
  have hone : ∃ t', N' t' ∧ Quiet (Parser.peek 1) s t' s := by
    refine ⟨s.ahead 1, ?_, rfl⟩
    cases hts with
    | nil =>
      have hget : s.ahead 1 = t := by
        cases rest with
        | nil => cases ht
        | cons v rest => rw [ahead, htokens]; exact Option.some.inj ht
      rw [hget]
      exact hahead t hnext
    | cons hv =>
      obtain ⟨location, rfl⟩ := hv
      rw [ahead, htokens]
      exact hahead location
  obtain ⟨t', ht', hquiet⟩ := hone
  exact Gives.bind (Gives.of_quiet hquiet (h t' ht' s _ rest htokens hspells ⟨t, ht, hnext⟩ hdb))

/-- A token ahead is looked at, and nothing is known of it. -/
theorem peek {n : ℕ} {f : Token R → ParserM R β} (h : ∀ t, Reads N (f t) ls db Q₂) :
    Reads N (Parser.peek n >>= f) ls db Q₂ := by
  rintro s tokens rest htokens hspells hnext hdb
  have hquiet : Quiet (Parser.peek n) s (s.ahead n) s := rfl
  exact Gives.bind (Gives.of_quiet hquiet (h _ s tokens rest htokens hspells hnext hdb))

theorem advance : Reads Any Parser.advance [(l, first)] db
    fun t db' => (∃ location, t = l.token location first) ∧ db' = db := by
  rintro s tokens rest htokens hspells ⟨t, ht, -⟩ rfl
  obtain ⟨t, ts, ⟨location, rfl⟩, hts, rfl⟩ := List.forall₂_cons_left_iff.1 hspells
  obtain rfl := List.forall₂_nil_left_iff.1 hts
  have hmore : 1 < s.tokens.length := by
    cases rest with
    | nil => cases ht
    | cons u rest => simp [htokens]
  have hadvance : Quiet Parser.advance s (l.token location first)
      { s with tokens := s.tokens.tail } := by
    have hahead : s.ahead 0 = l.token location first := by rw [ahead, htokens]; rfl
    rw [← hahead]
    refine quiet_bind.2 ⟨s, s, rfl, quiet_bind.2 ⟨(), _, ?_, rfl⟩⟩
    rw [quiet_modify, if_pos hmore]
  refine Gives.of_quiet hadvance ⟨?_, ⟨location, rfl⟩, rfl⟩
  rw [htokens]
  rfl

theorem database {f : Database R → ParserM R β} (h : Reads N (f db) ls db Q₂) :
    Reads N (Parser.database >>= f) ls db Q₂ := by
  rintro s tokens rest htokens hspells hnext rfl
  have hdatabase : Quiet Parser.database s s.db s := rfl
  exact Gives.bind (Gives.of_quiet hdatabase (h s tokens rest htokens hspells hnext rfl))

theorem modifyDb (g : Database R → Database R) :
    Reads Any (Parser.modifyDb g) [] db fun _ db' => db' = g db := by
  rintro s tokens rest htokens hspells - rfl
  obtain rfl := List.forall₂_nil_left_iff.1 hspells
  exact Gives.of_quiet (a := ()) (quiet_modify.2 rfl) ⟨htokens, rfl⟩

theorem record (statement : Statement R) :
    Reads Any (Parser.record statement) [] db fun _ db' => db' = db := by
  rintro s tokens rest htokens hspells - rfl
  obtain rfl := List.forall₂_nil_left_iff.1 hspells
  exact Gives.of_quiet (a := ()) (quiet_modify.2 rfl) ⟨htokens, rfl⟩

theorem warn (code : ErrorCode) (t : Token R) (message note : Text) :
    Reads Any (Parser.warn code t message note) [] db fun _ db' => db' = db := by
  rintro s tokens rest htokens hspells - rfl
  obtain rfl := List.forall₂_nil_left_iff.1 hspells
  have hget : Quiet (Reporting.get : ParserM R (Parser R)) s s s := rfl
  refine Gives.bind (Gives.of_quiet hget (Gives.report ?_ ⟨htokens, rfl⟩))
  exact Severity.noConfusion

theorem orStop {e : Stop} {a : α} {o : Option α} (ho : o = some a) :
    Reads Any (Reporting.orStop e o : ParserM R α) [] db fun b db' => b = a ∧ db' = db := by
  subst ho
  exact Reads.pure ⟨rfl, rfl⟩

/-! ### Loops -/

/-- The last round of a loop. -/
theorem loop_last {round : β → ParserM R (β × Bool)} {n : ℕ} {b : β}
    (h : Reads N (round b) ls db fun r db' => r.2 = false ∧ Q₂ r.1 db') :
    Reads N (Reporting.loop .outOfFuel round (n + 1) b) ls db Q₂ := by
  rw [Reporting.loop, ← List.append_nil ls]
  refine h.bind (fun _ ht => ht) ?_
  rintro ⟨b', again⟩ db' ⟨rfl, hq⟩
  exact Reads.pure hq

/-- A round that another one follows. -/
theorem loop_more {round : β → ParserM R (β × Bool)} {Q' : β × Bool → Database R → Prop} {n : ℕ}
    {b : β} (h : Reads N' (round b) ls db Q') (hahead : Ahead N' ls' N)
    (hmore : ∀ r db', Q' r db' →
      r.2 = true ∧ Reads N (Reporting.loop .outOfFuel round n r.1) ls' db' Q₂) :
    Reads N (Reporting.loop .outOfFuel round (n + 1) b) (ls ++ ls') db Q₂ := by
  rw [Reporting.loop]
  refine h.bind hahead ?_
  rintro ⟨b', again⟩ db' hq
  obtain ⟨rfl, hloop⟩ := hmore _ db' hq
  exact hloop

/-- A loop has a round for every lexeme, and one more. -/
theorem while_ {round : β → ParserM R (β × Bool)} {b : β}
    (h : ∀ n, ls.length < n → Reads N (Reporting.loop .outOfFuel round n b) ls db Q₂) :
    Reads N (Parser.while_ round b) ls db Q₂ := by
  rintro s tokens rest htokens hspells hnext hdb
  have hget : Quiet (Reporting.get : ParserM R (Parser R)) s s s := rfl
  have hlength : ls.length < s.tokens.length + 1 := by
    rw [htokens, List.length_append, ← hspells.length_eq]
    omega
  exact Gives.bind (Gives.of_quiet hget (h _ hlength s tokens rest htokens hspells hnext hdb))

/-! ### The pieces -/

theorem atEnd : Reads (fun t : Token R => t.kind ≠ .end) Parser.atEnd [] db
    fun b db' => b = false ∧ db' = db :=
  current_behind fun _ ht => Reads.pure ⟨decide_eq_false ht, rfl⟩

theorem atEnd_of_end : Reads (fun t : Token R => t.kind = .end) Parser.atEnd [] db
    fun b db' => b = true ∧ db' = db :=
  current_behind fun _ ht => Reads.pure ⟨decide_eq_true ht, rfl⟩

theorem matchKind {k : TokenKind} (h : l.kind = k) :
    Reads Any (Parser.matchKind k) [(l, first)] db fun b db' => b = true ∧ db' = db := by
  refine current fun location => ?_
  rw [if_pos (by rw [Lexeme.token_kind, h])]
  refine advance.step ?_
  rintro t db' ⟨-, rfl⟩
  exact Reads.pure ⟨rfl, rfl⟩

/-- A mark that is not there. -/
theorem matchKind_absent {k : TokenKind} : Reads (fun t : Token R => t.kind ≠ k)
    (Parser.matchKind k) [] db fun b db' => b = false ∧ db' = db := by
  refine current_behind fun t ht => ?_
  rw [if_neg ht]
  exact Reads.pure ⟨rfl, rfl⟩

theorem expect {k : TokenKind} {what : String} (h : l.kind = k) :
    Reads Any (Parser.expect k what) [(l, first)] db fun b db' => b = true ∧ db' = db := by
  refine current fun location => ?_
  rw [if_pos (by rw [Lexeme.token_kind, h])]
  refine advance.step ?_
  rintro t db' ⟨-, rfl⟩
  exact Reads.pure ⟨rfl, rfl⟩

theorem parseName {w : Text} : Reads Any Parser.parseName [(.word w, first)] db
    fun name db' => name = some w ∧ db' = db := by
  refine current fun location => ?_
  rw [if_neg (by simp [Lexeme.kind])]
  refine advance.step ?_
  rintro t db' ⟨⟨location, rfl⟩, rfl⟩
  exact Reads.pure ⟨rfl, rfl⟩

theorem parseString {value : Text} : Reads Any Parser.parseString [(.string value, first)] db
    fun text db' => text = some value ∧ db' = db := by
  refine current fun location => ?_
  rw [if_neg (by simp [Lexeme.kind])]
  refine advance.step ?_
  rintro t db' ⟨⟨location, rfl⟩, rfl⟩
  exact Reads.pure ⟨rfl, rfl⟩

/-- An unsigned number is its token. -/
theorem parseUnsigned {w : Text} (h : w.all isDigit) :
    Reads Any Parser.parseUnsigned [(.number w, first)] db fun t db' =>
      (∃ location, t = some ((Lexeme.number w).token location first)) ∧ db' = db := by
  refine current fun location => ?_
  rw [if_neg (by simp [Lexeme.kind, h])]
  refine advance.step ?_
  rintro t db' ⟨⟨location, rfl⟩, rfl⟩
  exact Reads.pure ⟨⟨location, rfl⟩, rfl⟩

end Reads

end Parser
end Dbc
end Canforge
