/-
# What is read of the statements up to the messages

One rule for every statement that is written: its production reads the lexemes of the line in front
of what stands `Behind` a statement, and makes of the database what `Line.apply` says.
-/

import Canforge.Dbc.Pieces

namespace Canforge
namespace Dbc

open Canforge.Core Text Lib Reporting

variable {R : Type}

/-- What stands behind a statement: the end, or the keyword of the next one on a line of its own. -/
def Behind (t : Token R) : Prop :=
  t.kind = .end ∨ t.kind = .identifier ∧ t.firstOnLine = true ∧ isTopLevelKeyword t.text = true

namespace Behind

variable {t : Token R} (h : Behind t)
include h

theorem kind : t.kind = .end ∨ t.kind = .identifier := h.imp_right And.left

theorem ne {k : TokenKind} (hend : k ≠ .end) (hidentifier : k ≠ .identifier) : t.kind ≠ k := by
  rcases h.kind with hk | hk
  · exact fun heq => hend (heq.symm.trans hk)
  · exact fun heq => hidentifier (heq.symm.trans hk)

/-- No signal stands behind a statement. -/
theorem isWord_eq_false {w : Text} (hw : isTopLevelKeyword w = false) : t.isWord w = false := by
  rcases h with hk | ⟨-, -, htext⟩
  · simp [Token.isWord, hk]
  · rw [Token.isWord, Bool.and_eq_false_iff, decide_eq_false_iff_not, decide_eq_false_iff_not]
    refine .inr fun heq => ?_
    rw [heq, hw] at htext
    cases htext

theorem stopsNames : t.kind ≠ .identifier ∨ t.firstOnLine = true := by
  rcases h with hk | ⟨-, hfirst, -⟩
  · exact .inl (by rw [hk]; decide)
  · exact .inr hfirst

end Behind

/-- What a statement about an owner finds in the database. -/
def Owner.In (db : Database R) : Owner → Prop
  | .database => True
  | .node name => (Parser.findNode db name).isSome
  | .message id => (db.findMessage id).isSome
  | .signal id name => (Parser.findSignal (db.findMessage id) name).isSome

/-- What an owner is to `assign_attribute`. -/
def Owner.target : Owner → Parser.Target
  | .database => .database
  | .node name => .node (some name)
  | .message id => .message (some id)
  | .signal id name => .signal (some (id, name))

namespace Parser
namespace Reads

variable [Scalar R] {N : Token R → Prop} {db result : Database R} {first : Bool} {e : Edit} {i : ℕ}

/-- A statement is read by its production. -/
theorem statement {p : ParserM R Unit} {ls : List (Lexeme × Bool)}
    (hword : ∃ w more, ls = (.word w, first) :: more ∧
      ∀ location, parseStatement ((Lexeme.word w).token location first) = p)
    (hp : Reads N p ls db fun _ db' => db' = result) :
    Reads N (runRound ()) ls db fun r db' => r = ((), true) ∧ db' = result := by
  obtain ⟨w, more, rfl, hstatement⟩ := hword
  unfold runRound
  refine atEnd.skip (fun location => TokenKind.noConfusion) ?_
  rintro b db₁ ⟨rfl, rfl⟩
  rw [if_neg Bool.false_ne_true]
  refine current fun location => ?_
  rw [hstatement, ← List.append_nil more, ← List.cons_append]
  refine hp.bind (fun _ ht => ht) ?_
  rintro u db₂ rfl
  exact Reads.pure ⟨rfl, rfl⟩

/-- The keyword of a production. -/
theorem keyword {α : Type} {s : String} {rest : List Item} {f : Token R → ParserM R α}
    {Q : α → Database R → Prop}
    (h : ∀ t first, Reads N (f t) (lexemes first rest) db Q) :
    Reads N (Parser.advance >>= f) (lexemes first (kw s :: rest)) db Q := by
  refine advance.step ?_
  rintro t db' ⟨-, rfl⟩
  exact h t _

/-! ### In front of the messages -/

theorem parseNewSymbolsRound_one {symbols : List Text} {w : Text} (hw : w ≠ ascii "BS_")
    {ls : List (Lexeme × Bool)} (hls : ls = []) :
    Reads (fun t => t.firstOnLine = true) (parseNewSymbolsRound symbols : ParserM R _)
      ((.word w, first) :: ls) db fun r db' => r.2 = true ∧ r.1 = symbols ++ [w] ∧ db' = db := by
  subst hls
  unfold parseNewSymbolsRound
  refine current fun location => peek_one (fun t ht => ht) fun t ht => ?_
  have hword : ¬(((Lexeme.word w).token location first : Token R).kind ≠ .identifier ∨
      ((Lexeme.word w).token location first : Token R).isWord (ascii "BS_") = true) := by
    simp [Lexeme.token, Token.isWord, hw]
  rw [if_neg hword, if_neg (not_not.2 (.inl ht))]
  refine advance.step ?_
  rintro t db' ⟨⟨location, rfl⟩, rfl⟩
  exact Reads.pure ⟨rfl, rfl, rfl⟩

/-- The symbols of an `NS_` section. -/
theorem parseNewSymbolItems {symbols : List Text}
    (hsymbols : ∀ s ∈ symbols, IsName s ∧ s ≠ ascii "BS_") :
    Reads (fun t => t.isWord (ascii "BS_") = true ∧ t.firstOnLine = true)
      (Parser.while_ parseNewSymbolsRound [] : ParserM R (List Text))
      (lexemes true (symbols.flatMap fun s => [.gap (ascii "\t"), word s, newline])) db
      fun b db' => b = symbols ∧ db' = db := by
  have hitems (f : Bool) (w : Text) :
      lexemes f [.gap (ascii "\t"), word w, newline] = [(.word w, f)] := by
    have hflag : (f || (ascii "\t").contains lf) = f := by
      rw [show (ascii "\t").contains lf = false by decide, Bool.or_false]
    rw [lexemes, hflag]
    rfl
  rw [← List.append_nil (lexemes _ _)]
  refine while_items (F := (· = true))
    (M := fun rest t => t.firstOnLine = true ∧ (rest = [] → t.isWord (ascii "BS_") = true))
    (I := fun rest b db' => (∀ s ∈ rest, IsName s ∧ s ≠ ascii "BS_") ∧ b ++ rest = symbols ∧ db' = db)
    ?_ ?_ ?_ ?_ (fun t ht => ⟨ht.2, fun _ => ht.1⟩) rfl ⟨hsymbols, rfl, rfl⟩
  · rintro s rest b db' first rfl ⟨hrest, happend, rfl⟩
    rw [hitems]
    refine (parseNewSymbolsRound_one (hrest s List.mem_cons_self).2 rfl).mono (fun _ ht => ht.1) ?_
    rintro r db'' ⟨hagain, hpush, rfl⟩
    refine ⟨hagain, fun s' hs' => hrest s' (List.mem_cons_of_mem _ hs'), ?_, rfl⟩
    rw [hpush, List.append_assoc]
    exact happend
  · rintro s rest first rfl
    exact ⟨_, _, hitems true s, fun location => ⟨rfl, fun h => by cases h⟩⟩
  · rintro s - first -
    exact startsLine_concat_gap (by decide) [.gap (ascii "\t"), word s]
  · rintro b db' ⟨-, happend, rfl⟩
    unfold parseNewSymbolsRound
    refine current_behind fun t ht => peek fun t' => ?_
    rw [if_pos (.inr ht.1)]
    exact Reads.pure ⟨rfl, by simpa using happend, rfl⟩

variable [Printed R]

theorem version {text : Text} : Reads Any (parseVersion : ParserM R Unit)
    (lexemes first ((Line.version text : Line R).items e i)) db fun _ db' =>
      db' = (Line.version text).apply db := by
  unfold parseVersion
  refine keyword fun _ _ => ?_
  refine parseString.step ?_
  rintro v db' ⟨rfl, rfl⟩
  exact modifyDb _

theorem newSymbols {symbols : List Text} (hsymbols : ∀ s ∈ symbols, IsName s ∧ s ≠ ascii "BS_") :
    Reads (fun t => t.isWord (ascii "BS_") = true ∧ t.firstOnLine = true)
      (parseNewSymbols : ParserM R Unit)
      (lexemes first ((Line.newSymbols symbols : Line R).items e i)) db fun _ db' =>
        db' = (Line.newSymbols symbols).apply db := by
  have hgap (f : Bool) (items : List Item) :
      lexemes f (.gap (ascii " \n") :: (items ++ [newline])) = lexemes true items ++ [] := by
    have hflag : (f || (ascii " \n").contains lf) = true := by
      rw [Bool.or_eq_true]
      exact .inr (by decide)
    rw [lexemes, hflag, lexemes_append]
    rfl
  unfold parseNewSymbols Line.items
  simp only [List.cons_append, List.nil_append]
  refine keyword fun _ _ => ?_
  refine (matchKind (by decide)).step ?_
  rintro b db₁ ⟨-, rfl⟩
  rw [hgap]
  refine (parseNewSymbolItems hsymbols).bind (fun _ ht => ht) ?_
  rintro read db₂ ⟨rfl, rfl⟩
  exact (modifyDb _).any

/-- The numbers of a bit timing. -/
theorem bitTiming {timing : Option BitTiming} :
    Reads (fun t => t.kind ≠ .integer) (parseBitTiming : ParserM R Unit)
      (lexemes first ((Line.bitTiming timing : Line R).items e i)) db fun _ db' =>
        db' = (Line.bitTiming timing).apply db := by
  unfold parseBitTiming Line.items
  simp only [List.cons_append, List.nil_append]
  refine keyword fun _ _ => ?_
  refine (expect (by decide)).step ?_
  rintro b db₁ ⟨-, rfl⟩
  cases timing with
  | none =>
    refine current_behind fun t ht => ?_
    rw [if_neg ht]
    exact Reads.pure rfl
  | some bt =>
    unfold timingItems
    refine current_decimal fun t hkind _ => ?_
    rw [if_pos hkind]
    refine parseUnsigned_decimal.step ?_
    rintro r db₂ ⟨⟨baudrate, rfl, hbaudrate⟩, rfl⟩
    refine (matchKind (by decide)).step ?_
    rintro b db₃ ⟨rfl, rfl⟩
    rw [if_pos rfl]
    refine parseUnsigned_decimal.step ?_
    rintro r db₄ ⟨⟨btr1, rfl, hbtr1⟩, rfl⟩
    refine (expect (by decide)).step ?_
    rintro b db₅ ⟨-, rfl⟩
    refine parseUnsigned_decimal.step ?_
    rintro r db₆ ⟨⟨btr2, rfl, hbtr2⟩, rfl⟩
    refine (record _).next ?_
    rintro u db₇ rfl
    refine (modifyDb _).any.mono (fun _ => id) ?_
    rintro u' db₈ rfl
    simp only [toUInt32, Option.elim_some, hbaudrate, hbtr1, hbtr2, strtoull_toDecimal_toNat]
    rfl

omit [Printed R] in
theorem parseNodesRound_one {w : Text} {ls : List (Lexeme × Bool)} (hls : ls = [])
    (hw : w ≠ kNoNode) (hnew : ∀ n ∈ db.nodes, n.name ≠ w) :
    Reads (fun t => t.kind ≠ .comma) (parseNodesRound () : ParserM R _) ((.word w, false) :: ls) db
      fun r db' => r.2 = true ∧ db' = { db with nodes := db.nodes ++ [{ name := w }] } := by
  subst hls
  unfold parseNodesRound
  refine current fun location => ?_
  rw [if_neg (by simp [Lexeme.token])]
  refine advance.step ?_
  rintro t db₁ ⟨⟨location, rfl⟩, rfl⟩
  have hfind : (findNode db₁ w).isNone = true := by
    rw [findNode, Option.isNone_iff_eq_none, List.find?_eq_none]
    intro n hn heq
    exact hnew n hn (by simpa using heq)
  refine Reads.database ?_
  rw [if_pos ⟨hw, hfind⟩]
  refine (modifyDb _).skip (fun _ _ => trivial) ?_
  rintro u db₂ rfl
  refine matchKind_absent.skip (fun _ ht => ht) ?_
  rintro b db₃ ⟨-, rfl⟩
  exact Reads.pure ⟨rfl, rfl⟩

omit [Printed R] in
theorem parseNodesRound_end :
    Reads (fun t => t.kind ≠ .identifier ∨ t.firstOnLine = true) (parseNodesRound () : ParserM R _) []
      db fun r db' => r.2 = false ∧ db' = db := by
  unfold parseNodesRound
  refine current_behind fun t ht => ?_
  rw [if_pos ht]
  exact Reads.pure ⟨rfl, rfl⟩

/-- The names of a `BU_` section. -/
theorem nodes {names : List Text} (hnames : ∀ n ∈ names, IsName n) (hnodup : names.Nodup)
    (hnew : ∀ n ∈ db.nodes, n.name ∉ names) :
    Reads Behind (parseNodes : ParserM R Unit)
      (lexemes first ((Line.nodes names : Line R).items e i)) db fun _ db' =>
        db' = (Line.nodes names).apply db := by
  unfold parseNodes Line.items
  simp only [List.cons_append, List.nil_append]
  refine keyword fun _ _ => ?_
  refine (expect (by decide)).step ?_
  rintro b db₁ ⟨-, rfl⟩
  have hcolon : (Lexeme.mark (ch ':')).text.contains lf = false := by decide
  rw [hcolon, lexemes_append]
  refine while_items (F := (· = false))
    (M := fun rest t => t.kind ≠ .comma ∧ (rest = [] → t.kind ≠ .identifier ∨ t.firstOnLine = true))
    (I := fun rest _ db' => (∀ n ∈ rest, IsName n) ∧ rest.Nodup ∧ (∀ n ∈ db'.nodes, n.name ∉ rest) ∧
      { db' with nodes := db'.nodes ++ rest.map fun name => { name } } = (Line.nodes names).apply db₁)
    ?_ ?_ ?_ ?_ ?_ rfl ⟨hnames, hnodup, hnew, rfl⟩
  · rintro n rest u db' first' rfl ⟨hrest, hnodup, hnew, htarget⟩
    have hnew' : ∀ m ∈ db'.nodes, m.name ≠ n := fun m hm heq => hnew m hm (heq ▸ List.mem_cons_self)
    refine (parseNodesRound_one rfl (hrest n List.mem_cons_self).some hnew').mono
      (fun _ ht => ht.1) ?_
    rintro r db'' ⟨hagain, rfl⟩
    refine ⟨hagain, fun m hm => hrest m (List.mem_cons_of_mem _ hm), (List.nodup_cons.1 hnodup).2,
      fun m hm => ?_, ?_⟩
    · rcases List.mem_append.1 hm with hm | hm
      · exact fun hmem => hnew m hm (List.mem_cons_of_mem _ hmem)
      · rw [List.mem_singleton.1 hm]
        exact (List.nodup_cons.1 hnodup).1
    · rw [← htarget]
      simp
  · rintro n rest first' rfl
    exact ⟨_, _, rfl, fun location => ⟨TokenKind.noConfusion, fun h => by cases h⟩⟩
  · rintro n hn first' rfl
    have hlines : startsLine false [space, word n] = n.contains lf := rfl
    rw [hlines, (hnames n hn).contains_lf]
  · rintro u db' ⟨-, -, -, htarget⟩
    refine parseNodesRound_end.mono (fun t ht => ht.stopsNames) ?_
    rintro r db'' ⟨hagain, rfl⟩
    exact ⟨hagain, by simpa using htarget⟩
  · exact fun t ht => ⟨ht.ne (by decide) (by decide), fun _ => ht.stopsNames⟩

/-! ### The end of a statement -/

omit [Printed R] in
/-- What follows the semicolon of a statement reads nothing more. -/
theorem closed {α : Type} {f : Bool → ParserM R α} {Q : α → Database R → Prop} (deleted : Bool)
    (hf : ∀ b, Reads Behind (f b) [] db Q) :
    Reads Behind (Parser.matchKind .semicolon >>= f) (lexemes first (semicolonItems deleted)) db Q := by
  have hahead : Ahead (fun t : Token R => t.kind ≠ .semicolon) [] Behind :=
    fun t ht => ht.ne (by decide) (by decide)
  rw [← List.append_nil (lexemes first _)]
  refine (semicolon deleted).bind hahead ?_
  rintro b db' rfl
  exact hf b

omit [Printed R] in
/-- Behind a list stands a semicolon or what is behind the statement. -/
theorem ahead_closed {M : Token R → Prop} (deleted : Bool)
    (hsemicolon : ∀ t : Token R, t.kind = .semicolon → M t) (hbehind : ∀ t, Behind t → M t) :
    Ahead M (lexemes first (semicolonItems deleted)) Behind := by
  cases deleted with
  | false => exact fun location => hsemicolon _ rfl
  | true => exact hbehind

/-! ### Value tables and messages -/

/-- A table of values. -/
theorem valueTable (D : Printing R) {t : ValueTable} (ht : WritableTable t) :
    Reads Behind (parseValueTable : ParserM R Unit)
      (lexemes first ((Line.valueTable t : Line R).items e i)) db fun _ db' =>
        db' = (Line.valueTable t).apply db := by
  unfold parseValueTable Line.items
  simp only [List.cons_append, List.nil_append, List.append_assoc]
  refine keyword fun _ _ => ?_
  refine parseName.step ?_
  rintro r db₁ ⟨rfl, rfl⟩
  rw [lexemes_append, lexemes_space]
  refine (parseDescriptions D ht.values).bind (ahead_closed _ ?_ ?_) ?_
  · rintro t hsemicolon
    rw [hsemicolon]
    decide
  · exact fun t ht => ⟨ht.ne (by decide) (by decide), ht.ne (by decide) (by decide)⟩
  · rintro ⟨values, keys⟩ db₂ ⟨rfl, rfl⟩
    refine closed _ fun b => ?_
    refine (record _).next ?_
    rintro u db₃ rfl
    exact (modifyDb _).any

/-! ### Signals -/

theorem multiplexIndicator_digits (n : ℕ) (both : Bool) :
    multiplexIndicator (ascii "m" ++ toDecimal n ++ if both then ascii "M" else []) =
      some (if both then .both else .multiplexed, some (toDecimal n)) := by
  have htake (w : Text) (hw : ∀ c ∈ w.head?, isDigit c = false) :
      (toDecimal n ++ w).takeWhile isDigit = toDecimal n := by
    rw [List.takeWhile_append_of_pos (isDigit_toDecimal n)]
    cases w with
    | nil => simp
    | cons c w => rw [List.takeWhile_cons_of_neg (by simpa using hw c rfl), List.append_nil]
  have hne (w : Text) : ascii "m" ++ toDecimal n ++ w ≠ ascii "M" := by
    intro h
    have hfirst : ch 'm' = ch 'M' := (List.cons.inj h).1
    exact absurd hfirst (by decide)
  have hcons (w : Text) : ascii "m" ++ toDecimal n ++ w = ch 'm' :: (toDecimal n ++ w) := rfl
  unfold multiplexIndicator
  rw [if_neg (hne _), hcons]
  dsimp only
  cases both with
  | true =>
    rw [if_pos rfl, htake _ (by decide), List.drop_left]
    rw [if_pos ⟨rfl, toDecimal_ne_nil n, .inr rfl⟩]
    rfl
  | false =>
    rw [if_neg Bool.false_ne_true, htake _ (by simp), List.drop_left]
    rw [if_pos ⟨rfl, toDecimal_ne_nil n, .inl (by simp)⟩]
    rfl

/-- What the indicator of a signal says. -/
def IndicatorOf (s : Signal R) (r : MultiplexRole × Option Text) : Prop :=
  r.1 = s.multiplexRole ∧
    r.2.elim 0 (fun digits => (strtoull digits).setWidth 32) = s.multiplexValue

omit [Printed R] in
theorem parseIndicator_word {w : Text} {r : MultiplexRole × Option Text}
    (hw : w ≠ ascii "SG_") (hr : multiplexIndicator w = some r) :
    Reads Any (Parser.parseIndicator : ParserM R _) [(.word w, first)] db
      fun r' db' => r' = r ∧ db' = db := by
  unfold Parser.parseIndicator
  refine current fun location => ?_
  rw [if_pos (by simp [Lexeme.token, Token.isWord, hw])]
  have htext : ((Lexeme.word w).token location first : Token R).text = w := rfl
  rw [htext, hr]
  refine advance.step ?_
  rintro t db' ⟨-, rfl⟩
  exact Reads.pure ⟨rfl, rfl⟩

omit [Printed R] in
/-- **The multiplexer indicator is read back.** -/
theorem parseIndicator {s : Signal R}
    (hvalue : s.multiplexRole = .none ∨ s.multiplexRole = .multiplexor → s.multiplexValue = 0) :
    Reads (fun t => t.kind ≠ .identifier) (Parser.parseIndicator : ParserM R _)
      (lexemes first (indicatorItems s)) db fun r db' => IndicatorOf s r ∧ db' = db := by
  have hm (n : ℕ) (w : Text) : ascii "m" ++ toDecimal n ++ w ≠ ascii "SG_" := by
    intro h
    have hfirst : ch 'm' = ch 'S' := (List.cons.inj h).1
    exact absurd hfirst (by decide)
  unfold indicatorItems IndicatorOf
  cases hrole : s.multiplexRole with
  | none =>
    unfold Parser.parseIndicator
    refine current_behind fun t ht => ?_
    rw [if_neg fun h => ht h.1]
    exact Reads.pure ⟨⟨rfl, (hvalue (.inl hrole)).symm⟩, rfl⟩
  | multiplexor =>
    refine ((parseIndicator_word (by decide) rfl).any).mono (fun _ => id) ?_
    rintro r db' ⟨rfl, rfl⟩
    exact ⟨⟨rfl, (hvalue (.inr hrole)).symm⟩, rfl⟩
  | multiplexed =>
    have hr := multiplexIndicator_digits s.multiplexValue.toNat false
    have hword := hm s.multiplexValue.toNat []
    rw [if_neg Bool.false_ne_true, List.append_nil] at hr
    rw [List.append_nil] at hword
    refine ((parseIndicator_word hword hr).any).mono (fun _ => id) ?_
    rintro r db' ⟨rfl, rfl⟩
    exact ⟨⟨rfl, strtoull_toDecimal_toNat s.multiplexValue⟩, rfl⟩
  | both =>
    have hr := multiplexIndicator_digits s.multiplexValue.toNat true
    refine ((parseIndicator_word (hm _ _) hr).any).mono (fun _ => id) ?_
    rintro r db' ⟨rfl, rfl⟩
    exact ⟨⟨rfl, strtoull_toDecimal_toNat s.multiplexValue⟩, rfl⟩

omit [Printed R] in
/-- A number of a signal that is in its range. -/
theorem inRange {t : Token R} {n : ℕ} {ok : ℕ → Bool} {clamped : ℕ → ℕ} {code : ErrorCode}
    {message : String} (ht : t.integer.toNat = n) (hok : ok n = true) :
    Reads Any (Parser.inRange t ok clamped code message) [] db fun r db' => r = n ∧ db' = db := by
  unfold Parser.inRange
  rw [ht, if_pos hok]
  exact Reads.pure ⟨rfl, rfl⟩

/-- The number of a token. -/
theorem toNat_strtoull {n : ℕ} (hn : n < 2 ^ 64) : (strtoull (toDecimal n)).toNat = n := by
  rw [strtoull_toDecimal hn, BitVec.toNat_ofNat, Nat.mod_eq_of_lt hn]

omit [Printed R] in
theorem parseSignedness {signedness : Signedness} : Reads Any (Parser.parseSignedness : ParserM R _)
    [(.mark (ch (if signedness = .signed then '-' else '+')), first)] db
    fun r db' => r = signedness ∧ db' = db := by
  unfold Parser.parseSignedness
  cases signedness with
  | unsigned =>
    refine (matchKind (by decide)).step ?_
    rintro b db₁ ⟨rfl, rfl⟩
    exact Reads.pure ⟨rfl, rfl⟩
  | signed =>
    refine Reads.skip (matchKind_absent (k := .plus)) (fun location => TokenKind.noConfusion) ?_
    rintro b db₁ ⟨rfl, rfl⟩
    rw [if_neg Bool.false_ne_true]
    refine (matchKind (by decide)).step ?_
    rintro b db₁ ⟨rfl, rfl⟩
    exact Reads.pure ⟨rfl, rfl⟩

/-- What is read of a number in front of a mark. -/
theorem number {D : Printing R} {x : R} (hx : Finite D x) :
    Reads Any (Parser.parseNumber : ParserM R _) (lexemes first (numberItems (formatNumber x))) db
      fun r db' => (∃ n : Number R, r = some n ∧ n.value = readBack x) ∧ db' = db := by
  obtain ⟨q, hq⟩ := hx
  exact parseNumber (D.signedText_formatNumber hq)

omit [Printed R] in
/-- **The receivers are read back**, and what an edit makes of them. -/
theorem receivers {s : Signal R} {edit : ListEdit} (hs : ∀ r ∈ s.receivers, IsName r) :
    Reads (fun t => t.kind ≠ .comma ∧ (edit ≠ .kept → t.kind ≠ .identifier))
      (Parser.parseNameList : ParserM R (List Text))
      (lexemes first (receiverItems edit s.receivers)) db
      fun r db' => r = (if edit = .deleted then [] else s.receivers) ∧ db' = db := by
  have hne : receiverNames s.receivers ≠ [] := by
    unfold receiverNames
    split_ifs with hempty
    · simp
    · exact fun h => hempty (List.isEmpty_iff.2 h)
  have hnames : (receiverNames s.receivers).foldl pushName [] = s.receivers := by
    unfold receiverNames
    split_ifs with hempty
    · rw [List.isEmpty_iff.1 hempty]
      rfl
    · exact foldl_pushName _ (fun r hr => (hs r hr).some) []
  cases edit with
  | kept =>
    refine (parseNameList hne fun _ => rfl).mono (fun t ht => ht.1) ?_
    rintro r db' ⟨rfl, rfl⟩
    exact ⟨by rw [hnames]; rfl, rfl⟩
  | deleted => exact parseNameList_none.mono (fun t ht => ht.2 (by decide)) fun _ _ => id
  | comma =>
    refine (parseNameList_comma hne).mono (fun t ht => ht.2 (by decide)) ?_
    rintro r db' ⟨rfl, rfl⟩
    exact ⟨by rw [hnames]; rfl, rfl⟩

omit [Printed R] in
theorem checkFactor {start : Token R} {name : Text} {layout : ScaledLayout R}
    (h : Scalar.eq layout.factor (Scalar.lit 0) = false) :
    Reads Any (Parser.checkFactor start name layout) [] db fun r db' => r = layout ∧ db' = db := by
  unfold Parser.checkFactor
  rw [h, if_neg Bool.false_ne_true]
  exact Reads.pure ⟨rfl, rfl⟩

omit [Printed R] in
theorem checkFits {start : Token R} {name : Text} {layout : ScaledLayout R} {m : Message R}
    (h : layout.fits m.dlc) :
    Reads Any (Parser.checkFits start name layout m) [] db fun _ db' => db' = db := by
  unfold Parser.checkFits
  rw [if_pos h]
  exact Reads.pure rfl

/-- The factor that is read is not zero, either. -/
theorem factor_ne_zero {D : Printing R} {x : R} (hx : Finite D x)
    (h : Scalar.eq x (Scalar.lit 0) = false) : Scalar.eq (readBack x) (Scalar.lit 0) = false := by
  obtain ⟨q, hq⟩ := hx
  refine Bool.eq_false_iff.2 fun heq => ?_
  have hzero := (D.eq D.zero).1 heq
  rw [D.readBack_value hq] at hzero
  have hx := (D.eq D.zero).2 (hq.trans hzero)
  rw [h] at hx
  cases hx

/-- **The line of a signal is read back.** -/
theorem signal {D : Printing R} {definitions : List (AttributeDefinition R)} {s : Signal R}
    (hs : WritableSignal D definitions s) {id : CanId} {open_ : Message R × List (SignalLine R)}
    (hlayout : s.layout.fits open_.1.dlc)
    (hfactor : Scalar.eq s.layout.factor (Scalar.lit 0) = false) :
    Reads (fun t => t.kind ≠ .comma ∧ (e.receivers id s.name ≠ .kept → t.kind ≠ .identifier))
      (parseSignal open_) (lexemes first (signalItems e id s)) db fun r db' =>
        r.1 = { open_.1 with signals := open_.1.signals ++ [signalHead (e.signal id s)] } ∧
          db' = db := by
  have hstartBit := hs.startBit
  have hbitLength := And.intro hlayout.1 hlayout.2.1
  unfold parseSignal signalItems placeItems scalingItems
  simp only [List.cons_append, List.nil_append, List.append_assoc]
  rw [lexemes_space]
  refine keyword fun _ _ => ?_
  rw [lexemes_space]
  refine named ?_
  rw [lexemes_append, lexemes_space]
  refine (parseIndicator hs.multiplexValue).bind (fun location => TokenKind.noConfusion) ?_
  rintro ⟨role, multiplexed⟩ db₁ ⟨⟨hrole, hmultiplexed⟩, rfl⟩
  dsimp only at hrole hmultiplexed ⊢
  refine expected (by decide) fun _ => ?_
  rw [lexemes_space]
  refine unsigned fun start hstart => ?_
  refine (inRange (by rw [hstart, toNat_strtoull (by omega)]) (by simpa using hstartBit)).next ?_
  rintro startBit db₂ ⟨rfl, rfl⟩
  refine expected (by decide) fun _ => ?_
  refine unsigned fun length hlength => ?_
  refine (inRange (by rw [hlength, toNat_strtoull (by omega)]) (by simpa using hbitLength)).next ?_
  rintro bitLength db₃ ⟨rfl, rfl⟩
  refine expected (by decide) fun _ => ?_
  refine unsigned fun order hbyteOrder => ?_
  refine (inRange (by rw [hbyteOrder, toNat_strtoull (by split_ifs <;> decide)])
    (by split_ifs <;> decide)).next ?_
  rintro byteOrder db₄ ⟨rfl, rfl⟩
  refine parseSignedness.step ?_
  rintro signedness db₅ ⟨rfl, rfl⟩
  rw [lexemes_space]
  refine expected (by decide) fun _ => ?_
  rw [lexemes_append]
  refine (number hs.factor).next ?_
  rintro r db₆ ⟨⟨factor, rfl, hreadFactor⟩, rfl⟩
  dsimp only
  refine expected (by decide) fun _ => ?_
  rw [lexemes_append]
  refine (number hs.offset).next ?_
  rintro r db₇ ⟨⟨offset, rfl, hoffset⟩, rfl⟩
  dsimp only
  refine expected (by decide) fun _ => ?_
  rw [lexemes_space]
  refine expected (by decide) fun _ => ?_
  rw [lexemes_append]
  refine (number hs.minimum).next ?_
  rintro r db₈ ⟨⟨minimum, rfl, hminimum⟩, rfl⟩
  dsimp only
  refine expected (by decide) fun _ => ?_
  rw [lexemes_append]
  refine (number hs.maximum).next ?_
  rintro r db₉ ⟨⟨maximum, rfl, hmaximum⟩, rfl⟩
  dsimp only
  refine expected (by decide) fun _ => ?_
  rw [lexemes_space]
  refine quotedString ?_
  rw [lexemes_space, lexemes_append]
  refine (receivers hs.receivers).bind (fun t ht => ht) ?_
  rintro names db₁₀ ⟨rfl, rfl⟩
  have horder : (if (if s.layout.byteOrder = .intel then 1 else 0) = 1 then ByteOrder.intel
      else .motorola) = s.layout.byteOrder := by
    cases s.layout.byteOrder <;> rfl
  rw [hreadFactor, hoffset, hminimum, hmaximum, horder]
  refine (checkFactor (factor_ne_zero hs.factor hfactor)).next ?_
  rintro layout db₁₁ ⟨rfl, rfl⟩
  refine (checkFits hlayout).next ?_
  rintro u db₁₂ rfl
  refine Reads.pure ⟨?_, rfl⟩
  rw [hrole, hmultiplexed]
  unfold Edit.signal signalHead
  split_ifs <;> rfl

/-! ### Messages -/

omit [Printed R] in
/-- The transmitter is read back, and none where it was deleted. -/
theorem transmitter {deleted : Bool} {transmitter : Text} (h : transmitter = [] ∨ IsName transmitter) :
    Reads (fun t => deleted = true → t.kind ≠ .identifier) (Parser.parseTransmitter : ParserM R Text)
      (lexemes first (transmitterItems deleted transmitter)) db
      fun r db' => r = (if deleted then [] else transmitter) ∧ db' = db := by
  unfold Parser.parseTransmitter transmitterItems
  cases deleted with
  | true =>
    refine current_behind fun t ht => ?_
    rw [if_neg (ht rfl)]
    refine (warn _ t _ _).next ?_
    rintro u db₁ rfl
    exact Reads.pure ⟨rfl, rfl⟩
  | false =>
    rw [if_neg Bool.false_ne_true]
    refine current fun location => ?_
    rw [if_pos (by simp [Lexeme.kind])]
    refine advance.step ?_
    rintro t db₁ ⟨⟨location', rfl⟩, rfl⟩
    refine Reads.pure ⟨?_, rfl⟩
    have htext (w : Text) : ((Lexeme.word w).token location' first : Token R).text = w := rfl
    rw [htext]
    rcases h with rfl | hname
    · rfl
    · have hne : transmitter.isEmpty = false := by
        obtain ⟨c, hc, -⟩ := hname.first
        cases transmitter with
        | nil => cases hc
        | cons d w => rfl
      rw [hne, if_neg Bool.false_ne_true, if_neg hname.some]
      rfl

/-- What a line that is edited asks of the token behind it. -/
structure Tolerates (e : Edit) (m : Message R) (N : Token R → Prop) : Prop where
  /-- No signal follows a transmitter that is deleted. -/
  transmitter : e.transmitter m.id = true → m.signals = [] ∧ ∀ t, N t → t.kind ≠ .identifier
  /-- No signal follows receivers that are edited. -/
  receivers : ∀ front s behind, m.signals = front ++ s :: behind → e.receivers m.id s.name ≠ .kept →
    behind = [] ∧ ∀ t, N t → t.kind ≠ .identifier

variable {D : Printing R} {definitions : List (AttributeDefinition R)}

/-- The lines of the signals of a message. -/
theorem signals {m head : Message R}
    (hm : WritableMessage D definitions m) (hvalid : m.validate = .ok ()) (hdlc : head.dlc = m.dlc)
    (hhead : head.signals = []) (hN : ∀ t, N t → Behind t) (he : Tolerates e m N) :
    Reads N (Parser.while_ parseSignalsRound (head, []))
      (lexemes first (m.signals.flatMap (signalItems e m.id))) db fun r db' =>
        r.1 = { head with signals := (m.signals.map (e.signal m.id)).map signalHead } ∧ db' = db := by
  have hfirst (s : Signal R) (first : Bool) : ∃ more, lexemes first (signalItems e m.id s) =
      (.word (ascii "SG_"), first) :: more := by
    unfold signalItems
    simp only [List.cons_append, List.nil_append, List.append_assoc]
    rw [lexemes_space]
    exact ⟨_, rfl⟩
  rw [← List.append_nil (lexemes _ _)]
  refine while_anywhere
    (M := fun rest t => (rest = [] → N t) ∧ (rest ≠ [] → t.kind = .identifier))
    (I := fun rest b db' => ∃ done, done ++ rest = m.signals ∧
      b.1 = { head with signals := (done.map (e.signal m.id)).map signalHead } ∧ db' = db)
    ?_ ?_ ?_ ?_ ⟨[], rfl, ?_, rfl⟩
  · rintro s rest b db' first' ⟨done, hdone, hb, rfl⟩
    have hmem : s ∈ m.signals := by rw [← hdone]; simp
    have hvalidate := (Message.of_validate hvalid).2 s hmem
    have hfits : s.layout.fits b.1.dlc := by
      rw [hb, hdlc]
      exact ScaledLayout.fits_of_validate hvalidate
    have hahead : Ahead (fun t : Token R => t.isWord (ascii "SG_") = true)
        (lexemes first' (signalItems e m.id s))
        (fun t => (rest = [] → N t) ∧ (rest ≠ [] → t.kind = .identifier)) := by
      obtain ⟨more, hmore⟩ := hfirst s first'
      rw [hmore]
      exact fun location => rfl
    unfold parseSignalsRound
    refine current_ahead hahead fun t ht => ?_
    rw [if_pos ht, ← List.append_nil (lexemes _ _)]
    refine (signal (hm.signals s hmem) hfits (ScaledLayout.factor_of_validate hvalidate)).bind
      (fun t ht => ?_) ?_
    · by_cases hlast : rest = []
      · refine ⟨(hN t (ht.1 hlast)).ne (by decide) (by decide), fun hedit => ?_⟩
        exact (he.receivers done s rest hdone.symm hedit).2 t (ht.1 hlast)
      · have hkind := ht.2 hlast
        refine ⟨by rw [hkind]; decide, fun hedit => ?_⟩
        exact absurd (he.receivers done s rest hdone.symm hedit).1 hlast
    · rintro b' db₁ ⟨hb', rfl⟩
      refine Reads.pure ⟨rfl, done ++ [s], by rw [← hdone]; simp, ?_, rfl⟩
      rw [hb', hb]
      simp
  · intro s rest first'
    obtain ⟨more, hmore⟩ := hfirst s first'
    exact ⟨_, more, hmore, fun location => ⟨fun h => (List.cons_ne_nil _ _ h).elim, fun _ => rfl⟩⟩
  · rintro b db' ⟨done, hdone, hb, rfl⟩
    unfold parseSignalsRound
    refine current_behind fun t ht => ?_
    rw [(hN t ht).isWord_eq_false (by decide), if_neg Bool.false_ne_true]
    rw [List.append_nil] at hdone
    subst hdone
    exact Reads.pure ⟨rfl, hb, rfl⟩
  · exact fun t ht => ⟨fun _ => ht, fun h => absurd rfl h⟩
  · rw [List.map_nil, List.map_nil, ← hhead]

/-- **A message is read back.** -/
theorem message {m : Message R}
    (hm : WritableMessage D definitions m) (hvalid : m.validate = .ok ())
    (hN : ∀ t, N t → Behind t) (he : Tolerates e m N) :
    Reads N (parseMessage : ParserM R Unit) (lexemes first ((Line.message m : Line R).items e i)) db
      fun _ db' => db' = (e.line (.message m)).apply db := by
  have hdlc : m.dlc ≤ 64 := by
    have hle := (Message.of_validate hvalid).1
    split_ifs at hle
    · exact hle
    · omega
  unfold parseMessage Line.items messageItems
  simp only [List.cons_append, List.nil_append, List.append_assoc]
  refine keyword fun _ _ => ?_
  rw [lexemes_space]
  refine unsigned fun rawId hid => ?_
  refine identified hid ?_
  rw [lexemes_space]
  refine named ?_
  refine expected (by decide) fun _ => ?_
  rw [lexemes_space]
  refine unsigned fun length hlength => ?_
  refine (inRange (by rw [hlength, toNat_strtoull (by omega)]) (by simpa using hdlc)).next ?_
  rintro dlc db₁ ⟨rfl, rfl⟩
  rw [lexemes_append, lexemes_newline, lexemes_append]
  refine (transmitter hm.transmitter).bind ?_ ?_
  · by_cases hdeleted : e.transmitter m.id = true
    · obtain ⟨hnone, hnext⟩ := he.transmitter hdeleted
      rw [hnone]
      exact fun t ht _ => hnext t ht
    · exact Ahead.of_forall fun t h => absurd h hdeleted
  rintro t db₂ ⟨rfl, rfl⟩
  refine (signals hm hvalid ?_ ?_ hN he).bind (fun t ht => ht) ?_
  · rfl
  · rfl
  rintro ⟨read, lines⟩ db₃ ⟨hread, rfl⟩
  dsimp only at hread ⊢
  refine (record _).next ?_
  rintro u db₄ rfl
  refine (modifyDb _).any.mono (fun _ => id) ?_
  rintro u' db₅ rfl
  rw [hread]
  rfl

end Reads
end Parser

end Dbc
end Canforge
