/-
# What is read of the pieces of a statement

The rules of `Dbc.Rules` for the pieces that the statements share: numbers, identifiers, lists of
names, descriptions, the values of attributes.  The lexemes are those of the items that are
written (`lexemes`), whatever begins a line among them.
-/

import Canforge.Dbc.Rules
import Canforge.Dbc.Spelling

namespace Canforge
namespace Dbc

open Canforge.Core Text Lib Reporting

/-! ### The lexemes of items -/

section

variable {rest : List Item} {first : Bool}

@[simp] theorem lexemes_word (w : Text) : lexemes first (word w :: rest) =
    (.word w, first) :: lexemes (w.contains lf) rest := rfl

@[simp] theorem lexemes_kw (s : String) : lexemes first (kw s :: rest) =
    (.word (ascii s), first) :: lexemes ((ascii s).contains lf) rest := rfl

@[simp] theorem lexemes_decimal (n : ℕ) : lexemes first (decimalItem n :: rest) =
    (.number (toDecimal n), first) :: lexemes ((toDecimal n).contains lf) rest := rfl

@[simp] theorem lexemes_mark (c : Char) : lexemes first (mark c :: rest) =
    (.mark (ch c), first) :: lexemes ([ch c].contains lf) rest := rfl

@[simp] theorem lexemes_str (value : Text) : lexemes first (str value :: rest) =
    (.string value, first) :: lexemes ((quoted value).contains lf) rest := rfl

@[simp] theorem lexemes_space : lexemes first (space :: rest) = lexemes first rest := by
  cases first <;> rfl

theorem IsName.contains_lf {w : Text} (h : IsName w) : w.contains lf = false := by
  rw [List.contains_eq_mem, decide_eq_false_iff_not]
  exact fun hlf => absurd (h.all lf hlf) (by decide)

/-- Behind the end of a line another one begins. -/
theorem startsLine_concat_gap {w : Text} (hw : w.contains lf = true) (items : List Item) :
    startsLine first (items ++ [.gap w]) = true := by
  rw [startsLine_append, startsLine, startsLine, hw, Bool.or_true]

theorem lexemes_numberItems_ne_nil (t : Text) : lexemes first (numberItems t) ≠ [] := by
  unfold numberItems
  cases t with
  | nil => simp [lexemes]
  | cons c rest =>
    dsimp only
    split_ifs <;> simp [lexemes, mark]

theorem separatedItems_concat (first sep : List Item) (groups : List (List Item)) (g : List Item) :
    separatedItems first sep (groups ++ [g]) = first ++ (groups.flatMap (· ++ sep) ++ g) := by
  have htail (groups : List (List Item)) (a : List Item) : a ++ (groups ++ [g]).flatMap (sep ++ ·) =
      (a ++ sep) ++ (groups.flatMap (· ++ sep) ++ g) := by
    induction groups generalizing a with
    | nil => simp
    | cons b groups ih =>
      rw [List.cons_append, List.flatMap_cons, List.flatMap_cons, List.append_assoc sep, ih b]
      simp only [List.append_assoc]
  cases groups with
  | nil => simp [separatedItems]
  | cons a groups =>
    have hcons : separatedItems first sep (a :: groups ++ [g]) =
        first ++ (a ++ (groups ++ [g]).flatMap (sep ++ ·)) := List.append_assoc _ _ _
    rw [hcons, htail, List.flatMap_cons]
    simp only [List.append_assoc]

@[simp] theorem lexemes_newline : lexemes first (newline :: rest) = lexemes true rest := by
  cases first <;> rfl

end

namespace Parser
namespace Reads

variable {R : Type} [Scalar R] {α β : Type} {N : Token R → Prop} {db : Database R} {first : Bool}
  {Q : β → Database R → Prop}

/-! ### Numbers -/

theorem token_real (w : Text) (location : SourceLocation) :
    ((Lexeme.number w).token location first : Token R).real = realOf w := by
  simp only [Lexeme.token, realOf]
  split_ifs <;> rfl

/-- The number behind a sign. -/
theorem parseNumber_digits {w : Text} (negative : Bool) :
    Reads Any (do
      let t ← Parser.current
      if t.kind ≠ .integer ∧ t.kind ≠ .real then
        Parser.error .parseBadNumber t (ascii "expected a number")
        return none
      else
        let token ← Parser.advance
        return some ({ negative, token } : Number R)) [(.number w, first)] db
      fun r db' => (∃ n : Number R, r = some n ∧ n.negative = negative ∧ n.token.real = realOf w) ∧
        db' = db := by
  refine current fun location => ?_
  have hkind : ¬(((Lexeme.number w).token location first : Token R).kind ≠ .integer ∧
      ((Lexeme.number w).token location first : Token R).kind ≠ .real) := by
    rw [Lexeme.token_kind, Lexeme.kind]
    split_ifs <;> simp
  rw [if_neg hkind]
  refine advance.step ?_
  rintro t db' ⟨⟨location', rfl⟩, rfl⟩
  exact Reads.pure ⟨⟨_, rfl, rfl, token_real w location'⟩, rfl⟩

theorem parseSign_minus : Reads Any (parseSign : ParserM R Bool) [(.mark (ch '-'), first)] db
    fun negative db' => negative = true ∧ db' = db := by
  refine (matchKind (by decide)).step ?_
  rintro b db' ⟨rfl, rfl⟩
  exact Reads.pure ⟨rfl, rfl⟩

theorem parseSign_absent : Reads (fun t : Token R => t.kind ≠ .minus ∧ t.kind ≠ .plus) parseSign []
    db fun negative db' => negative = false ∧ db' = db := by
  refine (matchKind_absent.mono (fun _ ht => ht.1) fun _ _ => id).skip (fun _ ht => ht) ?_
  rintro b db' ⟨rfl, rfl⟩
  refine (matchKind_absent.mono (fun _ ht => ht.2) fun _ _ => id).skip (fun _ ht => ht) ?_
  rintro b db' ⟨-, rfl⟩
  exact Reads.pure ⟨rfl, rfl⟩

/-- **A number is read** with its sign. -/
theorem parseNumber {t : Text} (ht : SignedText t) :
    Reads Any (Parser.parseNumber : ParserM R (Option (Number R)))
      (lexemes first (numberItems t)) db fun r db' =>
        (∃ n : Number R, r = some n ∧ n.value = numberOf t) ∧ db' = db := by
  unfold Parser.parseNumber
  obtain ⟨n, rfl | rfl⟩ := ht
  · rw [n.numberItems_text]
    have hahead : ∀ location, ((Lexeme.number n.text).token location first : Token R).kind ≠ .minus ∧
        ((Lexeme.number n.text).token location first : Token R).kind ≠ .plus := by
      intro location
      rw [Lexeme.token_kind, Lexeme.kind]
      split_ifs <;> simp
    refine parseSign_absent.skip hahead ?_
    rintro negative db' ⟨rfl, rfl⟩
    refine (parseNumber_digits false).mono (fun _ => id) ?_
    rintro r db' ⟨⟨m, rfl, hnegative, hreal⟩, rfl⟩
    refine ⟨⟨m, rfl, ?_⟩, rfl⟩
    rw [Number.value, hnegative, hreal, numberOf_text]
    rfl
  · rw [n.numberItems_neg]
    refine parseSign_minus.step ?_
    rintro negative db' ⟨rfl, rfl⟩
    refine (parseNumber_digits true).mono (fun _ => id) ?_
    rintro r db' ⟨⟨m, rfl, hnegative, hreal⟩, rfl⟩
    refine ⟨⟨m, rfl, ?_⟩, rfl⟩
    rw [Number.value, hnegative, hreal, numberOf_neg]
    rfl

/-! ### Identifiers -/

theorem wireId_eq (id : CanId) : wireId id = id.packed := by
  unfold wireId
  split_ifs with h
  · exact (CanId.extended_value h).1.symm
  · exact (CanId.standard_value (by simpa using h)).1.symm

theorem packed_value (id : CanId) : id.packed &&& ~~~kDbcExtendedFlag = id.value := by
  have hmask : ~~~kDbcExtendedFlag = BitVec.ofNat 32 (2 ^ 31 - 1) := by decide
  have hrange := id.packed.isLt
  refine BitVec.eq_of_toNat_eq ?_
  rw [hmask, BitVec.toNat_and, BitVec.toNat_ofNat, Nat.mod_eq_of_lt (by norm_num),
    Nat.and_two_pow_sub_one_eq_mod, id.value_toNat]
  rcases id.inRange with h | ⟨hge, hle⟩
  · have hlt : id.packed.toNat ≤ 0x7FF := h
    omega
  · have hge' : 2 ^ 31 ≤ id.packed.toNat := hge
    unfold kEffFlag kExtendedIdMax at hle
    bv_omega

/-- **An identifier is read back**, and no word about it is said. -/
theorem parseMessageId {id : CanId} {t : Token R} (ht : t.integer.setWidth 32 = wireId id) :
    Reads Any (Parser.parseMessageId t) [] db fun id' db' => id' = id ∧ db' = db := by
  have hextended : decide (id.packed &&& kDbcExtendedFlag ≠ 0) = id.isExtended := rfl
  have hbuilt : (if decide (wireId id &&& kDbcExtendedFlag ≠ 0) = true then
      CanId.extended (wireId id &&& ~~~kDbcExtendedFlag)
      else CanId.standard (wireId id &&& ~~~kDbcExtendedFlag)) = .ok id := by
    rw [wireId_eq, packed_value, hextended]
    split_ifs with h
    · exact CanId.extended_eq h
    · exact CanId.standard_eq (Bool.eq_false_iff.2 h)
  unfold Parser.parseMessageId
  dsimp only
  rw [ht, hbuilt]
  exact Reads.pure ⟨rfl, rfl⟩

/-- The number of an identifier. -/
theorem parseUnsigned_decimal {n : ℕ} : Reads Any (Parser.parseUnsigned : ParserM R (Option (Token R)))
    [(.number (toDecimal n), first)] db fun t db' =>
      (∃ token : Token R, t = some token ∧ token.integer = strtoull (toDecimal n)) ∧ db' = db := by
  refine (parseUnsigned (all_isDigit_toDecimal n)).mono (fun _ => id) ?_
  rintro t db' ⟨⟨location, rfl⟩, rfl⟩
  refine ⟨⟨_, rfl, ?_⟩, rfl⟩
  rw [Lexeme.token, if_pos (all_isDigit_toDecimal n)]

/-! ### Code behind a piece -/

section

variable {f : Option Text → ParserM R α} {ls : List (Lexeme × Bool)} {w : Text}
  {P : α → Database R → Prop}

theorem expected {k : TokenKind} {what : String} {l : Lexeme} {f : Bool → ParserM R α}
    (h : l.kind = k) (hf : ∀ b, Reads N (f b) ls db P) :
    Reads N (Parser.expect k what >>= f) ((l, first) :: ls) db P := by
  refine (expect h).step ?_
  rintro b db' ⟨-, rfl⟩
  exact hf b

theorem matched {k : TokenKind} {l : Lexeme} {f : Bool → ParserM R α} (h : l.kind = k)
    (hf : Reads N (f true) ls db P) :
    Reads N (Parser.matchKind k >>= f) ((l, first) :: ls) db P := by
  refine (matchKind h).step ?_
  rintro b db' ⟨rfl, rfl⟩
  exact hf

theorem named (hf : Reads N (f (some w)) ls db P) :
    Reads N (Parser.parseName >>= f) ((.word w, first) :: ls) db P := by
  refine parseName.step ?_
  rintro r db' ⟨rfl, rfl⟩
  exact hf

theorem quotedString (hf : Reads N (f (some w)) ls db P) :
    Reads N (Parser.parseString >>= f) ((.string w, first) :: ls) db P := by
  refine parseString.step ?_
  rintro r db' ⟨rfl, rfl⟩
  exact hf

theorem unsigned {n : ℕ} {f : Option (Token R) → ParserM R α}
    (hf : ∀ t : Token R, t.integer = strtoull (toDecimal n) → Reads N (f (some t)) ls db P) :
    Reads N (Parser.parseUnsigned >>= f) ((.number (toDecimal n), first) :: ls) db P := by
  refine parseUnsigned_decimal.step ?_
  rintro r db' ⟨⟨t, rfl, ht⟩, rfl⟩
  exact hf t ht

theorem identified {id : CanId} {t : Token R} {f : CanId → ParserM R α}
    (ht : t.integer = strtoull (toDecimal (wireId id).toNat)) (hf : Reads N (f id) ls db P) :
    Reads N (Parser.parseMessageId t >>= f) ls db P := by
  refine (parseMessageId (by rw [ht, strtoull_toDecimal_toNat])).next ?_
  rintro r db' ⟨rfl, rfl⟩
  exact hf

end

/-! ### Loops over items -/

/-- **A loop that reads a list of groups of items**: `I` is kept by the rounds, `M` is what a
round asks of the token in front of the groups behind its own, and `F` of whether a line begins
there. -/
theorem while_items {γ : Type} {l : List γ} {g : γ → List Item} {I : List γ → β → Database R → Prop}
    {M : List γ → Token R → Prop} {F : Bool → Prop} {round : β → ParserM R (β × Bool)} {b : β}
    {ls : List (Lexeme × Bool)}
    (hround : ∀ a rest b db first, F first → I (a :: rest) b db →
      Reads (M rest) (round b) (lexemes first (g a)) db fun r db' => r.2 = true ∧ I rest r.1 db')
    (hmore : ∀ a rest first, F first → ∃ l more, lexemes first (g a) = l :: more ∧
      ∀ location, M (a :: rest) (l.1.token location l.2))
    (hflag : ∀ a ∈ l, ∀ first, F first → F (startsLine first (g a)))
    (hend : ∀ b db, I [] b db → Reads N (round b) ls db fun r db' => r.2 = false ∧ Q r.1 db')
    (hlast : Ahead (M []) ls N) (hfirst : F first) (h : I l b db) :
    Reads N (Parser.while_ round b) (lexemes first (l.flatMap g) ++ ls) db Q := by
  refine Reads.while_ fun n hn => ?_
  induction l generalizing b db first n with
  | nil =>
    obtain ⟨n, rfl⟩ := Nat.exists_eq_succ_of_ne_zero (Nat.ne_of_gt (Nat.zero_lt_of_lt hn))
    exact loop_last (hend b db h)
  | cons a l ih =>
    obtain ⟨n, rfl⟩ := Nat.exists_eq_succ_of_ne_zero (Nat.ne_of_gt (Nat.zero_lt_of_lt hn))
    have hbehind := hflag a List.mem_cons_self first hfirst
    have hahead : Ahead (M l) (lexemes (startsLine first (g a)) (l.flatMap g) ++ ls) N := by
      cases l with
      | nil => exact hlast
      | cons a' l =>
        obtain ⟨first', more, hlexemes, htoken⟩ := hmore a' l (startsLine first (g a)) hbehind
        rw [List.flatMap_cons, lexemes_append, hlexemes]
        exact htoken
    rw [List.flatMap_cons, lexemes_append, List.append_assoc] at hn ⊢
    refine loop_more (hround a l b db first hfirst h) hahead fun r db' ⟨hagain, hI⟩ => ⟨hagain,
      ih (fun a' ha' => hflag a' (List.mem_cons_of_mem _ ha')) hbehind hI n ?_⟩
    obtain ⟨first', more, hlexemes, -⟩ := hmore a l first hfirst
    rw [hlexemes, List.length_append, List.length_cons] at hn
    omega

/-- A loop for which it does not matter where lines begin. -/
theorem while_anywhere {γ : Type} {l : List γ} {g : γ → List Item}
    {I : List γ → β → Database R → Prop} {M : List γ → Token R → Prop}
    {round : β → ParserM R (β × Bool)} {b : β} {ls : List (Lexeme × Bool)}
    (hround : ∀ a rest b db first, I (a :: rest) b db →
      Reads (M rest) (round b) (lexemes first (g a)) db fun r db' => r.2 = true ∧ I rest r.1 db')
    (hmore : ∀ a rest first, ∃ l more, lexemes first (g a) = l :: more ∧
      ∀ location, M (a :: rest) (l.1.token location l.2))
    (hend : ∀ b db, I [] b db → Reads N (round b) ls db fun r db' => r.2 = false ∧ Q r.1 db')
    (hlast : Ahead (M []) ls N) (h : I l b db) :
    Reads N (Parser.while_ round b) (lexemes first (l.flatMap g) ++ ls) db Q :=
  while_items (F := fun _ => True) (fun a rest b db first _ => hround a rest b db first)
    (fun a rest first _ => hmore a rest first) (fun _ _ _ _ => trivial) hend hlast trivial h

/-- A loop over groups of items with a separator, behind the last of which there is none; `view` is
what is to be said of what has been read. -/
theorem while_separated {γ δ : Type} {l : List γ} {front sep : List Item} {g : γ → List Item}
    {round : β → ParserM R (β × Bool)} {b : β} (view : β → δ) (push : δ → γ → δ)
    (hmore : ∀ a ∈ l, ∀ b first, Reads Any (round b) (lexemes first (g a ++ sep)) db
      fun r db' => r.2 = true ∧ view r.1 = push (view b) a ∧ db' = db)
    (hlast : ∀ a ∈ l, ∀ b first, Reads N (round b) (lexemes first (g a)) db
      fun r db' => r.2 = false ∧ view r.1 = push (view b) a ∧ db' = db)
    (hhead : ∀ a first, lexemes first (g a) ≠ []) (hfront : ∀ first, lexemes first front = [])
    (hne : l ≠ []) :
    Reads N (Parser.while_ round b) (lexemes first (separatedItems front sep (l.map g))) db
      fun b' db' => view b' = l.foldl push (view b) ∧ db' = db := by
  obtain ⟨init, last, rfl⟩ : ∃ init last, l = init ++ [last] :=
    ⟨l.dropLast, l.getLast hne, (List.dropLast_append_getLast hne).symm⟩
  have hmap : (init ++ [last]).map g = init.map g ++ [g last] := by simp
  have hflat : (init.map g).flatMap (· ++ sep) = init.flatMap fun a => g a ++ sep := by
    rw [List.flatMap_map]
  rw [hmap, separatedItems_concat, hflat, lexemes_append, hfront, List.nil_append, lexemes_append]
  refine while_anywhere (M := fun _ => Any) (I := fun rest b' db' => (∀ a ∈ rest, a ∈ init) ∧
    (rest ++ [last]).foldl push (view b') = (init ++ [last]).foldl push (view b) ∧ db' = db)
    ?_ ?_ ?_ ?_ ⟨fun _ => id, rfl, rfl⟩
  · rintro a rest b' db' first' ⟨hmem, hfold, rfl⟩
    have ha := hmem a List.mem_cons_self
    refine (hmore a (List.mem_append_left _ ha) b' first').mono (fun _ => id) ?_
    rintro r db'' ⟨hagain, hview, rfl⟩
    refine ⟨hagain, fun a' ha' => hmem a' (List.mem_cons_of_mem _ ha'), ?_, rfl⟩
    rw [hview]
    exact hfold
  · intro a rest first'
    obtain ⟨l, more, hl⟩ := List.exists_cons_of_ne_nil (hhead a first')
    rw [lexemes_append, hl]
    exact ⟨l, _, rfl, fun _ => trivial⟩
  · rintro b' db' ⟨-, hfold, rfl⟩
    refine (hlast last (by simp) b' _).mono (fun _ => id) ?_
    rintro r db'' ⟨hagain, hview, rfl⟩
    refine ⟨hagain, ?_, rfl⟩
    rw [hview]
    exact hfold
  · obtain ⟨l, more, hl⟩ := List.exists_cons_of_ne_nil
      (hhead last (startsLine (startsLine first front) (init.flatMap fun a => g a ++ sep)))
    rw [hl]
    exact fun _ => trivial

theorem foldl_concat {γ : Type} (l b : List γ) : l.foldl (fun b a => b ++ [a]) b = b ++ l := by
  induction l generalizing b with
  | nil => simp
  | cons a l ih => simp [ih]

/-! ### Lists of names -/

/-- A name behind others. -/
def pushName (names : List Text) (name : Text) : List Text :=
  if name ≠ kNoNode then names ++ [name] else names

theorem foldl_pushName (names : List Text) (h : ∀ n ∈ names, n ≠ kNoNode) (b : List Text) :
    names.foldl pushName b = b ++ names := by
  induction names generalizing b with
  | nil => simp
  | cons n names ih =>
    rw [List.foldl_cons, ih (fun m hm => h m (List.mem_cons_of_mem _ hm)), pushName,
      if_pos (h n List.mem_cons_self), List.append_assoc]
    rfl

theorem parseNameListRound_comma {names : List Text} {w : Text} {first' : Bool} :
    Reads Any (parseNameListRound names : ParserM R (List Text × Bool))
      [(.word w, first), (.mark (ch ','), first')] db fun r db' =>
        r.2 = true ∧ r.1 = pushName names w ∧ db' = db := by
  unfold parseNameListRound
  refine current fun location => ?_
  rw [if_neg (by simp [Lexeme.kind])]
  refine advance.step ?_
  rintro t db' ⟨⟨location, rfl⟩, rfl⟩
  refine (matchKind (by decide)).step ?_
  rintro again db' ⟨rfl, rfl⟩
  exact Reads.pure ⟨rfl, rfl, rfl⟩

theorem parseNameListRound_last {names : List Text} {w : Text} :
    Reads (fun t => t.kind ≠ .comma) (parseNameListRound names : ParserM R (List Text × Bool))
      [(.word w, first)] db fun r db' => r.2 = false ∧ r.1 = pushName names w ∧ db' = db := by
  unfold parseNameListRound
  refine current fun location => ?_
  rw [if_neg (by simp [Lexeme.kind])]
  refine advance.step ?_
  rintro t db' ⟨⟨location, rfl⟩, rfl⟩
  refine matchKind_absent.skip (fun _ ht => ht) ?_
  rintro again db' ⟨rfl, rfl⟩
  exact Reads.pure ⟨rfl, rfl, rfl⟩

theorem parseNameListRound_end {names : List Text} :
    Reads (fun t => t.kind ≠ .identifier) (parseNameListRound names : ParserM R (List Text × Bool))
      [] db fun r db' => r = (names, false) ∧ db' = db := by
  unfold parseNameListRound
  refine current_behind fun t ht => ?_
  rw [if_pos ht]
  exact Reads.pure ⟨rfl, rfl⟩

/-- A list of names. -/
theorem parseNameList {front : List Item} {names : List Text} (hne : names ≠ [])
    (hfront : ∀ first, lexemes first front = []) :
    Reads (fun t => t.kind ≠ .comma) (Parser.parseNameList : ParserM R (List Text))
      (lexemes first (namesItems front names)) db
      fun r db' => r = names.foldl pushName [] ∧ db' = db :=
  while_separated id pushName (fun _ _ _ _ => parseNameListRound_comma) (fun _ _ _ _ => parseNameListRound_last)
    (fun a first h => by cases h) hfront hne

theorem namesItems_comma {names : List Text} (hne : names ≠ []) :
    namesItems [] names ++ [mark ','] = names.flatMap fun n => [word n, mark ','] := by
  obtain ⟨init, last, rfl⟩ : ∃ init last, names = init ++ [last] :=
    ⟨names.dropLast, names.getLast hne, (List.dropLast_append_getLast hne).symm⟩
  rw [namesItems, List.map_append, List.map_singleton, separatedItems_concat, List.flatMap_append,
    List.flatMap_map]
  simp

/-- Names each of which a comma follows, and none behind the last one. -/
theorem parseNameList_comma {names : List Text} (hne : names ≠ []) :
    Reads (fun t => t.kind ≠ .identifier) (Parser.parseNameList : ParserM R (List Text))
      (lexemes first (namesItems [] names ++ [mark ','])) db
      fun r db' => r = names.foldl pushName [] ∧ db' = db := by
  rw [namesItems_comma hne, ← List.append_nil (lexemes _ _)]
  refine while_anywhere (M := fun rest t => rest = [] → t.kind ≠ .identifier)
    (I := fun rest b db' => rest.foldl pushName b = names.foldl pushName [] ∧ db' = db)
    ?_ ?_ ?_ (fun t ht _ => ht) ⟨rfl, rfl⟩
  · rintro n rest b db' first' ⟨hfold, rfl⟩
    refine parseNameListRound_comma.any.mono (fun _ => id) ?_
    rintro r db'' ⟨hagain, hnames, rfl⟩
    exact ⟨hagain, by rw [hnames]; exact hfold, rfl⟩
  · intro n rest first'
    exact ⟨_, _, rfl, fun _ h => by cases h⟩
  · rintro b db' ⟨hfold, rfl⟩
    refine parseNameListRound_end.mono (fun _ => id) ?_
    rintro r db'' ⟨rfl, rfl⟩
    exact ⟨rfl, hfold, rfl⟩

/-- No names. -/
theorem parseNameList_none :
    Reads (fun t => t.kind ≠ .identifier) (Parser.parseNameList : ParserM R (List Text)) [] db
      fun r db' => r = [] ∧ db' = db := by
  refine Reads.while_ fun n hn => ?_
  obtain ⟨n, rfl⟩ := Nat.exists_eq_succ_of_ne_zero (Nat.ne_of_gt hn)
  refine loop_last (parseNameListRound_end.mono (fun _ => id) ?_)
  rintro r db' ⟨rfl, rfl⟩
  exact ⟨rfl, rfl, rfl⟩

/-! ### Descriptions -/

/-- A key that is read back. -/
theorem toInt64_key [Printed R] (D : Printing R) {z : ℤ} (hz : IsKey z) :
    toInt64 (numberOf (toSigned z) : R) = some z := by
  have hlow : (-2 ^ 63 : ℚ) ≤ z := by exact_mod_cast hz.low
  have hhigh : (z : ℚ) < 2 ^ 63 := by exact_mod_cast hz.high
  have habs : z.natAbs ≤ 2 ^ 63 := by
    have := hz.low
    have := hz.high
    omega
  exact (Number.toInt64_eq_some_iff D.toDoubles).2
    ⟨z, D.value_numberOf_toSigned habs hz.bits, hlow, hhigh, trunc_intCast z⟩

/-- The token in front of a key. -/
theorem ahead_key (z : ℤ) (ls : List (Lexeme × Bool)) :
    Ahead (fun t : Token R => t.kind = .integer ∨ t.kind = .minus)
      (lexemes first (numberItems (toSigned z)) ++ ls) N := by
  have hdigits (n : ℕ) (location : SourceLocation) :
      ((Lexeme.number (toDecimal n)).token location first : Token R).kind = .integer := by
    rw [Lexeme.token_kind, Lexeme.kind, if_pos (all_isDigit_toDecimal n)]
  unfold toSigned
  rw [← NumberText.ofDecimal_text]
  split_ifs
  · rw [NumberText.numberItems_neg]
    exact fun location => .inr rfl
  · rw [NumberText.numberItems_text, NumberText.ofDecimal_text]
    exact fun location => .inl (hdigits _ location)

theorem parseDescriptionsRound_one [Printed R] (D : Printing R) {v : ValueDescription}
    (hv : WritableDescription v) (read : List ValueDescription × List (Number R)) :
    Reads Any (parseDescriptionsRound read)
      (lexemes first (space :: (numberItems (toSigned v.value) ++ [space, str v.text]))) db
      fun r db' => r.2 = true ∧ r.1.1 = read.1 ++ [v] ∧ db' = db := by
  rw [lexemes_space, lexemes_append, lexemes_space]
  unfold parseDescriptionsRound
  refine current_ahead (ahead_key v.value _) fun t ht => ?_
  rw [if_neg (by rintro ⟨hint, hminus⟩; exact ht.elim hint hminus)]
  refine (parseNumber (signedText_toSigned v.value)).next ?_
  rintro r db' ⟨⟨n, rfl, hvalue⟩, rfl⟩
  refine (orStop (by rw [hvalue, toInt64_key D hv.1])).skip (fun _ => trivial) ?_
  rintro z db' ⟨rfl, rfl⟩
  refine parseString.step ?_
  rintro text db' ⟨rfl, rfl⟩
  exact Reads.pure ⟨rfl, rfl, rfl⟩

theorem parseDescriptionsRound_end {read : List ValueDescription × List (Number R)} :
    Reads (fun t => t.kind ≠ .integer ∧ t.kind ≠ .minus) (parseDescriptionsRound read) [] db
      fun r db' => r = (read, false) ∧ db' = db := by
  unfold parseDescriptionsRound
  refine current_behind fun t ht => ?_
  rw [if_pos ht]
  exact Reads.pure ⟨rfl, rfl⟩

/-- **Descriptions are read back.** -/
theorem parseDescriptions [Printed R] (D : Printing R) {values : List ValueDescription}
    (hvalues : ∀ v ∈ values, WritableDescription v) :
    Reads (fun t => t.kind ≠ .integer ∧ t.kind ≠ .minus)
      (Parser.parseDescriptions : ParserM R (List ValueDescription × List (Number R)))
      (lexemes first (descriptionItems values)) db fun r db' => r.1 = values ∧ db' = db := by
  unfold descriptionItems
  rw [← List.append_nil (lexemes _ _)]
  refine while_anywhere (M := fun rest t => rest = [] → t.kind ≠ .integer ∧ t.kind ≠ .minus)
    (I := fun rest b db' => (∀ v ∈ rest, WritableDescription v) ∧ b.1 ++ rest = values ∧ db' = db)
    ?_ ?_ ?_ (fun t ht _ => ht) ⟨hvalues, rfl, rfl⟩
  · rintro v rest b db' first' ⟨hrest, happend, rfl⟩
    refine (parseDescriptionsRound_one D (hrest v List.mem_cons_self) b).any.mono (fun _ => id) ?_
    rintro r db'' ⟨hmore, hpush, rfl⟩
    refine ⟨hmore, fun w hw => hrest w (List.mem_cons_of_mem _ hw), ?_, rfl⟩
    rw [hpush, List.append_assoc]
    exact happend
  · intro v rest first'
    obtain ⟨l, more, hl⟩ := List.exists_cons_of_ne_nil
      (@lexemes_numberItems_ne_nil first' (toSigned v.value))
    rw [lexemes_space, lexemes_append, hl]
    exact ⟨l, _, rfl, fun _ h => by cases h⟩
  · rintro b db' ⟨-, happend, rfl⟩
    refine parseDescriptionsRound_end.mono (fun _ => id) ?_
    rintro r db'' ⟨rfl, rfl⟩
    exact ⟨rfl, by simpa using happend, rfl⟩

/-! ### Enumerations, ranges and values -/

theorem parseEnumRound_comma {values : List Text} {v : Text} {first' : Bool} :
    Reads Any (parseEnumRound values : ParserM R (List Text × Bool))
      [(.string v, first), (.mark (ch ','), first')] db fun r db' =>
        r.2 = true ∧ r.1 = values ++ [v] ∧ db' = db := by
  unfold parseEnumRound
  refine current fun location => ?_
  rw [if_neg (by simp [Lexeme.kind])]
  refine advance.step ?_
  rintro t db' ⟨⟨location, rfl⟩, rfl⟩
  refine (matchKind (by decide)).step ?_
  rintro again db' ⟨rfl, rfl⟩
  exact Reads.pure ⟨rfl, rfl, rfl⟩

theorem parseEnumRound_last {values : List Text} {v : Text} :
    Reads (fun t => t.kind ≠ .comma) (parseEnumRound values : ParserM R (List Text × Bool))
      [(.string v, first)] db fun r db' => r.2 = false ∧ r.1 = values ++ [v] ∧ db' = db := by
  unfold parseEnumRound
  refine current fun location => ?_
  rw [if_neg (by simp [Lexeme.kind])]
  refine advance.step ?_
  rintro t db' ⟨⟨location, rfl⟩, rfl⟩
  refine matchKind_absent.skip (fun _ ht => ht) ?_
  rintro again db' ⟨rfl, rfl⟩
  exact Reads.pure ⟨rfl, rfl, rfl⟩

/-- The values of an enumeration. -/
theorem parseEnum (values : List Text) :
    Reads (fun t => t.kind ≠ .comma ∧ t.kind ≠ .string)
      (Parser.while_ parseEnumRound [] : ParserM R (List Text))
      (lexemes first (separatedItems [space] [mark ','] (values.map fun v => [str v]))) db
      fun r db' => r = values ∧ db' = db := by
  by_cases hne : values = []
  · subst hne
    refine Reads.while_ fun n hn => ?_
    obtain ⟨n, rfl⟩ := Nat.exists_eq_succ_of_ne_zero (Nat.ne_of_gt hn)
    refine loop_last (current_behind fun t ht => ?_)
    rw [if_pos ht.2]
    exact Reads.pure ⟨rfl, rfl, rfl⟩
  · refine (while_separated id (fun b v => b ++ [v]) (fun _ _ _ _ => parseEnumRound_comma)
      (fun _ _ _ _ => parseEnumRound_last) (fun a first h => by cases h) (fun first => lexemes_space)
      hne).mono (fun _ ht => ht.1) ?_
    rintro r db' ⟨rfl, rfl⟩
    exact ⟨foldl_concat values [], rfl⟩

/-- An integer that is looked at before it is read. -/
theorem current_decimal {n : ℕ} {f : Token R → ParserM R α} {ls : List (Lexeme × Bool)}
    {Q : α → Database R → Prop}
    (h : ∀ t : Token R, t.kind = .integer → t.integer = strtoull (toDecimal n) →
      Reads N (f t) ((.number (toDecimal n), first) :: ls) db Q) :
    Reads N (Parser.current >>= f) ((.number (toDecimal n), first) :: ls) db Q := by
  refine current fun location => h _ ?_ ?_
  · rw [Lexeme.token_kind, Lexeme.kind, if_pos (all_isDigit_toDecimal n)]
  · rw [Lexeme.token, if_pos (all_isDigit_toDecimal n)]

theorem advance_decimal {n : ℕ} : Reads Any (Parser.advance : ParserM R (Token R))
    [(.number (toDecimal n), first)] db
    fun t db' => t.integer = strtoull (toDecimal n) ∧ db' = db := by
  refine advance.mono (fun _ => id) ?_
  rintro t db' ⟨⟨location, rfl⟩, rfl⟩
  refine ⟨?_, rfl⟩
  rw [Lexeme.token, if_pos (all_isDigit_toDecimal n)]

/-- The bounds of a range, up to what follows them. -/
theorem parseRange {rawId : Token R} {read : List MuxRange × List (Token R × Token R)} {r : MuxRange}
    {again : Bool} {ls : List (Lexeme × Bool)} (hr : r.low ≤ r.high)
    (hagain : Reads N (Parser.matchKind .comma : ParserM R Bool) ls db
      fun b db' => b = again ∧ db' = db) :
    Reads N (parseRangesRound rawId read) (lexemes first (rangeItems r) ++ ls) db
      fun out db' => out.2 = again ∧ out.1.1 = read.1 ++ [r] ∧ db' = db := by
  unfold parseRangesRound
  refine current_decimal fun t hkind _ => ?_
  rw [if_neg (not_not.2 hkind)]
  refine advance_decimal.step ?_
  rintro low db₁ ⟨hlow, rfl⟩
  have hupper (f₂ f₃ : Bool) : Reads Any (parseUpperBound low)
      [(.mark (ch '-'), f₂), (.number (toDecimal r.high.toNat), f₃)] db₁
      fun high db' => (∃ t : Token R, high = some t ∧ t.integer = strtoull (toDecimal r.high.toNat)) ∧
        db' = db₁ := by
    unfold parseUpperBound
    refine (matchKind (by decide)).step ?_
    rintro b db₂ ⟨rfl, rfl⟩
    rw [if_pos rfl]
    refine current_decimal fun t hkind _ => ?_
    rw [if_neg (not_not.2 hkind)]
    refine advance_decimal.step ?_
    rintro high db₃ ⟨hhigh, rfl⟩
    exact Reads.pure ⟨⟨high, rfl, hhigh⟩, rfl⟩
  refine (hupper _ _).next ?_
  rintro high db₂ ⟨⟨high, rfl, hhigh⟩, rfl⟩
  dsimp only
  rw [hlow, hhigh, strtoull_toDecimal_toNat, strtoull_toDecimal_toNat, if_neg (BitVec.not_lt.2 hr),
    if_neg (BitVec.not_lt.2 hr), ← List.append_nil ls]
  refine hagain.bind (fun _ ht => ht) ?_
  rintro b db₃ ⟨rfl, rfl⟩
  exact Reads.pure ⟨rfl, rfl, rfl⟩

/-- **The ranges of a multiplexed signal are read back.** -/
theorem parseRanges {rawId : Token R} {rs : List MuxRange} (hne : rs ≠ [])
    (hrs : ∀ r ∈ rs, r.low ≤ r.high) :
    Reads (fun t => t.kind ≠ .comma)
      (Parser.while_ (parseRangesRound rawId) ([], []) :
        ParserM R (List MuxRange × List (Token R × Token R)))
      (lexemes first (separatedItems [space] [mark ',', space] (rs.map rangeItems))) db
      fun b db' => b.1 = rs ∧ db' = db := by
  refine (while_separated (·.1) (fun b r => b ++ [r]) (fun r hr b first => ?_)
    (fun r hr b first => ?_) (fun r first h => by cases h) (fun first => lexemes_space) hne).mono
    (fun _ => id) ?_
  · rw [lexemes_append]
    exact parseRange (hrs r hr) (matchKind (by decide))
  · rw [← List.append_nil (lexemes _ _)]
    exact parseRange (hrs r hr) matchKind_absent
  · rintro b db' ⟨hfold, rfl⟩
    exact ⟨by rw [hfold, foldl_concat]; rfl, rfl⟩

/-! ### The values of attributes -/

/-- The token in front of a number. -/
theorem ahead_number {t : Text} (ht : SignedText t) (ls : List (Lexeme × Bool)) :
    Ahead (fun t : Token R => t.kind ≠ .string ∧ t.kind ≠ .identifier)
      (lexemes first (numberItems t) ++ ls) N := by
  obtain ⟨n, rfl | rfl⟩ := ht
  · rw [n.numberItems_text]
    refine fun location => ?_
    change ((Lexeme.number n.text).token location first : Token R).kind ≠ .string ∧
      ((Lexeme.number n.text).token location first : Token R).kind ≠ .identifier
    rw [Lexeme.token_kind, Lexeme.kind]
    split_ifs <;> simp
  · rw [n.numberItems_neg]
    exact fun location => ⟨TokenKind.noConfusion, TokenKind.noConfusion⟩

variable [Printed R] (D : Printing R)

theorem toInt_readBack {x : R} {z : ℤ} (hz : D.value x = some (z : ℚ)) (hlow : -2 ^ 63 ≤ z)
    (hhigh : z < 2 ^ 63) : Scalar.toInt (readBack x) = z := by
  rw [D.toInt (D.readBack_value hz) (by exact_mod_cast hlow) (by exact_mod_cast hhigh), trunc_intCast]

/-- An integer that is written is read as one. -/
theorem toInt64_readBack {x : R} (hx : Integral64 D x) :
    toInt64 (readBack x) = some (Scalar.toInt (readBack x)) := by
  obtain ⟨z, hz, hlow, hhigh⟩ := hx
  rw [toInt_readBack D hz hlow hhigh]
  exact (Number.toInt64_eq_some_iff D.toDoubles).2 ⟨z, D.readBack_value hz, by exact_mod_cast hlow,
    by exact_mod_cast hhigh, trunc_intCast z⟩

theorem Integral64.floor {x : R} (hx : Integral64 D x) : Integral64 D (Printed.floor x) := by
  obtain ⟨z, hz, hrange⟩ := hx
  refine ⟨z, ?_, hrange⟩
  rw [D.floor hz, Int.floor_intCast]

/-- The number of a value. -/
theorem parseLiteral_number {d : Option (AttributeDefinition R)} {x : R} (hx : Finite D x)
    {v : AttributeValue R}
    (hv : ∀ db : Database R, Reads Any (attributeNumber d (readBack x)) [] db
      fun a db' => a = v ∧ db' = db) :
    Reads Any (Parser.parseAttributeLiteral d) (lexemes first (numberItems (formatNumber x))) db
      fun a db' => a = v ∧ db' = db := by
  obtain ⟨q, hq⟩ := hx
  have htext := D.signedText_formatNumber hq
  unfold Parser.parseAttributeLiteral
  rw [← List.append_nil (lexemes _ _)]
  refine current_ahead (ahead_number htext []) fun t ht => ?_
  rw [if_neg ht.1]
  refine (parseNumber htext).next ?_
  rintro r db' ⟨⟨n, rfl, hvalue⟩, rfl⟩
  have hn : n.value = readBack x := hvalue
  dsimp only
  rw [hn]
  exact hv db'

omit [Printed R] in
/-- The string of a value. -/
theorem parseLiteral_string {d : Option (AttributeDefinition R)} {text : Text}
    {v : AttributeValue R}
    (hv : ∀ (t : Token R) (db : Database R), t.value = text → Reads N (
      match d with
      | some d =>
        if d.type = .enum then
          return { type := .enum, number := Scalar.ofInt (enumIndex d.enumValues t.value),
                   text := t.value }
        else return { type := .string, number := Scalar.lit 0, text := t.value }
      | none => return { type := .string, number := Scalar.lit 0, text := t.value }) [] db
      fun a db' => a = v ∧ db' = db) :
    Reads N (Parser.parseAttributeLiteral d) (lexemes first [str text]) db
      fun a db' => a = v ∧ db' = db := by
  unfold Parser.parseAttributeLiteral
  refine current fun location => ?_
  rw [if_pos (by simp [Lexeme.kind])]
  refine advance.step ?_
  rintro t db' ⟨⟨location', rfl⟩, rfl⟩
  exact hv _ _ rfl

/-- What the parser uses of a definition to read a value. -/
def kindOf (d : AttributeDefinition R) : AttributeType × List Text := (d.type, d.enumValues)

variable {D}

/-- What a value is typed by is what is read of its definition. -/
theorem typed {d d' : Option (AttributeDefinition R)} {v : AttributeValue R}
    (hkind : d'.map kindOf = d.map kindOf) (hv : WritableValue D d v) :
    (∃ d₁, d' = some d₁ ∧ d₁.type = v.type ∧ WritableOf D d₁.enumValues v) ∨
      (d' = none ∧ (v.type = .float ∨ v.type = .string) ∧ WritableOf D [] v) := by
  cases d' with
  | none =>
    cases d with
    | none => exact .inr ⟨rfl, hv⟩
    | some d₀ => cases hkind
  | some d₁ =>
    cases d with
    | none => cases hkind
    | some d₀ =>
      have hsame : d₁.type = d₀.type ∧ d₁.enumValues = d₀.enumValues :=
        Prod.ext_iff.1 (Option.some.inj hkind)
      exact .inl ⟨d₁, rfl, hsame.1.trans hv.1.symm, hsame.2 ▸ hv.2⟩

/-- The number of a value, as its type has it. -/
theorem attributeNumber_read {d : AttributeDefinition R} {x : R} {i : ℤ}
    {v : AttributeValue R} (hi : toInt64 (readBack x) = some i)
    (hv : d.type = .int ∧ v = { type := .int, number := Scalar.ofInt i } ∨
      d.type = .hex ∧ v = { type := .hex, number := Scalar.ofInt i } ∨
      d.type = .enum ∧
        v = { type := .enum, number := Scalar.ofInt i, text := enumName d.enumValues i }) :
    Reads Any (attributeNumber (some d) (readBack x)) [] db fun a db' => a = v ∧ db' = db := by
  unfold attributeNumber
  dsimp only
  rcases hv with ⟨hd, rfl⟩ | ⟨hd, rfl⟩ | ⟨hd, rfl⟩ <;> rw [hd] <;> dsimp only <;>
  · refine (orStop hi).skip (fun _ => id) ?_
    rintro a db' ⟨rfl, rfl⟩
    exact Reads.pure ⟨rfl, rfl⟩

/-- **A value is read back** where the definition that was read is as the one it is typed by. -/
theorem parseAttributeLiteral {d d' : Option (AttributeDefinition R)} {v : AttributeValue R}
    (hkind : d'.map kindOf = d.map kindOf) (hv : WritableValue D d v) :
    Reads Any (Parser.parseAttributeLiteral d') (lexemes first (literalItems v false)) db
      fun a db' => a = rereadValue v ∧ db' = db := by
  unfold literalItems rereadValue
  rcases typed hkind hv with ⟨d₁, rfl, htype, hof⟩ | ⟨rfl, htype, hof⟩
  · unfold WritableOf at hof
    cases hcases : v.type with
    | int =>
      rw [hcases] at htype hof
      have hfloor := Integral64.floor D hof.1
      exact parseLiteral_number D hfloor.finite fun db =>
        attributeNumber_read (toInt64_readBack D hfloor) (.inl ⟨htype, rfl⟩)
    | hex =>
      rw [hcases] at htype hof
      have hfloor := Integral64.floor D hof.1
      exact parseLiteral_number D hfloor.finite fun db =>
        attributeNumber_read (toInt64_readBack D hfloor) (.inr (.inl ⟨htype, rfl⟩))
    | float =>
      rw [hcases] at htype hof
      refine parseLiteral_number D hof.1 fun db => ?_
      unfold attributeNumber
      dsimp only
      rw [htype]
      exact Reads.pure ⟨rfl, rfl⟩
    | string =>
      rw [hcases] at htype
      refine parseLiteral_string fun t db ht => ?_
      dsimp only
      rw [if_neg (by rw [htype]; decide), ht]
      exact Reads.pure ⟨rfl, rfl⟩
    | enum =>
      rw [hcases] at htype hof
      obtain ⟨i, hi, htext, hnumber⟩ := hof
      have hint : Integral64 D v.number := ⟨i, by exact_mod_cast hnumber, by omega, by omega⟩
      refine parseLiteral_number D hint.finite fun db =>
        attributeNumber_read (toInt64_readBack D hint) (.inr (.inr ⟨htype, ?_⟩))
      have htoInt : Scalar.toInt (readBack v.number) = (i : ℤ) := by
        rw [toInt_readBack D (by exact_mod_cast hnumber) (by omega) (by omega)]
      rw [htoInt, enumName, if_pos (Int.natCast_nonneg i), Int.toNat_natCast,
        List.getD_eq_getElem?_getD, htext]
      dsimp only
      rw [rereadInt, htoInt]
      rfl
  · rcases htype with htype | htype
    · unfold WritableOf at hof
      rw [htype] at hof ⊢
      exact parseLiteral_number D hof.1 fun db => Reads.pure ⟨rfl, rfl⟩
    · rw [htype]
      refine parseLiteral_string fun t db ht => ?_
      dsimp only
      rw [ht]
      exact Reads.pure ⟨rfl, rfl⟩

theorem enumIndex_eq {values : List Text} (hvalues : values.Nodup) {i : ℕ} {text : Text}
    (hi : values[i]? = some text) : enumIndex values text = i := by
  obtain ⟨hlt, htext⟩ := List.getElem?_eq_some_iff.1 hi
  have hfind : values.findIdx? (· = text) = some i := by
    refine List.findIdx?_eq_some_iff_getElem.2 ⟨hlt, by simpa using htext, fun j hj => ?_⟩
    have hne : values[j] ≠ text := fun h =>
      absurd ((hvalues.getElem_inj_iff).1 (h.trans htext.symm)) (Nat.ne_of_lt hj)
    simpa using hne
  rw [enumIndex, hfind]
  rfl

/-- **A default is read back.** -/
theorem parseAttributeLiteral_default {d d' : AttributeDefinition R} (hkind : kindOf d' = kindOf d)
    (hv : WritableValue D (some d) d.defaultValue) :
    Reads Any (Parser.parseAttributeLiteral (some d')) (lexemes first (literalItems d.defaultValue true))
      db fun a db' => a = rereadDefault d ∧ db' = db := by
  by_cases henum : d.defaultValue.type = .enum
  · have hitems : literalItems d.defaultValue true = [str d.defaultValue.text] := by
      unfold literalItems
      rw [henum]
      rfl
    have hsame : d'.type = d.type ∧ d'.enumValues = d.enumValues := Prod.ext_iff.1 hkind
    rw [hitems]
    refine parseLiteral_string fun t db ht => ?_
    dsimp only
    rw [if_pos (by rw [hsame.1, ← hv.1, henum]), ht, hsame.2, rereadDefault, if_pos henum]
    exact Reads.pure ⟨rfl, rfl⟩
  · have hitems : literalItems d.defaultValue true = literalItems d.defaultValue false := by
      unfold literalItems
      cases hcases : d.defaultValue.type with
      | enum => exact absurd hcases henum
      | int | hex | float | string => rfl
    rw [hitems, rereadDefault, if_neg henum]
    exact parseAttributeLiteral (d := some d) (congrArg some hkind) hv

/-! ### Lookups -/

omit [Printed R] in
theorem findMessage {id : CanId} {f : Option (Message R) → ParserM R α}
    {ls : List (Lexeme × Bool)} {Q : α → Database R → Prop}
    (h : Reads N (f (db.findMessage id)) ls db Q) :
    Reads N (Parser.findMessage id >>= f) ls db Q := by
  have hfind : Reads Any (Parser.findMessage id : ParserM R (Option (Message R))) [] db
      fun m db' => m = db.findMessage id ∧ db' = db := by
    unfold Parser.findMessage
    exact Reads.database (Reads.pure ⟨rfl, rfl⟩)
  refine hfind.next ?_
  rintro m db' ⟨rfl, rfl⟩
  exact h

omit [Printed R] in
theorem modifyMessage {id : CanId} (f : Message R → Message R) :
    Reads N (Parser.modifyMessage id f) [] db fun _ db' => db' = changeMessage id f db :=
  (modifyDb (changeMessage id f)).any

omit [Printed R] in
theorem modifySignal {id : CanId} {name : Text} (f : Signal R → Signal R) :
    Reads N (Parser.modifySignal id name f) [] db fun _ db' => db' = changeSignal id name f db :=
  modifyMessage (changeSignalOf name f)

omit [Printed R] in
theorem modifyNode {name : Text} (f : Node R → Node R) :
    Reads N (Parser.modifyNode name f) [] db fun _ db' => db' = changeNode name f db :=
  (modifyDb (changeNode name f)).any

omit [Printed R] in
theorem findAttributeDefinition {name : Text} {f : Option (AttributeDefinition R) → ParserM R α}
    {ls : List (Lexeme × Bool)} {Q : α → Database R → Prop}
    (h : Reads N (f (db.attributeDefinitions.find? (·.name = name))) ls db Q) :
    Reads N (Parser.findAttributeDefinition name >>= f) ls db Q := by
  have hfind : Reads Any (Parser.findAttributeDefinition name : ParserM R _) [] db
      fun d db' => d = db.attributeDefinitions.find? (·.name = name) ∧ db' = db := by
    unfold Parser.findAttributeDefinition
    exact Reads.database (Reads.pure ⟨rfl, rfl⟩)
  refine hfind.next ?_
  rintro d db' ⟨rfl, rfl⟩
  exact h

/-! ### The end of a statement -/

omit [Printed R] in
/-- A semicolon that may be missing. -/
theorem semicolon (deleted : Bool) :
    Reads (fun t => t.kind ≠ .semicolon) (Parser.matchKind .semicolon : ParserM R Bool)
      (lexemes first (semicolonItems deleted)) db fun _ db' => db' = db := by
  unfold semicolonItems
  cases deleted with
  | false =>
    refine ((matchKind (by decide)).any).mono (fun _ => id) ?_
    rintro b db' ⟨-, rfl⟩
    rfl
  | true =>
    refine matchKind_absent.mono (fun _ => id) ?_
    rintro b db' ⟨-, rfl⟩
    rfl

end Reads
end Parser
end Dbc
end Canforge
