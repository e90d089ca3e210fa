/-
# What a quiet run reads

In a run that reports nothing `Stored` holds all the time: the integers of the database are those
the statements so far have written, as far as the parser keeps them.  A production that is not
about integers keeps it because it keeps `Kept`, which is a frame (`Stored.quiet`); here are the
pieces of the others, each with what it reads.
-/

import Canforge.Dbc.Productions

namespace Canforge
namespace Dbc

open Canforge.Core Text Lib Reporting

variable {R : Type} [Scalar R]

namespace Parser

/-- Tokens are read, and no integer is touched. -/
structure Kept (s s' : Parser R) : Prop where
  tokens : s'.tokens ⊆ s.tokens
  statements : s'.statements = s.statements
  integers : Integers.ofDatabase s'.db = Integers.ofDatabase s.db

omit [Scalar R] in
theorem Kept.trans {s₁ s₂ s₃ : Parser R} (h : Kept s₁ s₂) (h' : Kept s₂ s₃) : Kept s₁ s₃ :=
  ⟨List.Subset.trans h'.tokens h.tokens, h'.statements.trans h.statements,
    h'.integers.trans h.integers⟩

instance : Frame (Kept (R := R)) where
  refl _ := ⟨List.Subset.refl _, rfl, rfl⟩
  trans := Kept.trans
  tail s := ⟨List.tail_subset s.tokens, rfl, rfl⟩
  db s _ hf := ⟨List.Subset.refl _, rfl, hf s.db⟩

/-! ### Identifiers -/

theorem kDbcExtendedFlag_eq : kDbcExtendedFlag = BitVec.twoPow 32 31 := by decide

/-- Bit 31 taken off and put on again. -/
theorem or_kDbcExtendedFlag {x : BitVec 32} (h : x &&& kDbcExtendedFlag ≠ 0) :
    x &&& ~~~kDbcExtendedFlag ||| kEffFlag = x := by
  have hbit : x.getLsbD 31 = true := by
    rw [kDbcExtendedFlag_eq, BitVec.and_twoPow] at h
    split_ifs at h with hbit
    · exact hbit
    · exact absurd rfl h
  have hflag : kEffFlag = BitVec.twoPow 32 31 := by decide
  rw [kDbcExtendedFlag_eq, hflag]
  ext i hi
  simp only [BitVec.getElem_or, BitVec.getElem_and, BitVec.getElem_not, BitVec.getElem_twoPow]
  by_cases heq : i = 31
  · subst heq
    simpa using hbit
  · simp [heq]

theorem and_not_kDbcExtendedFlag {x : BitVec 32} (h : x &&& kDbcExtendedFlag = 0) :
    x &&& ~~~kDbcExtendedFlag = x := by
  have hbit : x.getLsbD 31 = false := by
    rw [kDbcExtendedFlag_eq, BitVec.and_twoPow] at h
    split_ifs at h with hbit
    · exact absurd h (by decide)
    · simpa using hbit
  rw [kDbcExtendedFlag_eq]
  ext i hi
  simp only [BitVec.getElem_and, BitVec.getElem_not, BitVec.getElem_twoPow]
  by_cases heq : i = 31
  · subst heq
    simpa using hbit
  · simp [heq]

/-- The identifier `parse_message_id` builds has the bits it was built from. -/
theorem built_packed {packed : BitVec 32} {id : CanId}
    (h : (if decide (packed &&& kDbcExtendedFlag ≠ 0) then
        CanId.extended (packed &&& ~~~kDbcExtendedFlag)
      else CanId.standard (packed &&& ~~~kDbcExtendedFlag)) = .ok id) : id.packed = packed := by
  by_cases hflag : packed &&& kDbcExtendedFlag = 0
  · rw [if_neg (by simpa using hflag), CanId.standard] at h
    split_ifs at h
    rw [← Except.ok.inj h]
    exact and_not_kDbcExtendedFlag hflag
  · rw [if_pos (by simpa using hflag), CanId.extended] at h
    split_ifs at h
    rw [← Except.ok.inj h]
    exact or_kDbcExtendedFlag hflag

/-- A token that writes an integer. -/
structure IsInteger (t : Token R) : Prop where
  wellLexed : t.WellLexed
  kind : t.kind = .integer

theorem IsInteger.toNat {t : Token R} (h : IsInteger t) :
    t.integer.toNat = min (number t) (2 ^ 64 - 1) := by
  rw [(h.wellLexed.integer h.kind).1, strtoull, BitVec.toNat_ofNat, number]
  omega

/-- What a cast to 32 bits makes of it. -/
theorem IsInteger.stored32 {t : Token R} (h : IsInteger t) :
    (t.integer.setWidth 32).toNat = stored32 (number t) := by
  rw [BitVec.toNat_setWidth, h.toNat, Dbc.stored32]

/-- Nothing, where it fits. -/
theorem IsInteger.stored32_of_lt {t : Token R} (h : IsInteger t)
    (hlt : t.integer.toNat < 2 ^ 32) : t.integer.toNat = Dbc.stored32 (number t) := by
  rw [← h.stored32, BitVec.toNat_setWidth, Nat.mod_eq_of_lt hlt]

/-- A token that writes a number. -/
structure IsNumber (n : Number R) : Prop where
  wellLexed : n.token.WellLexed
  kind : n.token.kind = .integer ∨ n.token.kind = .real

/-! ### Pieces that report, or do not -/

section

variable {s s' : Parser R}

@[simp] theorem quiet_peek {n : ℕ} {t : Token R} :
    Quiet (peek n) s t s' ↔ s.ahead n = t ∧ s = s' := by
  simp only [peek, quiet_bind, quiet_get, quiet_pure]
  constructor
  · rintro ⟨_, _, ⟨rfl, rfl⟩, rfl, rfl⟩
    exact ⟨rfl, rfl⟩
  · rintro ⟨rfl, rfl⟩
    exact ⟨_, _, ⟨rfl, rfl⟩, rfl, rfl⟩

@[simp] theorem quiet_current {t : Token R} : Quiet current s t s' ↔ s.ahead 0 = t ∧ s = s' :=
  quiet_peek

omit [Scalar R] in
@[simp] theorem not_quiet_error {code : ErrorCode} {t : Token R} {message note : Text} {u : Unit} :
    ¬Quiet (error code t message note) s u s' := by
  simp [error, report]

omit [Scalar R] in
@[simp] theorem not_quiet_warn {code : ErrorCode} {t : Token R} {message note : Text} {u : Unit} :
    ¬Quiet (warn code t message note) s u s' := by
  simp [warn, report]

theorem quiet_advance {t : Token R} (h : Quiet advance s t s') : t = s.ahead 0 := by
  simp only [advance, quiet_bind, quiet_get, quiet_modify, quiet_pure] at h
  obtain ⟨_, _, ⟨rfl, rfl⟩, _, _, rfl, rfl, rfl⟩ := h
  rfl

omit [Scalar R] in
theorem quiet_while {β : Type} {round : β → ParserM R (β × Bool)} {b b' : β}
    (h : Quiet (while_ round b) s b' s') :
    ∃ n, Quiet (Reporting.loop .outOfFuel round n b) s b' s' := by
  simp only [while_, quiet_bind, quiet_get] at h
  obtain ⟨_, _, ⟨rfl, rfl⟩, h⟩ := h
  exact ⟨_, h⟩

omit [Scalar R] in
theorem ahead_mem [Scalar R] (h : Terminated s.tokens) : s.ahead 0 ∈ s.tokens := by
  obtain ⟨e, he, -⟩ := h
  match hs : s.tokens with
  | [] => simp [hs] at he
  | t :: rest => simp [ahead, hs]

end

/-- Descriptions whose values are what the parser makes of these keys. -/
structure KeysOf (values : List ValueDescription) (keys : List (Number R)) : Prop where
  values : values.map (fun v => some v.value) = keys.map Number.stored
  numbers : ∀ k ∈ keys, IsNumber k

/-- Ranges whose bounds are what the parser makes of these literals. -/
def RangesOf (ranges : List MuxRange) (literals : List (Token R × Token R)) : Prop :=
  ranges.map (fun r => (r.low.toNat, r.high.toNat)) =
    literals.map fun r => (stored32 (number r.1), stored32 (number r.2))

/-- What the parser makes of the digits of `m<n>`. -/
theorem stored32_multiplexed (multiplexed : Option Text) :
    (multiplexed.elim (0 : BitVec 32) fun digits => (strtoull digits).setWidth 32).toNat =
      stored32 (multiplexed.elim 0 decimalValue) := by
  cases multiplexed with
  | none => rfl
  | some digits =>
    simp only [Option.elim_some, BitVec.toNat_setWidth, strtoull, BitVec.toNat_ofNat, stored32]
    omega

/-- A signal whose integers are what the parser makes of this line. -/
def SignalOf (signal : Signal R) (line : SignalLine R) : Prop :=
  (SignalIntegers.ofSignal signal).map id some = line.integers.map stored32 Number.stored

/-- **What holds all along a quiet run.** -/
structure Stored (s : Parser R) : Prop where
  terminated : Terminated s.tokens
  lexed : ∀ t ∈ s.tokens, t.WellLexed
  integers : (Integers.ofDatabase s.db).map id some =
    (written s.statements).map stored32 Number.stored
  keys : ∀ k ∈ (written s.statements).keys, IsNumber k

namespace Stored

variable {α : Type} {s s' : Parser R} {a : α} {p : ParserM R α}

/-- **Code that touches no integer.** -/
theorem goes (h : Stored s) {n : α → ℕ} (hp : Goes Kept p s n) (hquiet : Quiet p s a s') :
    Stored s' := by
  have hleads := hp h.terminated
  rw [Leads, hquiet] at hleads
  obtain ⟨⟨hterm, hkept⟩, -⟩ := hleads
  refine ⟨hterm, fun t ht => h.lexed t (hkept.tokens ht), ?_, ?_⟩
  · rw [hkept.integers, hkept.statements, h.integers]
  · rw [hkept.statements]
    exact h.keys

theorem quiet (h : Stored s) (hp : Ends Kept p) (hquiet : Quiet p s a s') : Stored s' :=
  h.goes (hp s) hquiet

/-- An integer is read. -/
theorem unsigned (h : Stored s) {o : Option (Token R)} (hquiet : Quiet parseUnsigned s o s') :
    Stored s' ∧ ∃ t, o = some t ∧ IsInteger t ∧ t = s.ahead 0 := by
  refine ⟨h.quiet ends_parseUnsigned hquiet, ?_⟩
  simp only [parseUnsigned, quiet_bind, quiet_current] at hquiet
  obtain ⟨_, _, ⟨rfl, rfl⟩, hquiet⟩ := hquiet
  split_ifs at hquiet with hkind
  · simp at hquiet
  · simp only [quiet_bind, quiet_pure] at hquiet
    obtain ⟨t, _, hadvance, rfl, rfl⟩ := hquiet
    rw [quiet_advance hadvance]
    exact ⟨_, rfl, ⟨h.lexed _ (ahead_mem h.terminated), not_not.1 hkind⟩, rfl⟩

/-- A name is read. -/
theorem name (h : Stored s) {o : Option Text} (hquiet : Quiet parseName s o s') :
    Stored s' ∧ ∃ v, o = some v := by
  refine ⟨h.quiet ends_parseName hquiet, ?_⟩
  simp only [parseName, quiet_bind, quiet_current] at hquiet
  obtain ⟨_, _, ⟨rfl, rfl⟩, hquiet⟩ := hquiet
  split_ifs at hquiet
  · simp at hquiet
  · simp only [quiet_bind, quiet_pure] at hquiet
    obtain ⟨t, _, -, rfl, -⟩ := hquiet
    exact ⟨_, rfl⟩

/-- A string is read. -/
theorem string (h : Stored s) {o : Option Text} (hquiet : Quiet parseString s o s') :
    Stored s' ∧ ∃ v, o = some v := by
  refine ⟨h.quiet ends_parseString hquiet, ?_⟩
  simp only [parseString, quiet_bind, quiet_current] at hquiet
  obtain ⟨_, _, ⟨rfl, rfl⟩, hquiet⟩ := hquiet
  split_ifs at hquiet
  · simp at hquiet
  · simp only [quiet_bind, quiet_pure] at hquiet
    obtain ⟨t, _, -, rfl, -⟩ := hquiet
    exact ⟨_, rfl⟩

/-- A number is read. -/
theorem number (h : Stored s) {o : Option (Number R)} (hquiet : Quiet parseNumber s o s') :
    Stored s' ∧ ∃ n, o = some n ∧ IsNumber n := by
  refine ⟨h.quiet ends_parseNumber hquiet, ?_⟩
  simp only [parseNumber, quiet_bind, quiet_current] at hquiet
  obtain ⟨negative, s₁, hsign, _, _, ⟨rfl, rfl⟩, hquiet⟩ := hquiet
  have h₁ := h.quiet ends_parseSign hsign
  split_ifs at hquiet with hkind
  · simp at hquiet
  · simp only [quiet_bind, quiet_pure] at hquiet
    obtain ⟨t, _, hadvance, rfl, rfl⟩ := hquiet
    refine ⟨_, rfl, ?_, ?_⟩
    · rw [quiet_advance hadvance]
      exact h₁.lexed _ (ahead_mem h₁.terminated)
    · rw [quiet_advance hadvance]
      by_contra hneither
      exact hkind (not_or.1 hneither)

/-- The number of an identifier is kept, all 32 bits of it. -/
theorem messageId (h : Stored s) {raw : Token R} {id : CanId}
    (hquiet : Quiet (parseMessageId raw) s id s') :
    Stored s' ∧ id.packed = raw.integer.setWidth 32 := by
  refine ⟨h.quiet (ends_parseMessageId raw) hquiet, ?_⟩
  rw [parseMessageId] at hquiet
  split at hquiet
  · rename_i built hbuilt
    obtain ⟨rfl, -⟩ := quiet_pure.1 hquiet
    exact built_packed hbuilt
  · split_ifs at hquiet
    · simp at hquiet
    · simp at hquiet

/-- **A loop**, whose rounds keep `P` of what they read. -/
theorem loop {β : Type} {round : β → ParserM R (β × Bool)} (h : Stored s) (P : β → Prop)
    (hround : ∀ b s b' again s', Stored s → P b → Quiet (round b) s (b', again) s' →
      Stored s' ∧ P b') {b b' : β} (hb : P b) (hquiet : Quiet (while_ round b) s b' s') :
    Stored s' ∧ P b' := by
  obtain ⟨n, hloop⟩ := quiet_while hquiet
  have hinv : ∀ b s b' again s', Stored s ∧ P b → Quiet (round b) s (b', again) s' →
      if again then Stored s' ∧ P b' else Stored s' ∧ P b' := by
    rintro b s b' again s' ⟨hs, hb⟩ hone
    rw [ite_self]
    exact hround b s b' again s' hs hb hone
  exact @Quiet.loop _ _ _ _ _ _ (fun b s => Stored s ∧ P b) (fun b s => Stored s ∧ P b) hinv
    n b b' s s' ⟨h, hb⟩ hloop

/-- Keys and descriptions are read. -/
theorem descriptions (h : Stored s) {read : List ValueDescription × List (Number R)}
    (hquiet : Quiet parseDescriptions s read s') : Stored s' ∧ KeysOf read.1 read.2 := by
  refine h.loop (fun read => KeysOf read.1 read.2) ?_ ⟨rfl, fun _ hmem => by cases hmem⟩ hquiet
  rintro read s₁ read' again s₂ h₁ hkeys hround
  simp only [parseDescriptionsRound, quiet_bind, quiet_current] at hround
  obtain ⟨_, _, ⟨rfl, rfl⟩, hround⟩ := hround
  split_ifs at hround
  · simp only [quiet_pure, Prod.mk.injEq] at hround
    obtain ⟨⟨rfl, rfl⟩, rfl⟩ := hround
    exact ⟨h₁, hkeys⟩
  simp only [quiet_bind] at hround
  obtain ⟨o, s₃, hnumber, hround⟩ := hround
  obtain ⟨h₃, number, rfl, hisNumber⟩ := h₁.number hnumber
  simp only [quiet_bind, quiet_orStop] at hround
  obtain ⟨value, _, ⟨hvalue, rfl⟩, text, s₄, hstring, hround⟩ := hround
  obtain ⟨h₄, text, rfl⟩ := h₃.string hstring
  simp only [quiet_pure, Prod.mk.injEq] at hround
  obtain ⟨⟨rfl, rfl⟩, rfl⟩ := hround
  refine ⟨h₄, ?_, ?_⟩
  · rw [List.map_append, List.map_append, hkeys.values]
    simp [Number.stored, hvalue]
  · intro k hk
    rcases List.mem_append.1 hk with hk | hk
    · exact hkeys.numbers k hk
    · rw [List.mem_singleton.1 hk]
      exact hisNumber

/-- The upper bound of a range is read. -/
theorem upperBound (h : Stored s) {low : Token R} (hlow : IsInteger low) {o : Option (Token R)}
    (hquiet : Quiet (parseUpperBound low) s o s') :
    Stored s' ∧ ∃ high, o = some high ∧ IsInteger high := by
  refine ⟨h.quiet (ends_parseUpperBound low) hquiet, ?_⟩
  simp only [parseUpperBound, quiet_bind] at hquiet
  obtain ⟨upper, s₁, hmatch, hquiet⟩ := hquiet
  have h₁ := h.quiet (ends_matchKind _) hmatch
  cases upper with
  | false =>
    obtain ⟨rfl, -⟩ := quiet_pure.1 hquiet
    exact ⟨low, rfl, hlow⟩
  | true =>
    rw [if_pos rfl] at hquiet
    simp only [quiet_bind, quiet_current] at hquiet
    obtain ⟨_, _, ⟨rfl, rfl⟩, hquiet⟩ := hquiet
    split_ifs at hquiet with hkind
    · simp at hquiet
    · simp only [quiet_bind, quiet_pure] at hquiet
      obtain ⟨t, _, hadvance, rfl, rfl⟩ := hquiet
      rw [quiet_advance hadvance]
      exact ⟨_, rfl, h₁.lexed _ (ahead_mem h₁.terminated), not_not.1 hkind⟩

/-- Ranges are read. -/
theorem ranges (h : Stored s) {rawId : Token R} {read : List MuxRange × List (Token R × Token R)}
    (hquiet : Quiet (while_ (parseRangesRound rawId) ([], [])) s read s') :
    Stored s' ∧ RangesOf read.1 read.2 := by
  have hnone : RangesOf ([] : List MuxRange) ([] : List (Token R × Token R)) := rfl
  refine h.loop (fun read : List MuxRange × List (Token R × Token R) =>
    RangesOf read.1 read.2) ?_ hnone hquiet
  rintro read s₁ read' again s₂ h₁ hranges hround
  simp only [parseRangesRound, quiet_bind, quiet_current] at hround
  obtain ⟨_, _, ⟨rfl, rfl⟩, hround⟩ := hround
  split_ifs at hround with hkind
  · simp only [quiet_pure, Prod.mk.injEq] at hround
    obtain ⟨⟨rfl, rfl⟩, rfl⟩ := hround
    exact ⟨h₁, hranges⟩
  have hlow : IsInteger (s₁.ahead 0) :=
    ⟨h₁.lexed _ (ahead_mem h₁.terminated), not_not.1 hkind⟩
  simp only [quiet_bind] at hround
  obtain ⟨low, s₃, hadvance, o, s₄, hupper, hround⟩ := hround
  have h₃ := h₁.quiet ends_advance hadvance
  rw [← quiet_advance hadvance] at hlow
  obtain ⟨h₄, high, rfl, hhigh⟩ := h₃.upperBound hlow hupper
  dsimp only at hround
  split_ifs at hround with hswapped
  · simp at hround
  simp only [quiet_bind, quiet_pure, Prod.mk.injEq] at hround
  obtain ⟨_, s₅, hmatch, ⟨rfl, rfl⟩, rfl⟩ := hround
  refine ⟨h₄.quiet (ends_matchKind _) hmatch, ?_⟩
  unfold RangesOf at hranges ⊢
  rw [List.map_append, List.map_append, hranges]
  simp only [List.map_cons, List.map_nil, hlow.stored32, hhigh.stored32]

/-- A number of `parse_signal` that is in its range. -/
theorem inRange (h : Stored s) {t : Token R} {ok : ℕ → Bool} {clamped : ℕ → ℕ} {code : ErrorCode}
    {message : String} {n : ℕ} (hquiet : Quiet (inRange t ok clamped code message) s n s') :
    Stored s' ∧ n = t.integer.toNat ∧ ok n = true := by
  refine ⟨h.quiet (ends_inRange t ok clamped code message) hquiet, ?_⟩
  unfold Parser.inRange at hquiet
  split_ifs at hquiet with hok
  · obtain ⟨rfl, -⟩ := quiet_pure.1 hquiet
    exact ⟨rfl, hok⟩
  · simp at hquiet

/-- The factor is not zero. -/
theorem checkFactor (h : Stored s) {start : Token R} {name : Text} {layout layout' : ScaledLayout R}
    (hquiet : Quiet (checkFactor start name layout) s layout' s') :
    Stored s' ∧ layout' = layout := by
  refine ⟨h.quiet (ends_checkFactor start name layout) hquiet, ?_⟩
  unfold Parser.checkFactor at hquiet
  split_ifs at hquiet
  · simp at hquiet
  · exact (quiet_pure.1 hquiet).1.symm

/-- **A line of a message is read.** -/
theorem signal (h : Stored s) {open_ open' : Message R × List (SignalLine R)}
    (hquiet : Quiet (parseSignal open_) s open' s') :
    Stored s' ∧ ∃ signal line, SignalOf signal line ∧
      open' = ({ open_.1 with signals := open_.1.signals ++ [signal] }, open_.2 ++ [line]) := by
  simp only [parseSignal, quiet_bind] at hquiet
  obtain ⟨_, _, hadvance, _, _, hname, hquiet⟩ := hquiet
  obtain ⟨h, name, rfl⟩ := (h.quiet ends_advance hadvance).name hname
  simp only [quiet_bind] at hquiet
  obtain ⟨indicator, _, hindicator, _, _, hcolon, _, _, hstart, hquiet⟩ := hquiet
  replace h := (h.quiet ends_parseIndicator hindicator).quiet (ends_expect _ _) hcolon
  obtain ⟨h, start, rfl, hstart, -⟩ := h.unsigned hstart
  simp only [quiet_bind] at hquiet
  obtain ⟨startBit, _, hstartBit, _, _, hpipe, _, _, hlength, hquiet⟩ := hquiet
  obtain ⟨h, rfl, hstartOk⟩ := h.inRange hstartBit
  obtain ⟨h, length, rfl, hlength, -⟩ := (h.quiet (ends_expect _ _) hpipe).unsigned hlength
  simp only [quiet_bind] at hquiet
  obtain ⟨bitLength, _, hbitLength, _, _, hat, _, _, horder, hquiet⟩ := hquiet
  obtain ⟨h, rfl, hlengthOk⟩ := h.inRange hbitLength
  obtain ⟨h, order, rfl, -, -⟩ := (h.quiet (ends_expect _ _) hat).unsigned horder
  simp only [quiet_bind] at hquiet
  obtain ⟨byteOrder, _, hbyteOrder, sign, _, hsign, _, _, hparen, _, _, hfactor, hquiet⟩ := hquiet
  replace h := (h.inRange hbyteOrder).1.quiet ends_parseSignedness hsign
  obtain ⟨h, factor, rfl, -⟩ := (h.quiet (ends_expect _ _) hparen).number hfactor
  simp only [quiet_bind] at hquiet
  obtain ⟨_, _, hcomma, _, _, hoffset, hquiet⟩ := hquiet
  obtain ⟨h, offset, rfl, -⟩ := (h.quiet (ends_expect _ _) hcomma).number hoffset
  simp only [quiet_bind] at hquiet
  obtain ⟨_, _, hparen, _, _, hbracket, _, _, hminimum, hquiet⟩ := hquiet
  replace h := (h.quiet (ends_expect _ _) hparen).quiet (ends_expect _ _) hbracket
  obtain ⟨h, minimum, rfl, -⟩ := h.number hminimum
  simp only [quiet_bind] at hquiet
  obtain ⟨_, _, hpipe, _, _, hmaximum, hquiet⟩ := hquiet
  obtain ⟨h, maximum, rfl, -⟩ := (h.quiet (ends_expect _ _) hpipe).number hmaximum
  simp only [quiet_bind] at hquiet
  obtain ⟨_, _, hbracket, _, _, hunit, hquiet⟩ := hquiet
  obtain ⟨h, unit, rfl⟩ := (h.quiet (ends_expect _ _) hbracket).string hunit
  simp only [quiet_bind, quiet_pure] at hquiet
  obtain ⟨receivers, _, hreceivers, layout, _, hlayout, _, _, hfits, rfl, rfl⟩ := hquiet
  obtain ⟨h, rfl⟩ := (h.quiet ends_parseNameList hreceivers).checkFactor hlayout
  refine ⟨h.quiet (ends_checkFits _ _ _ _) hfits, _, _, ?_, rfl⟩
  have hstart511 : start.integer.toNat ≤ 511 := by simpa using hstartOk
  have hlength64 : 1 ≤ length.integer.toNat ∧ length.integer.toNat ≤ 64 := by
    simpa using hlengthOk
  have hstartBit := hstart.stored32_of_lt (by omega)
  have hbitLength := hlength.stored32_of_lt (by omega)
  simp only [SignalOf, SignalIntegers.ofSignal, SignalIntegers.map, SignalLine.integers,
    hstartBit, hbitLength, stored32_multiplexed, List.map_nil, id_eq]

end Stored

end Parser

end Dbc
end Canforge
