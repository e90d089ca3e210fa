/-
# Integers that are cut off

A text that parses without a report is stored as it is written except where an integer does not
fit: a number of 32 bits is what is left of it modulo `2 ^ 32`, and a key what a `double` makes of
it.  `Stored` holds all along such a run (`Stored.run`), so the database has the integers of the
text exactly when all of them fit (`parseString_integers_iff`).
-/

import Canforge.Dbc.Reading

namespace Canforge
namespace Dbc

open Canforge.Core Text Lib Reporting

/-! ### Changes of one element -/

section

variable {α β γ : Type}

/-- Two lists of the same image, and a change of the first element of each that keeps it so. -/
theorem map_replaceF_eq {φ : α → γ} {ψ : β → γ} {g : α → Option α} {g' : β → Option β}
    (hg : ∀ a b, φ a = ψ b → (g a).map φ = (g' b).map ψ) {l : List α} {l' : List β}
    (h : l.map φ = l'.map ψ) : (l.replaceF g).map φ = (l'.replaceF g').map ψ := by
  induction l generalizing l' with
  | nil =>
    obtain rfl := List.map_eq_nil_iff.1 h.symm
    rfl
  | cons a l ih =>
    cases l' with
    | nil => cases h
    | cons b l' =>
      obtain ⟨hhead, htail⟩ := List.cons.inj h
      have hchange := hg a b hhead
      rw [List.replaceF_cons, List.replaceF_cons]
      cases hga : g a with
      | none =>
        rw [hga] at hchange
        rw [Option.map_eq_none_iff.1 hchange.symm, List.map_cons, List.map_cons, hhead, ih htail]
      | some a' =>
        rw [hga] at hchange
        obtain ⟨b', hb', hsame⟩ := Option.map_eq_some_iff.1 hchange.symm
        rw [hb', List.map_cons, List.map_cons, hsame, htail]

theorem mem_replaceF {g : α → Option α} {l : List α} {x : α} (h : x ∈ l.replaceF g) :
    x ∈ l ∨ ∃ a ∈ l, g a = some x := by
  induction l with
  | nil => exact .inl h
  | cons a l ih =>
    rw [List.replaceF_cons] at h
    cases hga : g a with
    | none =>
      rw [hga] at h
      rcases List.mem_cons.1 h with rfl | h
      · exact .inl List.mem_cons_self
      · rcases ih h with hmem | ⟨b, hb, hgb⟩
        · exact .inl (List.mem_cons_of_mem _ hmem)
        · exact .inr ⟨b, List.mem_cons_of_mem _ hb, hgb⟩
    | some a' =>
      rw [hga] at h
      rcases List.mem_cons.1 h with rfl | h
      · exact .inr ⟨a, List.mem_cons_self, hga⟩
      · exact .inl (List.mem_cons_of_mem _ h)

end

variable {R : Type} [Scalar R]

/-- An identifier is its bits. -/
theorem eq_of_packed {x y : CanId} (h : x.packed = y.packed) : x = y := by
  cases x
  cases y
  cases h
  rfl

/-- The integers of a database are what the parser makes of the written ones. -/
def StoresOf (db : Database R) (w : Integers (Number R)) : Prop :=
  (Integers.ofDatabase db).map id some = w.map stored32 Number.stored

theorem storesOf_iff {db : Database R} {w : Integers (Number R)} : StoresOf db w ↔
    (db.bitTiming.map fun t => (t.baudrate.toNat, t.btr1.toNat, t.btr2.toNat)) =
        (w.timing.map fun t => (stored32 t.1, stored32 t.2.1, stored32 t.2.2)) ∧
      (db.valueTables.map fun t => t.values.map fun v => some v.value) =
        w.tables.map (·.map Number.stored) ∧
      (db.messages.map fun m => (MessageIntegers.ofMessage m).map id some) =
        w.messages.map (·.map stored32 Number.stored) := by
  simp [StoresOf, Integers.ofDatabase, Integers.map, Function.comp_def]

namespace StoresOf

variable {db : Database R} {w : Integers (Number R)}

theorem bitTiming (h : StoresOf db w) {baudrate btr1 btr2 : BitVec 32} {statement : Statement R}
    {n : ℕ × ℕ × ℕ} (hstatement : w.apply statement = { w with timing := some n })
    (hn : (baudrate.toNat, btr1.toNat, btr2.toNat) = (stored32 n.1, stored32 n.2.1, stored32 n.2.2)) :
    StoresOf { db with bitTiming := some ⟨baudrate, btr1, btr2⟩ } (w.apply statement) := by
  rw [storesOf_iff] at h
  rw [hstatement, storesOf_iff]
  exact ⟨congrArg some hn, h.2⟩

theorem valueTable (h : StoresOf db w) {name : Text} {values : List ValueDescription}
    {keys : List (Number R)} (hkeys : Parser.KeysOf values keys) :
    StoresOf { db with valueTables := db.valueTables ++ [{ name, values }] }
      (w.apply (.valueTable keys)) := by
  rw [storesOf_iff] at h ⊢
  refine ⟨h.1, ?_, h.2.2⟩
  simp only [Integers.apply, List.map_append, h.2.1, List.map_cons, List.map_nil, hkeys.values]

theorem message (h : StoresOf db w) {m : Message R} {rawId length : Token R}
    {lines : List (SignalLine R)}
    (hm : (MessageIntegers.ofMessage m).map id some =
      MessageIntegers.map stored32 Number.stored ⟨number rawId, number length, lines.map (·.integers)⟩) :
    StoresOf { db with messages := db.messages ++ [m] } (w.apply (.message rawId length lines)) := by
  rw [storesOf_iff] at h ⊢
  refine ⟨h.1, h.2.1, ?_⟩
  simp only [Integers.apply, List.map_append, h.2.2, List.map_cons, List.map_nil, hm]

/-- A signal that both address is changed on both sides. -/
theorem modifySignal (h : StoresOf db w) {target : CanId} {n : ℕ}
    (htarget : target.packed.toNat = stored32 n) {name : Text} {f : Signal R → Signal R}
    {change : SignalIntegers (Number R) → SignalIntegers (Number R)}
    (hf : ∀ s t, (SignalIntegers.ofSignal s).map id some = t.map stored32 Number.stored →
      (SignalIntegers.ofSignal (f s)).map id some = (change t).map stored32 Number.stored) :
    StoresOf
      { db with messages := db.messages.replaceF fun m =>
          if m.id = target then
            some { m with signals := m.signals.replaceF fun s =>
              if s.name = name then some (f s) else none }
          else none }
      (w.modifySignal n name change) := by
  rw [storesOf_iff] at h ⊢
  refine ⟨h.1, h.2.1, map_replaceF_eq (fun m v hmv => ?_) h.2.2⟩
  obtain ⟨hid, hlength, hsignals⟩ : m.id.packed.toNat = stored32 v.id ∧ m.dlc = stored32 v.length ∧
      (m.signals.map fun s => (SignalIntegers.ofSignal s).map id some) =
        v.signals.map (·.map stored32 Number.stored) := by
    simpa [MessageIntegers.ofMessage, MessageIntegers.map, Function.comp_def] using hmv
  have hsame : m.id = target ↔ stored32 v.id = stored32 n := by
    rw [← hid, ← htarget]
    constructor
    · rintro rfl
      rfl
    · intro heq
      exact eq_of_packed (BitVec.eq_of_toNat_eq heq)
  by_cases haddressed : m.id = target
  · rw [if_pos haddressed, if_pos (hsame.1 haddressed)]
    have hchanged : ((m.signals.replaceF fun s => if s.name = name then some (f s) else none).map
        fun s => (SignalIntegers.ofSignal s).map id some) =
          (v.signals.replaceF fun t => if t.name = name then some (change t) else none).map
            (·.map stored32 Number.stored) := by
      refine map_replaceF_eq (fun s t hst => ?_) hsignals
      have hname : s.name = t.name := congrArg SignalIntegers.name hst
      rw [hname]
      split_ifs
      · exact congrArg some (hf s t hst)
      · rfl
    refine congrArg some ?_
    simp only [MessageIntegers.ofMessage, MessageIntegers.map, List.map_map, Function.comp_def,
      hid, hlength, hchanged, id_eq]
  · rw [if_neg haddressed, if_neg (hsame.not.1 haddressed)]
    rfl

end StoresOf

/-! ### The keys that are written -/

namespace Parser

variable {w : Integers (Number R)}

omit [Scalar R] in
theorem mem_keys_iff {k : Number R} : k ∈ w.keys ↔ (∃ keys ∈ w.tables, k ∈ keys) ∨
    ∃ m ∈ w.messages, ∃ t ∈ m.signals, k ∈ t.keys := by
  simp [Integers.keys, MessageIntegers.keys, List.mem_flatten, List.mem_flatMap]

theorem numbers_valueTable {keys : List (Number R)} (h : ∀ k ∈ w.keys, IsNumber k)
    (hkeys : ∀ k ∈ keys, IsNumber k) : ∀ k ∈ (w.apply (.valueTable keys)).keys, IsNumber k := by
  intro k hk
  rcases mem_keys_iff.1 hk with ⟨table, htable, hmem⟩ | hmessage
  · rcases List.mem_append.1 htable with hold | hnew
    · exact h k (mem_keys_iff.2 (.inl ⟨table, hold, hmem⟩))
    · rw [List.mem_singleton.1 hnew] at hmem
      exact hkeys k hmem
  · exact h k (mem_keys_iff.2 (.inr hmessage))

theorem numbers_message {rawId length : Token R} {lines : List (SignalLine R)}
    (h : ∀ k ∈ w.keys, IsNumber k) :
    ∀ k ∈ (w.apply (.message rawId length lines)).keys, IsNumber k := by
  intro k hk
  rcases mem_keys_iff.1 hk with htable | ⟨m, hm, t, ht, hmem⟩
  · exact h k (mem_keys_iff.2 (.inl htable))
  · rcases List.mem_append.1 hm with hold | hnew
    · exact h k (mem_keys_iff.2 (.inr ⟨m, hold, t, ht, hmem⟩))
    · rw [List.mem_singleton.1 hnew] at ht
      obtain ⟨line, -, rfl⟩ := List.mem_map.1 ht
      cases hmem

theorem numbers_modifySignal {n : ℕ} {name : Text}
    {change : SignalIntegers (Number R) → SignalIntegers (Number R)}
    (h : ∀ k ∈ w.keys, IsNumber k)
    (hchange : ∀ t, ∀ k ∈ (change t).keys, k ∈ t.keys ∨ IsNumber k) :
    ∀ k ∈ (w.modifySignal n name change).keys, IsNumber k := by
  intro k hk
  rcases mem_keys_iff.1 hk with htable | ⟨m, hm, t, ht, hmem⟩
  · exact h k (mem_keys_iff.2 (.inl htable))
  have hold (v : MessageIntegers (Number R)) (hv : v ∈ w.messages) (u : SignalIntegers (Number R))
      (hu : u ∈ v.signals) (hku : k ∈ u.keys) : IsNumber k :=
    h k (mem_keys_iff.2 (.inr ⟨v, hv, u, hu, hku⟩))
  rcases mem_replaceF hm with hm | ⟨v, hv, hvm⟩
  · exact hold m hm t ht hmem
  split_ifs at hvm
  rw [← Option.some.inj hvm] at ht
  rcases mem_replaceF ht with ht | ⟨u, hu, hut⟩
  · exact hold v hv t ht hmem
  split_ifs at hut
  rw [← Option.some.inj hut] at hmem
  rcases hchange u k hmem with hku | hnumber
  · exact hold v hv u hu hku
  · exact hnumber

/-- A signal with other descriptions, and one with other keys. -/
theorem signalOf_keys {s : Signal R} {t : SignalIntegers (Number R)}
    (h : (SignalIntegers.ofSignal s).map id some = t.map stored32 Number.stored)
    {valueDescriptions : List ValueDescription} {keys : List (Number R)}
    (hkeys : KeysOf valueDescriptions keys) :
    (SignalIntegers.ofSignal { s with valueDescriptions }).map id some =
      SignalIntegers.map stored32 Number.stored { t with keys } := by
  simp only [SignalIntegers.ofSignal, SignalIntegers.map, SignalIntegers.mk.injEq, List.map_map,
    Function.comp_def] at h ⊢
  obtain ⟨hname, hstart, hlength, hvalue, hranges, -⟩ := h
  exact ⟨hname, hstart, hlength, hvalue, hranges, hkeys.values⟩

/-- A signal with other ranges. -/
theorem signalOf_ranges {s : Signal R} {t : SignalIntegers (Number R)}
    (h : (SignalIntegers.ofSignal s).map id some = t.map stored32 Number.stored)
    {multiplexRole : MultiplexRole} {multiplexorName : Text} {multiplexRanges : List MuxRange}
    {literals : List (Token R × Token R)} (hranges : RangesOf multiplexRanges literals) :
    (SignalIntegers.ofSignal
        { s with multiplexRole, multiplexorName, multiplexRanges }).map id some =
      SignalIntegers.map stored32 Number.stored
        { t with ranges := literals.map fun r => (number r.1, number r.2) } := by
  simp only [SignalIntegers.ofSignal, SignalIntegers.map, SignalIntegers.mk.injEq, List.map_map,
    Function.comp_def] at h ⊢
  obtain ⟨hname, hstart, hlength, hvalue, -, hkeys⟩ := h
  exact ⟨hname, hstart, hlength, hvalue, hranges, hkeys⟩

namespace Stored

variable {s s' : Parser R} {u : Unit}

/-- **A statement is stored**, and what it writes is what is stored. -/
theorem store (h : Stored s) {statement : Statement R} {f : Database R → Database R}
    (hstores : ∀ db (w : Integers (Number R)), StoresOf db w → StoresOf (f db) (w.apply statement))
    (hkeys : ∀ w : Integers (Number R), (∀ k ∈ w.keys, IsNumber k) →
      ∀ k ∈ (w.apply statement).keys, IsNumber k)
    (hquiet : ∃ v s₁, Quiet (record statement) s v s₁ ∧ Quiet (modifyDb f) s₁ u s') :
    Stored s' := by
  obtain ⟨_, _, hrecord, hmodify⟩ := hquiet
  obtain rfl := quiet_modify.1 hrecord
  obtain rfl := quiet_modify.1 hmodify
  refine ⟨h.terminated, h.lexed, ?_, ?_⟩
  · have hnew := hstores s.db (written s.statements) h.integers
    rw [StoresOf, ← written_append] at hnew
    exact hnew
  · rw [written_append]
    exact hkeys _ h.keys

theorem parseBitTiming (h : Stored s) (hquiet : Quiet Parser.parseBitTiming s u s') :
    Stored s' := by
  simp only [Parser.parseBitTiming, quiet_bind, quiet_current] at hquiet
  obtain ⟨_, _, hadvance, _, s₁, hcolon, _, _, ⟨rfl, rfl⟩, hquiet⟩ := hquiet
  replace h := (h.quiet ends_advance hadvance).quiet (ends_expect _ _) hcolon
  split_ifs at hquiet
  · simp only [quiet_bind] at hquiet
    obtain ⟨_, _, hbaudrate, registers, _, hmatch, hquiet⟩ := hquiet
    obtain ⟨h, baudrate, rfl, hinteger, heq⟩ := h.unsigned hbaudrate
    replace h := h.quiet (ends_matchKind _) hmatch
    rw [← heq] at hquiet
    cases registers with
    | false =>
      simp only [Bool.false_eq_true, if_false, quiet_bind] at hquiet
      refine h.store (fun db w hw => hw.bitTiming rfl ?_) ?_ hquiet
      · simp only [toUInt32, Option.elim, hinteger.stored32]
        rfl
      · exact fun w hw => hw
    | true =>
      simp only [if_true, quiet_bind] at hquiet
      obtain ⟨_, _, hbtr1, _, _, hcomma, _, _, hbtr2, hquiet⟩ := hquiet
      obtain ⟨h, btr1, rfl, hinteger₁, -⟩ := h.unsigned hbtr1
      obtain ⟨h, btr2, rfl, hinteger₂, -⟩ := (h.quiet (ends_expect _ _) hcomma).unsigned hbtr2
      refine h.store (fun db w hw => hw.bitTiming rfl ?_) ?_ hquiet
      · simp only [toUInt32, Option.elim, Option.getD, hinteger.stored32, hinteger₁.stored32,
          hinteger₂.stored32]
      · exact fun w hw => hw
  · obtain ⟨-, rfl⟩ := quiet_pure.1 hquiet
    exact h

theorem parseValueTable (h : Stored s) (hquiet : Quiet Parser.parseValueTable s u s') :
    Stored s' := by
  simp only [Parser.parseValueTable, quiet_bind] at hquiet
  obtain ⟨_, _, hadvance, _, _, hname, hquiet⟩ := hquiet
  obtain ⟨h, name, rfl⟩ := (h.quiet ends_advance hadvance).name hname
  simp only [quiet_bind] at hquiet
  obtain ⟨⟨values, keys⟩, _, hread, _, _, hmatch, hquiet⟩ := hquiet
  obtain ⟨h, hkeys⟩ := h.descriptions hread
  replace h := h.quiet (ends_matchKind _) hmatch
  exact h.store (fun db w hw => hw.valueTable hkeys)
    (fun w hw => numbers_valueTable hw hkeys.numbers) hquiet

/-- The signals of a message are those of its lines, and nothing else of it has changed. -/
structure LinesOf (message : Message R) (open_ : Message R × List (SignalLine R)) : Prop where
  id : open_.1.id = message.id
  dlc : open_.1.dlc = message.dlc
  signals : (open_.1.signals.map fun s => (SignalIntegers.ofSignal s).map (fun n => n) some) =
    open_.2.map fun line => line.integers.map stored32 Number.stored

/-- The lines of a message are read. -/
theorem lines (h : Stored s) {message : Message R} (hnone : message.signals = [])
    {read : Message R × List (SignalLine R)}
    (hquiet : Quiet (while_ parseSignalsRound (message, [])) s read s') :
    Stored s' ∧ LinesOf message read := by
  refine h.loop (LinesOf message) ?_ ⟨rfl, rfl, by simp [hnone]⟩ hquiet
  rintro open_ s₁ open' again s₂ h₁ hlines hround
  simp only [parseSignalsRound, quiet_bind, quiet_current] at hround
  obtain ⟨_, _, ⟨rfl, rfl⟩, hround⟩ := hround
  split_ifs at hround
  · simp only [quiet_bind, quiet_pure, Prod.mk.injEq] at hround
    obtain ⟨_, _, hsignal, ⟨rfl, rfl⟩, rfl⟩ := hround
    obtain ⟨h₂, signal, line, hsame, rfl⟩ := h₁.signal hsignal
    refine ⟨h₂, hlines.id, hlines.dlc, ?_⟩
    rw [List.map_append, List.map_append, hlines.signals]
    exact congrArg (_ ++ [·]) hsame
  · simp only [quiet_pure, Prod.mk.injEq] at hround
    obtain ⟨⟨rfl, rfl⟩, rfl⟩ := hround
    exact ⟨h₁, hlines⟩

theorem parseMessage (h : Stored s) (hquiet : Quiet Parser.parseMessage s u s') : Stored s' := by
  simp only [Parser.parseMessage, quiet_bind] at hquiet
  obtain ⟨_, _, hadvance, _, _, hraw, hquiet⟩ := hquiet
  obtain ⟨h, rawId, rfl, hrawId, -⟩ := (h.quiet ends_advance hadvance).unsigned hraw
  simp only [quiet_bind] at hquiet
  obtain ⟨id, _, hid, _, _, hname, hquiet⟩ := hquiet
  obtain ⟨h, hpacked⟩ := h.messageId hid
  obtain ⟨h, name, rfl⟩ := h.name hname
  simp only [quiet_bind] at hquiet
  obtain ⟨_, _, hcolon, _, _, hlength, hquiet⟩ := hquiet
  obtain ⟨h, length, rfl, hlength, -⟩ := (h.quiet (ends_expect _ _) hcolon).unsigned hlength
  simp only [quiet_bind] at hquiet
  obtain ⟨dlc, _, hdlc, transmitter, _, htransmitter, read, _, hread, hquiet⟩ := hquiet
  obtain ⟨h, rfl, hdlcOk⟩ := h.inRange hdlc
  obtain ⟨h, hlines⟩ := (h.quiet ends_parseTransmitter htransmitter).lines rfl hread
  have hdlc64 : length.integer.toNat ≤ 64 := by simpa using hdlcOk
  refine h.store (fun db w hw => hw.message ?_) ?_ hquiet
  · simp only [MessageIntegers.ofMessage, MessageIntegers.map, List.map_map, Function.comp_def,
      hlines.id, hlines.dlc, hpacked, hrawId.stored32, hlength.stored32_of_lt (by omega), id_eq]
    exact congrArg _ hlines.signals
  · exact fun w hw => numbers_message hw

theorem parseValueDescriptions (h : Stored s)
    (hquiet : Quiet Parser.parseValueDescriptions s u s') : Stored s' := by
  simp only [Parser.parseValueDescriptions, quiet_bind] at hquiet
  obtain ⟨_, _, hadvance, _, _, hraw, hquiet⟩ := hquiet
  obtain ⟨h, rawId, rfl, hrawId, -⟩ := (h.quiet ends_advance hadvance).unsigned hraw
  simp only [quiet_bind] at hquiet
  obtain ⟨_, _, hname, hquiet⟩ := hquiet
  obtain ⟨h, name, rfl⟩ := h.name hname
  simp only [quiet_bind] at hquiet
  obtain ⟨⟨values, keys⟩, _, hread, _, _, hmatch, id, _, hid, m, _, hfind, hquiet⟩ := hquiet
  obtain ⟨h, hkeys⟩ := h.descriptions hread
  obtain ⟨h, hpacked⟩ := (h.quiet (ends_matchKind _) hmatch).messageId hid
  replace h := h.quiet (ends_findMessage id) hfind
  split at hquiet
  · simp at hquiet
  simp only [modifySignal, modifyMessage, quiet_bind] at hquiet
  refine h.store (fun db w hw => hw.modifySignal ?_ fun s t hst => ?_) ?_ hquiet
  · rw [hpacked, hrawId.stored32]
  · exact signalOf_keys hst hkeys
  · exact fun w hw => numbers_modifySignal hw fun t k hk => .inr (hkeys.numbers k hk)

theorem parseExtendedMultiplexing (h : Stored s)
    (hquiet : Quiet Parser.parseExtendedMultiplexing s u s') : Stored s' := by
  simp only [Parser.parseExtendedMultiplexing, quiet_bind] at hquiet
  obtain ⟨_, _, hadvance, _, _, hraw, hquiet⟩ := hquiet
  obtain ⟨h, rawId, rfl, hrawId, -⟩ := (h.quiet ends_advance hadvance).unsigned hraw
  simp only [quiet_bind] at hquiet
  obtain ⟨_, _, hmultiplexed, hquiet⟩ := hquiet
  obtain ⟨h, multiplexed, rfl⟩ := h.name hmultiplexed
  simp only [quiet_bind] at hquiet
  obtain ⟨_, _, hmultiplexor, hquiet⟩ := hquiet
  obtain ⟨h, multiplexor, rfl⟩ := h.name hmultiplexor
  simp only [quiet_bind] at hquiet
  obtain ⟨⟨ranges, literals⟩, _, hread, _, _, hmatch, id, _, hid, m, _, hfind, hquiet⟩ := hquiet
  obtain ⟨h, hranges⟩ := h.ranges hread
  obtain ⟨h, hpacked⟩ := (h.quiet (ends_matchKind _) hmatch).messageId hid
  replace h := h.quiet (ends_findMessage id) hfind
  split at hquiet
  · simp at hquiet
  split at hquiet
  · simp at hquiet
  simp only [modifySignal, modifyMessage, quiet_bind] at hquiet
  refine h.store (fun db w hw => hw.modifySignal ?_ fun s t hst => ?_) ?_ hquiet
  · rw [hpacked, hrawId.stored32]
  · exact signalOf_ranges hst hranges
  · exact fun w hw => numbers_modifySignal hw fun t k hk => .inl hk

/-! ### A run -/

/-- **A statement**: it is stored, or it is not about integers. -/
theorem parseStatement (h : Stored s) (hkind : (s.ahead 0).kind ≠ .end)
    (hquiet : Quiet (parseStatement (s.ahead 0)) s u s') : Stored s' := by
  rcases quiet_ite.1 hquiet with ⟨-, hquiet⟩ | ⟨-, hquiet⟩
  · simp at hquiet
  rcases quiet_ite.1 hquiet with ⟨-, hquiet⟩ | ⟨-, hquiet⟩
  · exact h.goes (consumes_parseVersion s hkind) hquiet
  rcases quiet_ite.1 hquiet with ⟨-, hquiet⟩ | ⟨-, hquiet⟩
  · exact h.goes (consumes_parseNewSymbols s hkind) hquiet
  rcases quiet_ite.1 hquiet with ⟨-, hquiet⟩ | ⟨-, hquiet⟩
  · exact h.parseBitTiming hquiet
  rcases quiet_ite.1 hquiet with ⟨-, hquiet⟩ | ⟨-, hquiet⟩
  · exact h.goes (consumes_parseNodes s hkind) hquiet
  rcases quiet_ite.1 hquiet with ⟨-, hquiet⟩ | ⟨-, hquiet⟩
  · exact h.parseValueTable hquiet
  rcases quiet_ite.1 hquiet with ⟨-, hquiet⟩ | ⟨-, hquiet⟩
  · exact h.parseMessage hquiet
  rcases quiet_ite.1 hquiet with ⟨-, hquiet⟩ | ⟨-, hquiet⟩
  · exact h.goes (consumes_parseMessageTransmitters s hkind) hquiet
  rcases quiet_ite.1 hquiet with ⟨-, hquiet⟩ | ⟨-, hquiet⟩
  · exact h.goes (consumes_parseComment s hkind) hquiet
  rcases quiet_ite.1 hquiet with ⟨-, hquiet⟩ | ⟨-, hquiet⟩
  · exact h.goes (consumes_parseAttributeDefinition _ s hkind) hquiet
  rcases quiet_ite.1 hquiet with ⟨-, hquiet⟩ | ⟨-, hquiet⟩
  · exact h.goes (consumes_parseAttributeDefinition _ s hkind) hquiet
  rcases quiet_ite.1 hquiet with ⟨-, hquiet⟩ | ⟨-, hquiet⟩
  · exact h.goes (consumes_parseAttributeDefault s hkind) hquiet
  rcases quiet_ite.1 hquiet with ⟨-, hquiet⟩ | ⟨-, hquiet⟩
  · exact h.goes (consumes_parseAttributeDefault s hkind) hquiet
  rcases quiet_ite.1 hquiet with ⟨-, hquiet⟩ | ⟨-, hquiet⟩
  · exact h.goes (consumes_parseAttributeValue s hkind) hquiet
  rcases quiet_ite.1 hquiet with ⟨-, hquiet⟩ | ⟨-, hquiet⟩
  · exact h.goes (consumes_parseAttributeValue s hkind) hquiet
  rcases quiet_ite.1 hquiet with ⟨-, hquiet⟩ | ⟨-, hquiet⟩
  · exact h.parseValueDescriptions hquiet
  rcases quiet_ite.1 hquiet with ⟨-, hquiet⟩ | ⟨-, hquiet⟩
  · exact h.goes (consumes_parseSignalValueType s hkind) hquiet
  rcases quiet_ite.1 hquiet with ⟨-, hquiet⟩ | ⟨-, hquiet⟩
  · exact h.parseExtendedMultiplexing hquiet
  rcases quiet_ite.1 hquiet with ⟨-, hquiet⟩ | ⟨-, hquiet⟩
  · exact h.goes (consumes_skipUnsupportedSection _ _ s hkind) hquiet
  rcases quiet_ite.1 hquiet with ⟨-, hquiet⟩ | ⟨-, hquiet⟩
  · exact h.goes (consumes_skipUnsupportedSection _ _ s hkind) hquiet
  rcases quiet_ite.1 hquiet with ⟨-, hquiet⟩ | ⟨-, hquiet⟩
  · simp at hquiet
  · simp at hquiet

/-- **A quiet run stores what is written**, by induction on its statements. -/
theorem run (h : Stored s) (hquiet : Quiet Parser.run s u s') : Stored s' := by
  refine (h.loop (fun _ => True) ?_ trivial hquiet).1
  rintro _ s₁ _ again s₂ h₁ - hround
  simp only [runRound, atEnd, quiet_bind, quiet_current, quiet_pure] at hround
  obtain ⟨_, _, ⟨_, _, ⟨rfl, rfl⟩, rfl, rfl⟩, hround⟩ := hround
  refine ⟨?_, trivial⟩
  split_ifs at hround with hend
  · obtain ⟨-, rfl⟩ := quiet_pure.1 hround
    exact h₁
  · simp only [quiet_bind, quiet_current, quiet_pure] at hround
    obtain ⟨_, _, ⟨rfl, rfl⟩, _, _, hstatement, -, rfl⟩ := hround
    exact h₁.parseStatement (by simpa using hend) hstatement

end Stored
end Parser

/-! ### A text -/

/-- What is stored is what is written where nothing is cut off. -/
theorem StoresOf.eq_written_iff (D : Doubles R) {db : Database R} {w : Integers (Number R)}
    (h : StoresOf db w) (hkeys : ∀ k ∈ w.keys, Parser.IsNumber k) :
    (Integers.ofDatabase db).map id (Int.cast : ℤ → ℚ) = w.map id Number.written ↔ w.Fits := by
  have hsome : Function.LeftInverse (fun v : Integers (Option ℚ) => v.map id (·.getD 0))
      fun v : Integers ℚ => v.map id some := by
    intro v
    dsimp only
    rw [Integers.map_map]
    exact Integers.map_id v
  have hstored : ((Integers.ofDatabase db).map id (Int.cast : ℤ → ℚ)).map id some =
      w.map stored32 fun k => k.stored.map Int.cast := by
    have hcast := congrArg (fun v : Integers (Option ℤ) =>
      v.map id (Option.map (Int.cast : ℤ → ℚ))) h
    rw [Integers.map_map, Integers.map_map] at hcast
    rw [Integers.map_map]
    exact hcast
  rw [← hsome.injective.eq_iff, hstored, Integers.map_map, Integers.map_eq_map_iff, Integers.Fits]
  refine and_congr (forall₂_congr fun n _ => stored32_eq_iff) (forall₂_congr fun k hk => ?_)
  rw [← Number.stored_eq_iff D (hkeys k hk).wellLexed (hkeys k hk).kind]
  exact Option.map_eq_some_iff

/-- The state in front of a text. -/
theorem stored_start (source : Source) :
    Parser.Stored ({ source, tokens := (tokenise source).1 } : Parser R) where
  terminated := (tokenise_tokens source).terminated
  lexed := (tokenise_tokens source).wellLexed
  integers := rfl
  keys k hk := by cases hk

/-- **A text that parses without a report is stored as it is written if and only if every integer
fits**: the numbers are below `2 ^ 32`, and the keys are integers of 64 bits and of at most 53
significant ones. -/
theorem parseString_integers_iff (D : Doubles R) (text filename : Text) (result : ParseResult R)
    (hparse : parseString text filename = .ok result) (hclean : result.diagnostics = []) :
    (Integers.ofDatabase result.database).map id (Int.cast : ℤ → ℚ) =
        (written result.statements).map id Number.written ↔
      (written result.statements).Fits := by
  have hstart := @stored_start R _ (Source.normalise text filename)
  unfold parseString at hparse
  dsimp only at hparse
  split at hparse
  · cases hparse
  · rename_i parser parsed hrun
    obtain rfl := Except.ok.inj hparse
    obtain ⟨-, rfl⟩ := List.append_eq_nil_iff.1 hclean
    have hstored := hstart.run hrun
    exact StoresOf.eq_written_iff D hstored.integers hstored.keys

/-- A text parses, to a result for which `p` holds. -/
def parsesTo (text : Text) (p : ParseResult Binary64 → Bool) : Bool :=
  match parseString text [] with
  | .ok result => p result
  | .error _ => false

theorem exists_of_parsesTo {text : Text} {p : ParseResult Binary64 → Bool}
    (h : parsesTo text p = true) : ∃ result, parseString text [] = .ok result ∧ p result = true := by
  unfold parsesTo at h
  split at h
  · rename_i result hresult
    exact ⟨result, hresult, h⟩
  · cases h

/-- A text in which everything fits. -/
def smallText : Text :=
  ascii "BS_: 500000 : 1, 2\nBO_ 256 M: 8 N\n SG_ S m3 : 8|8@1+ (1,0) [0|0] \"\" N\n" ++
    ascii "SG_MUL_VAL_ 256 S S 3-5 ;\n"

theorem parseString_integers_small :
    ∃ result : ParseResult Binary64, parseString smallText [] = .ok result ∧
      (Integers.ofDatabase result.database).map id (Int.cast : ℤ → ℚ) =
        (written result.statements).map id Number.written := by
  obtain ⟨result, hparse, hall⟩ := @exists_of_parsesTo smallText
    (fun result => decide (result.diagnostics = []) &&
      decide (∀ n ∈ (written result.statements).numbers, n < 2 ^ 32) &&
      (written result.statements).keys.isEmpty) (by decide +kernel)
  simp only [Bool.and_eq_true, decide_eq_true_eq, List.isEmpty_iff] at hall
  obtain ⟨⟨hclean, hnumbers⟩, hkeys⟩ := hall
  refine ⟨result, hparse, (parseString_integers_iff binary64 smallText [] result hparse hclean).2
    ⟨hnumbers, fun k hk => ?_⟩⟩
  rw [hkeys] at hk
  cases hk

/-- A text with a baudrate of more than 32 bits. -/
def wideText : Text := ascii "BS_: 4294967297\n"

/-- **The baudrate 4294967297 is stored as 1**, and nothing is reported. -/
theorem wideText_truncated :
    ∃ result : ParseResult Binary64, parseString wideText [] = .ok result ∧
      result.diagnostics = [] ∧ result.database.bitTiming = some ⟨1, 0, 0⟩ ∧
      (written result.statements).timing = some (4294967297, 0, 0) := by
  obtain ⟨result, hparse, hall⟩ := @exists_of_parsesTo wideText
    (fun result => decide (result.diagnostics = [] ∧
      result.database.bitTiming = some ⟨1, 0, 0⟩ ∧
      (written result.statements).timing = some (4294967297, 0, 0))) (by decide +kernel)
  exact ⟨result, hparse, of_decide_eq_true hall⟩

end Dbc
end Canforge
