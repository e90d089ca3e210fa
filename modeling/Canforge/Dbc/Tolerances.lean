/-
# Texts without their optional elements

A semicolon at the end of a statement, a transmitter and a list of receivers may be deleted, and a
comma may follow receivers: the text is read as before (`parseString_harmless`), where no signal
and no statement follows the transmitter or the receivers that are edited (`Edit.Harmless`).
-/

import Canforge.Dbc.Finding

namespace Canforge
namespace Dbc

open Canforge.Core Text Lib

variable {R : Type} {db : Database R} {e : Edit} {opt : WriteOptions}

/-! ### Harmless edits -/

/-- What is edited of a transmitter or of receivers stands at the end of the text. -/
structure Edit.Harmless (e : Edit) (db : Database R) : Prop where
  transmitter : ∀ front m behind, db.messages = front ++ m :: behind → e.transmitter m.id = true →
    m.signals = [] ∧ behind = [] ∧ laterLines db = []
  receivers : ∀ front m behind, db.messages = front ++ m :: behind →
    ∀ before s after, m.signals = before ++ s :: after → e.receivers m.id s.name ≠ .kept →
      after = [] ∧ behind = [] ∧ laterLines db = []

/-- No edit is harmless. -/
theorem Edit.harmless_none (db : Database R) : Edit.Harmless {} db :=
  ⟨fun _ _ _ _ h => Bool.noConfusion h, fun _ _ _ _ _ _ _ _ h => absurd rfl h⟩

/-- So is the deletion of semicolons. -/
theorem Edit.harmless_semicolons (db : Database R) (semicolon : ℕ → Bool) :
    Edit.Harmless { semicolon } db :=
  ⟨fun _ _ _ _ h => Bool.noConfusion h, fun _ _ _ _ _ _ _ _ h => absurd rfl h⟩

/-! ### Edited lines -/

theorem Edit.signal_eq (e : Edit) (id : CanId) (s : Signal R) : e.signal id s =
    { s with receivers := if e.receivers id s.name = .deleted then [] else s.receivers } := by
  unfold Edit.signal
  split_ifs <;> rfl

/-- No edit leaves the database. -/
theorem Edit.database_none (db : Database R) : Edit.database {} db = db := by
  have hsignal (id : CanId) (s : Signal R) : Edit.signal {} id s = s := if_neg nofun
  have hmessage (m : Message R) : Edit.message {} m = m := by
    unfold Edit.message
    rw [List.map_congr_left fun s _ => hsignal m.id s, List.map_id']
    rfl
  unfold Edit.database
  rw [List.map_congr_left fun m _ => hmessage m, List.map_id']

/-- A line that is not edited and stands in front of any statement. -/
def Line.Plain : Line R → Prop
  | .newSymbols _ => False
  | .message _ => False
  | _ => True

theorem Line.Plain.line_eq {line : Line R} (h : line.Plain) (e : Edit) : e.line line = line := by
  cases line with
  | message m => exact h.elim
  | _ => rfl

theorem laterLines_plain (db : Database R) : ∀ line ∈ laterLines db, line.Plain := by
  have hvalues (owner : Owner) (map : AttributeMap R) : ∀ line ∈ valueLines owner map, line.Plain := by
    intro line hline
    obtain ⟨a, -, rfl⟩ := List.mem_map.1 hline
    trivial
  unfold laterLines commentLines messageValueLines
  simp only [List.forall_mem_append, List.forall_mem_map, List.forall_mem_flatMap, and_assoc]
  refine ⟨fun m _ => ?_, ?_, fun n _ => ?_, fun m _ => ⟨?_, fun s _ => ?_⟩, fun _ _ => trivial,
    fun d _ => ?_, hvalues _ _, fun n _ => hvalues _ _, fun m _ => ⟨hvalues _ _, fun s _ => hvalues _ _⟩,
    fun m _ s _ => ?_, fun m _ s _ => ?_, fun m _ s _ => ?_⟩
  case refine_6 =>
    split_ifs
    · simp [Line.Plain]
    · simp
  all_goals exact forall_mem_unless fun _ => trivial

theorem map_line_of_plain {lines : List (Line R)} (h : ∀ line ∈ lines, line.Plain) (e : Edit) :
    lines.map e.line = lines := by
  rw [List.map_congr_left fun line hline => (h line hline).line_eq e, List.map_id']

theorem laterLines_database (e : Edit) (db : Database R) :
    laterLines (e.database db) = laterLines db := by
  unfold laterLines commentLines messageValueLines Edit.database
  simp only [List.flatMap_map, Edit.message, Edit.signal_eq]
  rfl

/-- The lines of an edited database. -/
theorem map_line_linesOf (e : Edit) (db : Database R) (opt : WriteOptions) :
    (linesOf db opt).map e.line = linesOf (e.database db) opt := by
  have hmessages : (db.messages.map Line.message).map e.line =
      (e.database db).messages.map Line.message := by
    simp only [Edit.database, List.map_map]
    rfl
  have hearlier : (earlierLines db opt).map e.line = earlierLines (e.database db) opt := by
    have htables : (db.valueTables.map Line.valueTable).map (e.line (R := R)) =
        db.valueTables.map Line.valueTable := by
      rw [List.map_map]
      rfl
    unfold earlierLines
    rw [List.map_append, List.map_append, htables, apply_ite (List.map e.line)]
    rfl
  unfold linesOf
  rw [List.map_append, List.map_append, hmessages, hearlier, map_line_of_plain (laterLines_plain db),
    laterLines_database]

/-! ### What the lines ask for -/

theorem Line.Plain.asks {line : Line R} (h : line.Plain) (lines : List (Line R)) :
    line.Asks e (Follows lines) := by
  cases line with
  | newSymbols | message => exact h.elim
  | _ => exact fun t ht => ht.behind

theorem asksFrom_plain_append {a b : List (Line R)} (h : ∀ line ∈ a, line.Plain)
    (hb : AsksFrom e b) : AsksFrom e (a ++ b) := by
  induction a with
  | nil => exact hb
  | cons line a ih =>
    exact ⟨(h line List.mem_cons_self).asks _, ih fun l hl => h l (List.mem_cons_of_mem _ hl)⟩

theorem asksFrom_plain {lines : List (Line R)} (h : ∀ line ∈ lines, line.Plain) :
    AsksFrom e lines := by
  have happend := asksFrom_plain_append (e := e) h (b := []) trivial
  rwa [List.append_nil] at happend

/-- The lines of the messages, in front of other lines. -/
theorem asksFrom_messages {ms : List (Message R)} {later : List (Line R)}
    (htransmitter : ∀ front m behind, ms = front ++ m :: behind → e.transmitter m.id = true →
      m.signals = [] ∧ behind = [] ∧ later = [])
    (hreceivers : ∀ front m behind, ms = front ++ m :: behind →
      ∀ before s after, m.signals = before ++ s :: after → e.receivers m.id s.name ≠ .kept →
        after = [] ∧ behind = [] ∧ later = [])
    (hlater : ∀ line ∈ later, line.Plain) : AsksFrom e (ms.map .message ++ later) := by
  have hend {behind : List (Message R)} (h : behind = [] ∧ later = []) (t : Token R)
      (ht : Follows (behind.map .message ++ later) t) : t.kind ≠ .identifier := by
    rw [h.1, h.2] at ht
    have hkind : t.kind = .end := ht
    rw [hkind]
    decide
  induction ms with
  | nil => exact asksFrom_plain hlater
  | cons m ms ih =>
    refine ⟨⟨fun t ht => ht.behind, ⟨fun he => ?_, fun before s after hsignals he => ?_⟩⟩, ih ?_ ?_⟩
    · obtain ⟨hsignals, hbehind⟩ := htransmitter [] m ms rfl he
      exact ⟨hsignals, hend hbehind⟩
    · obtain ⟨hafter, hbehind⟩ := hreceivers [] m ms rfl before s after hsignals he
      exact ⟨hafter, hend hbehind⟩
    · exact fun front m' behind hms => htransmitter (m :: front) m' behind (by rw [hms]; rfl)
    · exact fun front m' behind hms => hreceivers (m :: front) m' behind (by rw [hms]; rfl)

/-- **Behind every line stands what it asks for.** -/
theorem Edit.Harmless.asksFrom (h : e.Harmless db) (opt : WriteOptions) :
    AsksFrom e (linesOf db opt) := by
  have htables : ∀ line ∈ db.valueTables.map (Line.valueTable (R := R)), line.Plain := by
    simp [Line.Plain]
  have hblank : ∀ line ∈ (if db.valueTables.isEmpty then [] else [Line.blank (R := R)]), line.Plain :=
    forall_mem_unless fun _ => trivial
  have hmessages : AsksFrom e (db.messages.map .message ++ laterLines db) :=
    asksFrom_messages h.transmitter h.receivers (laterLines_plain db)
  have hsymbols (lines : List (Line R)) (t : Token R)
      (ht : Follows (.bitTiming db.bitTiming :: lines) t) :
      t.isWord (ascii "BS_") = true ∧ t.firstOnLine = true := by
    obtain ⟨hkind, hfirst, htext⟩ := ht
    exact ⟨by rw [Token.isWord, hkind, htext]; rfl, hfirst⟩
  unfold linesOf earlierLines
  simp only [List.append_assoc, List.cons_append, List.nil_append]
  exact ⟨fun t ht => ht.behind, hsymbols _, fun t ht => ht.behind, fun t ht => ht.behind,
    asksFrom_plain_append htables (asksFrom_plain_append hblank hmessages)⟩

/-! ### Reading an edited text -/

section

variable [Scalar R] [Printed R] {D : Printing R}

/-- The lines of a signal that can be written make it again. -/
theorem WritableSignal.rereadable {definitions : List (AttributeDefinition R)} {s : Signal R} {n : ℕ}
    (h : WritableSignal D definitions s) (hvalid : s.layout.validate n = .ok ()) :
    RereadableSignal s where
  attributes := h.attributes.ordered
  named := h.named.1
  role hne := (h.multiplexor fun hnil => hne (h.named.2 hnil)).2
  width := ScaledLayout.width_of_validate hvalid

/-- **The lines of an edited database make it again.** -/
theorem Writable.rereadable (h : Writable D db opt) (e : Edit) : Rereadable (e.database db) opt where
  symbols := h.writtenSymbols
  ids := by
    simp only [Edit.database, List.map_map]
    exact Database.ids_nodup_of_validate h.valid
  nodeNames := (Database.nodeNames_nodup_of_validate h.valid : (db.nodes.map (·.name)).Nodup)
  definitionNames := h.definitionNames
  noValues d hd := (h.definitions d hd).noValues
  attributes := h.attributes.ordered
  nodes n hn := (h.nodes n hn).attributes.ordered
  messages := by
    intro m' hm'
    obtain ⟨m, hm, rfl⟩ := List.mem_map.1 hm'
    have hmessage := h.messages m hm
    have hvalid := Database.validate_of_mem h.valid hm
    have hfd : m.isFd = decide (8 < m.dlc) := by
      rw [Bool.eq_iff_iff, decide_eq_true_iff]
      exact hmessage.isFd
    refine ⟨hfd, ?_, hmessage.attributes.ordered, ?_⟩
    · have hnames : (e.message m).signals.map (·.name) = m.signals.map (·.name) := by
        simp only [Edit.message, List.map_map]
        refine List.map_congr_left fun s _ => ?_
        rw [Function.comp_apply, Edit.signal_eq]
      rw [hnames]
      exact Message.names_nodup_of_validate hvalid
    · intro s' hs'
      obtain ⟨s, hs, rfl⟩ := List.mem_map.1 hs'
      obtain ⟨hattributes, hnamed, hrole, hwidth⟩ :=
        (hmessage.signals s hs).rereadable ((Message.of_validate hvalid).2 s hs)
      rw [Edit.signal_eq]
      exact ⟨hattributes, hnamed, hrole, hwidth⟩

/-- **A text that is edited harmlessly is read without an error**, as the database whose transmitters
and receivers are deleted. -/
theorem parseString_harmless (h : Writable D db opt) (he : e.Harmless db) (name : Text) :
    ∃ r : ParseResult R, parseString (editedText db opt e) name = .ok r ∧
      (∀ d ∈ r.diagnostics, Tolerable d) ∧ r.database = reread (e.database db) := by
  have hready : ReadyFrom db.attributeDefinitions ((linesOf db opt).map e.line) {} := by
    rw [map_line_linesOf]
    exact readyFrom_linesOf (h.rereadable e)
  obtain ⟨r, hparse, htolerable, hdatabase⟩ :=
    parseString_editedText h hready (he.asksFrom opt) name
  refine ⟨r, hparse, htolerable, ?_⟩
  rw [hdatabase, map_line_linesOf, applyAll_linesOf (h.rereadable e)]

end

end Dbc
end Canforge
