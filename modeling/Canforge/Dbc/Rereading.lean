/-
# What is read of a written text

The lines of a text are read one after the other (`reads_lines`): every line finds what it needs in
the database that has been read so far (`ReadyFrom`), and behind it the token that it asks for
(`AsksFrom`).  So the text of a database is read without an error, and what is read is what its
lines make of an empty database (`parseString_editedText`).
-/

import Canforge.Dbc.Remarks

namespace Canforge
namespace Dbc

open Canforge.Core Text Lib

variable {R : Type}

/-! ### What follows a line -/

/-- The keyword of a line. -/
def Line.keyword : Line R → Text
  | .version _ => ascii "VERSION"
  | .newSymbols _ => ascii "NS_"
  | .bitTiming _ => ascii "BS_"
  | .nodes _ => ascii "BU_"
  | .valueTable _ => ascii "VAL_TABLE_"
  | .blank => []
  | .message _ => ascii "BO_"
  | .transmitters _ _ => ascii "BO_TX_BU_"
  | .comment _ _ => ascii "CM_"
  | .definition _ => ascii "BA_DEF_"
  | .default _ => ascii "BA_DEF_DEF_"
  | .value _ _ _ => ascii "BA_"
  | .valueDescriptions _ _ _ => ascii "VAL_"
  | .valueType _ _ _ => ascii "SIG_VALTYPE_"
  | .ranges _ _ _ _ => ascii "SG_MUL_VAL_"

/-- The first token of lines. -/
def Follows : List (Line R) → Token R → Prop
  | [], t => t.kind = .end
  | .blank :: lines, t => Follows lines t
  | line :: _, t => t.kind = .identifier ∧ t.firstOnLine = true ∧ t.text = line.keyword

theorem Line.isTopLevelKeyword {line : Line R} (h : line ≠ .blank) :
    isTopLevelKeyword line.keyword = true := by
  cases line with
  | blank => exact absurd rfl h
  | _ => rfl

theorem follows_cons {line : Line R} (h : line ≠ .blank) (lines : List (Line R)) (t : Token R) :
    Follows (line :: lines) t ↔
      t.kind = .identifier ∧ t.firstOnLine = true ∧ t.text = line.keyword := by
  cases line with
  | blank => exact absurd rfl h
  | _ => rfl

theorem Follows.behind {lines : List (Line R)} {t : Token R} (h : Follows lines t) : Behind t := by
  induction lines with
  | nil => exact .inl h
  | cons line lines ih =>
    by_cases hblank : line = .blank
    · subst hblank
      exact ih h
    · obtain ⟨hkind, hfirst, htext⟩ := (follows_cons hblank lines t).1 h
      exact .inr ⟨hkind, hfirst, htext ▸ Line.isTopLevelKeyword hblank⟩

variable [Scalar R] [Printed R] {D : Printing R} {definitions : List (AttributeDefinition R)}
  {db : Database R} {e : Edit} {i : ℕ} {lines : List (Line R)}

omit [Printed R] in
theorem startsLine_semicolonItems (first deleted : Bool) :
    startsLine first (semicolonItems deleted) = true := by
  unfold semicolonItems
  exact startsLine_concat_gap (by decide) _

theorem startsLine_items (line : Line R) (first : Bool) : startsLine first (line.items e i) = true := by
  have hclosed (items : List Item) (deleted : Bool) :
      startsLine first (items ++ semicolonItems deleted) = true := by
    rw [startsLine_append]
    exact startsLine_semicolonItems _ _
  cases line with
  | version text => exact startsLine_concat_gap (by decide) [kw "VERSION", space, str text]
  | newSymbols symbols => exact startsLine_concat_gap (by decide) _
  | bitTiming timing => exact startsLine_concat_gap (by decide) _
  | nodes names => exact startsLine_concat_gap (by decide) _
  | blank => exact startsLine_concat_gap (by decide) []
  | message m => exact startsLine_concat_gap (by decide) _
  | _ => exact hclosed _ _

theorem keyword_items {line : Line R} (h : line ≠ .blank) (first : Bool) :
    ∃ more, lexemes first (line.items e i) = (.word line.keyword, first) :: more := by
  cases line with
  | blank => exact absurd rfl h
  | _ => exact ⟨_, rfl⟩

/-- The first token of lines is what follows. -/
theorem ahead_follows (lines : List (Line R)) (i : ℕ) :
    Parser.Ahead (Follows lines) (lexemes true (itemsFrom e i lines)) (fun t => t.kind = .end) := by
  induction lines generalizing i with
  | nil => exact fun t ht => ht
  | cons line lines ih =>
    rw [itemsFrom, lexemes_append, startsLine_items]
    by_cases hblank : line = .blank
    · subst hblank
      exact ih (i + 1)
    · obtain ⟨more, hmore⟩ := @keyword_items R _ _ e i line hblank true
      rw [hmore]
      exact fun location => (follows_cons hblank lines _).2 ⟨rfl, rfl, rfl⟩

/-! ### Lines one after the other -/

/-- What the parser makes of a database with lines. -/
def applyAll (lines : List (Line R)) (db : Database R) : Database R :=
  lines.foldl (fun db line => line.apply db) db

/-- Every line finds what it needs. -/
def ReadyFrom (definitions : List (AttributeDefinition R)) :
    List (Line R) → Database R → Prop
  | [], _ => True
  | line :: lines, db => line.Ready definitions db ∧ ReadyFrom definitions lines (line.apply db)

omit [Scalar R] [Printed R] in
/-- An edit changes nothing of what a line needs. -/
theorem ready_line {line : Line R} :
    (e.line line).Ready definitions db ↔ line.Ready definitions db := by
  cases line <;> rfl

/-- Behind every line stands what it asks for. -/
def AsksFrom (e : Edit) : List (Line R) → Prop
  | [] => True
  | line :: lines => line.Asks e (Follows lines) ∧ AsksFrom e lines

/-- **Lines are read one after the other.** -/
theorem reads_lines (hlines : ∀ line ∈ lines, WritableLine D definitions line)
    (hready : ReadyFrom definitions (lines.map e.line) db) (hasks : AsksFrom e lines) (i n : ℕ)
    (hn : (lexemes true (itemsFrom e i lines)).length < n) :
    Parser.Reads (fun t => t.kind = .end) (Reporting.loop .outOfFuel Parser.runRound n ())
      (lexemes true (itemsFrom e i lines)) db fun _ db' => db' = applyAll (lines.map e.line) db := by
  induction lines generalizing db i n with
  | nil =>
    obtain ⟨n, rfl⟩ := Nat.exists_eq_succ_of_ne_zero (Nat.ne_of_gt (Nat.zero_lt_of_lt hn))
    refine Parser.Reads.loop_last ?_
    refine Parser.Reads.atEnd_of_end.skip (fun _ ht => ht) ?_
    rintro b db' ⟨rfl, rfl⟩
    exact Parser.Reads.pure ⟨rfl, rfl⟩
  | cons line lines ih =>
    rw [itemsFrom, lexemes_append, startsLine_items] at hn ⊢
    have ih' := @ih ((e.line line).apply db) (fun l hl => hlines l (List.mem_cons_of_mem _ hl))
      hready.2 hasks.2 (i + 1)
    by_cases hblank : line = .blank
    · subst hblank
      exact ih' n hn
    · obtain ⟨n, rfl⟩ := Nat.exists_eq_succ_of_ne_zero (Nat.ne_of_gt (Nat.zero_lt_of_lt hn))
      obtain ⟨more, hmore⟩ := @keyword_items R _ _ e i line hblank true
      refine Parser.Reads.loop_more (Line.reads (hlines line List.mem_cons_self)
        (ready_line.1 hready.1) hasks.1 hblank) (ahead_follows lines (i + 1)) ?_
      rintro r db' ⟨rfl, rfl⟩
      refine ⟨rfl, ih' n ?_⟩
      rw [hmore, List.length_append, List.length_cons] at hn
      omega

/-- **The text of a database is read without an error.** -/
theorem parseString_editedText {opt : WriteOptions} (h : Writable D db opt)
    (hready : ReadyFrom db.attributeDefinitions ((linesOf db opt).map e.line) {})
    (hasks : AsksFrom e (linesOf db opt)) (name : Text) :
    ∃ r : ParseResult R, parseString (editedText db opt e) name = .ok r ∧
      (∀ d ∈ r.diagnostics, Tolerable d) ∧
      r.database = applyAll ((linesOf db opt).map e.line) {} := by
  obtain ⟨tokens, t, htokenise, hend, hspells⟩ := tokenise_editedText h e name
  have hrun : Parser.Reads (fun t => t.kind = .end) Parser.run
      (lexemes true (itemsFrom e 0 (linesOf db opt))) {}
      fun _ db' => db' = applyAll ((linesOf db opt).map e.line) {} :=
    Parser.Reads.while_ (reads_lines h.lines hready hasks 0)
  let s : Parser R :=
    { source := Source.normalise (editedText db opt e) name, tokens := tokens ++ [t] }
  obtain ⟨u, parser, parsed, hparser, htolerable, hrest, hdb⟩ :=
    hrun s tokens [t] rfl hspells ⟨t, rfl, hend⟩ rfl
  unfold parseString
  dsimp only
  rw [htokenise]
  dsimp only
  rw [hparser]
  exact ⟨_, rfl, by simpa using htolerable, hdb⟩

end Dbc
end Canforge
