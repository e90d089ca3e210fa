/-
# Writing what was read

A database that was written and read is written again as the same text (`writeString_reread`): what
`format_number` writes of a number depends on the number alone, and the lines of the database that
is read are the lines that were written, but for numbers that are equal (`Line.reread`).
-/

import Canforge.Dbc.RoundTrip

namespace Canforge
namespace Dbc

open Canforge.Core Text Lib

variable {R : Type} [Scalar R] [Printed R] {D : Printing R}
  {definitions : List (AttributeDefinition R)} {db : Database R} {opt : WriteOptions} {e : Edit} {i : ℕ}

/-! ### Numbers -/

theorem formatNumber_readBack {x : R} (h : Finite D x) : formatNumber (readBack x) = formatNumber x := by
  obtain ⟨q, hq⟩ := h
  exact D.formatNumber_congr (D.readBack_value hq) hq

/-- An integer that is rounded, read back and rounded again. -/
theorem formatNumber_floor_readBack {x : R} (h : Integral D x) :
    formatNumber (Printed.floor (readBack (Printed.floor x))) = formatNumber (Printed.floor x) := by
  obtain ⟨z, hz, hread⟩ := value_readBack_floor h
  have hfloor {y : R} (hy : D.value y = some (z : ℚ)) : D.value (Printed.floor y) = some (z : ℚ) := by
    rw [D.floor hy, Int.floor_intCast]
  exact D.formatNumber_congr (hfloor hread) (hfloor hz)

/-! ### Lines -/

/-- The line that is written of what was read of a line. -/
def Line.reread : Line R → Line R
  | .message m => .message (rereadMessage m)
  | .definition d => .definition (rereadDefinition d)
  | .default d => .default (rereadDefinition d)
  | .value owner name v => .value owner name (rereadValue v)
  | line => line

theorem signalItems_reread {id : CanId} {s : Signal R} (h : WritableSignal D definitions s) :
    signalItems e id (rereadSignal s) = signalItems e id s := by
  have hscaling : scalingItems (rereadLayout s.layout) = scalingItems s.layout := by
    unfold scalingItems rereadLayout
    dsimp only
    rw [formatNumber_readBack h.factor, formatNumber_readBack h.offset,
      formatNumber_readBack h.minimum, formatNumber_readBack h.maximum]
  unfold signalItems rereadSignal
  dsimp only
  rw [hscaling]
  rfl

theorem messageItems_reread {m : Message R} (h : WritableMessage D definitions m) :
    messageItems e (rereadMessage m) = messageItems e m := by
  have hsignals : (rereadMessage m).signals.flatMap (signalItems e m.id) =
      m.signals.flatMap (signalItems e m.id) := by
    unfold rereadMessage
    rw [List.flatMap_map]
    exact List.flatMap_congr fun s hs => signalItems_reread (h.signals s hs)
  unfold messageItems
  rw [show (rereadMessage m).id = m.id from rfl, hsignals]
  rfl

/-- What is written of a value that was read. -/
theorem literalItems_reread {values : List Text} {v : AttributeValue R} (h : WritableOf D values v)
    (asDefault : Bool) : literalItems (rereadValue v) asDefault = literalItems v asDefault := by
  have hfloor (hnumber : Integral64 D v.number) :
      formatNumber (Printed.floor (rereadInt (Printed.floor v.number))) =
        formatNumber (Printed.floor v.number) := by
    obtain ⟨z, hz, hlow, hhigh⟩ := hnumber
    have hround {y : R} (hy : D.value y = some (z : ℚ)) : D.value (Printed.floor y) = some (z : ℚ) := by
      rw [D.floor hy, Int.floor_intCast]
    exact D.formatNumber_congr (hround (value_rereadInt (hround hz) hlow hhigh)) (hround hz)
  unfold WritableOf at h
  unfold literalItems rereadValue
  cases htype : v.type with
  | int =>
    rw [htype] at h
    exact congrArg numberItems (hfloor h.1)
  | hex =>
    rw [htype] at h
    exact congrArg numberItems (hfloor h.1)
  | float =>
    rw [htype] at h
    exact congrArg numberItems (formatNumber_readBack h.1)
  | string => rfl
  | enum =>
    rw [htype] at h
    obtain ⟨n, hn, -, hvalue⟩ := h
    have hcast : D.value v.number = some (((n : ℕ) : ℤ) : ℚ) := by rw [hvalue, Int.cast_natCast]
    have hformat : formatNumber (rereadInt v.number) = formatNumber v.number :=
      D.formatNumber_congr (value_rereadInt hcast (by omega) (by omega)) hcast
    dsimp only
    rw [hformat]

theorem literalItems_rereadDefault {d : AttributeDefinition R} (h : WritableDefinition D d)
    (hdefault : d.hasDefault = true) :
    literalItems (rereadDefault d) true = literalItems d.defaultValue true := by
  obtain ⟨-, hof⟩ := h.default hdefault
  unfold rereadDefault
  split_ifs with henum
  · unfold literalItems
    rw [henum]
    rfl
  · exact literalItems_reread hof true

theorem boundsItems_reread {d : AttributeDefinition R} (h : WritableDefinition D d) :
    boundsItems (rereadDefinition d) = boundsItems d := by
  have hbounds (htype : d.type = .int ∨ d.type = .hex) :
      boundItems (Printed.floor (readBack (Printed.floor d.minimum)))
        (Printed.floor (readBack (Printed.floor d.maximum))) =
      boundItems (Printed.floor d.minimum) (Printed.floor d.maximum) := by
    unfold boundItems
    rw [formatNumber_floor_readBack (h.integral htype).1,
      formatNumber_floor_readBack (h.integral htype).2]
  unfold boundsItems rereadDefinition definitionHead
  cases htype : d.type with
  | int => exact hbounds (.inl htype)
  | hex => exact hbounds (.inr htype)
  | float =>
    dsimp only
    unfold boundItems
    rw [formatNumber_readBack h.minimum, formatNumber_readBack h.maximum]
  | string => rfl
  | enum => rfl

theorem definitionHead_object (d : AttributeDefinition R) : (definitionHead d).object = d.object := by
  unfold definitionHead
  cases d.type <;> rfl

/-- **A line that was read is written as it was.** -/
theorem Line.items_reread {line : Line R} (h : WritableLine D definitions line) :
    line.reread.items e i = line.items e i := by
  cases line with
  | message m => exact messageItems_reread h.1
  | definition d =>
    have htype : (rereadDefinition d).type = d.type := congrArg Prod.fst (kindOf_definitionHead h.noValues)
    have hname : (rereadDefinition d).name = d.name := definitionHead_name d
    have hobject : (rereadDefinition d).object = d.object := definitionHead_object d
    unfold Line.reread Line.items
    dsimp only
    rw [htype, hname, hobject, boundsItems_reread h]
  | default d =>
    have hname : (rereadDefinition d).name = d.name := definitionHead_name d
    have hvalue : (rereadDefinition d).defaultValue = rereadDefault d := if_pos h.2
    unfold Line.reread Line.items
    dsimp only
    rw [hname, hvalue, literalItems_rereadDefault h.1 h.2]
  | value owner name v =>
    have hof : literalItems (rereadValue v) false = literalItems v false := by
      have hvalue := h.2.2
      unfold WritableValue at hvalue
      split at hvalue
      · exact literalItems_reread hvalue.2 false
      · exact literalItems_reread hvalue.2 false
    unfold Line.reread Line.items
    dsimp only
    rw [hof]
  | _ => rfl

theorem itemsFrom_reread {lines : List (Line R)}
    (h : ∀ line ∈ lines, WritableLine D definitions line) (i : ℕ) :
    itemsFrom e i (lines.map Line.reread) = itemsFrom e i lines := by
  induction lines generalizing i with
  | nil => rfl
  | cons line lines ih =>
    rw [List.map_cons, itemsFrom, itemsFrom, Line.items_reread (h line List.mem_cons_self),
      ih fun l hl => h l (List.mem_cons_of_mem _ hl)]

/-! ### Texts -/

/-- The lines of the database that is read. -/
theorem linesOf_reread (db : Database R) (opt : WriteOptions) :
    linesOf (reread db) opt = (linesOf db opt).map Line.reread := by
  have hvalues (owner : Owner) (map : AttributeMap R) :
      (valueLines owner map).map Line.reread = valueLines owner (rereadMap map) := by
    unfold valueLines rereadMap
    rw [List.map_map, List.map_map]
    rfl
  have hdefault (d : AttributeDefinition R) : (rereadDefinition d).hasDefault = d.hasDefault := rfl
  have hlater : laterLines (reread db) = (laterLines db).map Line.reread := by
    unfold laterLines commentLines messageValueLines reread
    simp only [List.map_append, List.map_flatMap, List.flatMap_map, List.map_map, hvalues,
      apply_ite (List.map Line.reread), List.map_nil, List.map_cons, rereadMessage, rereadSignal,
      rereadNode, hdefault, rereadLayout]
    rfl
  have hearlier : earlierLines (reread db) opt = (earlierLines db opt).map Line.reread := by
    unfold earlierLines reread
    simp only [List.map_append, List.map_map, apply_ite (List.map Line.reread), List.map_nil,
      List.map_cons]
    rfl
  unfold linesOf
  rw [hlater, hearlier, List.map_append, List.map_append]
  simp only [reread, List.map_map]
  rfl

/-- **What was read is written as the text it was read from.** -/
theorem writeString_reread (h : Writable D db opt) :
    writeString (reread db) opt = writeString db opt := by
  rw [← editedText_nil, ← editedText_nil]
  unfold editedText
  rw [linesOf_reread, itemsFrom_reread h.lines]

/-- **A second trip through the parser and the writer changes no byte.** -/
theorem writeString_parseString (h : Writable D db opt) (name : Text) :
    ∃ r : ParseResult R, parseString (writeString db opt) name = .ok r ∧
      writeString r.database opt = writeString db opt := by
  obtain ⟨r, hparse, -, hdatabase⟩ := parseString_harmless h (Edit.harmless_none db) name
  rw [editedText_nil, Edit.database_none] at *
  exact ⟨r, hparse, hdatabase ▸ writeString_reread h⟩

theorem writeString_parseString_sample : ∃ r : ParseResult Binary64,
    parseString (writeString sampleDatabase { crlf := true }) [] = .ok r ∧
      writeString r.database { crlf := true } = writeString sampleDatabase { crlf := true } :=
  writeString_parseString (sample_writable { crlf := true }) []

end Dbc
end Canforge
