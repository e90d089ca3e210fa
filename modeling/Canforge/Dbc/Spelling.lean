/-
# The tokens of a written database

The lexer reads what was written: the items of the lines of a database run into one another
nowhere, and their text is UTF-8 without a carriage return (`Laid`), so that normalising the source
keeps it (`tokenise_editedText`).
-/

import Canforge.Dbc.Quoting
import Canforge.Dbc.Writable
import Canforge.Dbc.Written

namespace Canforge
namespace Dbc

open Canforge.Core Text Lib

/-! ### Clean items -/

/-- UTF-8 without a carriage return. -/
def Item.Clean (i : Item) : Prop := IsString i.text

/-- Items that run into one another nowhere, of a text without a carriage return. -/
def Laid (items : List Item) : Prop := Spaced items ∧ ∀ i ∈ items, i.Clean

/-- Items that no lexeme in front of them runs into. -/
def Breaks (items : List Item) : Prop := ∀ i ∈ items.head?, i.breaks = true

theorem isString_ascii {w : Text} (h : ∀ c ∈ w, c < 0x80 ∧ c ≠ cr) : IsString w :=
  ⟨isValidUtf8_ascii fun c hc => (h c hc).1, fun hcr => (h cr hcr).2 rfl⟩

theorem IsString.append {v w : Text} (hv : IsString v) (hw : IsString w) : IsString (v ++ w) :=
  ⟨isValidUtf8_append hv.valid hw.valid, fun h => (List.mem_append.1 h).elim hv.noCr hw.noCr⟩

theorem IsString.quoted {w : Text} (h : IsString w) : IsString (quoted w) :=
  ⟨isValidUtf8_quoted h.valid, cr_notMem_quoted h.noCr⟩

theorem nameChar_cases {c : Byte} (h : isNameChar c = true) :
    c < 0x80 ∧ c ≠ cr ∧ isIdentContinue c = true ∧ (isDigit c = false → isIdentStart c = true) := by
  revert c
  decide +kernel

theorem IsName.isString {w : Text} (h : IsName w) : IsString w :=
  isString_ascii fun c hc => ⟨(nameChar_cases (h.all c hc)).1, (nameChar_cases (h.all c hc)).2.1⟩

theorem IsName.valid {w : Text} (h : IsName w) : (Lexeme.word w).Valid := by
  obtain ⟨c, hc, hname, hdigit⟩ := h.first
  exact ⟨⟨c, hc, (nameChar_cases hname).2.2.2 hdigit⟩, fun d hd => (nameChar_cases (h.all d hd)).2.2.1⟩

/-- A word that is read as a whole. -/
structure IsWord (w : Text) : Prop where
  valid : (Lexeme.word w).Valid
  isString : IsString w

theorem IsName.isWord {w : Text} (h : IsName w) : IsWord w := ⟨h.valid, h.isString⟩

/-- Whether a text is a word of the grammar. -/
def isWordText (w : Text) : Bool := w.all isNameChar && w.head?.any fun c => !isDigit c

theorem isWord_of_isWordText {w : Text} (h : isWordText w = true) : IsWord w := by
  rw [isWordText, Bool.and_eq_true, List.all_eq_true, Option.any_eq_true] at h
  obtain ⟨hall, c, hc, hdigit⟩ := h
  have hname := hall c (List.mem_of_mem_head? hc)
  refine ⟨⟨⟨c, hc, (nameChar_cases hname).2.2.2 (by simpa using hdigit)⟩, fun d hd => ?_⟩, ?_⟩
  · exact (nameChar_cases (hall d hd)).2.2.1
  · exact isString_ascii fun d hd =>
      ⟨(nameChar_cases (hall d hd)).1, (nameChar_cases (hall d hd)).2.1⟩

theorem isWord_kNoNode : IsWord kNoNode := isWord_of_isWordText (by decide)

/-! ### Numbers -/

theorem numeralChar_cases {c : Byte} (h : isNumeralChar c = true) : c < 0x80 ∧ c ≠ cr := by
  revert c
  decide +kernel

theorem isNumeralChar_of_isDigit {c : Byte} (h : isDigit c = true) : isNumeralChar c = true := by
  simp [isNumeralChar, h]

theorem NumberText.numeralChars (n : NumberText) : ∀ c ∈ n.text, isNumeralChar c = true := by
  intro c hc
  rcases List.mem_append.1 hc with hc | hc
  · rcases List.mem_append.1 hc with hc | hc
    · exact isNumeralChar_of_isDigit (n.whole_digits c hc)
    · rcases n.fraction_eq with heq | ⟨ds, heq, -, hds⟩
      · rw [heq] at hc
        cases hc
      · rw [heq] at hc
        rcases List.mem_cons.1 hc with rfl | hc
        · decide
        · exact isNumeralChar_of_isDigit (hds c hc)
  · rcases n.exponent_eq with heq | ⟨sign, ds, heq, hsign, -, hds⟩
    · rw [heq] at hc
      cases hc
    · rw [heq] at hc
      rcases List.mem_cons.1 hc with rfl | hc
      · decide
      · rcases List.mem_append.1 hc with hc | hc
        · rcases hsign with rfl | rfl | rfl
          · cases hc
          · rw [List.mem_singleton.1 hc]
            decide
          · rw [List.mem_singleton.1 hc]
            decide
        · exact isNumeralChar_of_isDigit (hds c hc)

theorem NumberText.isString (n : NumberText) : IsString n.text :=
  isString_ascii fun c hc => numeralChar_cases (n.numeralChars c hc)

/-! ### Items in front of items -/

section

variable {rest : List Item} {w : Text} {n : ℕ} {c : Char}

@[simp] theorem breaks_nil : Breaks [] := by simp [Breaks]

theorem breaks_gap {c : Byte} : Breaks (.gap (c :: w) :: rest) := by
  rintro i hi
  rw [← Option.some.inj hi]
  rfl

@[simp] theorem breaks_space : Breaks (space :: rest) := breaks_gap

@[simp] theorem breaks_newline : Breaks (newline :: rest) := breaks_gap

@[simp] theorem breaks_mark : Breaks (mark c :: rest) := by
  rintro i hi
  rw [← Option.some.inj hi]
  rfl

theorem laid_nil : Laid [] := ⟨trivial, by simp⟩

theorem laid_gap (hw : ∀ c ∈ w, isGap c = true) (h : Laid rest) : Laid (.gap w :: rest) := by
  refine ⟨⟨hw, h.1⟩, List.forall_mem_cons.2 ⟨isString_ascii fun c hc => ?_, h.2⟩⟩
  exact (break_cases (.inr (hw c hc))).2.2.2

theorem laid_space (h : Laid rest) : Laid (space :: rest) := laid_gap (by decide) h

theorem laid_newline (h : Laid rest) : Laid (newline :: rest) := laid_gap (by decide) h

theorem laid_word (hw : IsWord w) (hbreaks : Breaks rest) (h : Laid rest) :
    Laid (word w :: rest) :=
  ⟨⟨hw.valid, .inr hbreaks, h.1⟩, List.forall_mem_cons.2 ⟨hw.isString, h.2⟩⟩

/-- A word in front of a blank. -/
theorem laid_word_space (hw : IsWord w) (h : Laid rest) : Laid (word w :: space :: rest) :=
  laid_word hw breaks_space (laid_space h)

theorem laid_number {n : NumberText} (hbreaks : Breaks rest) (h : Laid rest) :
    Laid (.lexeme (.number n.text) :: rest) :=
  ⟨⟨⟨n, rfl⟩, .inr hbreaks, h.1⟩, List.forall_mem_cons.2 ⟨n.isString, h.2⟩⟩

theorem laid_decimal (hbreaks : Breaks rest) (h : Laid rest) : Laid (decimalItem n :: rest) := by
  have hnumber := laid_number (n := .ofDecimal n) hbreaks h
  rwa [NumberText.ofDecimal_text] at hnumber

theorem laid_string (hw : IsString w) (hbreaks : Breaks rest) (h : Laid rest) :
    Laid (str w :: rest) :=
  ⟨⟨trivial, .inr hbreaks, h.1⟩, List.forall_mem_cons.2 ⟨hw.quoted, h.2⟩⟩

theorem laid_mark (hc : kMarks.contains (ch c) = true) (h : Laid rest) : Laid (mark c :: rest) := by
  refine ⟨⟨hc, .inl rfl, h.1⟩, List.forall_mem_cons.2 ⟨isString_ascii fun d hd => ?_, h.2⟩⟩
  rw [List.mem_singleton.1 hd]
  exact (break_cases (.inl hc)).2.2.2

theorem NumberText.numberItems_text (n : NumberText) :
    numberItems n.text = [.lexeme (.number n.text)] := by
  have hhead := n.head_ne_minus
  cases htext : n.text with
  | nil => rfl
  | cons c rest =>
    rw [htext] at hhead
    exact if_neg (hhead c rfl)

theorem NumberText.numberItems_neg (n : NumberText) :
    numberItems (ch '-' :: n.text) = [mark '-', .lexeme (.number n.text)] := by
  rw [numberItems, if_pos rfl]

theorem laid_numberItems {t : Text} (ht : SignedText t) (hbreaks : Breaks rest) (h : Laid rest) :
    Laid (numberItems t ++ rest) := by
  obtain ⟨n, rfl | rfl⟩ := ht
  · rw [n.numberItems_text]
    exact laid_number hbreaks h
  · rw [n.numberItems_neg]
    exact laid_mark (by decide) (laid_number hbreaks h)

/-- Items that may stand in front of what nothing runs into. -/
def Piece (items : List Item) : Prop := ∀ rest, Breaks rest → Laid rest → Laid (items ++ rest)

/-- Groups of items with a separator that nothing runs into. -/
theorem piece_separated {first sep : List Item} {groups : List (List Item)}
    (hfirst : ∀ rest, Laid rest → Laid (first ++ rest))
    (hsep : ∀ rest, Laid rest → Breaks (sep ++ rest) ∧ Laid (sep ++ rest))
    (hgroups : ∀ g ∈ groups, Piece g) : Piece (separatedItems first sep groups) := by
  intro rest hbreaks h
  have htail (tail : List (List Item)) (htail : ∀ g ∈ tail, Piece g) :
      Breaks (tail.flatMap (sep ++ ·) ++ rest) ∧ Laid (tail.flatMap (sep ++ ·) ++ rest) := by
    induction tail with
    | nil => exact ⟨hbreaks, h⟩
    | cons g tail ih =>
      obtain ⟨hbreaks', h'⟩ := ih fun g' hg' => htail g' (List.mem_cons_of_mem _ hg')
      rw [List.flatMap_cons, List.append_assoc, List.append_assoc]
      exact hsep _ (htail g List.mem_cons_self _ hbreaks' h')
  cases groups with
  | nil => exact h
  | cons g tail =>
    obtain ⟨hbreaks', h'⟩ := htail tail fun g' hg' => hgroups g' (List.mem_cons_of_mem _ hg')
    rw [separatedItems, List.append_assoc, List.append_assoc]
    exact hfirst _ (hgroups g List.mem_cons_self _ hbreaks' h')

theorem piece_word (hw : IsWord w) : Piece [word w] := fun _ => laid_word hw

theorem piece_namesItems {first : List Item} {names : List Text}
    (hfirst : ∀ rest, Laid rest → Laid (first ++ rest)) (hnames : ∀ n ∈ names, IsWord n) :
    Piece (namesItems first names) := by
  refine piece_separated hfirst (fun rest h => ⟨breaks_mark, laid_mark (by decide) h⟩) ?_
  intro g hg
  obtain ⟨n, hn, rfl⟩ := List.mem_map.1 hg
  exact piece_word (hnames n hn)

/-- Lists of items each of which begins with a gap. -/
theorem laid_flatMap {α : Type} {l : List α} {f : α → List Item} {rest : List Item}
    (hf : ∀ a ∈ l, Piece (f a)) (hfirst : ∀ a ∈ l, ∀ rest, Breaks (f a ++ rest))
    (hbreaks : Breaks rest) (h : Laid rest) :
    Breaks (l.flatMap f ++ rest) ∧ Laid (l.flatMap f ++ rest) := by
  induction l with
  | nil => exact ⟨hbreaks, h⟩
  | cons a l ih =>
    obtain ⟨hbreaks', h'⟩ := ih (fun b hb => hf b (List.mem_cons_of_mem _ hb))
      fun b hb => hfirst b (List.mem_cons_of_mem _ hb)
    rw [List.flatMap_cons, List.append_assoc]
    exact ⟨hfirst a List.mem_cons_self _, hf a List.mem_cons_self _ hbreaks' h'⟩

theorem laid_descriptions {values : List ValueDescription}
    (hvalues : ∀ v ∈ values, WritableDescription v) (hbreaks : Breaks rest) (h : Laid rest) :
    Breaks (descriptionItems values ++ rest) ∧ Laid (descriptionItems values ++ rest) := by
  refine laid_flatMap (fun v hv rest hbreaks h => ?_) (fun v _ rest => breaks_space) hbreaks h
  rw [List.cons_append, List.append_assoc]
  exact laid_space (laid_numberItems (signedText_toSigned _) breaks_space
    (laid_space (laid_string (hvalues v hv).2 hbreaks h)))

/-- The end of a statement. -/
theorem laid_semicolon (deleted : Bool) (h : Laid rest) :
    Breaks (semicolonItems deleted ++ rest) ∧ Laid (semicolonItems deleted ++ rest) := by
  cases deleted with
  | false => exact ⟨breaks_mark, laid_mark (by decide) (laid_newline h)⟩
  | true => exact ⟨breaks_newline, laid_newline h⟩

theorem laid_idItem {id : CanId} (h : Laid rest) : Laid (idItem id :: space :: rest) :=
  laid_decimal breaks_space (laid_space h)

/-- The names of an owner. -/
def Owner.Named : Owner → Prop
  | .database => True
  | .node name => IsName name
  | .message _ => True
  | .signal _ name => IsName name

theorem laid_kw {s : String} (hs : isWordText (ascii s) = true) (h : Laid rest) :
    Laid (kw s :: space :: rest) := laid_word_space (isWord_of_isWordText hs) h

theorem laid_owner {owner : Owner} (howner : owner.Named) (h : Laid rest) :
    Laid (owner.items ++ rest) := by
  cases owner with
  | database => exact h
  | node name => exact laid_kw (by decide) (laid_word_space (IsName.isWord howner) h)
  | message id => exact laid_kw (by decide) (laid_idItem h)
  | signal id name =>
    exact laid_kw (by decide) (laid_idItem (laid_word_space (IsName.isWord howner) h))

theorem laid_indicator {R : Type} (s : Signal R) (h : Laid rest) :
    Breaks (indicatorItems s ++ space :: rest) ∧ Laid (indicatorItems s ++ space :: rest) := by
  have hdigits : ∀ c ∈ toDecimal s.multiplexValue.toNat, isNameChar c = true := fun c hc => by
    simp [isNameChar, isDigit_toDecimal _ c hc]
  have hword : ∀ last : Text, (∀ c ∈ last, isNameChar c = true) →
      IsWord (ascii "m" ++ toDecimal s.multiplexValue.toNat ++ last) := fun last hlast => by
    refine isWord_of_isWordText ?_
    rw [isWordText, List.all_append, List.all_append, List.all_eq_true.2 hdigits,
      List.all_eq_true.2 hlast]
    rfl
  unfold indicatorItems
  cases s.multiplexRole with
  | none => exact ⟨breaks_space, laid_space h⟩
  | multiplexor => exact ⟨breaks_space, laid_space (laid_kw (by decide) h)⟩
  | multiplexed =>
    have hone := hword [] (by simp)
    rw [List.append_nil] at hone
    exact ⟨breaks_space, laid_space (laid_word_space hone h)⟩
  | both =>
    exact ⟨breaks_space, laid_space (laid_word_space (hword (ascii "M") (by decide)) h)⟩

theorem laid_place {R : Type} (layout : ScaledLayout R) (h : Laid rest) : Laid (placeItems layout ++ rest) := by
  have hsign : kMarks.contains (ch (if layout.signedness = .signed then '-' else '+')) = true := by
    split_ifs <;> decide
  exact laid_mark (by decide) (laid_space (laid_decimal breaks_mark (laid_mark (by decide)
    (laid_decimal breaks_mark (laid_mark (by decide) (laid_decimal breaks_mark
      (laid_mark hsign h)))))))

end

/-! ### Lines -/

section

variable {R : Type} [Scalar R] [Printed R]

/-- A line that is read back as it was written, as far as it does not refer to others. -/
def WritableLine (D : Printing R) (definitions : List (AttributeDefinition R)) : Line R → Prop
  | .version text => IsString text
  | .newSymbols symbols => ∀ s ∈ symbols, IsName s ∧ s ≠ ascii "BS_"
  | .bitTiming _ => True
  | .nodes names => (∀ n ∈ names, IsName n) ∧ names.Nodup
  | .valueTable t => WritableTable t
  | .blank => True
  | .message m => WritableMessage D definitions m ∧ m.validate = .ok ()
  | .transmitters _ names => names ≠ [] ∧ ∀ n ∈ names, IsName n
  | .comment owner text => owner.Named ∧ IsString text
  | .definition d => WritableDefinition D d
  | .default d => WritableDefinition D d ∧ d.hasDefault = true
  | .value owner name v =>
    owner.Named ∧ IsString name ∧ WritableValue D (definitions.find? (·.name = name)) v
  | .valueDescriptions _ signal values => IsName signal ∧ ∀ v ∈ values, WritableDescription v
  | .valueType _ signal type => IsName signal ∧ type ≠ .integer
  | .ranges _ signal multiplexor rs =>
    IsName signal ∧ IsName multiplexor ∧ rs ≠ [] ∧ ∀ r ∈ rs, r.low ≤ r.high

variable {D : Printing R} {definitions : List (AttributeDefinition R)} {rest : List Item}

theorem laid_formatNumber {x : R} (hx : Finite D x) (hbreaks : Breaks rest) (h : Laid rest) :
    Laid (numberItems (formatNumber x) ++ rest) := by
  obtain ⟨q, hq⟩ := hx
  exact laid_numberItems (D.signedText_formatNumber hq) hbreaks h

theorem Integral64.finite {x : R} (h : Integral64 D x) : Finite D x := by
  obtain ⟨z, hz, -⟩ := h
  exact ⟨z, hz⟩

theorem Finite.floor {x : R} (h : Finite D x) : Finite D (Printed.floor x) := by
  obtain ⟨q, hq⟩ := h
  exact ⟨_, D.floor hq⟩

theorem laid_literal {values : List Text} {v : AttributeValue R} {asDefault : Bool}
    (hstrings : ∀ s ∈ values, IsString s) (hv : WritableOf D values v) (hbreaks : Breaks rest)
    (h : Laid rest) : Laid (literalItems v asDefault ++ rest) := by
  unfold literalItems
  unfold WritableOf at hv
  cases htype : v.type with
  | int =>
    rw [htype] at hv
    exact laid_formatNumber hv.1.finite.floor hbreaks h
  | hex =>
    rw [htype] at hv
    exact laid_formatNumber hv.1.finite.floor hbreaks h
  | float =>
    rw [htype] at hv
    exact laid_formatNumber hv.1 hbreaks h
  | string =>
    rw [htype] at hv
    exact laid_string hv.2 hbreaks h
  | enum =>
    rw [htype] at hv
    obtain ⟨i, -, hi, hnumber⟩ := hv
    cases asDefault with
    | false => exact laid_formatNumber ⟨_, hnumber⟩ hbreaks h
    | true => exact laid_string (hstrings _ (List.mem_of_getElem? hi)) hbreaks h

theorem laid_receivers (edit : ListEdit) {receivers : List Text}
    (hreceivers : ∀ r ∈ receivers, IsName r) (h : Laid rest) :
    Laid (receiverItems edit receivers ++ newline :: rest) := by
  have hnames : Piece (namesItems [] (receiverNames receivers)) := by
    refine piece_namesItems (fun _ h => h) fun n hn => ?_
    unfold receiverNames at hn
    split_ifs at hn
    · rw [List.mem_singleton.1 hn]
      exact isWord_kNoNode
    · exact (hreceivers n hn).isWord
  cases edit with
  | kept => exact hnames _ breaks_newline (laid_newline h)
  | deleted => exact laid_newline h
  | comma =>
    rw [receiverItems, List.append_assoc]
    exact hnames _ breaks_mark (laid_mark (by decide) (laid_newline h))

theorem laid_scaling {s : Signal R} (hs : WritableSignal D definitions s) (h : Laid rest) :
    Laid (scalingItems s.layout ++ rest) := by
  unfold scalingItems
  simp only [List.cons_append, List.append_assoc, List.nil_append]
  refine laid_mark (by decide) (laid_formatNumber hs.factor breaks_mark (laid_mark (by decide) ?_))
  refine laid_formatNumber hs.offset breaks_mark (laid_mark (by decide) (laid_space
    (laid_mark (by decide) ?_)))
  refine laid_formatNumber hs.minimum breaks_mark (laid_mark (by decide) ?_)
  exact laid_formatNumber hs.maximum breaks_mark (laid_mark (by decide) h)

theorem laid_signal {s : Signal R} (hs : WritableSignal D definitions s) (e : Edit) (id : CanId)
    (h : Laid rest) : Laid (signalItems e id s ++ rest) := by
  unfold signalItems
  simp only [List.cons_append, List.append_assoc, List.nil_append]
  have hplace : Laid (placeItems s.layout ++ space :: (scalingItems s.layout ++ space :: str s.unit ::
      space :: (receiverItems (e.receivers id s.name) s.receivers ++ newline :: rest))) := by
    refine laid_place s.layout (laid_space (laid_scaling hs (laid_space ?_)))
    exact laid_string hs.unit breaks_space (laid_space (laid_receivers _ hs.receivers h))
  obtain ⟨hbreaks, hindicator⟩ := laid_indicator s hplace
  exact laid_space (laid_kw (by decide) (laid_word hs.name.isWord hbreaks hindicator))

theorem laid_message {m : Message R} (hm : WritableMessage D definitions m) (e : Edit)
    (h : Laid rest) : Laid (messageItems e m ++ rest) := by
  have hsignals : Breaks (m.signals.flatMap (signalItems e m.id) ++ newline :: rest) ∧
      Laid (m.signals.flatMap (signalItems e m.id) ++ newline :: rest) :=
    laid_flatMap (fun s hs _ _ h => laid_signal (hm.signals s hs) e m.id h)
      (fun s _ _ => breaks_space) breaks_newline (laid_newline h)
  have htransmitter : Laid (transmitterItems (e.transmitter m.id) m.transmitter ++
      newline :: (m.signals.flatMap (signalItems e m.id) ++ newline :: rest)) := by
    unfold transmitterItems
    split_ifs with hdeleted hempty
    · exact laid_newline hsignals.2
    · exact laid_word isWord_kNoNode breaks_newline (laid_newline hsignals.2)
    · have hname := hm.transmitter.resolve_left fun h => hempty (List.isEmpty_iff.2 h)
      exact laid_word hname.isWord breaks_newline (laid_newline hsignals.2)
  unfold messageItems
  simp only [List.cons_append, List.append_assoc, List.nil_append]
  exact laid_kw (by decide) (laid_idItem (laid_word hm.name.isWord breaks_mark
    (laid_mark (by decide) (laid_space (laid_decimal breaks_space (laid_space htransmitter))))))

theorem laid_object (object : AttributeObject) (h : Laid rest) :
    Laid (objectItems object ++ rest) := by
  cases object with
  | database => exact h
  | node => exact laid_kw (by decide) h
  | message => exact laid_kw (by decide) h
  | signal => exact laid_kw (by decide) h
  | envVar => exact laid_kw (by decide) h

theorem laid_bounds {d : AttributeDefinition R} (hd : WritableDefinition D d) (hbreaks : Breaks rest)
    (h : Laid rest) : Breaks (boundsItems d ++ rest) ∧ Laid (boundsItems d ++ rest) := by
  have hnumbers {low high : R} (hlow : Finite D low) (hhigh : Finite D high) :
      Breaks (boundItems low high ++ rest) ∧ Laid (boundItems low high ++ rest) := by
    unfold boundItems
    simp only [List.cons_append, List.append_assoc]
    exact ⟨breaks_space, laid_space (laid_formatNumber hlow breaks_space
      (laid_space (laid_formatNumber hhigh hbreaks h)))⟩
  unfold boundsItems
  cases d.type with
  | int => exact hnumbers hd.minimum.floor hd.maximum.floor
  | hex => exact hnumbers hd.minimum.floor hd.maximum.floor
  | float => exact hnumbers hd.minimum hd.maximum
  | string => exact ⟨breaks_space, laid_space h⟩
  | enum =>
    have hvalues : Piece (separatedItems [space] [mark ','] (d.enumValues.map fun v => [str v])) := by
      refine piece_separated (fun _ h => laid_space h)
        (fun _ h => ⟨breaks_mark, laid_mark (by decide) h⟩) fun g hg => ?_
      obtain ⟨v, hv, rfl⟩ := List.mem_map.1 hg
      exact fun _ => laid_string (hd.values v hv)
    refine ⟨?_, hvalues rest hbreaks h⟩
    cases hcases : d.enumValues with
    | nil => exact hbreaks
    | cons v values => exact breaks_space

theorem laid_typeText (type : AttributeType) : IsWord (typeText type) := by
  cases type <;> exact isWord_of_isWordText (by decide)

theorem laid_value {definition : Option (AttributeDefinition R)} {v : AttributeValue R}
    (hdefinition : ∀ d ∈ definition, ∀ s ∈ d.enumValues, IsString s)
    (hv : WritableValue D definition v) (asDefault : Bool) (hbreaks : Breaks rest) (h : Laid rest) :
    Laid (literalItems v asDefault ++ rest) := by
  cases definition with
  | none => exact laid_literal (by simp) hv.2 hbreaks h
  | some d => exact laid_literal (hdefinition d rfl) hv.2 hbreaks h

/-- **A line runs into nothing behind it.** -/
theorem laid_line (hdefinitions : ∀ d ∈ definitions, WritableDefinition D d) {line : Line R}
    (hline : WritableLine D definitions line) (e : Edit) (i : ℕ) (h : Laid rest) :
    Laid (line.items e i ++ rest) := by
  obtain ⟨hend, hlaid⟩ := laid_semicolon (e.semicolon i) h
  cases line with
  | version text =>
    exact laid_kw (by decide) (laid_string hline breaks_gap (laid_gap (by decide) h))
  | newSymbols symbols =>
    have hsymbols := laid_flatMap (f := fun s => [.gap (ascii "\t"), word s, newline])
      (fun s hs _ _ h => laid_gap (by decide) (laid_word (hline s hs).1.isWord breaks_newline
        (laid_newline h))) (fun s _ _ => breaks_gap) breaks_newline (laid_newline h)
    unfold Line.items
    simp only [List.cons_append, List.append_assoc, List.nil_append]
    exact laid_kw (by decide) (laid_mark (by decide) (laid_gap (by decide) hsymbols.2))
  | bitTiming timing =>
    have hgap : Laid (.gap (ascii "\n\n") :: rest) := laid_gap (by decide) h
    cases timing with
    | none => exact laid_word (isWord_of_isWordText (by decide)) breaks_mark (laid_mark (by decide) hgap)
    | some bt =>
      refine laid_word (isWord_of_isWordText (by decide)) breaks_mark (laid_mark (by decide) ?_)
      exact laid_space (laid_decimal breaks_space (laid_space (laid_mark (by decide) (laid_space
        (laid_decimal breaks_mark (laid_mark (by decide) (laid_decimal breaks_gap hgap)))))))
  | nodes names =>
    have hbreaks : Breaks (.gap (ascii "\n\n") :: rest) := breaks_gap
    have hnames := laid_flatMap (f := fun n => [space, word n])
      (fun n hn _ hbreaks h => laid_space (laid_word (hline.1 n hn).isWord hbreaks h))
      (fun n _ _ => breaks_space) hbreaks (laid_gap (by decide) h)
    unfold Line.items
    simp only [List.cons_append, List.append_assoc, List.nil_append]
    exact laid_word (isWord_of_isWordText (by decide)) breaks_mark (laid_mark (by decide) hnames.2)
  | valueTable t =>
    obtain ⟨hbreaks, hvalues⟩ := laid_descriptions hline.values breaks_space (laid_space hlaid)
    unfold Line.items
    simp only [List.cons_append, List.append_assoc, List.nil_append]
    exact laid_kw (by decide) (laid_word hline.name.isWord hbreaks hvalues)
  | blank => exact laid_newline h
  | message m => exact laid_message hline.1 e h
  | transmitters id names =>
    have hnames : Piece (namesItems [space] names) :=
      piece_namesItems (fun _ h => laid_space h) fun n hn => (hline.2 n hn).isWord
    have hall := hnames _ hend hlaid
    unfold Line.items
    simp only [List.cons_append, List.append_assoc, List.nil_append]
    exact laid_kw (by decide) (laid_idItem (laid_mark (by decide) hall))
  | comment owner text =>
    unfold Line.items
    simp only [List.cons_append, List.append_assoc, List.nil_append]
    exact laid_kw (by decide) (laid_owner hline.1 (laid_string hline.2 hend hlaid))
  | definition d =>
    obtain ⟨hbreaks, hbounds⟩ := laid_bounds hline hend hlaid
    unfold Line.items
    simp only [List.cons_append, List.append_assoc, List.nil_append]
    exact laid_kw (by decide) (laid_object d.object (laid_string hline.name breaks_space
      (laid_space (laid_word (laid_typeText d.type) hbreaks hbounds))))
  | default d =>
    obtain ⟨hd, hdefault⟩ := hline
    have hvalues : ∀ d' ∈ some d, ∀ s ∈ d'.enumValues, IsString s := fun d' hd' => by
      rw [← Option.some.inj hd']
      exact hd.values
    have hvalue := laid_value hvalues (hd.default hdefault) true hend hlaid
    unfold Line.items
    simp only [List.cons_append, List.append_assoc, List.nil_append]
    exact laid_kw (by decide) (laid_string hd.name breaks_space (laid_space hvalue))
  | value owner name v =>
    have hvalue := laid_value (fun d hd => (hdefinitions d (List.mem_of_find?_eq_some hd)).values)
      hline.2.2 false hend hlaid
    unfold Line.items
    simp only [List.cons_append, List.append_assoc, List.nil_append]
    exact laid_kw (by decide) (laid_string hline.2.1 breaks_space
      (laid_space (laid_owner hline.1 hvalue)))
  | valueDescriptions id signal values =>
    obtain ⟨hbreaks, hvalues⟩ := laid_descriptions hline.2 breaks_space (laid_space hlaid)
    unfold Line.items
    simp only [List.cons_append, List.append_assoc, List.nil_append]
    exact laid_kw (by decide) (laid_idItem (laid_word hline.1.isWord hbreaks hvalues))
  | valueType id signal type =>
    unfold Line.items
    simp only [List.cons_append, List.nil_append]
    exact laid_kw (by decide) (laid_idItem (laid_word_space hline.1.isWord (laid_mark (by decide)
      (laid_space (laid_decimal hend hlaid)))))
  | ranges id signal multiplexor rs =>
    have hranges : Piece (separatedItems [space] [mark ',', space] (rs.map rangeItems)) := by
      refine piece_separated (fun _ h => laid_space h)
        (fun _ h => ⟨breaks_mark, laid_mark (by decide) (laid_space h)⟩) fun g hg => ?_
      obtain ⟨r, -, rfl⟩ := List.mem_map.1 hg
      exact fun _ hbreaks h => laid_decimal breaks_mark (laid_mark (by decide)
        (laid_decimal hbreaks h))
    obtain ⟨r, tail, rfl⟩ := List.exists_cons_of_ne_nil hline.2.2.1
    have hall := hranges _ hend hlaid
    unfold Line.items
    simp only [List.cons_append, List.append_assoc, List.nil_append]
    exact laid_kw (by decide) (laid_idItem (laid_word_space hline.1.isWord
      (laid_word hline.2.1.isWord breaks_space hall)))

/-- The items of the lines of a text. -/
theorem laid_itemsFrom (hdefinitions : ∀ d ∈ definitions, WritableDefinition D d)
    {lines : List (Line R)} (hlines : ∀ line ∈ lines, WritableLine D definitions line) (e : Edit)
    (i : ℕ) : Laid (itemsFrom e i lines) := by
  induction lines generalizing i with
  | nil => exact laid_nil
  | cons line lines ih =>
    exact laid_line hdefinitions (hlines line List.mem_cons_self) e i
      (ih (fun l hl => hlines l (List.mem_cons_of_mem _ hl)) (i + 1))

/-! ### The lines of a database -/

theorem writable_valueLines (owner : Owner) (howner : owner.Named) {map : AttributeMap R}
    (hmap : WritableAttributes D definitions map) :
    ∀ line ∈ valueLines owner map, WritableLine D definitions line := by
  intro line hline
  obtain ⟨a, ha, rfl⟩ := List.mem_map.1 hline
  exact ⟨howner, hmap.values a ha⟩

variable {db : Database R} {opt : WriteOptions}

theorem Writable.writtenSymbols (h : Writable D db opt) :
    writtenSymbols db.newSymbols opt = db.newSymbols := by
  unfold Dbc.writtenSymbols
  split_ifs with hempty hsynthesise
  · rcases h.symbols with hne | hoff
    · exact absurd (List.isEmpty_iff.1 hempty) hne
    · exact absurd hsynthesise (by simp [hoff])
  · exact (List.isEmpty_iff.1 hempty).symm
  · rfl

theorem Writable.earlier (h : Writable D db opt) :
    ∀ line ∈ earlierLines db opt, WritableLine D db.attributeDefinitions line := by
  unfold earlierLines
  rw [h.writtenSymbols]
  simp only [List.cons_append, List.nil_append, List.forall_mem_cons, List.forall_mem_append,
    List.forall_mem_map]
  refine ⟨h.version, h.newSymbols, trivial, ⟨?_, ?_⟩, h.valueTables, ?_⟩
  · intro n hn
    obtain ⟨node, hnode, rfl⟩ := List.mem_map.1 hn
    exact (h.nodes node hnode).name
  · exact Database.nodeNames_nodup_of_validate h.valid
  · split_ifs
    · simp
    · simp [WritableLine]

omit [Scalar R] [Printed R] in
/-- A line that is written unless there is nothing to say. -/
theorem forall_mem_unless {c : Prop} [Decidable c] {line : Line R} {p : Line R → Prop}
    (h : ¬c → p line) : ∀ l ∈ if c then [] else [line], p l := by
  split_ifs with hc
  · simp
  · simpa using h hc

theorem Writable.later (h : Writable D db opt) :
    ∀ line ∈ laterLines db, WritableLine D db.attributeDefinitions line := by
  have hsignal {m : Message R} (hm : m ∈ db.messages) {s : Signal R} (hs : s ∈ m.signals) :=
    (h.messages m hm).signals s hs
  unfold laterLines commentLines messageValueLines
  simp only [List.forall_mem_append, List.forall_mem_map, List.forall_mem_flatMap, and_assoc]
  refine ⟨fun m hm => ?_, ?_, fun n hn => ?_, fun m hm => ⟨?_, fun s hs => ?_⟩, h.definitions,
    fun d hd => ?_, ?_, fun n hn => ?_, fun m hm => ⟨?_, fun s hs => ?_⟩, fun m hm s hs => ?_,
    fun m hm s hs => ?_, fun m hm s hs => ?_⟩
  · refine forall_mem_unless fun hne => ⟨fun hnil => hne (List.isEmpty_iff.2 hnil), ?_⟩
    exact (h.messages m hm).additionalTransmitters
  · exact forall_mem_unless fun _ => ⟨trivial, h.comment⟩
  · exact forall_mem_unless fun _ => ⟨(h.nodes n hn).name, (h.nodes n hn).comment⟩
  · exact forall_mem_unless fun _ => ⟨trivial, (h.messages m hm).comment⟩
  · exact forall_mem_unless fun _ => ⟨(hsignal hm hs).name, (hsignal hm hs).comment⟩
  · split_ifs with hdefault
    · simpa using ⟨h.definitions d hd, hdefault⟩
    · simp
  · exact writable_valueLines .database trivial h.attributes
  · exact writable_valueLines (.node n.name) (h.nodes n hn).name (h.nodes n hn).attributes
  · exact writable_valueLines (.message m.id) trivial (h.messages m hm).attributes
  · exact writable_valueLines (.signal m.id s.name) (hsignal hm hs).name (hsignal hm hs).attributes
  · exact forall_mem_unless fun _ => ⟨(hsignal hm hs).name, (hsignal hm hs).descriptions⟩
  · exact forall_mem_unless fun hne => ⟨(hsignal hm hs).name, hne⟩
  · refine forall_mem_unless fun hne => ?_
    have hranges : s.multiplexRanges ≠ [] := fun hnil => hne (List.isEmpty_iff.2 hnil)
    have hmultiplexor := (hsignal hm hs).multiplexor fun hnil => hranges ((hsignal hm hs).named.2 hnil)
    exact ⟨(hsignal hm hs).name, hmultiplexor.1, hranges, (hsignal hm hs).ranges⟩

/-- **The lines of a database that can be written can be.** -/
theorem Writable.lines (h : Writable D db opt) :
    ∀ line ∈ linesOf db opt, WritableLine D db.attributeDefinitions line := by
  unfold linesOf
  simp only [List.forall_mem_append, List.forall_mem_map]
  exact ⟨⟨h.earlier, fun m hm => ⟨h.messages m hm, Database.validate_of_mem h.valid hm⟩⟩, h.later⟩

/-! ### The text of a database -/

omit [Scalar R] [Printed R] in
theorem isString_itemsText {items : List Item} (h : ∀ i ∈ items, i.Clean) :
    IsString (itemsText items) := by
  induction items with
  | nil => exact isString_ascii (by simp)
  | cons i items ih =>
    rw [itemsText_cons]
    exact (h i List.mem_cons_self).append (ih fun j hj => h j (List.mem_cons_of_mem _ hj))

omit [Scalar R] [Printed R] in
theorem convertNewlines_toCrlf {w : Text} (h : cr ∉ w) : convertNewlines (toCrlf w) = w := by
  induction w with
  | nil => rfl
  | cons c w ih =>
    obtain ⟨hc, hw⟩ := not_or.1 (mt List.mem_cons.2 h)
    have hcons : toCrlf (c :: w) = (if c = lf then [cr, c] else [c]) ++ toCrlf w :=
      List.flatMap_cons
    rw [hcons]
    split_ifs with hlf
    · rw [List.cons_append, List.cons_append, convertNewlines, if_pos rfl, if_pos hlf]
      rw [List.nil_append, ih hw, hlf]
    · rw [List.cons_append, List.nil_append, convertNewlines_cons (Ne.symm hc), ih hw]

omit [Scalar R] [Printed R] in
theorem isValidUtf8_toCrlf {w : Text} (h : isValidUtf8 w = true) :
    isValidUtf8 (toCrlf w) = true := by
  refine isValidUtf8_flatMap ?_ ?_ h
  · intro c hc d hd
    split_ifs at hd
    · rcases List.mem_cons.1 hd with rfl | hd
      · decide
      · rwa [List.mem_singleton.1 hd]
    · rwa [List.mem_singleton.1 hd]
  · have hnext : ∀ c : Byte, 0x80 ≤ c → ¬c = lf := by
      rintro c hc rfl
      exact absurd hc (by decide)
    exact fun c hc => if_neg (hnext c hc)

omit [Scalar R] [Printed R] in
/-- A text that `write_string` ends its lines of is normalised to what it was. -/
theorem normalise_written {w : Text} (hw : IsString w) (hhead : w.head? = some (ch 'V')) (crlf : Bool)
    (name : Text) :
    (Source.normalise (if crlf then toCrlf w else w) name).text = Source.ended w := by
  obtain ⟨rest, rfl⟩ : ∃ rest, w = ch 'V' :: rest := by
    cases w with
    | nil => cases hhead
    | cons c rest => exact ⟨rest, by rw [Option.some.inj hhead]⟩
  have hbom (bytes : Text) : (ch 'V' :: bytes).take 3 ≠ Source.bom := by
    intro h
    have hfirst : ch 'V' = 0xEF := (List.cons.inj h).1
    exact absurd hfirst (by decide)
  cases crlf with
  | false =>
    have hconvert := convertNewlines_append hw.noCr []
    rw [convertNewlines, List.append_nil] at hconvert
    rw [if_neg Bool.false_ne_true, Source.normalise_valid name (hbom rest) hw.valid, hconvert]
  | true =>
    have hcons : toCrlf (ch 'V' :: rest) = ch 'V' :: toCrlf rest := rfl
    rw [if_pos rfl, Source.normalise_valid name (by rw [hcons]; exact hbom _)
      (isValidUtf8_toCrlf hw.valid), convertNewlines_toCrlf hw.noCr]

/-- **What is written is read**: the tokens of the lines, and an end. -/
theorem tokenise_editedText (h : Writable D db opt) (e : Edit) (name : Text) :
    ∃ (tokens : List (Token R)) (t : Token R),
      tokenise (Source.normalise (editedText db opt e) name) = (tokens ++ [t], []) ∧
        t.kind = .end ∧ Spells (lexemes true (itemsFrom e 0 (linesOf db opt))) tokens := by
  obtain ⟨hspaced, hclean⟩ := laid_itemsFrom h.definitions h.lines e 0
  have hnormalised : (Source.normalise (editedText db opt e) name).text =
      Source.ended (itemsText (itemsFrom e 0 (linesOf db opt))) :=
    normalise_written (isString_itemsText hclean) rfl opt.crlf name
  generalize Source.normalise (editedText db opt e) name = source at hnormalised ⊢
  generalize itemsFrom e 0 (linesOf db opt) = items at hspaced hclean hnormalised ⊢
  unfold Source.ended at hnormalised
  split_ifs at hnormalised
  · have hnewline : Spaced [newline] := (laid_newline laid_nil).1
    have hspaced' := hspaced.append hnewline (.inr breaks_newline)
    have htext : source.text = itemsText (items ++ [newline]) := by
      rw [itemsText_append]
      exact hnormalised
    have hlexemes : lexemes true (items ++ [newline]) = lexemes true items := by
      rw [lexemes_append]
      exact List.append_nil _
    rw [← hlexemes]
    exact tokenise_items hspaced' htext
  · exact tokenise_items hspaced hnormalised

end

end Dbc
end Canforge
