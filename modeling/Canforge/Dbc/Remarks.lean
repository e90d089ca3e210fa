/-
# What is read of the statements behind the messages

The rules of the statements about messages, signals and nodes that were read, and of attributes,
and one rule for every line (`Line.reads`).
-/

import Canforge.Dbc.Sections

namespace Canforge
namespace Dbc

open Canforge.Core Text Lib Reporting

variable {R : Type}

namespace Parser
namespace Reads

variable [Scalar R] [Printed R] {N : Token R → Prop} {db result : Database R} {first : Bool}
  {e : Edit} {i : ℕ} {D : Printing R} {definitions : List (AttributeDefinition R)}

/-! ### What is said of messages and nodes -/

/-- More transmitters. -/
theorem transmitters {id : CanId} {names : List Text} (hnames : ∀ n ∈ names, IsName n)
    (hne : names ≠ []) (hin : (db.findMessage id).isSome) :
    Reads Behind (parseMessageTransmitters : ParserM R Unit)
      (lexemes first ((Line.transmitters id names : Line R).items e i)) db
      fun _ db' => db' = (Line.transmitters id names).apply db := by
  obtain ⟨m, hm⟩ := Option.isSome_iff_exists.1 hin
  unfold parseMessageTransmitters Line.items
  simp only [List.cons_append, List.nil_append]
  refine keyword fun _ _ => ?_
  rw [lexemes_space]
  refine unsigned fun rawId hid => ?_
  rw [lexemes_space]
  refine expected (by decide) fun _ => ?_
  refine identified hid ?_
  rw [lexemes_append]
  refine (parseNameList hne fun _ => lexemes_space).bind (ahead_closed _ ?_ ?_) ?_
  · intro t hkind
    rw [hkind]
    decide
  · exact fun t ht => ht.ne (by decide) (by decide)
  rintro r db₁ ⟨rfl, rfl⟩
  refine closed _ fun _ => findMessage ?_
  rw [hm, foldl_pushName names (fun n hn => (hnames n hn).some), List.nil_append]
  exact (modifyDb _).any

omit [Printed R] in
theorem finishComment {text : Text} (deleted : Bool) :
    Reads Behind (Parser.finishComment : ParserM R (Option Text))
      (lexemes first (str text :: semicolonItems deleted)) db
      fun r db' => r = some text ∧ db' = db := by
  unfold Parser.finishComment
  refine quotedString ?_
  exact closed _ fun _ => Reads.pure ⟨rfl, rfl⟩

omit [Printed R] in
theorem word_isWord {v w : Text} {location : SourceLocation} :
    ((Lexeme.word v).token location first : Token R).isWord w = decide (v = w) := rfl

omit [Printed R] in
theorem string_isWord {v w : Text} {location : SourceLocation} :
    ((Lexeme.string v).token location first : Token R).isWord w = false := rfl

/-- **A comment is read back.** -/
theorem comment {owner : Owner} {text : Text} (hin : owner.In db) :
    Reads Behind (parseComment : ParserM R Unit)
      (lexemes first ((Line.comment owner text : Line R).items e i)) db
      fun _ db' => db' = (Line.comment owner text).apply db := by
  unfold parseComment Line.items
  cases owner with
  | database =>
    unfold Owner.items
    simp only [List.cons_append, List.nil_append]
    refine keyword fun _ _ => ?_
    rw [lexemes_space]
    refine current fun location => ?_
    rw [string_isWord, string_isWord, string_isWord, string_isWord]
    simp only [if_neg Bool.false_ne_true]
    rw [← List.append_nil (lexemes _ _)]
    refine (finishComment _).bind (fun t ht => ht) ?_
    rintro r db₁ ⟨rfl, rfl⟩
    exact (modifyDb _).any
  | node name =>
    obtain ⟨n, hn⟩ := Option.isSome_iff_exists.1 hin
    unfold Owner.items
    simp only [List.cons_append, List.nil_append]
    refine keyword fun _ _ => ?_
    rw [lexemes_space]
    refine current fun location => ?_
    rw [word_isWord, if_pos (by decide)]
    unfold parseNodeComment
    refine keyword fun _ _ => ?_
    rw [lexemes_space]
    refine named ?_
    rw [lexemes_space]
    refine Reads.database ?_
    rw [hn, ← List.append_nil (lexemes _ _)]
    refine (finishComment _).bind (fun t ht => ht) ?_
    rintro r db₁ ⟨rfl, rfl⟩
    exact (modifyDb _).any
  | message id =>
    obtain ⟨m, hm⟩ := Option.isSome_iff_exists.1 hin
    unfold Owner.items
    simp only [List.cons_append, List.nil_append]
    refine keyword fun _ _ => ?_
    rw [lexemes_space]
    refine current fun location => ?_
    rw [word_isWord, if_neg (by decide), word_isWord, if_pos (by decide)]
    unfold parseMessageComment
    refine keyword fun _ _ => ?_
    rw [lexemes_space]
    refine unsigned fun rawId hid => ?_
    rw [lexemes_space]
    refine identified hid ?_
    refine findMessage ?_
    rw [hm, ← List.append_nil (lexemes _ _)]
    refine (finishComment _).bind (fun t ht => ht) ?_
    rintro r db₁ ⟨rfl, rfl⟩
    exact (modifyDb _).any
  | signal id name =>
    obtain ⟨s, hs⟩ := Option.isSome_iff_exists.1 hin
    unfold Owner.items
    simp only [List.cons_append, List.nil_append]
    refine keyword fun _ _ => ?_
    rw [lexemes_space]
    refine current fun location => ?_
    rw [word_isWord, if_neg (by decide), word_isWord, if_neg (by decide), word_isWord,
      if_pos (by decide)]
    unfold parseSignalComment
    refine keyword fun _ _ => ?_
    rw [lexemes_space]
    refine unsigned fun rawId hid => ?_
    rw [lexemes_space]
    refine named ?_
    rw [lexemes_space]
    refine identified hid ?_
    refine findMessage ?_
    rw [hs, ← List.append_nil (lexemes _ _)]
    refine (finishComment _).bind (fun t ht => ht) ?_
    rintro r db₁ ⟨rfl, rfl⟩
    exact modifySignal _

/-! ### Attributes -/

omit [Printed R] in
/-- The object of a definition. -/
theorem objectKeyword {object : AttributeObject} :
    Reads (fun t => t.kind ≠ .identifier) (parseObjectKeyword false : ParserM R AttributeObject)
      (lexemes first (objectItems object)) db fun r db' => r = object ∧ db' = db := by
  unfold parseObjectKeyword
  have hword (v : Text) (location : SourceLocation) (f : Bool) :
      ((Lexeme.word v).token location f : Token R).text = v := rfl
  cases object with
  | database =>
    refine current_behind fun t ht => ?_
    rw [if_pos ht]
    exact Reads.pure ⟨rfl, rfl⟩
  | node =>
    refine current fun location => ?_
    rw [if_neg (by simp [Lexeme.kind]), hword, if_pos rfl]
    refine keyword fun _ _ => ?_
    exact Reads.pure ⟨rfl, rfl⟩
  | message =>
    refine current fun location => ?_
    rw [if_neg (by simp [Lexeme.kind]), hword, if_neg (by decide), if_pos rfl]
    refine keyword fun _ _ => ?_
    exact Reads.pure ⟨rfl, rfl⟩
  | signal =>
    refine current fun location => ?_
    rw [if_neg (by simp [Lexeme.kind]), hword, if_neg (by decide), if_neg (by decide), if_pos rfl]
    refine keyword fun _ _ => ?_
    exact Reads.pure ⟨rfl, rfl⟩
  | envVar =>
    refine current fun location => ?_
    rw [if_neg (by simp [Lexeme.kind]), hword, if_neg (by decide), if_neg (by decide),
      if_neg (by decide), if_pos rfl]
    refine keyword fun _ _ => ?_
    exact Reads.pure ⟨rfl, rfl⟩

/-- The bounds of an attribute of numbers. -/
theorem bounds {d : AttributeDefinition R} {low high : R} (hlow : Finite D low)
    (hhigh : Finite D high) :
    Reads Any (parseBounds d) (lexemes first (boundItems low high)) db fun r db' =>
      r = some { d with minimum := readBack low, maximum := readBack high } ∧ db' = db := by
  unfold parseBounds boundItems
  rw [lexemes_space, lexemes_append, lexemes_space]
  refine (number hlow).next ?_
  rintro r db₁ ⟨⟨minimum, rfl, hminimum⟩, rfl⟩
  dsimp only
  rw [← List.append_nil (lexemes _ _)]
  refine (number hhigh).next ?_
  rintro r db₂ ⟨⟨maximum, rfl, hmaximum⟩, rfl⟩
  dsimp only
  rw [hminimum, hmaximum]
  exact Reads.pure ⟨rfl, rfl⟩

/-- The type of a definition and what follows it. -/
theorem attributeType {keyword : Token R} {d : AttributeDefinition R} (hd : WritableDefinition D d) :
    Reads (fun t => t.kind ≠ .comma ∧ t.kind ≠ .string)
      (parseAttributeType keyword
        { name := d.name, object := d.object, minimum := Scalar.lit 0, maximum := Scalar.lit 0,
          defaultValue := AttributeValue.empty })
      (lexemes first (word (typeText d.type) :: boundsItems d)) db
      fun r db' => r = some (definitionHead d) ∧ db' = db := by
  unfold parseAttributeType boundsItems definitionHead
  refine advance.step ?_
  rintro t db₁ ⟨⟨location, rfl⟩, rfl⟩
  have hword : ((Lexeme.word (typeText d.type)).token location first : Token R).text =
      typeText d.type := rfl
  dsimp only
  rw [hword]
  cases d.type with
  | int =>
    rw [if_pos (by decide)]
    exact (bounds hd.minimum.floor hd.maximum.floor).any
  | hex =>
    rw [if_neg (by decide), if_pos (by decide)]
    exact (bounds hd.minimum.floor hd.maximum.floor).any
  | float =>
    rw [if_neg (by decide), if_neg (by decide), if_pos (by decide)]
    exact (bounds hd.minimum hd.maximum).any
  | string =>
    rw [if_neg (by decide), if_neg (by decide), if_neg (by decide), if_pos (by decide)]
    exact Reads.pure ⟨rfl, rfl⟩
  | enum =>
    rw [if_neg (by decide), if_neg (by decide), if_neg (by decide), if_neg (by decide), if_pos (by decide)]
    dsimp only
    rw [← List.append_nil (lexemes _ _)]
    refine (parseEnum d.enumValues).bind (fun t ht => ht) ?_
    rintro values db₂ ⟨rfl, rfl⟩
    exact Reads.pure ⟨rfl, rfl⟩

/-- **A definition is read back.** -/
theorem definition {d : AttributeDefinition R} (hd : WritableDefinition D d)
    (hnew : db.attributeDefinitions.find? (·.name = d.name) = none) :
    Reads Behind (parseAttributeDefinition false : ParserM R Unit)
      (lexemes first ((Line.definition d).items e i)) db
      fun _ db' => db' = (Line.definition d).apply db := by
  unfold parseAttributeDefinition Line.items
  simp only [List.cons_append, List.nil_append, List.append_assoc]
  refine advance.step ?_
  rintro t db₁ ⟨-, rfl⟩
  rw [lexemes_space, lexemes_append]
  refine objectKeyword.bind (fun location => TokenKind.noConfusion) ?_
  rintro object db₂ ⟨rfl, rfl⟩
  refine quotedString ?_
  dsimp only
  rw [lexemes_space]
  refine current fun location => ?_
  rw [if_neg (by simp [Lexeme.kind]), lexemes_append, ← List.cons_append]
  refine (attributeType hd).bind (ahead_closed _ ?_ ?_) ?_
  · rintro t hkind
    rw [hkind]
    decide
  · exact fun t ht => ⟨ht.ne (by decide) (by decide), ht.ne (by decide) (by decide)⟩
  rintro r db₃ ⟨rfl, rfl⟩
  dsimp only
  refine closed _ fun _ => findAttributeDefinition ?_
  rw [hnew]
  exact (modifyDb _).any

/-- **A default is read back.** -/
theorem default {d d' : AttributeDefinition R} (hd : WritableDefinition D d)
    (hdefault : d.hasDefault = true) (hkind : kindOf d' = kindOf d)
    (hfind : db.attributeDefinitions.find? (·.name = d.name) = some d') :
    Reads Behind (parseAttributeDefault : ParserM R Unit)
      (lexemes first ((Line.default d).items e i)) db
      fun _ db' => db' = (Line.default d).apply db := by
  unfold parseAttributeDefault Line.items
  simp only [List.cons_append, List.nil_append]
  refine keyword fun _ _ => ?_
  rw [lexemes_space]
  refine quotedString ?_
  rw [lexemes_space]
  refine findAttributeDefinition ?_
  rw [hfind, lexemes_append]
  refine (parseAttributeLiteral_default hkind (hd.default hdefault)).next ?_
  rintro v db₁ ⟨rfl, rfl⟩
  exact closed _ fun _ => (modifyDb _).any

omit [Printed R] in
/-- The object of a value is found. -/
theorem target {owner : Owner} (hin : owner.In db) :
    Reads (fun t => t.kind ≠ .identifier) (parseTarget : ParserM R (Option Target))
      (lexemes first owner.items) db fun r db' => r = some owner.target ∧ db' = db := by
  have hword (v : Text) (location : SourceLocation) (f : Bool) :
      ((Lexeme.word v).token location f : Token R).text = v := rfl
  unfold parseTarget Owner.items
  cases owner with
  | database =>
    refine current_behind fun t ht => ?_
    rw [if_pos ht]
    exact Reads.pure ⟨rfl, rfl⟩
  | node name =>
    obtain ⟨n, hn⟩ := Option.isSome_iff_exists.1 hin
    refine current fun location => ?_
    rw [if_neg (by simp [Lexeme.kind]), hword, if_pos rfl]
    refine keyword fun _ _ => ?_
    rw [lexemes_space]
    refine named ?_
    refine Reads.database ?_
    rw [hn]
    exact Reads.pure ⟨rfl, rfl⟩
  | message id =>
    obtain ⟨m, hm⟩ := Option.isSome_iff_exists.1 hin
    refine current fun location => ?_
    rw [if_neg (by simp [Lexeme.kind]), hword, if_neg (by decide), if_pos rfl]
    refine keyword fun _ _ => ?_
    rw [lexemes_space]
    refine unsigned fun rawId hid => ?_
    refine identified hid ?_
    refine findMessage ?_
    rw [hm]
    exact Reads.pure ⟨rfl, rfl⟩
  | signal id name =>
    obtain ⟨s, hs⟩ := Option.isSome_iff_exists.1 hin
    refine current fun location => ?_
    rw [if_neg (by simp [Lexeme.kind]), hword, if_neg (by decide), if_neg (by decide), if_pos rfl]
    refine keyword fun _ _ => ?_
    rw [lexemes_space]
    refine unsigned fun rawId hid => ?_
    rw [lexemes_space]
    refine named ?_
    refine identified hid ?_
    refine findMessage ?_
    rw [hs]
    exact Reads.pure ⟨rfl, rfl⟩

/-- The token in front of a value is no word. -/
theorem ahead_literal {d : Option (AttributeDefinition R)} {v : AttributeValue R}
    (hv : WritableValue D d v) (ls : List (Lexeme × Bool)) :
    Ahead (fun t : Token R => t.kind ≠ .identifier) (lexemes first (literalItems v false) ++ ls) N := by
  have hnumber {x : R} (hx : Finite D x) : Ahead (fun t : Token R => t.kind ≠ .identifier)
      (lexemes first (numberItems (formatNumber x)) ++ ls) N := by
    obtain ⟨q, hq⟩ := hx
    exact (ahead_number (D.signedText_formatNumber hq) ls).mono fun t ht => ht.2
  have hof : WritableOf D (d.elim [] (·.enumValues)) v := by
    cases d with
    | none => exact hv.2
    | some d => exact hv.2
  unfold WritableOf at hof
  unfold literalItems
  cases htype : v.type with
  | int =>
    rw [htype] at hof
    exact hnumber hof.1.finite.floor
  | hex =>
    rw [htype] at hof
    exact hnumber hof.1.finite.floor
  | float =>
    rw [htype] at hof
    exact hnumber hof.1
  | string => exact fun location => TokenKind.noConfusion
  | enum =>
    rw [htype] at hof
    obtain ⟨i, -, -, hi⟩ := hof
    exact hnumber ⟨_, hi⟩

/-- **The value of an attribute is read back.** -/
theorem value {owner : Owner} {name : Text} {v : AttributeValue R}
    (hv : WritableValue D (definitions.find? (·.name = name)) v)
    (hkind : (db.attributeDefinitions.find? (·.name = name)).map kindOf =
      (definitions.find? (·.name = name)).map kindOf) (hin : owner.In db) :
    Reads Behind (parseAttributeValue : ParserM R Unit)
      (lexemes first ((Line.value owner name v).items e i)) db
      fun _ db' => db' = (Line.value owner name v).apply db := by
  unfold parseAttributeValue Line.items
  simp only [List.cons_append, List.nil_append, List.append_assoc]
  refine advance.step ?_
  rintro t db₁ ⟨-, rfl⟩
  rw [lexemes_space]
  refine quotedString ?_
  rw [lexemes_space]
  refine findAttributeDefinition ?_
  rw [lexemes_append]
  refine (target hin).bind ?_ ?_
  · rw [lexemes_append]
    exact ahead_literal hv _
  rintro r db₂ ⟨rfl, rfl⟩
  dsimp only
  rw [lexemes_append]
  refine (parseAttributeLiteral hkind hv).next ?_
  rintro v db₃ ⟨rfl, rfl⟩
  refine closed _ fun _ => ?_
  unfold assignAttribute Owner.target
  cases owner with
  | database => exact (modifyDb _).any
  | node name => exact modifyNode _
  | message id => exact modifyMessage _
  | signal id name => exact modifySignal _

/-! ### Signals once more -/

/-- **The descriptions of a signal are read back.** -/
theorem valueDescriptions {id : CanId} {name : Text} {values : List ValueDescription}
    (hvalues : ∀ v ∈ values, WritableDescription v) (hin : Owner.In db (.signal id name))
    (D : Printing R) :
    Reads Behind (parseValueDescriptions : ParserM R Unit)
      (lexemes first ((Line.valueDescriptions id name values : Line R).items e i)) db
      fun _ db' => db' = (Line.valueDescriptions id name values).apply db := by
  obtain ⟨s, hs⟩ := Option.isSome_iff_exists.1 hin
  unfold parseValueDescriptions Line.items
  simp only [List.cons_append, List.nil_append, List.append_assoc]
  refine keyword fun _ _ => ?_
  rw [lexemes_space]
  refine unsigned fun rawId hid => ?_
  rw [lexemes_space]
  refine named ?_
  rw [lexemes_append, lexemes_space]
  refine (parseDescriptions D hvalues).bind (ahead_closed _ ?_ ?_) ?_
  · rintro t hkind
    rw [hkind]
    decide
  · exact fun t ht => ⟨ht.ne (by decide) (by decide), ht.ne (by decide) (by decide)⟩
  rintro ⟨read, keys⟩ db₁ ⟨rfl, rfl⟩
  refine closed _ fun _ => identified hid (findMessage ?_)
  dsimp only
  rw [hs]
  refine (record _).next ?_
  rintro u db₂ rfl
  exact modifySignal _

/-- **The type of a signal's values is read back.** -/
theorem valueType {id : CanId} {name : Text} {type : ValueType} {s : Signal R}
    (hs : findSignal (db.findMessage id) name = some s) (hne : type ≠ .integer)
    (hwidth : (type = .float32 → s.layout.bitLength = 32) ∧ (type = .float64 → s.layout.bitLength = 64)) :
    Reads Behind (parseSignalValueType : ParserM R Unit)
      (lexemes first ((Line.valueType id name type : Line R).items e i)) db
      fun _ db' => db' = (Line.valueType id name type).apply db := by
  unfold parseSignalValueType Line.items
  simp only [List.cons_append, List.nil_append]
  refine keyword fun _ _ => ?_
  rw [lexemes_space]
  refine unsigned fun rawId hid => ?_
  rw [lexemes_space]
  refine named ?_
  rw [lexemes_space]
  refine matched (by decide) ?_
  rw [lexemes_space]
  refine unsigned fun kind hkind => ?_
  refine closed _ fun _ => identified hid (findMessage ?_)
  rw [hs]
  have hread : Reads Any (parseValueType kind s.layout) [] db fun r db' => r = some type ∧ db' = db := by
    unfold parseValueType
    rw [hkind, toNat_strtoull (by split_ifs <;> decide)]
    cases type with
    | integer => exact absurd rfl hne
    | float32 =>
      rw [if_pos rfl, if_neg (not_not.2 (hwidth.1 rfl))]
      exact Reads.pure ⟨rfl, rfl⟩
    | float64 =>
      rw [if_neg (by decide), if_neg (not_not.2 (hwidth.2 rfl))]
      exact Reads.pure ⟨rfl, rfl⟩
  refine hread.next ?_
  rintro r db₁ ⟨rfl, rfl⟩
  exact modifySignal _

/-- **The ranges of a signal are read back.** -/
theorem ranges {id : CanId} {name multiplexor : Text} {rs : List MuxRange} (hne : rs ≠ [])
    (hrs : ∀ r ∈ rs, r.low ≤ r.high) (hin : Owner.In db (.signal id name)) :
    Reads Behind (parseExtendedMultiplexing : ParserM R Unit)
      (lexemes first ((Line.ranges id name multiplexor rs : Line R).items e i)) db
      fun _ db' => db' = (Line.ranges id name multiplexor rs).apply db := by
  obtain ⟨s, hs⟩ := Option.isSome_iff_exists.1 hin
  unfold parseExtendedMultiplexing Line.items
  simp only [List.cons_append, List.nil_append]
  refine keyword fun _ _ => ?_
  rw [lexemes_space]
  refine unsigned fun rawId hid => ?_
  rw [lexemes_space]
  refine named ?_
  rw [lexemes_space]
  refine named ?_
  rw [lexemes_append]
  refine (parseRanges hne hrs).bind (ahead_closed _ ?_ ?_) ?_
  · rintro t hkind
    rw [hkind]
    decide
  · exact fun t ht => ht.ne (by decide) (by decide)
  rintro ⟨read, literals⟩ db₁ ⟨hread, rfl⟩
  refine closed _ fun _ => identified hid (findMessage ?_)
  dsimp only at hread ⊢
  rw [hs, hread]
  dsimp only
  have hchange : changeSignal id name ({ · with
      multiplexRole := if s.multiplexRole = .multiplexor ∨ s.multiplexRole = .both then .both
        else .multiplexed
      multiplexorName := multiplexor, multiplexRanges := rs }) db₁ =
      (Line.ranges id name multiplexor rs).apply db₁ :=
    changeSignal_congr fun s' hs' => by rw [Option.some.inj (hs'.symm.trans hs)]; rfl
  have hlast : Reads Behind (do
      Parser.record (.multiplexing rawId name literals)
      Parser.modifySignal id name ({ · with
        multiplexRole := if s.multiplexRole = .multiplexor ∨ s.multiplexRole = .both then .both
          else .multiplexed
        multiplexorName := multiplexor, multiplexRanges := rs })) [] db₁
      fun _ db' => db' = (Line.ranges id name multiplexor rs).apply db₁ := by
    refine (Reads.record _).next ?_
    rintro u db₂ rfl
    rw [← hchange]
    exact modifySignal _
  by_cases hnone : (findSignal (db₁.findMessage id) multiplexor).isNone = true
  · rw [if_pos hnone]
    refine (warn _ rawId _ _).next ?_
    rintro u db₂ rfl
    exact hlast
  · rw [if_neg hnone]
    exact hlast

end Reads
end Parser

/-! ### Lines -/

section

open Canforge.Dbc.Parser

variable {R : Type} [Scalar R] [Printed R]

/-- What a line finds in the database that has been read so far; `definitions` are those that its
values are typed by. -/
def Line.Ready (definitions : List (AttributeDefinition R)) (db : Database R) : Line R → Prop
  | .nodes _ => db.nodes = []
  | .transmitters id _ => Owner.In db (.message id)
  | .comment owner _ => owner.In db
  | .definition d => db.attributeDefinitions.find? (·.name = d.name) = none
  | .default d => ∃ d', db.attributeDefinitions.find? (·.name = d.name) = some d' ∧
      Reads.kindOf d' = Reads.kindOf d
  | .value owner name _ => owner.In db ∧
      (db.attributeDefinitions.find? (·.name = name)).map Reads.kindOf =
        (definitions.find? (·.name = name)).map Reads.kindOf
  | .valueDescriptions id name _ => Owner.In db (.signal id name)
  | .valueType id name type => ∃ s, findSignal (db.findMessage id) name = some s ∧
      (type = .float32 → s.layout.bitLength = 32) ∧ (type = .float64 → s.layout.bitLength = 64)
  | .ranges id name _ _ => Owner.In db (.signal id name)
  | _ => True

/-- What a line asks of the token behind it. -/
def Line.Asks (e : Edit) (N : Token R → Prop) : Line R → Prop
  | .newSymbols _ => ∀ t, N t → t.isWord (ascii "BS_") = true ∧ t.firstOnLine = true
  | .message m => (∀ t, N t → Behind t) ∧ Reads.Tolerates e m N
  | _ => ∀ t, N t → Behind t

variable {D : Printing R} {definitions : List (AttributeDefinition R)} {N : Token R → Prop}
  {db : Database R} {e : Edit} {i : ℕ}

/-- **A line is read back.** -/
theorem Line.reads {line : Line R} (hline : WritableLine D definitions line)
    (hready : line.Ready definitions db) (hasks : line.Asks e N) (hblank : line ≠ .blank) :
    Reads N (runRound ()) (lexemes true (line.items e i)) db
      fun r db' => r = ((), true) ∧ db' = (e.line line).apply db := by
  have behind {p : ParserM R Unit} {ls : List (Lexeme × Bool)} {result : Database R}
      (hN : ∀ t, N t → Behind t) (h : Reads Behind p ls db fun _ db' => db' = result) :
      Reads N p ls db fun _ db' => db' = result := h.mono hN fun _ _ => id
  cases line with
  | version text => exact Reads.statement (p := parseVersion) ⟨_, _, rfl, fun _ => rfl⟩ Reads.version.any
  | newSymbols symbols =>
    exact Reads.statement (p := parseNewSymbols) ⟨_, _, rfl, fun _ => rfl⟩
      ((Reads.newSymbols hline).mono hasks fun _ _ => id)
  | bitTiming timing =>
    exact Reads.statement (p := parseBitTiming) ⟨_, _, rfl, fun _ => rfl⟩
      (Reads.bitTiming.mono (fun t ht => (hasks t ht).ne (by decide) (by decide)) fun _ _ => id)
  | nodes names =>
    have hnew : ∀ n ∈ db.nodes, n.name ∉ names := by
      rw [show db.nodes = [] from hready]
      simp
    exact Reads.statement (p := parseNodes) ⟨_, _, rfl, fun _ => rfl⟩
      (behind hasks (Reads.nodes hline.1 hline.2 hnew))
  | valueTable t =>
    exact Reads.statement (p := parseValueTable) ⟨_, _, rfl, fun _ => rfl⟩
      (behind hasks (Reads.valueTable D hline))
  | blank => exact absurd rfl hblank
  | message m =>
    exact Reads.statement (p := parseMessage) ⟨_, _, rfl, fun _ => rfl⟩
      (Reads.message hline.1 hline.2 hasks.1 hasks.2)
  | transmitters id names =>
    exact Reads.statement (p := parseMessageTransmitters) ⟨_, _, rfl, fun _ => rfl⟩
      (behind hasks (Reads.transmitters hline.2 hline.1 hready))
  | comment owner text =>
    exact Reads.statement (p := parseComment) ⟨_, _, rfl, fun _ => rfl⟩ (behind hasks (Reads.comment hready))
  | definition d =>
    exact Reads.statement (p := parseAttributeDefinition false) ⟨_, _, rfl, fun _ => rfl⟩
      (behind hasks (Reads.definition hline hready))
  | default d =>
    obtain ⟨d', hfind, hkind⟩ := hready
    exact Reads.statement (p := parseAttributeDefault) ⟨_, _, rfl, fun _ => rfl⟩
      (behind hasks (Reads.default hline.1 hline.2 hkind hfind))
  | value owner name v =>
    exact Reads.statement (p := parseAttributeValue) ⟨_, _, rfl, fun _ => rfl⟩
      (behind hasks (Reads.value hline.2.2 hready.2 hready.1))
  | valueDescriptions id name values =>
    exact Reads.statement (p := parseValueDescriptions) ⟨_, _, rfl, fun _ => rfl⟩
      (behind hasks (Reads.valueDescriptions hline.2 hready D))
  | valueType id name type =>
    obtain ⟨s, hs, hwidth⟩ := hready
    exact Reads.statement (p := parseSignalValueType) ⟨_, _, rfl, fun _ => rfl⟩
      (behind hasks (Reads.valueType hs hline.2 hwidth))
  | ranges id name multiplexor rs =>
    exact Reads.statement (p := parseExtendedMultiplexing) ⟨_, _, rfl, fun _ => rfl⟩
      (behind hasks (Reads.ranges hline.2.2.1 hline.2.2.2 hready))

end

end Dbc
end Canforge
