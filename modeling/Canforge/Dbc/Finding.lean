/-
# What the lines find

Every line of a database finds what it needs in what was read in front of it
(`readyFrom_linesOf`).  A line behind the messages looks for names, identifiers and kinds of
definitions alone, and changes none of them (`Alike`).
-/

import Canforge.Dbc.Assembly

namespace Canforge
namespace Dbc

open Canforge.Core Text Lib

variable {R : Type} {db db' : Database R}

/-! ### What stays as it is -/

/-- What a line finds of a signal. -/
def signalOutline (s : Signal R) : Text × ℕ := (s.name, s.layout.bitLength)

/-- What a line finds of a message. -/
def messageOutline (m : Message R) : CanId × List (Text × ℕ) := (m.id, m.signals.map signalOutline)

/-- What a line finds of a definition. -/
def definitionOutline (d : AttributeDefinition R) : Text × AttributeType × List Text :=
  (d.name, Parser.Reads.kindOf d)

/-- Databases in which a line finds the same. -/
structure Alike (db db' : Database R) : Prop where
  nodes : db'.nodes.map (·.name) = db.nodes.map (·.name)
  messages : db'.messages.map messageOutline = db.messages.map messageOutline
  definitions : db'.attributeDefinitions.map definitionOutline =
    db.attributeDefinitions.map definitionOutline

namespace Alike

theorem refl (db : Database R) : Alike db db := ⟨rfl, rfl, rfl⟩

theorem trans {db₁ db₂ db₃ : Database R} (h : Alike db₁ db₂) (h' : Alike db₂ db₃) : Alike db₁ db₃ :=
  ⟨h'.nodes.trans h.nodes, h'.messages.trans h.messages, h'.definitions.trans h.definitions⟩

theorem changeNode {name : Text} {f : Node R → Node R} (hf : ∀ n, (f n).name = n.name) :
    Alike db (changeNode name f db) := ⟨map_changeFirst hf, rfl, rfl⟩

theorem changeMessage {id : CanId} {f : Message R → Message R}
    (hf : ∀ m, messageOutline (f m) = messageOutline m) : Alike db (changeMessage id f db) :=
  ⟨rfl, map_changeFirst hf, rfl⟩

theorem changeSignal {id : CanId} {name : Text} {f : Signal R → Signal R}
    (hf : ∀ s, signalOutline (f s) = signalOutline s) : Alike db (changeSignal id name f db) :=
  changeMessage fun m => congrArg (Prod.mk m.id) (map_changeFirst hf)

theorem changeDefinition {name : Text} {f : AttributeDefinition R → AttributeDefinition R}
    (hf : ∀ d, definitionOutline (f d) = definitionOutline d) :
    Alike db (changeDefinition name f db) := ⟨rfl, rfl, map_changeFirst hf⟩

variable (h : Alike db db')
include h

theorem findNode (name : Text) :
    (Parser.findNode db' name).isSome = (Parser.findNode db name).isSome := by
  have hfind := map_find?_congr (q := fun n : Text => decide (n = name)) h.nodes
  have hsome := congrArg Option.isSome hfind
  rw [Option.isSome_map, Option.isSome_map] at hsome
  exact hsome

theorem findMessage (id : CanId) :
    (db'.findMessage id).map messageOutline = (db.findMessage id).map messageOutline :=
  map_find?_congr (q := fun m : CanId × List (Text × ℕ) => decide (m.1 = id)) h.messages

theorem findSignal (id : CanId) (name : Text) :
    (Parser.findSignal (db'.findMessage id) name).map signalOutline =
      (Parser.findSignal (db.findMessage id) name).map signalOutline := by
  have hmessage := h.findMessage id
  cases hm : db.findMessage id with
  | none =>
    rw [hm, Option.map_none, Option.map_eq_none_iff] at hmessage
    rw [hmessage]
  | some m =>
    rw [hm, Option.map_some, Option.map_eq_some_iff] at hmessage
    obtain ⟨m', hm', hm''⟩ := hmessage
    rw [hm']
    exact map_find?_congr (q := fun s : Text × ℕ => decide (s.1 = name)) (congrArg Prod.snd hm'')

theorem findDefinition (name : Text) :
    (db'.attributeDefinitions.find? (·.name = name)).map Parser.Reads.kindOf =
      (db.attributeDefinitions.find? (·.name = name)).map Parser.Reads.kindOf := by
  have hfind := map_find?_congr (q := fun d : Text × AttributeType × List Text => decide (d.1 = name))
    h.definitions
  have hkind := congrArg (Option.map Prod.snd) hfind
  rwa [Option.map_map, Option.map_map] at hkind

theorem owner_in (owner : Owner) (hin : owner.In db) : owner.In db' := by
  cases owner with
  | database => trivial
  | node name => exact (h.findNode name).trans hin
  | message id =>
    have hfind := congrArg Option.isSome (h.findMessage id)
    rw [Option.isSome_map, Option.isSome_map] at hfind
    exact hfind.trans hin
  | signal id name =>
    have hfind := congrArg Option.isSome (h.findSignal id name)
    rw [Option.isSome_map, Option.isSome_map] at hfind
    exact hfind.trans hin

end Alike

/-! ### Lines that change nothing of it -/

variable [Scalar R] [Printed R] {definitions : List (AttributeDefinition R)}

/-- A line that is about what was read. -/
def Line.About : Line R → Prop
  | .nodes _ => False
  | .message _ => False
  | .definition _ => False
  | _ => True

/-- Such a line leaves what a line finds. -/
theorem Line.About.alike {line : Line R} (h : line.About) : Alike db (line.apply db) := by
  cases line with
  | nodes | message | definition => exact h.elim
  | version | newSymbols | bitTiming | valueTable | blank => exact ⟨rfl, rfl, rfl⟩
  | transmitters id names => exact Alike.changeMessage fun _ => rfl
  | comment owner text =>
    cases owner with
    | database => exact ⟨rfl, rfl, rfl⟩
    | node name => exact Alike.changeNode fun _ => rfl
    | message id => exact Alike.changeMessage fun _ => rfl
    | signal id name => exact Alike.changeSignal fun _ => rfl
  | default d => exact Alike.changeDefinition fun _ => rfl
  | value owner name v =>
    cases owner with
    | database => exact ⟨rfl, rfl, rfl⟩
    | node name => exact Alike.changeNode fun _ => rfl
    | message id => exact Alike.changeMessage fun _ => rfl
    | signal id name => exact Alike.changeSignal fun _ => rfl
  | valueDescriptions | valueType | ranges => exact Alike.changeSignal fun _ => rfl

omit [Scalar R] [Printed R] in
/-- It is ready wherever it finds the same. -/
theorem Line.About.ready {line : Line R} (hline : line.About) (h : Alike db db')
    (hready : line.Ready definitions db) : line.Ready definitions db' := by
  cases line with
  | nodes | message | definition => exact hline.elim
  | version | newSymbols | bitTiming | valueTable | blank => trivial
  | transmitters id names => exact h.owner_in (.message id) hready
  | comment owner text => exact h.owner_in owner hready
  | default d =>
    obtain ⟨d', hfind, hkind⟩ := hready
    have hsame := h.findDefinition d.name
    rw [hfind, Option.map_some, Option.map_eq_some_iff] at hsame
    obtain ⟨d'', hfind', hkind'⟩ := hsame
    exact ⟨d'', hfind', hkind'.trans hkind⟩
  | value owner name v => exact ⟨h.owner_in owner hready.1, (h.findDefinition name).trans hready.2⟩
  | valueDescriptions id name _ => exact h.owner_in (.signal id name) hready
  | valueType id name type =>
    obtain ⟨s, hfind, hwidth⟩ := hready
    have hsame := h.findSignal id name
    rw [hfind, Option.map_some, Option.map_eq_some_iff] at hsame
    obtain ⟨s', hfind', houtline⟩ := hsame
    have hlength : s'.layout.bitLength = s.layout.bitLength := congrArg Prod.snd houtline
    exact ⟨s', hfind', hlength ▸ hwidth⟩
  | ranges id name _ _ => exact h.owner_in (.signal id name) hready

/-- Lines about what was read leave what a line finds. -/
theorem alike_applyAll {lines : List (Line R)} (h : ∀ line ∈ lines, line.About) :
    Alike db (applyAll lines db) := by
  induction lines generalizing db with
  | nil => exact .refl db
  | cons line lines ih =>
    exact (h line List.mem_cons_self).alike.trans (ih fun l hl => h l (List.mem_cons_of_mem _ hl))

/-- They are ready one after the other. -/
theorem readyFrom_about {lines : List (Line R)} (h : ∀ line ∈ lines, line.About)
    (hready : ∀ line ∈ lines, line.Ready definitions db) (halike : Alike db db') :
    ReadyFrom definitions lines db' := by
  induction lines generalizing db' with
  | nil => trivial
  | cons line lines ih =>
    have hline := h line List.mem_cons_self
    exact ⟨hline.ready halike (hready line List.mem_cons_self),
      ih (fun l hl => h l (List.mem_cons_of_mem _ hl)) (fun l hl => hready l (List.mem_cons_of_mem _ hl))
        (halike.trans hline.alike)⟩

theorem readyFrom_append {a b : List (Line R)} :
    ReadyFrom definitions (a ++ b) db ↔
      ReadyFrom definitions a db ∧ ReadyFrom definitions b (applyAll a db) := by
  induction a generalizing db with
  | nil => simp [ReadyFrom]
  | cons line a ih => rw [List.cons_append, ReadyFrom, ReadyFrom, ih, applyAll_cons, and_assoc]

/-- Lines that need nothing. -/
theorem readyFrom_of_forall {lines : List (Line R)}
    (h : ∀ line ∈ lines, ∀ db, line.Ready definitions db) : ReadyFrom definitions lines db := by
  induction lines generalizing db with
  | nil => trivial
  | cons line lines ih =>
    exact ⟨h line List.mem_cons_self db, ih fun l hl => h l (List.mem_cons_of_mem _ hl)⟩

/-- Definitions of different names. -/
theorem readyFrom_definitions {ds : List (AttributeDefinition R)}
    (h : ((db.attributeDefinitions ++ ds).map (·.name)).Nodup) :
    ReadyFrom definitions (ds.map .definition) db := by
  induction ds generalizing db with
  | nil => trivial
  | cons d ds ih =>
    refine ⟨List.find?_eq_none.2 fun b hb => ?_, ih ?_⟩
    · rw [List.map_append, List.nodup_append] at h
      simpa using h.2.2 _ (List.mem_map_of_mem hb) _ (List.mem_map_of_mem List.mem_cons_self)
    · simpa [Line.apply, definitionHead_name] using h

/-! ### The lines of a database -/

section

variable {m : Message R} {s : Signal R}

omit [Scalar R] [Printed R] in
theorem in_node {n : Node R} (hn : n ∈ db.nodes) : Owner.In db (.node n.name) := by
  have hfind : (Parser.findNode db n.name).isSome = true := by
    unfold Parser.findNode
    rw [List.find?_isSome]
    exact ⟨n, hn, decide_eq_true rfl⟩
  exact hfind

omit [Scalar R] [Printed R] in
theorem in_message (hm : m ∈ db.messages) : Owner.In db (.message m.id) := by
  have hfind : (db.findMessage m.id).isSome = true := by
    unfold Database.findMessage
    rw [List.find?_isSome]
    exact ⟨m, hm, decide_eq_true rfl⟩
  exact hfind

omit [Scalar R] [Printed R] in
theorem findSignal_of_mem (hids : (db.messages.map (·.id)).Nodup) (hm : m ∈ db.messages)
    (hnames : (m.signals.map (·.name)).Nodup) (hs : s ∈ m.signals) :
    Parser.findSignal (db.findMessage m.id) s.name = some s := by
  have hmessage : db.findMessage m.id = some m := find?_of_nodup hids hm
  rw [hmessage]
  exact find?_of_nodup hnames hs

end

/-- The lines between the messages and the definitions. -/
def remarkLines (db : Database R) : List (Line R) :=
  (db.messages.flatMap fun m => if m.additionalTransmitters.isEmpty then []
    else [.transmitters m.id m.additionalTransmitters]) ++
  (if db.comment.isEmpty then [] else [.comment .database db.comment]) ++
  (db.nodes.flatMap fun n => if n.comment.isEmpty then [] else [.comment (.node n.name) n.comment]) ++
  db.messages.flatMap commentLines

/-- The lines behind the definitions. -/
def settingLines (db : Database R) : List (Line R) :=
  (db.attributeDefinitions.flatMap fun d => if d.hasDefault then [.default d] else []) ++
  valueLines .database db.attributes ++
  (db.nodes.flatMap fun n => valueLines (.node n.name) n.attributes) ++
  db.messages.flatMap messageValueLines ++
  (db.messages.flatMap fun m => m.signals.flatMap fun s =>
    if s.valueDescriptions.isEmpty then []
    else [.valueDescriptions m.id s.name s.valueDescriptions]) ++
  (db.messages.flatMap fun m => m.signals.flatMap fun s =>
    if s.layout.valueType = .integer then [] else [.valueType m.id s.name s.layout.valueType]) ++
  db.messages.flatMap fun m => m.signals.flatMap fun s =>
    if s.multiplexRanges.isEmpty then []
    else [.ranges m.id s.name s.multiplexorName s.multiplexRanges]

omit [Scalar R] [Printed R] in
theorem laterLines_eq (db : Database R) : laterLines db =
    remarkLines db ++ (db.attributeDefinitions.map .definition ++ settingLines db) := by
  unfold laterLines remarkLines settingLines
  simp only [List.append_assoc]

omit [Scalar R] [Printed R] in
theorem remarkLines_ready (h : ∀ m ∈ db.messages, RereadableMessage m)
    (hids : (db.messages.map (·.id)).Nodup) :
    ∀ line ∈ remarkLines db, line.About ∧
      line.Ready definitions { db with attributeDefinitions := [] } := by
  unfold remarkLines commentLines
  simp only [List.forall_mem_append, List.forall_mem_flatMap, and_assoc]
  refine ⟨fun m hm => ?_, ?_, fun n hn => ?_, fun m hm => ⟨?_, fun s hs => ?_⟩⟩
  · exact forall_mem_unless fun _ => ⟨trivial, in_message hm⟩
  · exact forall_mem_unless fun _ => ⟨trivial, trivial⟩
  · exact forall_mem_unless fun _ => ⟨trivial, in_node hn⟩
  · exact forall_mem_unless fun _ => ⟨trivial, in_message hm⟩
  · exact forall_mem_unless fun _ => ⟨trivial,
      Option.isSome_iff_exists.2 ⟨s, findSignal_of_mem hids hm (h m hm).names hs⟩⟩

omit [Scalar R] [Printed R] in
theorem settingLines_ready {opt : WriteOptions} (h : Rereadable db opt) :
    ∀ line ∈ settingLines db, line.About ∧ line.Ready db.attributeDefinitions db := by
  have hsignal {m : Message R} (hm : m ∈ db.messages) {s : Signal R} (hs : s ∈ m.signals) :=
    findSignal_of_mem h.ids hm (h.messages m hm).names hs
  have hin {m : Message R} (hm : m ∈ db.messages) {s : Signal R} (hs : s ∈ m.signals) :
      Owner.In db (.signal m.id s.name) := Option.isSome_iff_exists.2 ⟨s, hsignal hm hs⟩
  have hvalues {owner : Owner} (hin : owner.In db) (map : AttributeMap R) :
      ∀ line ∈ valueLines owner map, line.About ∧ line.Ready db.attributeDefinitions db := by
    intro line hline
    obtain ⟨a, ha, rfl⟩ := List.mem_map.1 hline
    exact ⟨trivial, hin, rfl⟩
  unfold settingLines messageValueLines
  simp only [List.forall_mem_append, List.forall_mem_flatMap, and_assoc]
  refine ⟨fun d hd => ?_, @hvalues .database trivial _,
    fun n hn => hvalues (in_node hn) _,
    fun m hm => ⟨hvalues (in_message hm) _, fun s hs => hvalues (hin hm hs) _⟩, fun m hm s hs => ?_,
    fun m hm s hs => ?_, fun m hm s hs => ?_⟩
  · split_ifs with hdefault
    · simpa using ⟨trivial, d, find?_of_nodup h.definitionNames hd, rfl⟩
    · simp
  · exact forall_mem_unless fun _ => ⟨trivial, hin hm hs⟩
  · have hwidth := ((h.messages m hm).signals s hs).width
    exact forall_mem_unless fun _ => ⟨trivial, s, hsignal hm hs, hwidth.1, hwidth.2⟩
  · exact forall_mem_unless fun _ => ⟨trivial, hin hm hs⟩

/-- The head of a definition has its kind. -/
theorem kindOf_definitionHead {d : AttributeDefinition R} (h : d.type ≠ .enum → d.enumValues = []) :
    Parser.Reads.kindOf (definitionHead d) = Parser.Reads.kindOf d := by
  unfold definitionHead Parser.Reads.kindOf
  cases htype : d.type with
  | enum => rfl
  | _ => rw [h (by rw [htype]; decide)]

/-- **Every line of a database finds what it needs.** -/
theorem readyFrom_linesOf {opt : WriteOptions} (h : Rereadable db opt) :
    ReadyFrom db.attributeDefinitions (linesOf db opt) {} := by
  have hstart : Alike { db with attributeDefinitions := [] } (upToMessages db) := by
    refine ⟨?_, ?_, rfl⟩
    · simp [upToMessages, readSoFar]
    · simp only [upToMessages, readSoFar, List.map_map]
      refine List.map_congr_left fun m hm => ?_
      simp only [Function.comp_apply, messageOutline, messageHead, List.map_map]
      rfl
  have hremarks : ∀ line ∈ remarkLines db, line.About ∧
      line.Ready db.attributeDefinitions { db with attributeDefinitions := [] } :=
    remarkLines_ready h.messages h.ids
  have hafter : Alike (upToMessages db) (applyAll (remarkLines db) (upToMessages db)) :=
    alike_applyAll fun line hline => (hremarks line hline).1
  have hnone : (applyAll (remarkLines db) (upToMessages db)).attributeDefinitions = [] := by
    have houtline := hafter.definitions
    exact List.map_eq_nil_iff.1 houtline
  have hdefinitions : applyAll (db.attributeDefinitions.map .definition)
      (applyAll (remarkLines db) (upToMessages db)) = { applyAll (remarkLines db) (upToMessages db) with
        attributeDefinitions := db.attributeDefinitions.map definitionHead } := by
    refine (applyAll_append_each (p := fun db ds => { db with attributeDefinitions := ds })
      (fun _ _ => rfl) (fun _ _ => rfl) (fun _ _ _ => rfl) (fun _ => rfl)
      db.attributeDefinitions).trans ?_
    rw [hnone, List.nil_append]
  have halike : Alike db (applyAll (db.attributeDefinitions.map .definition)
      (applyAll (remarkLines db) (upToMessages db))) := by
    rw [hdefinitions]
    refine ⟨(hstart.trans hafter).nodes, (hstart.trans hafter).messages, ?_⟩
    simp only [List.map_map]
    refine List.map_congr_left fun d hd => ?_
    exact congrArg₂ Prod.mk (definitionHead_name d) (kindOf_definitionHead (h.noValues d hd))
  have hearlier : ReadyFrom db.attributeDefinitions (earlierLines db opt) {} := by
    unfold earlierLines
    rw [readyFrom_append, readyFrom_append]
    refine ⟨⟨⟨trivial, trivial, trivial, rfl, trivial⟩, readyFrom_of_forall ?_⟩,
      readyFrom_of_forall ?_⟩
    · simp [Line.Ready]
    · split_ifs <;> simp [Line.Ready]
  unfold linesOf
  rw [readyFrom_append, applyAll_upToMessages h, readyFrom_append, laterLines_eq, readyFrom_append,
    readyFrom_append]
  refine ⟨⟨hearlier, readyFrom_of_forall (by simp [Line.Ready])⟩, ?_, ?_, ?_⟩
  · exact readyFrom_about (fun line hline => (hremarks line hline).1)
      (fun line hline => (hremarks line hline).2) hstart
  · exact readyFrom_definitions (by rw [hnone]; exact h.definitionNames)
  · have hsettings := settingLines_ready h
    exact readyFrom_about (fun line hline => (hsettings line hline).1)
      (fun line hline => (hsettings line hline).2) halike

end Dbc
end Canforge
