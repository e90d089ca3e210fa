/-
# The database that the lines make

The lines of a database, one after the other, make of an empty database what is reread of it
(`applyAll_linesOf`).  The identifiers and names in it are different (`Keyed`), so a block of lines
about its messages changes every message and every signal once (`applyAll_messages`).
-/

import Canforge.Dbc.Rereading

namespace Canforge
namespace Dbc

open Canforge.Core Text Lib

variable {R : Type} [Scalar R] [Printed R] {db : Database R}

/-! ### Blocks of lines -/

@[simp] theorem applyAll_nil : applyAll [] db = db := rfl

@[simp] theorem applyAll_cons (line : Line R) (lines : List (Line R)) :
    applyAll (line :: lines) db = applyAll lines (line.apply db) := rfl

theorem applyAll_append (a b : List (Line R)) :
    applyAll (a ++ b) db = applyAll b (applyAll a db) := List.foldl_append

theorem applyAll_flatMap {α : Type} (l : List α) (f : α → List (Line R)) :
    applyAll (l.flatMap f) db = l.foldl (fun db a => applyAll (f a) db) db := by
  induction l generalizing db with
  | nil => rfl
  | cons a l ih => rw [List.flatMap_cons, applyAll_append, ih, List.foldl_cons]

/-- A line that is written unless there is nothing to say. -/
theorem applyAll_unless {c : Prop} [Decidable c] (line : Line R) :
    applyAll (if c then [] else [line]) db = if c then db else line.apply db := by
  split_ifs <;> rfl

/-- Lines that each append to the database. -/
theorem applyAll_append_each {α β : Type} {line : α → Line R} {field : Database R → List β}
    {p : Database R → List β → Database R} {f : α → β}
    (hline : ∀ a db, (line a).apply db = p db (field db ++ [f a]))
    (hfield : ∀ db bs, field (p db bs) = bs) (hput : ∀ db bs cs, p (p db bs) cs = p db cs)
    (hself : ∀ db, p db (field db) = db) (l : List α) :
    applyAll (l.map line) db = p db (field db ++ l.map f) := by
  induction l generalizing db with
  | nil => rw [List.map_nil, List.map_nil, List.append_nil, hself, applyAll_nil]
  | cons a l ih =>
    rw [List.map_cons, applyAll_cons, ih, hline, hfield, hput, List.append_assoc]
    rfl

/-! ### Changes one after the other -/

omit [Scalar R] [Printed R] in
theorem changeMessage_changeMessage {id : CanId} {f g : Message R → Message R}
    (hg : ∀ m, (g m).id = m.id) :
    changeMessage id f (changeMessage id g db) = changeMessage id (f ∘ g) db := by
  unfold changeMessage
  dsimp only
  rw [changeFirst_changeFirst fun m hm => (hg m).trans hm]

omit [Scalar R] [Printed R] in
theorem changeMessage_self {id : CanId} {f : Message R → Message R} (hf : ∀ m, f m = m) :
    changeMessage id f db = db := by
  unfold changeMessage
  rw [changeFirst_self fun m _ _ => hf m]

omit [Scalar R] [Printed R] in
theorem changeSignal_self {id : CanId} {name : Text} {f : Signal R → Signal R}
    (hf : ∀ s, f s = s) : changeSignal id name f db = db := by
  refine changeMessage_self fun m => ?_
  unfold changeSignalOf
  rw [changeFirst_self fun s _ _ => hf s]

omit [Scalar R] [Printed R] in
theorem changeSignal_changeSignal {id : CanId} {name : Text} {f g : Signal R → Signal R}
    (hg : ∀ s, (g s).name = s.name) :
    changeSignal id name f (changeSignal id name g db) = changeSignal id name (f ∘ g) db := by
  have hid (m : Message R) : (changeSignalOf name g m).id = m.id := rfl
  refine (changeMessage_changeMessage hid).trans ?_
  unfold changeSignal
  congr 1
  funext m
  unfold changeSignalOf
  dsimp only [Function.comp_apply]
  rw [changeFirst_changeFirst fun s hs => (hg s).trans hs]

omit [Scalar R] [Printed R] in
theorem changeNode_changeNode {name : Text} {f g : Node R → Node R} (hg : ∀ n, (g n).name = n.name) :
    changeNode name f (changeNode name g db) = changeNode name (f ∘ g) db := by
  unfold changeNode
  dsimp only
  rw [changeFirst_changeFirst fun n hn => (hg n).trans hn]

omit [Scalar R] [Printed R] in
theorem changeNode_self {name : Text} {f : Node R → Node R} (hf : ∀ n, f n = n) :
    changeNode name f db = db := by
  unfold changeNode
  rw [changeFirst_self fun n _ _ => hf n]

omit [Scalar R] [Printed R] in
theorem changeDefinition_self {name : Text} {f : AttributeDefinition R → AttributeDefinition R}
    (hf : ∀ d, f d = d) : changeDefinition name f db = db := by
  unfold changeDefinition
  rw [changeFirst_self fun d _ _ => hf d]

/-- A message whose signals are changed, one after the other. -/
def changeEach (K : Signal R → Signal R → Signal R) (l : List (Signal R)) (m : Message R) :
    Message R :=
  { m with signals := l.foldl (fun ss s => changeFirst (·.name = s.name) (K s) ss) m.signals }

omit [Scalar R] [Printed R] in
theorem foldl_changeSignal {id : CanId} (l : List (Signal R)) (K : Signal R → Signal R → Signal R) :
    l.foldl (fun db s => changeSignal id s.name (K s) db) db = changeMessage id (changeEach K l) db := by
  induction l generalizing db with
  | nil => exact (changeMessage_self fun _ => rfl).symm
  | cons s l ih =>
    have hname : ∀ m, (changeSignalOf s.name (K s) m).id = m.id := fun _ => rfl
    rw [List.foldl_cons, ih, changeSignal, changeMessage_changeMessage hname]
    rfl

/-! ### Blocks -/

/-- Lines about the messages change every one of them once. -/
theorem applyAll_eachMessage {ms : List (Message R)} (hids : (ms.map (·.id)).Nodup)
    {F : Message R → Message R → Message R} {G : Message R → Message R}
    {B : Message R → List (Line R)}
    (hB : ∀ m db, applyAll (B m) db = changeMessage m.id (F m) db)
    (hF : ∀ m x, (F m x).id = x.id) (hG : ∀ m, (G m).id = m.id) (hdb : db.messages = ms.map G) :
    applyAll (ms.flatMap B) db = { db with messages := ms.map fun m => F m (G m) } := by
  have hfold (l : List (Message R)) (db : Database R) :
      l.foldl (fun db m => changeMessage m.id (F m) db) db = { db with
        messages := l.foldl (fun xs m => changeFirst (·.id = m.id) (F m) xs) db.messages } := by
    induction l generalizing db with
    | nil => rfl
    | cons m l ih => rw [List.foldl_cons, ih]; rfl
  rw [applyAll_flatMap]
  simp only [hB]
  rw [hfold, hdb, foldl_changeFirst hids hG hF]

/-- **A block of lines about the messages and their signals** changes every one of them once. -/
theorem applyAll_messages {ms : List (Message R)} (hids : (ms.map (·.id)).Nodup)
    (hnames : ∀ m ∈ ms, (m.signals.map (·.name)).Nodup) {F : Message R → Message R → Message R}
    {K : Signal R → Signal R → Signal R} {G : Message R → Message R} {H : Signal R → Signal R}
    {B : Message R → List (Line R)} {L : Message R → Signal R → List (Line R)}
    (hBm : ∀ m db, applyAll (B m) db = changeMessage m.id (F m) db)
    (hBs : ∀ m s db, applyAll (L m s) db = changeSignal m.id s.name (K s) db)
    (hF : ∀ m x, (F m x).id = x.id ∧ (F m x).signals = x.signals)
    (hK : ∀ s x, (K s x).name = x.name)
    (hG : ∀ m, (G m).id = m.id ∧ (G m).signals = m.signals.map H)
    (hH : ∀ s, (H s).name = s.name) (hdb : db.messages = ms.map G) :
    applyAll (ms.flatMap fun m => B m ++ m.signals.flatMap (L m)) db =
      { db with messages := ms.map fun m =>
        { F m (G m) with signals := m.signals.map fun s => K s (H s) } } := by
  have hblock (m : Message R) (db : Database R) :
      applyAll (B m ++ m.signals.flatMap (L m)) db =
        changeMessage m.id (changeEach K m.signals ∘ F m) db := by
    rw [applyAll_append, hBm, applyAll_flatMap]
    simp only [hBs]
    rw [foldl_changeSignal, changeMessage_changeMessage fun x => (hF m x).1]
  rw [applyAll_eachMessage hids hblock (fun m x => (hF m x).1) (fun m => (hG m).1) hdb]
  congr 1
  refine List.map_congr_left fun m hm => ?_
  unfold changeEach
  dsimp only [Function.comp_apply]
  rw [(hF m (G m)).2, (hG m).2, foldl_changeFirst (hnames m hm) hH hK]

/-- **A block of lines about the nodes** changes every one of them once. -/
theorem applyAll_nodes {ns : List (Node R)} (hnames : (ns.map (·.name)).Nodup)
    {F : Node R → Node R → Node R} {G : Node R → Node R} {B : Node R → List (Line R)}
    (hB : ∀ n db, applyAll (B n) db = changeNode n.name (F n) db)
    (hF : ∀ n x, (F n x).name = x.name) (hG : ∀ n, (G n).name = n.name)
    (hdb : db.nodes = ns.map G) :
    applyAll (ns.flatMap B) db = { db with nodes := ns.map fun n => F n (G n) } := by
  have hfold (l : List (Node R)) (db : Database R) :
      l.foldl (fun db n => changeNode n.name (F n) db) db = { db with
        nodes := l.foldl (fun xs n => changeFirst (·.name = n.name) (F n) xs) db.nodes } := by
    induction l generalizing db with
    | nil => rfl
    | cons n l ih => rw [List.foldl_cons, ih]; rfl
  rw [applyAll_flatMap]
  simp only [hB]
  rw [hfold, hdb, foldl_changeFirst hnames hG hF]

/-- **A block of lines about the definitions** changes every one of them once. -/
theorem applyAll_definitions {ds : List (AttributeDefinition R)} (hnames : (ds.map (·.name)).Nodup)
    {F : AttributeDefinition R → AttributeDefinition R → AttributeDefinition R}
    {G : AttributeDefinition R → AttributeDefinition R} {B : AttributeDefinition R → List (Line R)}
    (hB : ∀ d db, applyAll (B d) db = changeDefinition d.name (F d) db)
    (hF : ∀ d x, (F d x).name = x.name) (hG : ∀ d, (G d).name = d.name)
    (hdb : db.attributeDefinitions = ds.map G) :
    applyAll (ds.flatMap B) db = { db with attributeDefinitions := ds.map fun d => F d (G d) } := by
  have hfold (l : List (AttributeDefinition R)) (db : Database R) :
      l.foldl (fun db d => changeDefinition d.name (F d) db) db = { db with
        attributeDefinitions :=
          l.foldl (fun xs d => changeFirst (·.name = d.name) (F d) xs) db.attributeDefinitions } := by
    induction l generalizing db with
    | nil => rfl
    | cons d l ih => rw [List.foldl_cons, ih]; rfl
  rw [applyAll_flatMap]
  simp only [hB]
  rw [hfold, hdb, foldl_changeFirst hnames hG hF]

/-! ### Attributes -/

omit [Scalar R] [Printed R] in
theorem set_append {key : Text} {value : AttributeValue R} {map : AttributeMap R}
    (h : ∀ a ∈ map, a.1 < key) : AttributeMap.set key value map = map ++ [(key, value)] := by
  induction map with
  | nil => rfl
  | cons a map ih =>
    have ha : a.1 < key := h a List.mem_cons_self
    have hne : a.1 ≠ key := fun heq => List.lt_irrefl key (heq ▸ ha)
    rw [AttributeMap.set, if_neg hne, if_neg (List.lt_asymm ha),
      ih fun b hb => h b (List.mem_cons_of_mem _ hb), List.cons_append]

/-- The attributes that are read where some were written. -/
def rereadMap (map : AttributeMap R) : AttributeMap R :=
  map.map fun a => (a.1, rereadValue a.2)

/-- Attributes after others are read. -/
def setAll (map as : AttributeMap R) : AttributeMap R :=
  map.foldl (fun as a => AttributeMap.set a.1 (rereadValue a.2) as) as

/-- Attributes that are read in their order. -/
theorem setAll_nil {map : AttributeMap R} (h : (map.map (·.1)).Pairwise (· < ·)) :
    setAll map [] = rereadMap map := by
  have hfront (done rest : AttributeMap R) (h : ((done ++ rest).map (·.1)).Pairwise (· < ·)) :
      setAll rest (rereadMap done) = rereadMap (done ++ rest) := by
    unfold setAll
    induction rest generalizing done with
    | nil => simp
    | cons a rest ih =>
      have hlow : ∀ b ∈ rereadMap done, b.1 < a.1 := by
        intro b hb
        obtain ⟨c, hc, rfl⟩ := List.mem_map.1 hb
        rw [List.map_append, List.pairwise_append] at h
        exact h.2.2 _ (List.mem_map_of_mem hc) _ (List.mem_map_of_mem List.mem_cons_self)
      have hstep := ih (done ++ [a]) (by simpa using h)
      rw [List.foldl_cons, set_append hlow]
      simpa [rereadMap] using hstep
  exact hfront [] map h

omit [Scalar R] [Printed R] in
theorem changeAttributes_id (owner : Owner) : changeAttributes owner (fun as => as) db = db := by
  cases owner with
  | database => rfl
  | node name => exact changeNode_self fun _ => rfl
  | message id => exact changeMessage_self fun _ => rfl
  | signal id name => exact changeSignal_self fun _ => rfl

omit [Scalar R] [Printed R] in
theorem changeAttributes_changeAttributes (owner : Owner) {f g : AttributeMap R → AttributeMap R} :
    changeAttributes owner f (changeAttributes owner g db) = changeAttributes owner (f ∘ g) db := by
  cases owner with
  | database => rfl
  | node name =>
    have hname (n : Node R) : { n with attributes := g n.attributes }.name = n.name := rfl
    exact changeNode_changeNode hname
  | message id =>
    have hid (m : Message R) : { m with attributes := g m.attributes }.id = m.id := rfl
    exact changeMessage_changeMessage hid
  | signal id name =>
    have hname (s : Signal R) : { s with attributes := g s.attributes }.name = s.name := rfl
    exact changeSignal_changeSignal hname

/-- The lines of the attributes of an owner. -/
theorem applyAll_valueLines (owner : Owner) (map : AttributeMap R) :
    applyAll (valueLines owner map) db = changeAttributes owner (setAll map) db := by
  unfold valueLines setAll
  induction map generalizing db with
  | nil => exact (changeAttributes_id owner).symm
  | cons a map ih =>
    rw [List.map_cons, applyAll_cons, ih]
    exact changeAttributes_changeAttributes owner

/-! ### The database -/

/-- The signal that is read where one was written. -/
def rereadSignal (s : Signal R) : Signal R :=
  { s with layout := rereadLayout s.layout, attributes := rereadMap s.attributes }

/-- The message that is read where one was written. -/
def rereadMessage (m : Message R) : Message R :=
  { m with signals := m.signals.map rereadSignal, attributes := rereadMap m.attributes }

/-- The node that is read where one was written. -/
def rereadNode (n : Node R) : Node R := { n with attributes := rereadMap n.attributes }

/-- The definition that is read where one was written. -/
def rereadDefinition (d : AttributeDefinition R) : AttributeDefinition R :=
  { definitionHead d with
    defaultValue := if d.hasDefault then rereadDefault d else (definitionHead d).defaultValue,
    hasDefault := d.hasDefault }

/-- The database that is read where one was written. -/
def reread (db : Database R) : Database R :=
  { db with
    messages := db.messages.map rereadMessage,
    nodes := db.nodes.map rereadNode,
    attributeDefinitions := db.attributeDefinitions.map rereadDefinition,
    attributes := rereadMap db.attributes }

/-- The names of the attributes are in their order. -/
def Ordered (map : AttributeMap R) : Prop := (map.map (·.1)).Pairwise (· < ·)

/-- A signal that its lines make again. -/
structure RereadableSignal (s : Signal R) : Prop where
  attributes : Ordered s.attributes
  named : s.multiplexRanges = [] → s.multiplexorName = []
  role : s.multiplexRanges ≠ [] → s.multiplexRole = .multiplexed ∨ s.multiplexRole = .both
  width : (s.layout.valueType = .float32 → s.layout.bitLength = 32) ∧
    (s.layout.valueType = .float64 → s.layout.bitLength = 64)

/-- A message that its lines make again. -/
structure RereadableMessage (m : Message R) : Prop where
  isFd : m.isFd = decide (8 < m.dlc)
  names : (m.signals.map (·.name)).Nodup
  attributes : Ordered m.attributes
  signals : ∀ s ∈ m.signals, RereadableSignal s

/-- A database that its lines make again. -/
structure Rereadable (db : Database R) (opt : WriteOptions) : Prop where
  symbols : writtenSymbols db.newSymbols opt = db.newSymbols
  ids : (db.messages.map (·.id)).Nodup
  nodeNames : (db.nodes.map (·.name)).Nodup
  definitionNames : (db.attributeDefinitions.map (·.name)).Nodup
  noValues : ∀ d ∈ db.attributeDefinitions, d.type ≠ .enum → d.enumValues = []
  attributes : Ordered db.attributes
  nodes : ∀ n ∈ db.nodes, Ordered n.attributes
  messages : ∀ m ∈ db.messages, RereadableMessage m

theorem definitionHead_name (d : AttributeDefinition R) : (definitionHead d).name = d.name := by
  unfold definitionHead
  cases d.type <;> rfl

omit [Scalar R] [Printed R] in
/-- What is not written is empty. -/
theorem ite_isEmpty {α : Type} (l : List α) : (if l.isEmpty then [] else l) = l := by
  cases l <;> rfl

/-- The comments of the nodes. -/
theorem applyAll_nodeComments {ns : List (Node R)} (hnames : (ns.map (·.name)).Nodup)
    {G : Node R → Node R} (hdb : db.nodes = ns.map G)
    (hG : ∀ n, (G n).name = n.name ∧ (G n).comment = []) :
    applyAll (ns.flatMap fun n =>
      if n.comment.isEmpty then [] else [.comment (.node n.name) n.comment]) db =
      { db with nodes := ns.map fun n => { G n with comment := n.comment } } := by
  have hB (n : Node R) (db : Database R) :
      applyAll (if n.comment.isEmpty then [] else [.comment (.node n.name) n.comment]) db =
        changeNode n.name
          (fun x => { x with comment := if n.comment.isEmpty then x.comment else n.comment }) db := by
    rw [applyAll_unless]
    split_ifs
    · exact (changeNode_self fun _ => rfl).symm
    · rfl
  rw [applyAll_nodes hnames hB (fun _ _ => rfl) (fun n => (hG n).1) hdb]
  simp only [(hG _).2, ite_isEmpty]

/-- The attributes of the nodes. -/
theorem applyAll_nodeValues {ns : List (Node R)} (hnames : (ns.map (·.name)).Nodup)
    (hordered : ∀ n ∈ ns, Ordered n.attributes) {G : Node R → Node R} (hdb : db.nodes = ns.map G)
    (hG : ∀ n, (G n).name = n.name ∧ (G n).attributes = []) :
    applyAll (ns.flatMap fun n => valueLines (.node n.name) n.attributes) db =
      { db with nodes := ns.map fun n => { G n with attributes := rereadMap n.attributes } } := by
  have hB (n : Node R) (db : Database R) :
      applyAll (valueLines (.node n.name) n.attributes) db =
        changeNode n.name (fun x => { x with attributes := setAll n.attributes x.attributes }) db :=
    applyAll_valueLines _ _
  rw [applyAll_nodes hnames hB (fun _ _ => rfl) (fun n => (hG n).1) hdb]
  congr 1
  refine List.map_congr_left fun n hn => ?_
  rw [(hG n).2, setAll_nil (hordered n hn)]

/-- The defaults of the definitions. -/
theorem applyAll_defaults {ds : List (AttributeDefinition R)} (hnames : (ds.map (·.name)).Nodup)
    (hdb : db.attributeDefinitions = ds.map definitionHead) :
    applyAll (ds.flatMap fun d => if d.hasDefault then [.default d] else []) db =
      { db with attributeDefinitions := ds.map rereadDefinition } := by
  have hB (d : AttributeDefinition R) (db : Database R) :
      applyAll (if d.hasDefault then [.default d] else []) db =
        changeDefinition d.name (fun x => { x with
          defaultValue := if d.hasDefault then rereadDefault d else x.defaultValue,
          hasDefault := d.hasDefault || x.hasDefault }) db := by
    cases d.hasDefault with
    | false => exact (changeDefinition_self fun _ => rfl).symm
    | true => rfl
  have hhead (d : AttributeDefinition R) : (definitionHead d).hasDefault = false := by
    unfold definitionHead
    cases d.type <;> rfl
  rw [applyAll_definitions hnames hB (fun _ _ => rfl) definitionHead_name hdb]
  simp only [hhead, Bool.or_false]
  rfl

section

variable {ms : List (Message R)} (hids : (ms.map (·.id)).Nodup)
  (hms : ∀ m ∈ ms, RereadableMessage m) {G : Message R → Message R} {H : Signal R → Signal R}
  (hdb : db.messages = ms.map G) (hG : ∀ m, (G m).id = m.id ∧ (G m).signals = m.signals.map H)
  (hH : ∀ s, (H s).name = s.name)

include hids hdb hG in
/-- The transmitters of the messages. -/
theorem applyAll_transmitters (hGt : ∀ m, (G m).additionalTransmitters = []) :
    applyAll (ms.flatMap fun m => if m.additionalTransmitters.isEmpty then []
      else [.transmitters m.id m.additionalTransmitters]) db =
      { db with messages := ms.map fun m =>
        { G m with additionalTransmitters := m.additionalTransmitters } } := by
  have hB (m : Message R) (db : Database R) :
      applyAll (if m.additionalTransmitters.isEmpty then []
        else [.transmitters m.id m.additionalTransmitters]) db =
        changeMessage m.id (fun x => { x with
          additionalTransmitters := if m.additionalTransmitters.isEmpty
            then x.additionalTransmitters else m.additionalTransmitters }) db := by
    rw [applyAll_unless]
    split_ifs
    · exact (changeMessage_self fun _ => rfl).symm
    · rfl
  rw [applyAll_eachMessage hids hB (fun _ _ => rfl) (fun m => (hG m).1) hdb]
  simp only [hGt, ite_isEmpty]

include hids hms hdb hG hH

/-- The comments of the messages and the signals. -/
theorem applyAll_commentLines (hGc : ∀ m, (G m).comment = []) (hHc : ∀ s, (H s).comment = []) :
    applyAll (ms.flatMap commentLines) db = { db with messages := ms.map fun m =>
      { G m with comment := m.comment,
                 signals := m.signals.map fun s => { H s with comment := s.comment } } } := by
  have hBm (m : Message R) (db : Database R) :
      applyAll (if m.comment.isEmpty then [] else [.comment (.message m.id) m.comment]) db =
        changeMessage m.id
          (fun x => { x with comment := if m.comment.isEmpty then x.comment else m.comment }) db := by
    rw [applyAll_unless]
    split_ifs
    · exact (changeMessage_self fun _ => rfl).symm
    · rfl
  have hBs (m : Message R) (s : Signal R) (db : Database R) :
      applyAll (if s.comment.isEmpty then [] else [.comment (.signal m.id s.name) s.comment]) db =
        changeSignal m.id s.name
          (fun x => { x with comment := if s.comment.isEmpty then x.comment else s.comment }) db := by
    rw [applyAll_unless]
    split_ifs
    · exact (changeSignal_self fun _ => rfl).symm
    · rfl
  refine (applyAll_messages hids (fun m hm => (hms m hm).names) hBm hBs (fun _ _ => ⟨rfl, rfl⟩)
    (fun _ _ => rfl) hG hH hdb).trans ?_
  simp only [hGc, hHc, ite_isEmpty]

/-- The attributes of the messages and the signals. -/
theorem applyAll_messageValues (hGa : ∀ m, (G m).attributes = [])
    (hHa : ∀ s, (H s).attributes = []) :
    applyAll (ms.flatMap messageValueLines) db = { db with messages := ms.map fun m =>
      { G m with attributes := rereadMap m.attributes,
                 signals := m.signals.map fun s =>
                   { H s with attributes := rereadMap s.attributes } } } := by
  have hBm (m : Message R) (db : Database R) :
      applyAll (valueLines (.message m.id) m.attributes) db = changeMessage m.id
        (fun x => { x with attributes := setAll m.attributes x.attributes }) db :=
    applyAll_valueLines _ _
  have hBs (m : Message R) (s : Signal R) (db : Database R) :
      applyAll (valueLines (.signal m.id s.name) s.attributes) db = changeSignal m.id s.name
        (fun x => { x with attributes := setAll s.attributes x.attributes }) db :=
    applyAll_valueLines _ _
  refine (applyAll_messages hids (fun m hm => (hms m hm).names) hBm hBs (fun _ _ => ⟨rfl, rfl⟩)
    (fun _ _ => rfl) hG hH hdb).trans ?_
  congr 1
  refine List.map_congr_left fun m hm => ?_
  have hsignals : (m.signals.map fun s =>
      { H s with attributes := setAll s.attributes (H s).attributes }) =
      m.signals.map fun s => { H s with attributes := rereadMap s.attributes } := by
    refine List.map_congr_left fun s hs => ?_
    rw [hHa, setAll_nil ((hms m hm).signals s hs).attributes]
  rw [hGa, setAll_nil (hms m hm).attributes, hsignals]

/-- A block of lines about the signals alone. -/
theorem applyAll_onlySignals {K : Signal R → Signal R → Signal R}
    {B : Message R → Signal R → List (Line R)}
    (hB : ∀ m s db, applyAll (B m s) db = changeSignal m.id s.name (K s) db)
    (hK : ∀ s x, (K s x).name = x.name) :
    applyAll (ms.flatMap fun m => m.signals.flatMap (B m)) db =
      { db with messages := ms.map fun m =>
        { G m with signals := m.signals.map fun s => K s (H s) } } :=
  applyAll_messages (F := fun _ x => x) (B := fun _ => []) hids (fun m hm => (hms m hm).names)
    (fun _ _ => (changeMessage_self fun _ => rfl).symm) hB (fun _ _ => ⟨rfl, rfl⟩) hK hG hH hdb

/-- The descriptions of the signals. -/
theorem applyAll_valueDescriptions (hHv : ∀ s, (H s).valueDescriptions = []) :
    applyAll (ms.flatMap fun m => m.signals.flatMap fun s => if s.valueDescriptions.isEmpty then []
      else [.valueDescriptions m.id s.name s.valueDescriptions]) db =
      { db with messages := ms.map fun m => { G m with signals := m.signals.map fun s =>
        { H s with valueDescriptions := s.valueDescriptions } } } := by
  have hB (m : Message R) (s : Signal R) (db : Database R) :
      applyAll (if s.valueDescriptions.isEmpty then []
        else [.valueDescriptions m.id s.name s.valueDescriptions]) db =
        changeSignal m.id s.name (fun x => { x with
          valueDescriptions := if s.valueDescriptions.isEmpty then x.valueDescriptions
            else s.valueDescriptions }) db := by
    rw [applyAll_unless]
    split_ifs
    · exact (changeSignal_self fun _ => rfl).symm
    · rfl
  refine (applyAll_onlySignals hids hms hdb hG hH hB fun _ _ => rfl).trans ?_
  simp only [hHv, ite_isEmpty]

/-- The value types of the signals. -/
theorem applyAll_valueTypes (hHt : ∀ s, (H s).layout.valueType = .integer) :
    applyAll (ms.flatMap fun m => m.signals.flatMap fun s =>
      if s.layout.valueType = .integer then []
      else [.valueType m.id s.name s.layout.valueType]) db =
      { db with messages := ms.map fun m => { G m with signals := m.signals.map fun s =>
        { H s with layout := { (H s).layout with valueType := s.layout.valueType } } } } := by
  have hB (m : Message R) (s : Signal R) (db : Database R) :
      applyAll (if s.layout.valueType = .integer then []
        else [.valueType m.id s.name s.layout.valueType]) db =
        changeSignal m.id s.name (fun x => { x with
          layout := { x.layout with valueType := if s.layout.valueType = .integer
            then x.layout.valueType else s.layout.valueType } }) db := by
    rw [applyAll_unless]
    split_ifs
    · exact (changeSignal_self fun _ => rfl).symm
    · rfl
  have htype (t : ValueType) : (if t = .integer then .integer else t) = t := by
    cases t <;> rfl
  refine (applyAll_onlySignals hids hms hdb hG hH hB fun _ _ => rfl).trans ?_
  simp only [hHt, htype]

/-- The ranges of the signals. -/
theorem applyAll_ranges (hHr : ∀ s, (H s).multiplexRanges = [] ∧ (H s).multiplexorName = [] ∧
      (H s).multiplexRole = s.multiplexRole) :
    applyAll (ms.flatMap fun m => m.signals.flatMap fun s => if s.multiplexRanges.isEmpty then []
      else [.ranges m.id s.name s.multiplexorName s.multiplexRanges]) db =
      { db with messages := ms.map fun m => { G m with signals := m.signals.map fun s =>
        { H s with multiplexorName := s.multiplexorName,
                   multiplexRanges := s.multiplexRanges } } } := by
  have hB (m : Message R) (s : Signal R) (db : Database R) :
      applyAll (if s.multiplexRanges.isEmpty then []
        else [.ranges m.id s.name s.multiplexorName s.multiplexRanges]) db =
        changeSignal m.id s.name (fun x => if s.multiplexRanges.isEmpty then x
          else extendMultiplexing s.multiplexorName s.multiplexRanges x) db := by
    rw [applyAll_unless]
    split_ifs
    · exact (changeSignal_self fun _ => rfl).symm
    · rfl
  have hname (s x : Signal R) : (if s.multiplexRanges.isEmpty then x
      else extendMultiplexing s.multiplexorName s.multiplexRanges x).name = x.name := by
    split_ifs <;> rfl
  refine (applyAll_onlySignals hids hms hdb hG hH hB hname).trans ?_
  congr 1
  refine List.map_congr_left fun m hm => ?_
  have hsignals : (m.signals.map fun s => if s.multiplexRanges.isEmpty then H s
      else extendMultiplexing s.multiplexorName s.multiplexRanges (H s)) =
      m.signals.map fun s => { H s with multiplexorName := s.multiplexorName,
                                        multiplexRanges := s.multiplexRanges } := by
    refine List.map_congr_left fun s hs => ?_
    have hsignal := (hms m hm).signals s hs
    obtain ⟨hranges, hmultiplexor, hrole⟩ := hHr s
    cases hcases : s.multiplexRanges with
    | nil =>
      rw [hsignal.named hcases]
      generalize H s = x at hranges hmultiplexor ⊢
      cases x
      subst hranges hmultiplexor
      rfl
    | cons r rs =>
      unfold extendMultiplexing
      rw [hrole]
      rcases hsignal.role (by rw [hcases]; exact List.cons_ne_nil r rs) with h | h
      · simp [h, hrole]
      · simp [h, hrole]
  rw [hsignals]

end

/-- The lines in front of the messages. -/
theorem applyAll_earlierLines (opt : WriteOptions) :
    applyAll (earlierLines db opt) {} =
      { version := db.version, newSymbols := writtenSymbols db.newSymbols opt,
        bitTiming := db.bitTiming, valueTables := db.valueTables,
        nodes := db.nodes.map fun n => { name := n.name } } := by
  have htables (ts : List ValueTable) (start : Database R) :
      applyAll (ts.map .valueTable) start =
        { start with valueTables := start.valueTables ++ ts.map id } :=
    applyAll_append_each (p := fun db ts => { db with valueTables := ts }) (fun _ _ => rfl)
      (fun _ _ => rfl) (fun _ _ _ => rfl) (fun _ => rfl) ts
  have hblank (start : Database R) :
      applyAll (if db.valueTables.isEmpty then [] else [.blank]) start = start := by
    split_ifs <;> rfl
  unfold earlierLines
  rw [applyAll_append, applyAll_append, hblank, htables]
  simp [Line.apply]

/-- A database of which `nodes` and `messages`, and what is behind them, are read. -/
def readSoFar (db : Database R) (nodes : List (Node R)) (messages : List (Message R))
    (comment : Text) (definitions : List (AttributeDefinition R)) (attributes : AttributeMap R) :
    Database R :=
  { db with nodes, messages, comment, attributeDefinitions := definitions, attributes }

/-- What the lines up to the messages make. -/
def upToMessages (db : Database R) : Database R :=
  readSoFar db (db.nodes.map fun n => { name := n.name }) (db.messages.map messageHead) [] [] []

theorem applyAll_upToMessages {opt : WriteOptions} (h : Rereadable db opt) :
    applyAll (earlierLines db opt ++ db.messages.map .message) {} = upToMessages db := by
  have hmessages (start : Database R) : applyAll (db.messages.map .message) start =
      { start with messages := start.messages ++ db.messages.map messageHead } :=
    applyAll_append_each (p := fun db ms => { db with messages := ms }) (fun _ _ => rfl)
      (fun _ _ => rfl) (fun _ _ _ => rfl) (fun _ => rfl) db.messages
  rw [applyAll_append, applyAll_earlierLines, hmessages, h.symbols]
  rfl

/-- A message of which `H` of its signals, and what is behind it, is read. -/
def messageSoFar (H : Signal R → Signal R) (comment : Text) (attributes : AttributeMap R)
    (m : Message R) : Message R :=
  { messageHead m with
    additionalTransmitters := m.additionalTransmitters, comment, attributes,
    signals := m.signals.map H }

/-- A signal with its comment. -/
def withComment (s : Signal R) : Signal R := { signalHead s with comment := s.comment }

/-- A signal with its comment and its attributes. -/
def withAttributes (s : Signal R) : Signal R :=
  { withComment s with attributes := rereadMap s.attributes }

/-- A signal with its descriptions. -/
def withDescriptions (s : Signal R) : Signal R :=
  { withAttributes s with valueDescriptions := s.valueDescriptions }

/-- A signal without its ranges. -/
def withValueType (s : Signal R) : Signal R :=
  { withDescriptions s with layout := rereadLayout s.layout }

/-- The lines about the messages. -/
theorem applyAll_aboutMessages {opt : WriteOptions} (h : Rereadable db opt) (ns c ds as) :
    applyAll (db.messages.flatMap fun m => m.signals.flatMap fun s =>
      if s.multiplexRanges.isEmpty then []
      else [.ranges m.id s.name s.multiplexorName s.multiplexRanges])
      (applyAll (db.messages.flatMap fun m => m.signals.flatMap fun s =>
        if s.layout.valueType = .integer then []
        else [.valueType m.id s.name s.layout.valueType])
        (applyAll (db.messages.flatMap fun m => m.signals.flatMap fun s =>
          if s.valueDescriptions.isEmpty then []
          else [.valueDescriptions m.id s.name s.valueDescriptions])
          (applyAll (db.messages.flatMap messageValueLines) (readSoFar db ns
            (db.messages.map fun m => messageSoFar withComment m.comment [] m) c ds as)))) =
      readSoFar db ns (db.messages.map rereadMessage) c ds as := by
  have hvalues : applyAll (db.messages.flatMap messageValueLines)
      (readSoFar db ns (db.messages.map fun m => messageSoFar withComment m.comment [] m) c ds as) =
      readSoFar db ns (db.messages.map fun m =>
        messageSoFar withAttributes m.comment (rereadMap m.attributes) m) c ds as :=
    applyAll_messageValues (G := fun m => messageSoFar withComment m.comment [] m) h.ids h.messages
      rfl (fun _ => ⟨rfl, rfl⟩) (fun _ => rfl) (fun _ => rfl) fun _ => rfl
  have hdescriptions : applyAll (db.messages.flatMap fun m => m.signals.flatMap fun s =>
      if s.valueDescriptions.isEmpty then []
      else [.valueDescriptions m.id s.name s.valueDescriptions])
      (readSoFar db ns (db.messages.map fun m =>
        messageSoFar withAttributes m.comment (rereadMap m.attributes) m) c ds as) =
      readSoFar db ns (db.messages.map fun m =>
        messageSoFar withDescriptions m.comment (rereadMap m.attributes) m) c ds as :=
    applyAll_valueDescriptions (G := fun m =>
      messageSoFar withAttributes m.comment (rereadMap m.attributes) m) h.ids h.messages rfl
      (fun _ => ⟨rfl, rfl⟩) (fun _ => rfl) fun _ => rfl
  have htypes : applyAll (db.messages.flatMap fun m => m.signals.flatMap fun s =>
      if s.layout.valueType = .integer then []
      else [.valueType m.id s.name s.layout.valueType])
      (readSoFar db ns (db.messages.map fun m =>
        messageSoFar withDescriptions m.comment (rereadMap m.attributes) m) c ds as) =
      readSoFar db ns (db.messages.map fun m =>
        messageSoFar withValueType m.comment (rereadMap m.attributes) m) c ds as :=
    applyAll_valueTypes (G := fun m =>
      messageSoFar withDescriptions m.comment (rereadMap m.attributes) m) h.ids h.messages rfl
      (fun _ => ⟨rfl, rfl⟩) (fun _ => rfl) fun _ => rfl
  have hranges : applyAll (db.messages.flatMap fun m => m.signals.flatMap fun s =>
      if s.multiplexRanges.isEmpty then []
      else [.ranges m.id s.name s.multiplexorName s.multiplexRanges])
      (readSoFar db ns (db.messages.map fun m =>
        messageSoFar withValueType m.comment (rereadMap m.attributes) m) c ds as) =
      readSoFar db ns (db.messages.map fun m =>
        messageSoFar rereadSignal m.comment (rereadMap m.attributes) m) c ds as :=
    applyAll_ranges (G := fun m =>
      messageSoFar withValueType m.comment (rereadMap m.attributes) m) h.ids h.messages rfl
      (fun _ => ⟨rfl, rfl⟩) (fun _ => rfl) fun _ => ⟨rfl, rfl, rfl⟩
  have hmessages : (db.messages.map fun m =>
      messageSoFar rereadSignal m.comment (rereadMap m.attributes) m) =
      db.messages.map rereadMessage := by
    refine List.map_congr_left fun m hm => ?_
    unfold rereadMessage messageSoFar messageHead
    rw [(h.messages m hm).isFd]
  rw [hvalues, hdescriptions, htypes, hranges, hmessages]

/-- **The lines of a database make it again.** -/
theorem applyAll_linesOf {opt : WriteOptions} (h : Rereadable db opt) :
    applyAll (linesOf db opt) {} = reread db := by
  have htransmitters (ns c ds as) : applyAll (db.messages.flatMap fun m =>
      if m.additionalTransmitters.isEmpty then [] else [.transmitters m.id m.additionalTransmitters])
      (readSoFar db ns (db.messages.map messageHead) c ds as) =
      readSoFar db ns (db.messages.map (messageSoFar signalHead [] [])) c ds as :=
    applyAll_transmitters (G := messageHead) (H := signalHead) h.ids rfl (fun _ => ⟨rfl, rfl⟩)
      fun _ => rfl
  have hcomment (ns ms ds as) :
      applyAll (if db.comment.isEmpty then [] else [.comment .database db.comment])
      (readSoFar db ns ms [] ds as) = readSoFar db ns ms db.comment ds as := by
    rw [applyAll_unless]
    cases db.comment <;> rfl
  have hnodeComments (ms c ds as) : applyAll (db.nodes.flatMap fun n =>
      if n.comment.isEmpty then [] else [.comment (.node n.name) n.comment])
      (readSoFar db (db.nodes.map fun n => { name := n.name }) ms c ds as) =
      readSoFar db (db.nodes.map fun n => { name := n.name, comment := n.comment }) ms c ds as :=
    applyAll_nodeComments (G := fun n => { name := n.name }) h.nodeNames rfl fun _ => ⟨rfl, rfl⟩
  have hcomments (ns c ds as) : applyAll (db.messages.flatMap commentLines)
      (readSoFar db ns (db.messages.map (messageSoFar signalHead [] [])) c ds as) =
      readSoFar db ns (db.messages.map fun m => messageSoFar withComment m.comment [] m) c ds as :=
    applyAll_commentLines (G := messageSoFar signalHead [] []) h.ids h.messages rfl
      (fun _ => ⟨rfl, rfl⟩) (fun _ => rfl) (fun _ => rfl) fun _ => rfl
  have hdefinitions (ns ms c as) : applyAll (db.attributeDefinitions.map .definition)
      (readSoFar db ns ms c [] as) =
      readSoFar db ns ms c (db.attributeDefinitions.map definitionHead) as :=
    applyAll_append_each (p := fun db ds => { db with attributeDefinitions := ds })
      (fun _ _ => rfl) (fun _ _ => rfl) (fun _ _ _ => rfl) (fun _ => rfl) db.attributeDefinitions
  have hdefaults (ns ms c as) : applyAll (db.attributeDefinitions.flatMap fun d =>
      if d.hasDefault then [.default d] else [])
      (readSoFar db ns ms c (db.attributeDefinitions.map definitionHead) as) =
      readSoFar db ns ms c (db.attributeDefinitions.map rereadDefinition) as :=
    applyAll_defaults h.definitionNames rfl
  have hvalues (ns ms c ds) : applyAll (valueLines .database db.attributes)
      (readSoFar db ns ms c ds []) = readSoFar db ns ms c ds (rereadMap db.attributes) := by
    rw [applyAll_valueLines, ← setAll_nil h.attributes]
    rfl
  have hnodeValues (ms c ds as) : applyAll (db.nodes.flatMap fun n =>
      valueLines (.node n.name) n.attributes)
      (readSoFar db (db.nodes.map fun n => { name := n.name, comment := n.comment }) ms c ds as) =
      readSoFar db (db.nodes.map rereadNode) ms c ds as :=
    applyAll_nodeValues (G := fun n => { name := n.name, comment := n.comment }) h.nodeNames h.nodes
      rfl fun _ => ⟨rfl, rfl⟩
  unfold linesOf laterLines
  rw [applyAll_append, applyAll_upToMessages h, upToMessages]
  simp only [applyAll_append]
  rw [htransmitters, hcomment, hnodeComments, hcomments, hdefinitions, hdefaults, hvalues,
    hnodeValues, applyAll_aboutMessages h]
  rfl

end Dbc
end Canforge
