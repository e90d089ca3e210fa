/-
# Two configurations in step

The parser on a text alone and on a longer one in which the text stands (`Joint`): its tokens are
on other lines there, and something else than the end of the text is behind them.  As long as the
parser alone reports no error, the other one does the same (`Beside`), although it may look at the
first token of what follows: that one begins a section, and no production goes on with it.

Two productions do: a `signal` with nothing behind its name takes the next line for its expression,
which is excused because the parser alone gives it an expression that cannot be built, and so does
a `bus` with nothing behind its name, for its bit rate.
-/

import Canforge.Lib.Lockstep
import Canforge.Sim.ConfigEnds
import Canforge.Text.Joined

namespace Canforge
namespace Sim

open Canforge.Core Text Lib Reporting

variable {R : Type}

/-- The words that begin a section. -/
def kSections : List Text :=
  ["bus", "database", "node", "plant", "drive", "fault"].map ascii

/-- A token that may follow a text: the end, or the word of a section on a line of its own. -/
def OpensSection (t : Token R) : Prop :=
  t.kind = .end ∨ t.kind = .identifier ∧ t.firstOnLine = true ∧ t.text ∈ kSections

/-- What a diagnostic says, apart from its place. -/
def said (d : Diagnostic) : Severity × ErrorCode × Text × Text :=
  (d.severity, d.code, d.message, d.note)

/-- A binding that says nothing. -/
def Binding.Blank (b : Binding) : Prop := b.plantField = [] ∧ b.expression = []

/-- A message with a binding that says nothing. -/
def TxSpec.Blank (tx : TxSpec) : Prop := ∃ b ∈ tx.bindings, b.Blank

/-- A node with a binding that says nothing. -/
def NodeSpec.Blank (node : NodeSpec) : Prop := ∃ tx ∈ node.transmits, tx.Blank

variable [Scalar R]

/-- A configuration with a binding that says nothing. -/
def SimConfig.Blank (config : SimConfig R) : Prop := ∃ node ∈ config.nodes, node.Blank

/-- Changes of a configuration that add nodes at most. -/
def Appends (f : SimConfig R → SimConfig R) : Prop :=
  ∃ more, ∀ c, (f c).nodes = c.nodes ++ more

/-- A text alone and in a longer one: the sources, how many lines further down it stands there,
the end of the text alone, what is behind it there, and the configurations at the start. -/
structure Joint (R : Type) [Scalar R] where
  alone : Source
  joined : Source
  shift : BitVec 32
  last : Token R
  rest : List (Token R)
  config : SimConfig R
  joinedConfig : SimConfig R

variable (j : Joint R)

/-- A token of the text: its line is the same in both, and not that of what follows. -/
structure Joint.Holds (t : Token R) : Prop where
  kind : t.kind ≠ .end
  line : j.joined.line (t.location.line + j.shift) = j.alone.line t.location.line
  apart : ∀ h ∈ j.rest.head?, h.kind ≠ .end → t.location.line + j.shift ≠ h.location.line

/-- The ends of the two texts. -/
structure Joint.Apt : Prop where
  last : j.last.kind = .end
  line : j.alone.line j.last.location.line = []
  rest : j.rest ≠ []
  opens : ∀ h ∈ j.rest.head?, OpensSection h

/-- The parsers are at the same place. -/
structure Beside (s s' : ConfigParser R) : Prop where
  alone : s.source = j.alone
  joined : s'.source = j.joined
  tokens : ∃ tokens, s.tokens = tokens ++ [j.last] ∧
    s'.tokens = tokens.map (moveBy j.shift) ++ j.rest ∧ ∀ t ∈ tokens, j.Holds t
  config : ∃ f, Appends f ∧ s.config = f j.config ∧ s'.config = f j.joinedConfig

/-- The same token in both, or the end of the text alone and what is behind it. -/
def Alike (t t' : Token R) : Prop :=
  t' = moveBy j.shift t ∧ j.Holds t ∨ t = j.last ∧ t' ∈ j.rest.head?

/-! ### What a token looks like -/

/-- The words of the sections are neither numbers nor durations, and no units. -/
theorem not_read_section : ∀ w ∈ kSections, numberFrom w = (none : Option R) ∧
    durationFrom R w = none ∧ durationFrom R (ch '1' :: w) = none ∧
    plantKey w = (none : Option (VehicleParams R → R → VehicleParams R)) := by
  intro w hw
  rcases List.mem_map.1 hw with ⟨v, hv, rfl⟩
  fin_cases hv <;> exact ⟨rfl, rfl, rfl, rfl⟩

section

variable {j} {α : Type} {t t' : Token R} (hj : j.Apt) (h : Alike j t t')

include hj h

theorem Alike.cases : t' = moveBy j.shift t ∧ j.Holds t ∨ t.kind = .end ∧ OpensSection t' := by
  rcases h with hsame | ⟨rfl, hnext⟩
  · exact .inl hsame
  · exact .inr ⟨hj.last, hj.opens t' hnext⟩

/-- A token that is neither the end nor a name. -/
theorem Alike.kind_iff {k : TokenKind} (hend : k ≠ .end) (hidentifier : k ≠ .identifier) :
    t'.kind = k ↔ t.kind = k := by
  rcases h.cases hj with ⟨rfl, -⟩ | ⟨hkind, hkind' | ⟨hkind', -⟩⟩
  · rfl
  · rw [hkind, hkind']
  · rw [hkind, hkind']
    exact iff_of_false (Ne.symm hidentifier) (Ne.symm hend)

/-- A number. -/
theorem Alike.digits_iff : t'.kind = .integer ∨ t'.kind = .real ↔
    t.kind = .integer ∨ t.kind = .real := by
  rw [h.kind_iff hj (by decide) (by decide), h.kind_iff hj (by decide) (by decide)]

/-- A number that is not first on its line. -/
theorem Alike.ratio_iff : (t'.kind = .integer ∨ t'.kind = .real) ∧ t'.firstOnLine = false ↔
    (t.kind = .integer ∨ t.kind = .real) ∧ t.firstOnLine = false := by
  rcases h.cases hj with ⟨rfl, -⟩ | ⟨hkind, hkind' | ⟨hkind', hfirst, -⟩⟩
  · rfl
  · simp [hkind, hkind']
  · simp [hkind, hkind']

/-- An option, which is a name that is not first on its line. -/
theorem Alike.option_iff : t'.kind = .identifier ∧ t'.firstOnLine = false ↔
    t.kind = .identifier ∧ t.firstOnLine = false := by
  rcases h.cases hj with ⟨rfl, -⟩ | ⟨hkind, hkind' | ⟨hkind', hfirst, -⟩⟩
  · rfl
  · simp [hkind, hkind']
  · simp [hkind, hfirst]

/-- A word that is not that of a section. -/
theorem Alike.isWord {w : Text} (hw : w ∉ kSections) : t'.isWord w = t.isWord w := by
  rcases h.cases hj with ⟨rfl, -⟩ | ⟨hkind, hkind' | ⟨hkind', -, htext⟩⟩
  · rfl
  · simp [Token.isWord, hkind, hkind']
  · have hne : t'.text ≠ w := fun heq => hw (heq ▸ htext)
    simp [Token.isWord, hkind, hne]

/-- What is read off a name, and not off the word of a section. -/
theorem Alike.read {read : Text → Option α} (hread : ∀ w ∈ kSections, read w = none) :
    (if t'.kind = .identifier then read t'.text else none) =
      if t.kind = .identifier then read t.text else none := by
  rcases h.cases hj with ⟨rfl, -⟩ | ⟨hkind, hkind' | ⟨hkind', -, htext⟩⟩
  · rfl
  · simp [hkind, hkind']
  · simp [hkind, hread _ htext]

end

namespace ConfigParser

/-- The parsers in step. -/
def pairing : Pairing (ConfigParser R) Diagnostic (Severity × ErrorCode × Text × Text) where
  same := Beside j
  grave d := d.severity = .error
  said := said

variable {j} {s s' : ConfigParser R} {α β : Type}

/-- What stands at the parsers. -/
theorem alike_head (hj : j.Apt) (h : Beside j s s') : Alike j s.head s'.head := by
  obtain ⟨tokens, hs, hs', htokens⟩ := h.tokens
  cases tokens with
  | nil =>
    obtain ⟨u, later, hrest⟩ := List.exists_cons_of_ne_nil hj.rest
    have hhead : s.head = j.last := by simp [head, hs]
    have hhead' : s'.head = u := by simp [head, hs', hrest]
    exact .inr ⟨hhead, by simp [hhead', hrest]⟩
  | cons t tokens =>
    have hhead : s.head = t := by simp [head, hs]
    have hhead' : s'.head = moveBy j.shift t := by simp [head, hs']
    exact .inl ⟨by rw [hhead, hhead'], hhead ▸ htokens t List.mem_cons_self⟩

/-- The parsers behind a token of the text. -/
theorem beside_behind (hj : j.Apt) (h : Beside j s s') (hkind : s.head.kind ≠ .end) :
    s'.head = moveBy j.shift s.head ∧ Beside j (behind s) (behind s') := by
  obtain ⟨tokens, hs, hs', htokens⟩ := h.tokens
  cases tokens with
  | nil =>
    have hhead : s.head = j.last := by simp [head, hs]
    exact absurd (hhead ▸ hj.last) hkind
  | cons t tokens =>
    obtain ⟨u, later, hrest⟩ := List.exists_cons_of_ne_nil hj.rest
    have hbehind : behind s = { s with tokens := tokens ++ [j.last] } := by
      have hlength : 1 < s.tokens.length := by simp [hs]
      rw [behind, if_pos hlength, hs]
      rfl
    have hbehind' : behind s' = { s' with tokens := tokens.map (moveBy j.shift) ++ j.rest } := by
      have hlength : 1 < s'.tokens.length := by simp [hs', hrest]
      rw [behind, if_pos hlength, hs']
      rfl
    refine ⟨by simp [head, hs, hs'], ?_⟩
    rw [hbehind, hbehind']
    exact ⟨h.alone, h.joined, ⟨tokens, rfl, rfl, fun t ht => htokens t (List.mem_cons_of_mem _ ht)⟩,
      h.config⟩

theorem tokens_behind (hj : j.Apt) (h : Beside j s s') (hkind : s.head.kind ≠ .end) :
    s.tokens = s.head :: (behind s).tokens := by
  obtain ⟨tokens, hs, -, -⟩ := h.tokens
  cases tokens with
  | nil =>
    have hhead : s.head = j.last := by simp [head, hs]
    exact absurd (hhead ▸ hj.last) hkind
  | cons t tokens => simp [behind, head, hs]

/-- At the end of the text. -/
theorem tokens_last (h : Beside j s s') (hkind : s.head.kind = .end) :
    s.tokens = [j.last] ∧ s'.tokens = j.rest := by
  obtain ⟨tokens, hs, hs', htokens⟩ := h.tokens
  cases tokens with
  | nil => exact ⟨hs, hs'⟩
  | cons t tokens =>
    have hhead : s.head = t := by simp [head, hs]
    exact absurd (hhead ▸ hkind) (htokens t List.mem_cons_self).kind

/-! ### The pieces in step -/

section

variable (hj : j.Apt) {excused : α → ConfigParser R → Prop} {good : α → Prop}

include hj

/-- What follows `current`, which may be what is behind the text. -/
theorem tracks_current {f f' : Token R → ConfigM R α} (h : Beside j s s')
    (hf : Alike j s.head s'.head →
      Tracks (pairing j) excused good (f s.head) (f' s'.head) s s') :
    Tracks (pairing j) excused good (current >>= f) (current >>= f') s s' :=
  .of_quiet quiet_current quiet_current (hf (alike_head hj h))

theorem tracks_advance {f f' : Token R → ConfigM R α} (h : Beside j s s')
    (hkind : s.head.kind ≠ .end)
    (hf : ∀ t t', Beside j t t' →
      Tracks (pairing j) excused good (f s.head) (f' (moveBy j.shift s.head)) t t') :
    Tracks (pairing j) excused good (advance >>= f) (advance >>= f') s s' := by
  obtain ⟨hhead, hbehind⟩ := beside_behind hj h hkind
  refine .of_quiet quiet_advance quiet_advance ?_
  rw [hhead]
  exact hf (behind s) (behind s') hbehind

end

omit [Scalar R] in
/-- What is read off a token that is a name. -/
theorem kind_of_read {t : Token R} {o : Option α} {a : α}
    (h : (if t.kind = .identifier then o else none) = some a) : t.kind ≠ .end := by
  split_ifs at h with hkind
  rw [hkind]
  decide

theorem grave_error (message note : Text) :
    Grave (pairing j).grave (error message note : ConfigM R Unit) s := by
  intro a t out hrun
  cases hrun
  exact ⟨_, List.mem_singleton_self _, rfl⟩

/-- Code that reports an error is not followed any further. -/
theorem tracks_error {message note : Text} {f : Unit → ConfigM R α}
    {excused : α → ConfigParser R → Prop} {good : α → Prop} {q : ConfigM R α} :
    Tracks (pairing j) excused good (error message note >>= f) q s s' :=
  .of_grave (grave_error message note).bind

/-- Both warn, each at its own place. -/
theorem tracks_warn (message note : Text) (h : Beside j s s') :
    Tracks (pairing j) never always (warn message note : ConfigM R Unit) (warn message note)
      s s' := by
  rintro a t out hrun -
  cases hrun
  exact .inr ⟨trivial, s', _, rfl, rfl, h⟩

theorem tracks_modifyConfig {f : SimConfig R → SimConfig R} (hf : Appends f) (h : Beside j s s') :
    Tracks (pairing j) never always (modifyConfig f) (modifyConfig f) s s' := by
  rintro a t out hrun -
  cases hrun
  obtain ⟨g, ⟨more, hg⟩, hconfig, hconfig'⟩ := h.config
  obtain ⟨added, hadded⟩ := hf
  refine .inr ⟨trivial, _, [], rfl, rfl, h.alone, h.joined, h.tokens, fun c => f (g c), ?_, ?_, ?_⟩
  · exact ⟨more ++ added, fun c => by rw [hadded, hg, List.append_assoc]⟩
  · exact congrArg f hconfig
  · exact congrArg f hconfig'

/-- A change that does not touch the nodes. -/
theorem tracks_set {f : SimConfig R → SimConfig R} (hf : ∀ c, (f c).nodes = c.nodes)
    (h : Beside j s s') : Tracks (pairing j) never always (modifyConfig f) (modifyConfig f) s s' :=
  tracks_modifyConfig ⟨[], fun c => by rw [hf, List.append_nil]⟩ h

theorem tracks_orStop (o : Option α) (h : Beside j s s') :
    Tracks (pairing j) never always (orStop .undefinedCast o : ConfigM R α)
      (orStop .undefinedCast o) s s' := by
  cases o with
  | none =>
    intro a t out hrun
    cases hrun
  | some a => exact .pure trivial h

section

variable (hj : j.Apt)

include hj

theorem tracks_while {round round' : β → ConfigM R (β × Bool)}
    {excused : β → ConfigParser R → Prop}
    (hround : ∀ b t t', Beside j t t' →
      Tracks (pairing j) (fun r u => excused r.1 u) always (round b) (round' b) t t')
    (hstays : ∀ b t r u out, excused b t → round b t = .ok (r, u, out) → excused r.1 u)
    (b : β) (h : Beside j s s') :
    Tracks (pairing j) excused always (while_ round b) (while_ round' b) s s' := by
  refine .of_quiet (quiet_get.2 ⟨rfl, rfl⟩) (quiet_get.2 ⟨rfl, rfl⟩) ?_
  refine .loop hround hstays ?_ b h
  obtain ⟨tokens, hs, hs', -⟩ := h.tokens
  have := List.length_pos_of_ne_nil hj.rest
  simp only [hs, hs', List.length_append, List.length_map, List.length_singleton]
  omega

/-- A loop in which nothing is excused. -/
theorem tracks_loop {round round' : β → ConfigM R (β × Bool)}
    (hround : ∀ b t t', Beside j t t' →
      Tracks (pairing j) never always (round b) (round' b) t t') (b : β) (h : Beside j s s') :
    Tracks (pairing j) never always (while_ round b) (while_ round' b) s s' :=
  tracks_while hj hround (fun _ _ _ _ _ hnever => hnever.elim) b h

/-- A word that is not that of a section, or is asked for in the text. -/
theorem tracks_matchWord {w : String} (hw : ascii w ∉ kSections ∨ s.head.kind ≠ .end)
    (h : Beside j s s') : Tracks (pairing j) never always (matchWord w) (matchWord w) s s' := by
  refine tracks_current hj h fun halike => .ite ?_ (fun hword => ?_) fun _ => .pure trivial h
  · rcases hw with hw | hkind
    · rw [halike.isWord hj hw]
    · rw [(beside_behind hj h hkind).1]
      rfl
  · exact tracks_advance hj h (not_end_of_isWord hword) fun _ _ h => .pure trivial h

/-- The tokens on the line of a token. -/
theorem tracks_lineRound {u : Token R} (hu : j.Holds u) (h : Beside j s s') :
    Tracks (pairing j) never always (lineRound u.location.line ())
      (lineRound (u.location.line + j.shift) ()) s s' := by
  refine tracks_current hj h fun halike => .ite ?_ (fun hline => ?_) fun _ => .pure trivial h
  · rcases halike with ⟨hhead, hholds⟩ | ⟨hlast, hnext⟩
    · rw [hhead]
      exact and_congr_right fun _ => add_left_inj _
    · refine iff_of_false (fun hopen => ?_) fun hopen => hopen.1 (hlast ▸ hj.last)
      exact hu.apart _ hnext hopen.1 hopen.2.symm
  · exact tracks_advance hj h hline.1 fun _ _ h => .pure trivial h

theorem tracks_name (h : Beside j s s') :
    Tracks (pairing j) never (·.isSome = true) name name s s' := by
  refine tracks_current hj h fun halike => ?_
  by_cases hname : s.head.kind ≠ .identifier ∧ s.head.kind ≠ .string
  · rw [if_pos hname]
    exact tracks_error
  · have hkind : s.head.kind ≠ .end := by
      intro hend
      rw [hend] at hname
      exact hname ⟨by decide, by decide⟩
    rw [if_neg hname, (beside_behind hj h hkind).1, if_neg (by exact hname)]
    exact tracks_advance hj h hkind fun _ _ h => .pure rfl h

theorem tracks_numberSign (h : Beside j s s') :
    Tracks (pairing j) never always (numberSign : ConfigM R R) numberSign s s' := by
  refine tracks_current hj h fun halike => .ite ?_ (fun hminus => ?_) fun _ => .ite ?_
    (fun hplus => ?_) fun _ => .pure trivial h
  · exact halike.kind_iff hj (by decide) (by decide)
  · exact tracks_advance hj h (by rw [hminus]; decide) fun _ _ h => .pure trivial h
  · exact halike.kind_iff hj (by decide) (by decide)
  · exact tracks_advance hj h (by rw [hplus]; decide) fun _ _ h => .pure trivial h

theorem tracks_number (h : Beside j s s') :
    Tracks (pairing j) never (·.isSome = true) (number : ConfigM R (Option R)) number s s' := by
  refine (tracks_numberSign hj h).bind fun sign u u' _ h => ?_
  refine tracks_current hj h fun halike => .ite (halike.digits_iff hj) (fun hdigits => ?_)
    fun _ => ?_
  · have hkind : u.head.kind ≠ .end := by
      rcases hdigits with hkind | hkind <;> · rw [hkind]; decide
    exact tracks_advance hj h hkind fun _ _ h => .pure rfl h
  · rw [halike.read hj fun w hw => (not_read_section w hw).1]
    split
    · rename_i out hout
      exact tracks_advance hj h (kind_of_read hout) fun _ _ h => .pure rfl h
    · exact tracks_error

theorem tracks_durationUnit (h : Beside j s s') :
    Tracks (pairing j) never always (durationUnit : ConfigM R ℕ) durationUnit s s' := by
  refine tracks_current hj h fun halike => ?_
  have hread : (if s'.head.kind = .identifier then durationFrom R (ch '1' :: s'.head.text)
      else none) = if s.head.kind = .identifier then durationFrom R (ch '1' :: s.head.text) else none :=
    halike.read hj fun w hw => (not_read_section w hw).2.2.1
  rw [hread]
  split
  · rename_i probe hprobe
    exact tracks_advance hj h (kind_of_read hprobe) fun _ _ h => tracks_orStop _ h
  · exact .pure trivial h

theorem tracks_duration (h : Beside j s s') :
    Tracks (pairing j) never (·.isSome = true) (duration : ConfigM R (Option ℕ)) duration s s' := by
  refine tracks_current hj h fun halike => ?_
  have hread : durationIn s'.head = durationIn s.head :=
    halike.read hj fun w hw => (not_read_section w hw).2.1
  rw [hread]
  split
  · rename_i ns hns
    refine tracks_advance hj h (kind_of_read hns) fun _ _ h => ?_
    exact (tracks_orStop _ h).bind fun _ _ _ _ h => .pure rfl h
  · refine .ite (halike.digits_iff hj) (fun hdigits => ?_) fun _ => tracks_error
    have hkind : s.head.kind ≠ .end := by
      rcases hdigits with hkind | hkind <;> · rw [hkind]; decide
    refine tracks_advance hj h hkind fun _ _ h => ?_
    refine (tracks_durationUnit hj h).bind fun scaleNs _ _ _ h => ?_
    exact (tracks_orStop _ h).bind fun _ _ _ _ h => .pure rfl h

/-- The rest of a line that begins in the text. -/
theorem tracks_restOfLine (hkind : s.head.kind ≠ .end) (h : Beside j s s') :
    Tracks (pairing j) never always (restOfLine : ConfigM R Text) restOfLine s s' := by
  obtain ⟨hhead, -⟩ := beside_behind hj h hkind
  have hholds : j.Holds s.head := by
    rcases alike_head hj h with ⟨-, hholds⟩ | ⟨hlast, -⟩
    · exact hholds
    · exact absurd (hlast ▸ hj.last) hkind
  refine .of_quiet (quiet_get.2 ⟨rfl, rfl⟩) (quiet_get.2 ⟨rfl, rfl⟩) ?_
  refine .of_quiet quiet_current quiet_current ?_
  have hline : s'.source.line s'.head.location.line = s.source.line s.head.location.line := by
    rw [h.alone, h.joined, hhead]
    exact hholds.line
  have hcolumn : s'.head.location.column = s.head.location.column := by
    rw [hhead]
    rfl
  dsimp only
  rw [hline, hcolumn]
  refine (tracks_loop hj (fun _ _ _ h => ?_) () h).bind fun _ _ _ _ h => .pure trivial h
  rw [hhead]
  exact tracks_lineRound hj hholds h

/-- Nothing is left at the end of the text. -/
theorem quiet_restOfLine (hlast : s.head = j.last) (h : Beside j s s') :
    Quiet restOfLine s [] s := by
  have hline : s.source.line s.head.location.line = [] := by
    rw [h.alone, hlast]
    exact hj.line
  refine quiet_bind.2 ⟨s, s, quiet_get.2 ⟨rfl, rfl⟩, quiet_bind.2 ⟨_, s, quiet_current, ?_⟩⟩
  dsimp only
  rw [hline]
  have hround : Quiet (lineRound s.head.location.line ()) s ((), false) s := by
    refine quiet_bind.2 ⟨_, s, quiet_current, ?_⟩
    rw [if_neg fun hopen => hopen.1 (hlast ▸ hj.last)]
    exact quiet_pure.2 ⟨rfl, rfl⟩
  refine quiet_bind.2 ⟨(), s, ?_, ?_⟩
  · refine quiet_bind.2 ⟨s, s, quiet_get.2 ⟨rfl, rfl⟩, ?_⟩
    rw [Reporting.loop]
    exact quiet_bind.2 ⟨_, s, hround, quiet_pure.2 ⟨rfl, rfl⟩⟩
  · refine quiet_pure.2 ⟨?_, rfl⟩
    rw [List.drop_nil, ite_self]
    rfl

/-! ### The sections in step -/

theorem tracks_setDuration (set : BitVec 64 → TxSpec) (tx : TxSpec) (h : Beside j s s') :
    Tracks (pairing j) never always (setDuration set tx : ConfigM R (TxSpec × Bool))
      (setDuration set tx) s s' := by
  refine (tracks_duration hj h).bind ?_
  rintro (_ | ns) u u' hns h
  · cases hns
  · exact .pure trivial h

theorem tracks_txOption (tx : TxSpec) (h : Beside j s s') :
    Tracks (pairing j) never always (txOptionRound tx : ConfigM R (TxSpec × Bool))
      (txOptionRound tx) s s' := by
  refine tracks_current hj h fun halike => .ite (halike.option_iff hj) (fun _ => ?_)
    fun _ => .pure trivial h
  refine (tracks_matchWord hj (.inl (by decide)) h).bind fun b _ _ _ h => .ite Iff.rfl
    (fun _ => tracks_setDuration hj _ _ h) fun _ => ?_
  refine (tracks_matchWord hj (.inl (by decide)) h).bind fun b _ _ _ h => .ite Iff.rfl
    (fun _ => tracks_setDuration hj _ _ h) fun _ => ?_
  refine (tracks_matchWord hj (.inl (by decide)) h).bind fun b _ _ _ h => .ite Iff.rfl
    (fun _ => tracks_setDuration hj _ _ h) fun _ => ?_
  refine (tracks_matchWord hj (.inl (by decide)) h).bind fun b _ _ _ h => .ite Iff.rfl
    (fun _ => .pure trivial h) fun _ => ?_
  refine (tracks_matchWord hj (.inl (by decide)) h).bind fun b _ _ _ h => .ite Iff.rfl
    (fun _ => .pure trivial h) fun _ => tracks_error

/-- A `signal` line.  At the end of the text its binding says nothing. -/
theorem tracks_parseBinding (tx : TxSpec) (hkind : s.head.kind ≠ .end) (h : Beside j s s') :
    Tracks (pairing j) (fun tx _ => tx.Blank) always (parseBinding tx : ConfigM R TxSpec)
      (parseBinding tx) s s' := by
  refine tracks_advance hj h hkind fun _ _ h => (tracks_name hj h).bind ?_
  rintro (_ | signal) u u' hsignal h
  · cases hsignal
  by_cases hmore : u.head.kind = .end
  · have hlast : u.head = j.last := by
      rcases alike_head hj h with ⟨-, hholds⟩ | ⟨hlast, -⟩
      · exact absurd hmore hholds.kind
      · exact hlast
    rintro tx' t out hrun -
    obtain ⟨expression, u₁, out₁, out₂, hrest, hpure, -⟩ := bind_ok hrun
    cases (quiet_restOfLine hj hlast h).symm.trans hrest
    cases hpure
    exact .inl ⟨bindingOf signal [], List.mem_append_right _ (List.mem_singleton_self _), rfl, rfl⟩
  · exact .excuse ((tracks_restOfLine hj hmore h).bind fun _ _ _ _ h => .pure trivial h)

theorem tracks_parseCounter (tx : TxSpec) (hkind : s.head.kind ≠ .end) (h : Beside j s s') :
    Tracks (pairing j) never always (parseCounter tx : ConfigM R TxSpec) (parseCounter tx) s s' := by
  refine tracks_advance hj h hkind fun _ _ h => (tracks_name hj h).bind ?_
  rintro (_ | signal) u u' hsignal h
  · cases hsignal
  · exact .pure trivial h

theorem tracks_checksumKind (h : Beside j s s') :
    Tracks (pairing j) never always (checksumKind : ConfigM R ChecksumKind) checksumKind s s' := by
  refine tracks_current hj h fun halike => .ite (halike.option_iff hj) (fun hoption => ?_)
    fun _ => .pure trivial h
  have hkind : s.head.kind ≠ .end := by
    rw [hoption.1]
    decide
  refine tracks_advance hj h hkind fun u u' h => .ite Iff.rfl (fun _ => .pure trivial h)
    fun _ => .ite Iff.rfl (fun _ => .pure trivial h) fun _ => ?_
  exact (tracks_warn _ _ h).bind fun _ _ _ _ h => .pure trivial h

theorem tracks_parseChecksum (tx : TxSpec) (hkind : s.head.kind ≠ .end) (h : Beside j s s') :
    Tracks (pairing j) never always (parseChecksum tx : ConfigM R TxSpec) (parseChecksum tx)
      s s' := by
  refine tracks_advance hj h hkind fun _ _ h => (tracks_name hj h).bind ?_
  rintro (_ | signal) u u' hsignal h
  · cases hsignal
  · exact (tracks_checksumKind hj h).bind fun _ _ _ _ h => .pure trivial h

theorem tracks_txBody (tx : TxSpec) (h : Beside j s s') :
    Tracks (pairing j) (fun r _ => r.1.Blank) always
      (txBodyRound tx : ConfigM R (TxSpec × Bool)) (txBodyRound tx) s s' := by
  refine tracks_current hj h fun halike => ?_
  rw [halike.isWord hj (by decide), halike.isWord hj (by decide), halike.isWord hj (by decide)]
  refine .ite Iff.rfl (fun hword => ?_) fun _ => .ite Iff.rfl (fun hword => ?_) fun _ =>
    .ite Iff.rfl (fun hword => ?_) fun _ => .pure trivial h
  · refine (tracks_parseBinding hj tx (not_end_of_isWord hword) h).bind_of
      (fun _ _ _ _ h => .pure trivial h) fun tx' t r u out hblank hrun => ?_
    cases hrun
    exact hblank
  · exact .excuse ((tracks_parseCounter hj tx (not_end_of_isWord hword) h).bind
      fun _ _ _ _ h => .pure trivial h)
  · exact .excuse ((tracks_parseChecksum hj tx (not_end_of_isWord hword) h).bind
      fun _ _ _ _ h => .pure trivial h)

end

/-! ### Bindings and nodes are added -/

theorem returns_parseBinding (tx : TxSpec) :
    Returns (parseBinding tx : ConfigM R TxSpec) fun tx' => tx.bindings <+: tx'.bindings := by
  refine .bind fun _ => .bind ?_
  rintro (_ | signal)
  · exact .bind fun _ => returns_pure List.prefix_rfl
  · exact .bind fun _ => returns_pure (List.prefix_append _ _)

theorem returns_parseCounter (tx : TxSpec) :
    Returns (parseCounter tx : ConfigM R TxSpec) fun tx' => tx.bindings <+: tx'.bindings := by
  refine .bind fun _ => .bind ?_
  rintro (_ | signal)
  · exact .bind fun _ => returns_pure List.prefix_rfl
  · exact returns_pure List.prefix_rfl

theorem returns_parseChecksum (tx : TxSpec) :
    Returns (parseChecksum tx : ConfigM R TxSpec) fun tx' => tx.bindings <+: tx'.bindings := by
  refine .bind fun _ => .bind ?_
  rintro (_ | signal)
  · exact .bind fun _ => returns_pure List.prefix_rfl
  · exact .bind fun _ => returns_pure List.prefix_rfl

theorem returns_txBody (tx : TxSpec) :
    Returns (txBodyRound tx : ConfigM R (TxSpec × Bool)) fun r => tx.bindings <+: r.1.bindings := by
  refine .bind fun t => .ite ?_ (.ite ?_ (.ite ?_ (returns_pure List.prefix_rfl)))
  · exact (returns_parseBinding tx).bind_of fun _ htx => returns_pure htx
  · exact (returns_parseCounter tx).bind_of fun _ htx => returns_pure htx
  · exact (returns_parseChecksum tx).bind_of fun _ htx => returns_pure htx

theorem returns_parseTx (node : NodeSpec) : Returns (parseTx node : ConfigM R NodeSpec)
    fun node' => node.transmits <+: node'.transmits := by
  refine .bind fun _ => .bind ?_
  rintro (_ | message)
  · exact .bind fun _ => returns_pure List.prefix_rfl
  · exact .bind fun _ => .bind fun _ => returns_pure (List.prefix_append _ _)

theorem returns_tx (node : NodeSpec) : Returns (txRound node : ConfigM R (NodeSpec × Bool))
    fun r => node.transmits <+: r.1.transmits := by
  refine .bind fun t => .ite ?_ (returns_pure List.prefix_rfl)
  exact (returns_parseTx node).bind_of fun _ hnode => returns_pure hnode

section

variable (hj : j.Apt)

include hj

/-- A message.  It has a binding that says nothing if the text ends behind the name of one. -/
theorem tracks_parseTx (node : NodeSpec) (hkind : s.head.kind ≠ .end) (h : Beside j s s') :
    Tracks (pairing j) (fun node _ => node.Blank) always (parseTx node : ConfigM R NodeSpec)
      (parseTx node) s s' := by
  refine tracks_advance hj h hkind fun _ _ h => (tracks_name hj h).bind ?_
  rintro (_ | message) u u' hmessage h
  · cases hmessage
  refine (tracks_loop hj (fun tx _ _ h => tracks_txOption hj tx h) _ h).bind fun tx v v' _ h => ?_
  have hbody : Tracks (pairing j) (fun tx _ => tx.Blank) always (while_ txBodyRound tx)
      (while_ txBodyRound tx) v v' := by
    refine tracks_while hj (fun tx _ _ h => tracks_txBody hj tx h) (fun tx t r v out hblank hrun => ?_)
      tx h
    obtain ⟨b, hb, hsays⟩ := hblank
    exact ⟨b, (returns_txBody tx _ _ _ _ hrun).subset hb, hsays⟩
  refine hbody.bind_of (fun _ _ _ _ h => .pure trivial h) fun tx' t node' v out hblank hrun => ?_
  cases hrun
  exact ⟨tx', List.mem_append_right _ (List.mem_singleton_self _), hblank⟩

theorem tracks_tx (node : NodeSpec) (h : Beside j s s') :
    Tracks (pairing j) (fun r _ => r.1.Blank) always (txRound node : ConfigM R (NodeSpec × Bool))
      (txRound node) s s' := by
  refine tracks_current hj h fun halike => ?_
  rw [halike.isWord hj (by decide)]
  refine .ite Iff.rfl (fun hword => ?_) fun _ => .pure trivial h
  refine (tracks_parseTx hj node (not_end_of_isWord hword) h).bind_of
    (fun _ _ _ _ h => .pure trivial h) fun node' t r u out hblank hrun => ?_
  cases hrun
  exact hblank

theorem tracks_parseNode (hkind : s.head.kind ≠ .end) (h : Beside j s s') :
    Tracks (pairing j) (fun _ t => t.config.Blank) always (parseNode : ConfigM R Unit) parseNode
      s s' := by
  refine tracks_advance hj h hkind fun _ _ h => (tracks_name hj h).bind ?_
  rintro (_ | nodeName) u u' hname h
  · cases hname
  have hloop : Tracks (pairing j) (fun node _ => node.Blank) always
      (while_ txRound { name := nodeName }) (while_ txRound { name := nodeName }) u u' := by
    refine tracks_while hj (fun node _ _ h => tracks_tx hj node h)
      (fun node t r v out hblank hrun => ?_) _ h
    obtain ⟨tx, htx, hsays⟩ := hblank
    exact ⟨tx, (returns_tx node _ _ _ _ hrun).subset htx, hsays⟩
  refine hloop.bind_of (fun node _ _ _ h => .excuse ?_) fun node t r v out hblank hrun => ?_
  · exact tracks_modifyConfig ⟨[node], fun _ => rfl⟩ h
  · cases hrun
    exact ⟨node, List.mem_append_right _ (List.mem_singleton_self _), hblank⟩

theorem tracks_parseDataRate (h : Beside j s s') :
    Tracks (pairing j) never always (parseDataRate : ConfigM R Unit) parseDataRate s s' := by
  refine tracks_current hj h fun halike => .ite (halike.digits_iff hj) (fun _ => ?_)
    fun _ => .pure trivial h
  refine (tracks_number hj h).bind ?_
  rintro (_ | v) u u' hv h
  · cases hv
  · exact (tracks_orStop _ h).bind fun _ _ _ _ h => tracks_set (fun _ => rfl) h

/-- The first bit rate, unless the word of a section is taken for one. -/
theorem tracks_parseNominal (hkind : s.head.kind ≠ .end ∨ s'.head.kind = .end)
    (h : Beside j s s') :
    Tracks (pairing j) never always (parseNominal : ConfigM R Unit) parseNominal s s' := by
  refine tracks_current hj h fun halike => tracks_current hj h fun _ => .ite ?_ (fun _ => ?_)
    fun _ => .pure trivial h
  · rcases hkind with hkind | hend
    · rw [(beside_behind hj h hkind).1]
      exact and_congr_right fun _ => and_congr_left fun _ => iff_of_true rfl rfl
    · refine iff_of_false (fun hopen => hopen.1 hend) fun hopen => ?_
      rcases halike with ⟨hhead, hholds⟩ | ⟨hlast, -⟩
      · rw [hhead] at hend
        exact hholds.kind hend
      · exact hopen.1 (hlast ▸ hj.last)
  refine (tracks_number hj h).bind ?_
  rintro (_ | v) u u' hv h
  · cases hv
  · exact (tracks_orStop _ h).bind fun _ _ _ _ h => tracks_set (fun _ => rfl) h

theorem tracks_parseDatabase (hkind : s.head.kind ≠ .end) (h : Beside j s s') :
    Tracks (pairing j) never always (parseDatabase : ConfigM R Unit) parseDatabase s s' := by
  refine tracks_advance hj h hkind fun u u' h => tracks_current hj h fun halike => ?_
  refine .ite (halike.kind_iff hj (by decide) (by decide)) (fun hstring => ?_) fun _ => ?_
  · refine tracks_advance hj h (by rw [hstring]; decide) fun _ _ h => ?_
    exact tracks_set (fun _ => rfl) h
  by_cases hmore : u.head.kind = .end
  · have hlast : u.head = j.last := by
      rcases halike with ⟨-, hholds⟩ | ⟨hlast, -⟩
      · exact absurd hmore hholds.kind
      · exact hlast
    refine .of_grave fun a t out hrun => ?_
    obtain ⟨path, u₁, out₁, out₂, hrest, hnext, rfl⟩ := bind_ok hrun
    cases (quiet_restOfLine hj hlast h).symm.trans hrest
    cases hnext
    exact ⟨_, List.mem_singleton_self _, rfl⟩
  · refine (tracks_restOfLine hj hmore h).bind fun path _ _ _ h => ?_
    refine (tracks_set (fun _ => by rfl) h).bind fun _ _ _ _ h => ?_
    by_cases hpath : path.isEmpty = true
    · rw [if_pos hpath]
      exact .of_grave (grave_error _ _)
    · rw [if_neg hpath]
      exact .pure trivial h

theorem tracks_ratio (ratios : List R) (h : Beside j s s') :
    Tracks (pairing j) never always (ratioRound ratios : ConfigM R (List R × Bool))
      (ratioRound ratios) s s' := by
  refine tracks_current hj h fun halike => .ite (halike.ratio_iff hj) (fun hratio => ?_)
    fun _ => .pure trivial h
  have hkind : s.head.kind ≠ .end := by
    rcases hratio.1 with hkind | hkind <;> · rw [hkind]; decide
  exact tracks_advance hj h hkind fun _ _ h => .pure trivial h

theorem tracks_parseRatios (hkind : s.head.kind ≠ .end) (h : Beside j s s') :
    Tracks (pairing j) never always (parseRatios : ConfigM R Unit) parseRatios s s' := by
  refine tracks_advance hj h hkind fun _ _ h => ?_
  refine (tracks_loop hj (fun ratios _ _ h => tracks_ratio hj ratios h) [] h).bind
    fun ratios _ _ _ h => .ite Iff.rfl (fun _ => .of_grave (grave_error _ _)) fun _ => ?_
  exact tracks_set (fun _ => rfl) h

theorem tracks_plant (h : Beside j s s') :
    Tracks (pairing j) never always (plantRound () : ConfigM R (Unit × Bool)) (plantRound ())
      s s' := by
  refine tracks_current hj h fun halike => ?_
  by_cases hname : s.head.kind = .identifier
  · have hkind : s.head.kind ≠ .end := by
      rw [hname]
      decide
    have htext : (moveBy j.shift s.head).text = s.head.text := rfl
    rw [(beside_behind hj h hkind).1, htext]
    refine .ite Iff.rfl (fun hnot => absurd hname hnot) fun _ => ?_
    split
    · refine tracks_advance hj h hkind fun _ _ h => (tracks_number hj h).bind ?_
      rintro (_ | v) u u' hv h
      · cases hv
      · exact (tracks_set (fun _ => by rfl) h).bind fun _ _ _ _ h => .pure trivial h
    · refine .ite Iff.rfl (fun _ => ?_) fun _ => .pure trivial h
      exact (tracks_parseRatios hj hkind h).bind fun _ _ _ _ h => .pure trivial h
  · rw [if_pos hname]
    by_cases hname' : s'.head.kind = .identifier
    · -- the word of a section is no key
      have htext : s'.head.text ∈ kSections := by
        rcases halike.cases hj with ⟨hhead, -⟩ | ⟨-, hend | ⟨-, -, htext⟩⟩
        · rw [hhead] at hname'
          exact absurd hname' hname
        · rw [hname'] at hend
          cases hend
        · exact htext
      have hratios : s'.head.text ≠ ascii "gear_ratios" := fun heq =>
        absurd (heq ▸ htext) (by decide)
      rw [if_neg (not_not.2 hname'), (not_read_section (R := R) _ htext).2.2.2]
      dsimp only
      rw [if_neg hratios]
      exact .pure trivial h
    · rw [if_pos hname']
      exact .pure trivial h

theorem tracks_parsePlant (hkind : s.head.kind ≠ .end) (h : Beside j s s') :
    Tracks (pairing j) never always (parsePlant : ConfigM R Unit) parsePlant s s' := by
  have hloop : ∀ t t', Beside j t t' → Tracks (pairing j) never always
      (while_ plantRound () : ConfigM R Unit) (while_ plantRound ()) t t' :=
    fun _ _ h => tracks_loop hj (fun _ _ _ h => tracks_plant hj h) () h
  refine tracks_advance hj h hkind fun _ _ h => ?_
  refine (tracks_set (fun _ => by rfl) h).bind fun _ u u' _ h => ?_
  refine tracks_current hj h fun halike => .ite (halike.option_iff hj) (fun hoption => ?_)
    fun _ => hloop _ _ h
  exact tracks_advance hj h (by rw [hoption.1]; decide) fun _ _ h => hloop _ _ h

theorem tracks_input (event : DriveEvent R) (h : Beside j s s') :
    Tracks (pairing j) never always (inputRound event : ConfigM R (DriveEvent R × Bool))
      (inputRound event) s s' := by
  refine tracks_current hj h fun halike => .ite (halike.option_iff hj) (fun _ => ?_)
    fun _ => .pure trivial h
  refine (tracks_matchWord hj (.inl (by decide)) h).bind fun b _ _ _ h => .ite Iff.rfl (fun _ => ?_)
    fun _ => ?_
  · refine (tracks_number hj h).bind ?_
    rintro (_ | v) u u' hv h
    · cases hv
    · exact .pure trivial h
  refine (tracks_matchWord hj (.inl (by decide)) h).bind fun b _ _ _ h => .ite Iff.rfl (fun _ => ?_)
    fun _ => ?_
  · refine (tracks_number hj h).bind ?_
    rintro (_ | v) u u' hv h
    · cases hv
    · exact .pure trivial h
  refine (tracks_matchWord hj (.inl (by decide)) h).bind fun b _ _ _ h => .ite Iff.rfl (fun _ => ?_)
    fun _ => tracks_error
  refine (tracks_number hj h).bind ?_
  rintro (_ | v) u u' hv h
  · cases hv
  · exact (tracks_orStop _ h).bind fun _ _ _ _ h => .pure trivial h

theorem tracks_drive (h : Beside j s s') :
    Tracks (pairing j) never always (driveRound () : ConfigM R (Unit × Bool)) (driveRound ())
      s s' := by
  refine (tracks_matchWord hj (.inl (by decide)) h).bind fun b _ _ _ h => .ite Iff.rfl (fun _ => ?_)
    fun _ => .pure trivial h
  refine (tracks_duration hj h).bind ?_
  rintro (_ | atNs) u u' hns h
  · cases hns
  refine (tracks_loop hj (fun event _ _ h => tracks_input hj event h) _ h).bind
    fun event _ _ _ h => ?_
  exact (tracks_set (fun _ => by rfl) h).bind fun _ _ _ _ h => .pure trivial h

theorem tracks_parseDrive (hkind : s.head.kind ≠ .end) (h : Beside j s s') :
    Tracks (pairing j) never always (parseDrive : ConfigM R Unit) parseDrive s s' :=
  tracks_advance hj h hkind fun _ _ h => tracks_loop hj (fun _ _ _ h => tracks_drive hj h) () h

theorem tracks_parseFaultKind (kind : Text) (fault : Fault R) (h : Beside j s s') :
    Tracks (pairing j) never (·.isSome = true) (parseFaultKind kind fault)
      (parseFaultKind kind fault) s s' := by
  refine .ite Iff.rfl (fun _ => ?_) fun _ => .ite Iff.rfl (fun _ => ?_) fun _ => .ite Iff.rfl
    (fun _ => ?_) fun _ => .ite Iff.rfl (fun _ => ?_) fun _ => .ite Iff.rfl (fun _ => ?_)
    fun _ => .ite Iff.rfl (fun _ => .pure rfl h) fun _ => tracks_error
  · exact (tracks_number hj h).bind fun _ _ _ _ h => .pure rfl h
  · exact (tracks_number hj h).bind fun _ _ _ _ h => .pure rfl h
  · refine (tracks_duration hj h).bind ?_
    rintro (_ | delayNs) u u' hns h
    · cases hns
    · exact .pure rfl h
  · refine (tracks_name hj h).bind ?_
    rintro (_ | signal) u u' hsignal h
    · cases hsignal
    · exact .pure rfl h
  · refine (tracks_name hj h).bind ?_
    rintro (_ | signal) u u' hsignal h
    · cases hsignal
    · exact (tracks_number hj h).bind fun _ _ _ _ h => .pure rfl h

theorem tracks_parseFaultId (fault : Fault R) (h : Beside j s s') :
    Tracks (pairing j) never always (parseFaultId fault) (parseFaultId fault) s s' := by
  refine (tracks_number hj h).bind ?_
  rintro (_ | raw) u u' hraw h
  · cases hraw
  refine (tracks_orStop _ h).bind fun packed _ _ _ h => ?_
  dsimp only
  split
  · exact .pure trivial h
  · exact tracks_error

theorem tracks_faultOption (fault : Fault R) (h : Beside j s s') :
    Tracks (pairing j) never always (faultOptionRound fault) (faultOptionRound fault) s s' := by
  refine tracks_current hj h fun halike => .ite (halike.option_iff hj) (fun hoption => ?_)
    fun _ => .pure trivial h
  -- this word begins a section, too, on a line of its own
  have hkind : s.head.kind ≠ .end := by
    rw [hoption.1]
    decide
  refine (tracks_matchWord hj (.inr hkind) h).bind fun b _ _ _ h => .ite Iff.rfl (fun _ => ?_)
    fun _ => ?_
  · refine (tracks_name hj h).bind ?_
    rintro (_ | node) u u' hnode h
    · cases hnode
    · exact .pure trivial h
  refine (tracks_matchWord hj (.inl (by decide)) h).bind fun b _ _ _ h => .ite Iff.rfl
    (fun _ => tracks_parseFaultId hj fault h) fun _ => ?_
  refine (tracks_matchWord hj (.inl (by decide)) h).bind fun b _ _ _ h => .ite Iff.rfl
    (fun _ => tracks_parseFaultId hj fault h) fun _ => ?_
  exact (tracks_matchWord hj (.inl (by decide)) h).bind fun b _ _ _ h => .ite Iff.rfl
    (fun _ => .pure trivial h) fun _ => tracks_error

theorem tracks_parseFault (hkind : s.head.kind ≠ .end) (h : Beside j s s') :
    Tracks (pairing j) never always (parseFault : ConfigM R Unit) parseFault s s' := by
  refine tracks_advance hj h hkind fun _ _ h => (tracks_name hj h).bind ?_
  rintro (_ | faultName) u u' hname h
  · cases hname
  refine tracks_current hj h fun halike => ?_
  by_cases hword : u.head.kind = .identifier
  · have hmid : u.head.kind ≠ .end := by
      rw [hword]
      decide
    rw [(beside_behind hj h hmid).1]
    refine .ite Iff.rfl (fun hnot => absurd hword hnot) fun _ => ?_
    refine tracks_advance hj h hmid fun _ _ h => (tracks_parseFaultKind hj _ _ h).bind ?_
    rintro (_ | fault) v v' hfault h
    · cases hfault
    refine (tracks_loop hj (fun fault _ _ h => tracks_faultOption hj fault h) _ h).bind
      fun fault _ _ _ h => ?_
    exact tracks_set (fun _ => by rfl) h
  · rw [if_pos hword]
    exact tracks_error

omit hj in
theorem name_ok {bus : Text} {u : ConfigParser R} {out : List Diagnostic}
    (hrun : name s = .ok (some bus, u, out)) :
    (s.head.kind = .identifier ∨ s.head.kind = .string) ∧ u = behind s := by
  obtain ⟨t, s₁, out₁, out₂, hcurrent, hrest, -⟩ := bind_ok hrun
  cases hcurrent
  by_cases hname : s.head.kind ≠ .identifier ∧ s.head.kind ≠ .string
  · rw [if_pos hname] at hrest
    cases hrest
  · rw [if_neg hname] at hrest
    cases hrest
    refine ⟨?_, rfl⟩
    by_contra hnone
    exact hname (not_or.1 hnone)

omit hj in
/-- A `bus` with a name and nothing behind it. -/
def BareBus (s : ConfigParser R) : Prop :=
  ∃ b n e, s.tokens = [b, n, e] ∧ b.isWord (ascii "bus") = true ∧
    (n.kind = .identifier ∨ n.kind = .string)

theorem tracks_parseBus (hword : s.head.isWord (ascii "bus") = true)
    (hbare : ¬BareBus s ∨ ∀ t ∈ j.rest.head?, t.kind = .end) (h : Beside j s s') :
    Tracks (pairing j) never always (parseBus : ConfigM R Unit) parseBus s s' := by
  have hkind := not_end_of_isWord hword
  have hnext := (beside_behind hj h hkind).2
  refine .of_quiet quiet_advance quiet_advance ?_
  refine (tracks_name hj hnext).bind_run ?_ fun _ _ _ _ _ hnever => hnever.elim
  rintro (_ | bus) u u' out hbus hname hu
  · cases hbus
  obtain ⟨hgiven, rfl⟩ := name_ok hname
  refine (tracks_set (fun _ => by rfl) hu).bind_run (fun _ v v' _ _ hset hv => ?_)
    fun _ _ _ _ _ hnever => hnever.elim
  refine (tracks_parseNominal hj ?_ hv).bind fun _ _ _ _ h => tracks_parseDataRate hj h
  by_cases hmore : v.head.kind = .end
  · obtain ⟨hlast, hrest⟩ := tokens_last hv hmore
    have hbehind : (behind (behind s)).tokens = [j.last] := by
      cases hset
      exact hlast
    have hkind' : (behind s).head.kind ≠ .end := by
      rcases hgiven with hkind | hkind <;> · rw [hkind]; decide
    have htokens : s.tokens = [s.head, (behind s).head, j.last] := by
      rw [tokens_behind hj h hkind, tokens_behind hj hnext hkind', hbehind]
    have hends := hbare.resolve_left fun hnot => hnot ⟨_, _, _, htokens, hword, hgiven⟩
    obtain ⟨t, later, hcons⟩ := List.exists_cons_of_ne_nil hj.rest
    right
    have hhead : v'.head = t := by simp [head, hrest, hcons]
    rw [hhead]
    exact hends t (by simp [hcons])
  · exact .inl hmore

theorem tracks_parseSection (hkind : s.head.kind = .identifier)
    (hbare : ¬BareBus s ∨ ∀ t ∈ j.rest.head?, t.kind = .end) (h : Beside j s s') :
    Tracks (pairing j) (fun _ t => t.config.Blank) always
      (parseSection s.head.text : ConfigM R Unit) (parseSection s.head.text) s s' := by
  have hmid : s.head.kind ≠ .end := by
    rw [hkind]
    decide
  refine .ite Iff.rfl (fun hbus => .excuse ?_) fun _ => .ite Iff.rfl (fun _ => .excuse ?_)
    fun _ => .ite Iff.rfl (fun _ => ?_) fun _ => .ite Iff.rfl (fun _ => .excuse ?_) fun _ =>
    .ite Iff.rfl (fun _ => .excuse ?_) fun _ => .ite Iff.rfl (fun _ => .excuse ?_)
    fun _ => tracks_error
  · exact tracks_parseBus hj (by simp [Token.isWord, hkind, hbus]) hbare h
  · exact tracks_parseDatabase hj hmid h
  · exact tracks_parseNode hj hmid h
  · exact tracks_parsePlant hj hmid h
  · exact tracks_parseDrive hj hmid h
  · exact tracks_parseFault hj hmid h

/-- **A round of `run` in step**, at a token of the text. -/
theorem tracks_run (hkind : s.head.kind ≠ .end)
    (hbare : ¬BareBus s ∨ ∀ t ∈ j.rest.head?, t.kind = .end) (h : Beside j s s') :
    Tracks (pairing j) (fun _ t => t.config.Blank) always (runRound () : ConfigM R (Unit × Bool))
      (runRound ()) s s' := by
  refine tracks_current hj h fun halike => ?_
  have htext : (moveBy j.shift s.head).text = s.head.text := rfl
  rw [(beside_behind hj h hkind).1, htext]
  refine .ite Iff.rfl (fun hend => absurd hend hkind) fun _ => .ite Iff.rfl (fun _ => tracks_error)
    fun hname => ?_
  refine (tracks_parseSection hj (not_not.1 hname) hbare h).bind_of
    (fun _ _ _ _ h => .pure trivial h) fun _ t r u out hblank hrun => ?_
  cases hrun
  exact hblank

end

end ConfigParser

end Sim
end Canforge
