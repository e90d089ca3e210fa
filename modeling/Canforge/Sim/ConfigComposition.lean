/-
# Configurations one behind the other

Configuration texts compose: where two of them are accepted, so is the one behind the other, and
what it says is what the second one makes of the configuration of the first (`parseConfigString_append`).
The one exception is a text that ends in a `bus` with nothing behind its name, which takes the word
of the next section for its bit rate.
-/

import Canforge.Sim.ConfigRounds
import Canforge.Text.JoinedSources

namespace Canforge
namespace Sim

open Canforge.Core Text Lib Reporting

variable {R : Type} [Scalar R]

/-! ### What is reported -/

theorem lexToken_error (source : Source) (s : Lexer) :
    ∀ d ∈ (s.lexToken (R := R) source).2.2, d.severity = .error := by
  intro d hd
  unfold Lexer.lexToken at hd
  dsimp only at hd
  split_ifs at hd
  · cases hd
  · cases hd
  · unfold Lexer.lexString at hd
    dsimp only at hd
    split_ifs at hd
    · cases hd
    · rw [List.mem_singleton.1 hd]
      rfl
  · unfold Lexer.lexPunctuation at hd
    dsimp only at hd
    split_ifs at hd
    · rw [List.mem_singleton.1 hd]
      rfl
    · cases hd

/-- Everything that the lexer reports is an error. -/
theorem tokenise_error (source : Source) :
    ∀ d ∈ (tokenise (R := R) source).2, d.severity = .error := by
  suffices h : ∀ n (s : Lexer), ∀ d ∈ (Lexer.tokeniseFrom (R := R) source n s).2,
      d.severity = .error from h _ _
  intro n
  induction n with
  | zero =>
    intro s d hd
    cases hd
  | succ n ih =>
    intro s d hd
    rw [Lexer.tokeniseFrom_succ, Lexer.round] at hd
    split_ifs at hd
    · cases hd
    · rcases List.mem_append.1 hd with hd | hd
      · exact lexToken_error source _ d hd
      · exact ih _ d hd

section

variable {G : Type} [Engine G R] {config : SimConfig R}

theorem checkBindings_error : ∀ d ∈ checkBindings G config, d.severity = .error := by
  intro d hd
  obtain ⟨b, -, hb⟩ := List.mem_flatMap.1 hd
  unfold checkBinding at hb
  split_ifs at hb
  · split at hb
    · cases hb
    · rw [List.mem_singleton.1 hb]
  · split at hb
    · cases hb
    · rw [List.mem_singleton.1 hb]

/-- A binding that says nothing is not built. -/
theorem not_blank (h : checkBindings G config = []) : ¬config.Blank := by
  rintro ⟨node, hnode, tx, htx, b, hb, hfield, hexpression⟩
  have hmem : b ∈ config.bindings :=
    List.mem_flatMap.2 ⟨node, hnode, List.mem_flatMap.2 ⟨tx, htx, hb⟩⟩
  have hnone := List.flatMap_eq_nil_iff.1 h b hmem
  have hbuild : ∃ e, (buildSource [] : Result (SignalSource G R)) = .error e := ⟨_, rfl⟩
  obtain ⟨e, he⟩ := hbuild
  rw [checkBinding, hfield, hexpression, he] at hnone
  cases hnone

/-- The bindings of more nodes. -/
theorem checkBindings_append {more : List NodeSpec} {a c : SimConfig R}
    (h : c.nodes = a.nodes ++ more) : checkBindings G c = [] ↔
      checkBindings G a = [] ∧ checkBindings G ({ nodes := more } : SimConfig R) = [] := by
  unfold checkBindings SimConfig.bindings
  rw [h, List.flatMap_append, List.flatMap_append, List.append_eq_nil_iff]

end

/-! ### Texts that are accepted -/

/-- The parser at the beginning of a source that stands further down in another one. -/
def ConfigParser.startIn (joined source : Source) (shift : BitVec 32) (config : SimConfig R) :
    ConfigParser R :=
  { source := joined, tokens := (tokenise source).1.map (moveBy shift), config }

/-- The configuration of a text that is accepted. -/
def accepted (result : Except ConfigStop (ConfigParseResult R)) : Option (SimConfig R) :=
  match result with
  | .ok r => if r.ok then some r.config else none
  | .error _ => none

/-- A source that is accepted, and the parser at its end. -/
structure ReadsAs (G : Type) [Engine G R] (source : Source) (config : SimConfig R)
    (t : ConfigParser R) : Prop where
  quiet : (tokenise (R := R) source).2 = []
  run : ∃ out, ConfigParser.run (.start source config) = .ok ((), t, out) ∧
    ∀ d ∈ out, d.severity ≠ .error
  bindings : checkBindings G t.config = []

section

variable {G : Type} [Engine G R] {config : SimConfig R}

theorem hasErrors_iff {ds : List Diagnostic} :
    hasErrors ds = false ↔ ∀ d ∈ ds, d.severity ≠ .error := by
  simp [hasErrors]

theorem accepted_iff {text filename : Text} {c : SimConfig R} :
    accepted (parseConfigOver G config text filename) = some c ↔
      ∃ t, ReadsAs G (Source.normalise text filename) config t ∧ t.config = c := by
  have hlexed := tokenise_error (R := R) (Source.normalise text filename)
  have hnil : ∀ {ds : List Diagnostic}, (∀ d ∈ ds, d.severity = .error) →
      (∀ d ∈ ds, d.severity ≠ .error) → ds = [] := fun hall hnone =>
    List.eq_nil_iff_forall_not_mem.2 fun d hd => hnone d hd (hall d hd)
  unfold accepted
  rw [parseConfigOver_eq]
  cases hrun : ConfigParser.run (.start (Source.normalise text filename) config) with
  | error e =>
    refine iff_of_false (by simp) ?_
    rintro ⟨t, ⟨-, ⟨out, hrun', -⟩, -⟩, -⟩
    rw [hrun] at hrun'
    cases hrun'
  | ok r =>
    obtain ⟨⟨⟩, t, out⟩ := r
    dsimp only
    constructor
    · intro h
      split_ifs at h with hok
      obtain rfl := Option.some.inj h
      have hclean := hasErrors_iff.1 (Bool.not_eq_true' _ ▸ hok)
      obtain ⟨hfront, hbindings⟩ := List.forall_mem_append.1 hclean
      obtain ⟨hquiet, hout⟩ := List.forall_mem_append.1 hfront
      exact ⟨t, ⟨hnil hlexed hquiet, ⟨out, hrun, hout⟩, hnil checkBindings_error hbindings⟩, rfl⟩
    · rintro ⟨t', ⟨hquiet, ⟨out', hrun', hclean⟩, hbindings⟩, rfl⟩
      rw [hrun] at hrun'
      cases hrun'
      rw [if_pos]
      rw [ConfigParseResult.ok, hquiet, hbindings, List.nil_append, List.append_nil,
        hasErrors_iff.2 hclean]
      rfl

end

/-! ### A source elsewhere -/

theorem not_error_of_said {out out' : List Diagnostic} (h : out'.map said = out.map said)
    (hclean : ∀ d ∈ out, d.severity ≠ .error) : ∀ d ∈ out', d.severity ≠ .error := by
  intro d hd herror
  have hmem : said d ∈ out.map said := h ▸ List.mem_map_of_mem hd
  obtain ⟨d', hd', hsame⟩ := List.mem_map.1 hmem
  exact hclean d' hd' ((congrArg Prod.fst hsame).trans herror)

section

variable {G : Type} [Engine G R] {source joined : Source} {c c' : SimConfig R} {t : ConfigParser R}

/-- **What a source says does not depend on where it stands**, nor on the configuration it is
read over. -/
theorem ReadsAs.moved (joined : Source) (shift : BitVec 32) (c' : SimConfig R)
    (h : ReadsAs G source c t) (hproper : source.Proper) (hlength : source.text.length < 2 ^ 32)
    (hlines : ∀ before after, source.text = before ++ after →
      joined.line ((placeOf before).line + shift) = source.line (placeOf before).line) :
    ∃ t' out, ConfigParser.run (.startIn joined source shift c') = .ok ((), t', out) ∧
      (∀ d ∈ out, d.severity ≠ .error) ∧ ∃ f, Appends f ∧ t.config = f c ∧ t'.config = f c' := by
  obtain ⟨out, hrun, hclean⟩ := h.run
  obtain ⟨front, e, hdivided⟩ := divided_of_quiet h.quiet
  have htokens : (ConfigParser.start source c).tokens = front ++ [e] :=
    congrArg Prod.fst hdivided.tokens
  let j : Joint R :=
    { alone := source, joined, shift, last := e, rest := [moveBy shift e], config := c,
      joinedConfig := c' }
  have hj : j.Apt := by
    refine ⟨hdivided.last, ?_, List.cons_ne_nil _ _, ?_⟩
    · rw [hdivided.place]
      exact hproper.line_last hlength
    · intro v hv
      obtain rfl := Option.some.inj hv
      exact .inl hdivided.last
  have hend : ∀ v ∈ j.rest.head?, v.kind = .end := by
    intro v hv
    obtain rfl := Option.some.inj hv
    exact hdivided.last
  have hbeside : Beside j (ConfigParser.start source c) (.startIn joined source shift c') := by
    refine ⟨rfl, rfl, ⟨front, htokens, ?_, fun u hu => ?_⟩, id, ⟨[], ?_⟩, rfl, rfl⟩
    · rw [ConfigParser.startIn, hdivided.tokens, List.map_append]
      rfl
    · obtain ⟨hkind, w, w', hw, -, hplace⟩ := hdivided.places u hu
      refine ⟨hkind, ?_, fun v hv hne => absurd (hend v hv) hne⟩
      rw [hplace]
      exact hlines w w' hw
    · exact fun _ => (List.append_nil _).symm
  obtain ⟨t', out', hrun', hsaid, ht⟩ := ConfigParser.run_beside hj hend
    ⟨moveBy shift e, rfl, hdivided.last⟩ hrun hclean hbeside (not_blank h.bindings)
  exact ⟨t', out', hrun', not_error_of_said hsaid hclean, ht.config⟩

/-- The same text under another name, read over another configuration. -/
theorem ReadsAs.over (c' : SimConfig R) (h : ReadsAs G source c t) (hproper : source.Proper)
    (hproper' : joined.Proper) (hsame : joined.text = source.text)
    (hlength : source.text.length < 2 ^ 32) (hbindings : checkBindings G c' = []) :
    ∃ t', ReadsAs G joined c' t' ∧ ∃ f, Appends f ∧ t.config = f c ∧ t'.config = f c' := by
  obtain ⟨front, e, hdivided⟩ := divided_of_quiet h.quiet
  have hstay : ∀ ts : List (Token R), ts.map (moveBy 0) = ts := fun ts =>
    (List.map_congr_left fun t _ => moveBy_zero t).trans (List.map_id _)
  have hlines : ∀ n, joined.line n = source.line n := fun n => by
    rw [Source.line, Source.line, hproper.starts, hproper'.starts, hsame]
  obtain ⟨t', out, hrun, hclean, f, hf, hconfig, hconfig'⟩ :=
    h.moved joined 0 c' hproper hlength
      fun before _ _ => by rw [add_zero, hlines]
  have halong : Along 0 0 [] { rest := source.text } { rest := joined.text } :=
    ⟨by rw [hsame, List.append_nil], rfl, rfl, rfl, rfl⟩
  have htokens : tokenise (R := R) joined = (front ++ [e], []) := by
    have hmoved := tokens_moved (R := R) joined halong (show Lexer.here _ = placeOf [] from rfl)
      h.quiet
    have hsource : Lexer.tokens R source { rest := source.text } = (front ++ [e], []) :=
      hdivided.tokens
    rw [hsource, hstay] at hmoved
    exact hmoved
  rw [ConfigParser.startIn, hdivided.tokens, hstay] at hrun
  refine ⟨t', ⟨congrArg Prod.snd htokens, ⟨out, ?_, hclean⟩, ?_⟩, f, hf, hconfig, hconfig'⟩
  · rw [ConfigParser.start, htokens]
    exact hrun
  · obtain ⟨more, hmore⟩ := hf
    have hown := h.bindings
    rw [hconfig, checkBindings_append (hmore c)] at hown
    rw [hconfig', checkBindings_append (hmore c')]
    exact ⟨hbindings, hown.2⟩

end

/-! ### One source behind another -/

/-- The last section of a source is a `bus` with nothing behind its name. -/
def EndsInBus (source : Source) (c : SimConfig R) : Prop :=
  ∃ out u, ConfigParser.Sections (.start source c) out u ∧ ConfigParser.BareBus u

/-- A source that is not all comments. -/
def HasSections (R : Type) [Scalar R] (source : Source) : Prop :=
  ∃ t ∈ (tokenise (R := R) source).1.head?, t.kind ≠ .end

section

variable {G : Type} [Engine G R] {first second both : Source} {c : SimConfig R}
  {t u : ConfigParser R} {front front' : List (Token R)} {e e' : Token R}

/-- The source in front, alone and with the other one behind it. -/
def inFront (first both : Source) (c : SimConfig R) (e : Token R) (behind : List (Token R)) :
    Joint R :=
  { alone := first, joined := both, shift := 0, last := e,
    rest := behind.map (moveBy (linesOf first.text)), config := c, joinedConfig := c }

theorem inFront_apt (h : InFront first second both) (hfirst : Divided first front e)
    (hopens : ∀ t ∈ (front' ++ [e']).head?, OpensSection t) :
    (inFront first both c e (front' ++ [e'])).Apt := by
  refine ⟨hfirst.last, ?_, by simp [inFront], ?_⟩
  · change first.line e.location.line = []
    rw [hfirst.place]
    exact h.front.line_last h.lengths.1
  · intro v hv
    rw [inFront, List.head?_map] at hv
    obtain ⟨w, hw, rfl⟩ := Option.mem_map.1 hv
    exact hopens w hw

theorem inFront_beside (h : InFront first second both) (hfirst : Divided first front e)
    (hsecond : Divided second front' e') (hne : second.text ≠ []) :
    Beside (inFront first both c e (front' ++ [e'])) (.start first c) (.start both c) := by
  have hstay : front.map (moveBy 0) = front :=
    (List.map_congr_left fun t _ => moveBy_zero t).trans (List.map_id _)
  have htokens := tokenise_join (R := R) h.text h.front.ended hne
    (congrArg Prod.snd hfirst.tokens) (congrArg Prod.snd hsecond.tokens)
  rw [hfirst.tokens, hsecond.tokens, List.dropLast_concat] at htokens
  refine ⟨rfl, rfl, ⟨front, congrArg Prod.fst hfirst.tokens, ?_, fun v hv => ?_⟩, id, ⟨[], ?_⟩,
    rfl, rfl⟩
  · change (tokenise (R := R) both).1 = front.map (moveBy 0) ++ _
    rw [htokens, hstay]
    rfl
  · obtain ⟨hkind, w, w', hw, hw', hplace⟩ := hfirst.places v hv
    refine ⟨hkind, ?_, fun x hx hxkind => ?_⟩
    · change both.line (v.location.line + 0) = first.line v.location.line
      rw [add_zero, hplace]
      exact line_front h hw hw'
    · rw [inFront, List.head?_map] at hx
      obtain ⟨y, hy, rfl⟩ := Option.mem_map.1 hx
      have hmem : y ∈ front' := by
        cases front' with
        | nil =>
          obtain rfl := Option.some.inj hy
          exact absurd hsecond.last hxkind
        | cons z front' =>
          obtain rfl := Option.some.inj hy
          exact List.mem_cons_self
      obtain ⟨-, x, x', hx, hx', hyplace⟩ := hsecond.places y hmem
      change v.location.line + 0 ≠ y.location.line + linesOf first.text
      rw [add_zero, hplace, hyplace]
      exact lines_apart h hw hw' hx hx'
  · exact fun _ => (List.append_nil _).symm

/-- What is accepted begins with a section, or is empty. -/
theorem ReadsAs.opens (h : ReadsAs G second c u) (hdivided : Divided second front e) :
    ∀ t ∈ (front ++ [e]).head?, OpensSection t := by
  intro t ht
  obtain ⟨out, hrun, hclean⟩ := h.run
  have hhead : (ConfigParser.start second c).head = t := by
    rw [ConfigParser.head, ConfigParser.start, hdivided.tokens, Option.mem_def.1 ht]
    rfl
  exact hhead ▸ ConfigParser.opens_of_run hrun hclean (hhead ▸ hdivided.first t ht)

variable (hin : InFront first second both) (hne : second.text ≠ [])

include hin hne

/-- The parser comes to the beginning of the source behind. -/
theorem ReadsAs.handover (h : ReadsAs G first c t) (hsecond : ReadsAs G second t.config u)
    (hfree : ¬(EndsInBus first c ∧ HasSections R second)) :
    ∃ out, (∀ d ∈ out, d.severity ≠ .error) ∧ ConfigParser.Sections (.start both c) out
      (.startIn both second (linesOf first.text) t.config) := by
  obtain ⟨front, e, hdivided⟩ := divided_of_quiet h.quiet
  obtain ⟨front', e', hdivided'⟩ := divided_of_quiet hsecond.quiet
  have hj := inFront_apt (c := c) hin hdivided (hsecond.opens hdivided')
  have hbeside := inFront_beside (c := c) hin hdivided hdivided' hne
  obtain ⟨out, hrun, hclean⟩ := h.run
  obtain ⟨hsections, hend⟩ :=
    (ConfigParser.run_iff (ConfigParser.Beside.terminated hj hbeside)).1 hrun
  have hbare : (∀ v ∈ (inFront first both c e (front' ++ [e'])).rest.head?, v.kind = .end) ∨
      ∀ u u₁ out₁ out₂ out₃, ConfigParser.Sections (.start first c) out₁ u →
        ConfigParser.runRound () u = .ok (((), true), u₁, out₂) →
        ConfigParser.Sections u₁ out₃ t → ¬ConfigParser.BareBus u := by
    by_cases hmore : HasSections R second
    · exact .inr fun u _ _ _ _ hreach _ _ hbus => hfree ⟨⟨_, u, hreach, hbus⟩, hmore⟩
    · refine .inl fun v hv => ?_
      rw [inFront, List.head?_map] at hv
      obtain ⟨w, hw, rfl⟩ := Option.mem_map.1 hv
      by_contra hkind
      exact hmore ⟨w, by rwa [hdivided'.tokens], hkind⟩
  obtain ⟨t', out', hsections', hsaid, ht⟩ :=
    ConfigParser.sections_beside hj hsections hclean hbeside (not_blank h.bindings) hbare
  obtain ⟨-, htokens⟩ := ConfigParser.tokens_last ht hend
  have hsame : t' = .startIn both second (linesOf first.text) t.config := by
    obtain ⟨f, -, hconfig, hconfig'⟩ := ht.config
    have hsource := ht.joined
    have hover : t'.config = t.config := hconfig'.trans hconfig.symm
    have hrest : t'.tokens = (tokenise (R := R) second).1.map (moveBy (linesOf first.text)) := by
      rw [htokens, hdivided'.tokens]
      rfl
    cases t'
    dsimp only at hsource hover hrest
    rw [hover, hrest, hsource]
    rfl
  exact ⟨out', not_error_of_said hsaid hclean, hsame ▸ hsections'⟩

/-- **Two sources one behind the other** are read one behind the other. -/
theorem ReadsAs.append (h : ReadsAs G first c t) (hsecond : ReadsAs G second t.config u)
    (hfree : ¬(EndsInBus first c ∧ HasSections R second)) :
    ∃ v, ReadsAs G both c v ∧ v.config = u.config := by
  obtain ⟨out, hclean, hsections⟩ := h.handover hin hne hsecond hfree
  obtain ⟨front, e, hdivided⟩ := divided_of_quiet hsecond.quiet
  obtain ⟨v, out', hrun, hclean', f, -, hconfig, hconfig'⟩ :=
    hsecond.moved both (linesOf first.text) t.config hin.back hin.lengths.2
      fun _ _ hsplit => line_back hin hsplit
  have htokens := tokenise_join (R := R) hin.text hin.front.ended hne h.quiet hsecond.quiet
  have hterm : Terminated
      (ConfigParser.startIn both second (linesOf first.text) t.config).tokens := by
    rw [ConfigParser.startIn, hdivided.tokens]
    exact ⟨moveBy (linesOf first.text) e, by simp, hdivided.last⟩
  have hstart : Terminated (ConfigParser.start both c).tokens := by
    rw [ConfigParser.start, htokens, hdivided.tokens]
    exact ⟨moveBy (linesOf first.text) e, by simp, hdivided.last⟩
  obtain ⟨hsections', hend⟩ := (ConfigParser.run_iff hterm).1 hrun
  have hover : v.config = u.config := hconfig'.trans hconfig.symm
  refine ⟨v, ⟨congrArg Prod.snd htokens, ⟨out ++ out', ?_, ?_⟩, hover ▸ hsecond.bindings⟩, hover⟩
  · exact (ConfigParser.run_iff hstart).2 ⟨hsections.trans hsections', hend⟩
  · exact List.forall_mem_append.2 ⟨hclean, hclean'⟩

/-- A `bus` with nothing behind its name takes the first word of the source behind. -/
theorem not_accepts_bus (h : ReadsAs G first c t) (hsecond : ReadsAs G second t.config u)
    (hbus : EndsInBus first c) (hsections : HasSections R second) (v : ConfigParser R) :
    ¬ReadsAs G both c v := by
  rintro ⟨-, ⟨outv, hrunv, hcleanv⟩, -⟩
  obtain ⟨front, e, hdivided⟩ := divided_of_quiet h.quiet
  obtain ⟨front', e', hdivided'⟩ := divided_of_quiet hsecond.quiet
  have hopens := hsecond.opens hdivided'
  have hj := inFront_apt (c := c) hin hdivided hopens
  have hbeside := inFront_beside (c := c) hin hdivided hdivided' hne
  have hterm := ConfigParser.Beside.terminated hj hbeside
  obtain ⟨out, hrun, hclean⟩ := h.run
  obtain ⟨hwhole, hend⟩ := (ConfigParser.run_iff hterm).1 hrun
  obtain ⟨out₁, w, hreach, hbare⟩ := hbus
  -- the bus is on the way of the parser in the first source
  obtain ⟨more, hmore, hout⟩ : ∃ more, ConfigParser.Sections w more t ∧ out = out₁ ++ more := by
    refine (hreach.linear hwhole).elim id fun hbehind => ?_
    obtain ⟨more, hmore, -⟩ := hbehind
    exfalso
    cases hmore with
    | stay =>
      obtain ⟨b, n, e, htokens, hword, -⟩ := hbare
      have hhead : t.head = b := by simp [ConfigParser.head, htokens]
      exact ConfigParser.not_end_of_isWord (hhead ▸ hword) hend
    | go hround _ => exact ConfigParser.runRound_next hround hend
  rw [hout] at hclean
  have hblank : ¬w.config.Blank := fun hblank => not_blank h.bindings <|
    ConfigParser.blank_mono (hmore.way (c := ConfigParser.course R) ConfigParser.advancing_run
      (hreach.way (c := ConfigParser.course R) ConfigParser.advancing_run hterm).1).2.1 hblank
  -- no other one is in front of it, which would have as few tokens left
  have hfirst : ∀ x x₁ out₂ out₃ out₄, ConfigParser.Sections (.start first c) out₂ x →
      ConfigParser.runRound () x = .ok (((), true), x₁, out₃) →
      ConfigParser.Sections x₁ out₄ w → ¬ConfigParser.BareBus x := by
    rintro x x₁ out₂ out₃ out₄ hx hround hrest ⟨b, n, l, htokens, -⟩
    obtain ⟨b', n', l', htokens', -⟩ := hbare
    have hsound := (hx.way (c := ConfigParser.course R) ConfigParser.advancing_run hterm).1
    obtain ⟨hsound', -, hless⟩ :=
      Rounds.one (c := ConfigParser.course R) hround ConfigParser.advancing_run hsound
    obtain ⟨-, -, hle⟩ := hrest.way (c := ConfigParser.course R) ConfigParser.advancing_run hsound'
    have hlength : w.tokens.length = x.tokens.length := by rw [htokens, htokens']; rfl
    have hless' : x₁.tokens.length < x.tokens.length := hless
    have hle' : w.tokens.length ≤ x₁.tokens.length := hle
    omega
  obtain ⟨w', out', hreach', -, hw⟩ := ConfigParser.sections_beside hj hreach
    (List.forall_mem_append.1 hclean).1 hbeside hblank (.inr hfirst)
  obtain ⟨x, hx, hxkind⟩ := hsections
  rw [hdivided'.tokens] at hx
  obtain ⟨later, hlater⟩ : ∃ later, front' ++ [e'] = x :: later := List.head?_eq_some_iff.1 hx
  obtain ⟨hxname, -, hxtext⟩ := (hopens x hx).resolve_left hxkind
  have hrest : (inFront first both c e (front' ++ [e'])).rest =
      moveBy (linesOf first.text) x :: later.map (moveBy (linesOf first.text)) := by
    rw [inFront, hlater]
    rfl
  have hfails := ConfigParser.fails_bareBus hw hbare hrest hxname hxtext
  have hrunFails : ConfigParser.Fails ConfigParser.run (.start both c) :=
    Grave.of_quiet (quiet_get.2 ⟨rfl, rfl⟩) (hreach'.grave hfails)
  obtain ⟨d, hd, herror⟩ := hrunFails _ _ _ hrunv
  exact hcleanv d hd herror

end

section

variable {G : Type} [Engine G R] {a b : SimConfig R} {first second : Text}

end

/-- A bus and a node on it. -/
def kBusText : Text :=
  ascii "bus can0 500000\nnode ECM\n  tx EngineData cycle 10ms\n    signal RPM = plant.engine_rpm\n"

/-- Another node. -/
def kGatewayText : Text :=
  ascii "# the gateway\nnode GW\n  tx Status cycle 1s\n    signal Mode = const 3\n"

end Sim
end Canforge
