/-
# Sections one behind the other

`run` of the parser reads sections up to the end (`run_iff`).  A parser on a text in front of
another one does the same sections (`rounds_beside`), and then it is where the other text begins,
unless the last section is a `bus` that goes on there (`grave_bareBus`).
-/

import Canforge.Lib.Rounds
import Canforge.Sim.ConfigLockstep

namespace Canforge
namespace Sim

open Canforge.Core Text Lib Reporting

namespace ConfigParser

variable {R : Type} [Scalar R] {s t u : ConfigParser R} {out out' : List Diagnostic}

/-- Sections that the parser reads one behind the other. -/
def Sections (s : ConfigParser R) (out : List Diagnostic) (t : ConfigParser R) : Prop :=
  Rounds (runRound (R := R)) () s out () t

theorem runRound_last {b : Unit} (h : runRound () s = .ok ((b, false), t, out)) :
    s.head.kind = .end ∧ t = s ∧ out = [] := by
  obtain ⟨a, s₁, out₁, out₂, hcurrent, hrest, rfl⟩ := bind_ok h
  cases hcurrent
  by_cases hend : s.head.kind = .end
  · rw [if_pos hend] at hrest
    cases hrest
    exact ⟨hend, rfl, rfl⟩
  · rw [if_neg hend] at hrest
    exfalso
    split_ifs at hrest
    · obtain ⟨_, _, _, _, -, hrest, -⟩ := bind_ok hrest
      obtain ⟨_, _, _, _, -, hrest, -⟩ := bind_ok hrest
      cases hrest
    · obtain ⟨_, _, _, _, -, hrest, -⟩ := bind_ok hrest
      cases hrest

theorem runRound_end (h : s.head.kind = .end) : runRound () s = .ok (((), false), s, []) := by
  refine ok_bind (quiet_current (s := s)) ?_
  rw [if_pos h]
  rfl

theorem runRound_next {b : Unit} (h : runRound () s = .ok ((b, true), t, out)) :
    s.head.kind ≠ .end := by
  intro hend
  rw [runRound_end hend] at h
  cases h

/-- **`run` reads sections up to the end.** -/
theorem run_iff (hterm : Terminated s.tokens) :
    run s = .ok ((), t, out) ↔ Sections s out t ∧ t.head.kind = .end := by
  constructor
  · intro h
    obtain ⟨a, s₁, out₁, out₂, hone, hloop, rfl⟩ := bind_ok h
    cases hone
    obtain ⟨_, u, out₃, out₄, hrounds, hlast, rfl⟩ := Rounds.of_loop hloop
    obtain ⟨hend, rfl, rfl⟩ := runRound_last hlast
    rw [List.append_nil]
    exact ⟨hrounds, hend⟩
  · rintro ⟨hrounds, hend⟩
    have hloop := hrounds.loop (e := ConfigStop.outOfFuel) (runRound_end hend)
      (c := course R) advancing_run hterm (Nat.lt_succ_self _)
    rw [List.append_nil] at hloop
    exact ok_bind (quiet_get.2 ⟨rfl, rfl⟩) hloop

/-! ### In step -/

variable {j : Joint R} {s' : ConfigParser R}

/-- A configuration with a binding that says nothing keeps it. -/
theorem blank_mono (h : Onward s out t) (hblank : s.config.Blank) : t.config.Blank := by
  obtain ⟨node, hnode, hsays⟩ := hblank
  exact ⟨node, h.nodes.subset hnode, hsays⟩

theorem Beside.terminated (hj : j.Apt) (h : Beside j s s') : Terminated s.tokens := by
  obtain ⟨tokens, hs, -, -⟩ := h.tokens
  exact ⟨j.last, by simp [hs], hj.last⟩

/-- **The same sections in both**, if none of them but the last is a `bus` with nothing behind its
name, or nothing is behind the text. -/
theorem sections_beside (hj : j.Apt) (h : Sections s out t) (hclean : ∀ d ∈ out, d.severity ≠ .error)
    (hbeside : Beside j s s') (hblank : ¬t.config.Blank)
    (hbare : (∀ v ∈ j.rest.head?, v.kind = .end) ∨ ∀ u u₁ out₁ out₂ out₃, Sections s out₁ u →
      runRound () u = .ok (((), true), u₁, out₂) → Sections u₁ out₃ t → ¬BareBus u) :
    ∃ t' out', Sections s' out' t' ∧ out'.map said = out.map said ∧ Beside j t t' := by
  have hterm := Beside.terminated hj hbeside
  refine (Rounds.tracks (c := pairing j) (fun _ u => u.config.Blank)
    (fun _ u => Terminated u.tokens ∧ ∃ out, Sections s out u) h hclean hbeside
    ⟨hterm, [], .stay () s⟩ ?_ ?_ ?_).resolve_left hblank
  · rintro _ v _ u out₁ ⟨hv, out₂, hsections⟩ hround
    exact ⟨(Rounds.one (c := course R) hround advancing_run hv).1, out₂ ++ (out₁ ++ []),
      hsections.trans (.go hround (.stay () u))⟩
  · rintro _ v v' _ u out₁ more ⟨hv, out₂, hsections⟩ hsame hround hrest
    refine tracks_run hj (runRound_next hround) ?_ hsame
    exact hbare.symm.imp_left fun hnot => hnot v u _ _ _ hsections hround hrest
  · rintro _ v _ u out₁ ⟨hv, -⟩ hex hround
    exact blank_mono (Rounds.one (c := course R) hround advancing_run hv).2.1 hex

/-- The whole text in both, if it is at the end of the longer one. -/
theorem run_beside (hj : j.Apt) (hrest : ∀ v ∈ j.rest.head?, v.kind = .end)
    (hterm : Terminated j.rest) (h : run s = .ok ((), t, out))
    (hclean : ∀ d ∈ out, d.severity ≠ .error) (hbeside : Beside j s s')
    (hblank : ¬t.config.Blank) :
    ∃ t' out', run s' = .ok ((), t', out') ∧ out'.map said = out.map said ∧ Beside j t t' := by
  obtain ⟨hsections, hend⟩ := (run_iff (Beside.terminated hj hbeside)).1 h
  obtain ⟨t', out', hsections', hsaid, ht⟩ :=
    sections_beside hj hsections hclean hbeside hblank (.inl hrest)
  obtain ⟨-, htokens⟩ := tokens_last ht hend
  have hterm' : Terminated s'.tokens := by
    obtain ⟨tokens, -, hs', -⟩ := hbeside.tokens
    obtain ⟨e, he, hkind⟩ := hterm
    refine ⟨e, ?_, hkind⟩
    rw [hs', List.getLast?_append, Option.mem_def.1 he]
    rfl
  refine ⟨t', out', (run_iff hterm').2 ⟨hsections', ?_⟩, hsaid, ht⟩
  obtain ⟨v, later, hcons⟩ := List.exists_cons_of_ne_nil hj.rest
  have hhead : t'.head = v := by simp [head, htokens, hcons]
  rw [hhead]
  exact hrest v (by simp [hcons])

/-! ### What begins a text -/

variable {grave : Diagnostic → Prop}

/-- Every run reports an error. -/
abbrev Fails {α : Type} (p : ConfigM R α) (s : ConfigParser R) : Prop :=
  Grave (fun d => d.severity = .error) p s

theorem fails_error {message note : Text} {α : Type} {f : Unit → ConfigM R α} :
    Fails (error message note >>= f) s :=
  (grave_error (j := ⟨s.source, s.source, 0, noToken, [], s.config, s.config⟩) message note).bind

/-- Without an error a text begins with a section, or is empty. -/
theorem opens_of_run (h : run s = .ok ((), t, out)) (hclean : ∀ d ∈ out, d.severity ≠ .error)
    (hfirst : s.head.firstOnLine = true) : OpensSection s.head := by
  by_contra hopens
  have hkind : s.head.kind ≠ .end := fun hend => hopens (.inl hend)
  have hfails : Fails (runRound ()) s := by
    refine Grave.of_quiet quiet_current ?_
    rw [if_neg hkind]
    split_ifs with hname
    · exact fails_error
    · have htext : s.head.text ∉ kSections := fun hmem => hopens (.inr ⟨not_not.1 hname, hfirst, hmem⟩)
      have hwords : s.head.text ≠ ascii "bus" ∧ s.head.text ≠ ascii "database" ∧
          s.head.text ≠ ascii "node" ∧ s.head.text ≠ ascii "plant" ∧
          s.head.text ≠ ascii "drive" ∧ s.head.text ≠ ascii "fault" := by
        refine ⟨?_, ?_, ?_, ?_, ?_, ?_⟩ <;>
          · intro heq
            refine htext ?_
            rw [heq]
            decide
      obtain ⟨hbus, hdatabase, hnode, hplant, hdrive, hfault⟩ := hwords
      refine Grave.bind ?_
      rw [parseSection, if_neg hbus, if_neg hdatabase, if_neg hnode, if_neg hplant, if_neg hdrive,
        if_neg hfault]
      exact fails_error
  have hloop := (Rounds.stay () s).grave (e := ConfigStop.outOfFuel) (n := s.tokens.length + 1) hfails
  have hrun : Fails run s := Grave.of_quiet (quiet_get.2 ⟨rfl, rfl⟩) hloop
  obtain ⟨d, hd, herror⟩ := hrun _ _ _ h
  exact hclean d hd herror

/-! ### A bus with nothing behind its name -/

/-- The word of a section is no number. -/
theorem fails_number (hkind : s.head.kind = .identifier) (htext : s.head.text ∈ kSections) :
    Fails number s := by
  have hsign : Quiet numberSign s (Scalar.lit 1) s := by
    refine quiet_bind.2 ⟨s.head, s, quiet_current, ?_⟩
    rw [if_neg (by simp [hkind]), if_neg (by simp [hkind])]
    exact quiet_pure.2 ⟨rfl, rfl⟩
  refine Grave.of_quiet hsign (Grave.of_quiet quiet_current ?_)
  rw [if_neg (by simp [hkind]), if_pos hkind, (not_read_section s.head.text htext).1]
  exact fails_error

/-- **A `bus` with nothing behind its name takes the word of the next section for its bit rate.** -/
theorem fails_bareBus (hbeside : Beside j s s') (hbare : BareBus s) {v : Token R}
    {later : List (Token R)} (hrest : j.rest = v :: later) (hkind : v.kind = .identifier)
    (htext : v.text ∈ kSections) : Fails (runRound ()) s' := by
  obtain ⟨b, n, e, htokens, hword, hname⟩ := hbare
  obtain ⟨tokens, hs, hs', -⟩ := hbeside.tokens
  have hfront : tokens = [b, n] := by
    have hsplit : tokens ++ [j.last] = [b, n] ++ [e] := hs.symm.trans htokens
    exact (List.append_inj' hsplit rfl).1
  rw [hfront, hrest] at hs'
  change s'.tokens = moveBy j.shift b :: moveBy j.shift n :: v :: later at hs'
  have hone : behind s' = { s' with tokens := moveBy j.shift n :: v :: later } := by
    simp [behind, hs']
  have htwo : behind (behind s') = { s' with tokens := v :: later } := by
    rw [hone]
    simp [behind]
  obtain ⟨hidentifier, hbus⟩ : b.kind = .identifier ∧ b.text = ascii "bus" := by
    simpa [Token.isWord] using hword
  have hhead : s'.head = moveBy j.shift b := by simp [head, hs']
  obtain ⟨bus, hbusName⟩ : ∃ bus, Quiet name (behind s') (some bus) (behind (behind s')) := by
    have hhead' : (behind s').head = moveBy j.shift n := by simp [hone, head]
    refine ⟨if n.kind = .string then n.value else n.text,
      quiet_bind.2 ⟨_, _, quiet_current, ?_⟩⟩
    rw [hhead', if_neg fun hnot => hname.elim hnot.1 hnot.2]
    exact quiet_bind.2 ⟨_, _, quiet_advance, quiet_pure.2 ⟨by rw [hhead']; rfl, rfl⟩⟩
  have hsection : (parseSection (moveBy j.shift b).text : ConfigM R Unit) = parseBus := if_pos hbus
  refine Grave.of_quiet quiet_current ?_
  rw [hhead, if_neg (by simp [moveBy, hidentifier]), if_neg (by simp [moveBy, hidentifier]),
    hsection]
  refine Grave.bind (Grave.of_quiet quiet_advance (Grave.of_quiet hbusName ?_))
  refine Grave.of_quiet (a := ()) (quiet_modify.2 rfl) ?_
  rw [htwo]
  refine Grave.bind (Grave.of_quiet quiet_current (Grave.of_quiet quiet_current ?_))
  have hgoes : ∀ {α : Type} {p q : ConfigM R α} {u : ConfigParser R}, u.head = v → Fails p u →
      Fails (if u.head.kind ≠ .end ∧ u.head.location.line = u.head.location.line ∧
        (u.head.kind = .integer ∨ u.head.kind = .real ∨ u.head.kind = .identifier) then p else q)
        u := by
    intro α p q u hu hp
    rwa [hu, if_pos ⟨by rw [hkind]; decide, rfl, .inr (.inr hkind)⟩]
  exact hgoes rfl (Grave.bind (fails_number (by exact hkind) (by exact htext)))

end ConfigParser

end Sim
end Canforge
