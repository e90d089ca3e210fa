/-
# Seeds and keys

What unlocks a server is a sendKey with the key of the seed that was issued last.
`Issues` adds to a server that seed, whether it was issued since the server was last
locked, and whether a key for it has been accepted (`Issued`); the code keeps only the
seed and its level.  `unlocked_by_key` is what holds of every run: the key belongs to the
seed of the last requestSeed, and if that one came behind the last relock, the seed was
not used before.  Nothing in the code invalidates a seed, so a relock does not either
(`used_seed_unlocks_again`).  A zero seed is to say that the server is unlocked already;
`zero_seed_iff` says at which times it says so of a locked server.
-/

import Canforge.Sim.Firmware

namespace Canforge
namespace Sim

open Canforge.Core IsoTp Lib Uds

namespace Diagnostics

/-- A requestSeed that is answered with a seed. -/
structure RequestsSeed (d : Diagnostics) (request : List Byte) : Prop where
  service : request.getD 0 0 = Service.securityAccess.toByte
  length : 2 ≤ request.length
  session : d.session ≠ .default
  odd : subFunction request &&& 0x01 ≠ 0

/-- The seed it is answered with. -/
def seedAt (d : Diagnostics) (now : ℕ) : BitVec 32 :=
  if d.unlocked then 0 else 0xC0FFEE#32 ^^^ (BitVec.ofNat 32 now &&& 0xFFFFFF)

/-- A sendKey for the stored level with the key of the stored seed. -/
structure SendsKey (d : Diagnostics) (request : List Byte) : Prop where
  service : request.getD 0 0 = Service.securityAccess.toByte
  length : 6 ≤ request.length
  session : d.session ≠ .default
  even : subFunction request &&& 0x01 = 0
  level : (subFunction request).toNat = d.securityLevel.toNat + 1
  key : readBe request 2 4 = toyKeyFromSeed d.lastSeed d.config.securitySecret

instance (d : Diagnostics) (request : List Byte) : Decidable (d.RequestsSeed request) :=
  decidable_of_iff (request.getD 0 0 = Service.securityAccess.toByte ∧ 2 ≤ request.length ∧
      d.session ≠ .default ∧ subFunction request &&& 0x01 ≠ 0)
    ⟨fun ⟨h₁, h₂, h₃, h₄⟩ => ⟨h₁, h₂, h₃, h₄⟩, fun ⟨h₁, h₂, h₃, h₄⟩ => ⟨h₁, h₂, h₃, h₄⟩⟩

instance (d : Diagnostics) (request : List Byte) : Decidable (d.SendsKey request) :=
  decidable_of_iff (request.getD 0 0 = Service.securityAccess.toByte ∧ 6 ≤ request.length ∧
      d.session ≠ .default ∧ subFunction request &&& 0x01 = 0 ∧
      (subFunction request).toNat = d.securityLevel.toNat + 1 ∧
      readBe request 2 4 = toyKeyFromSeed d.lastSeed d.config.securitySecret)
    ⟨fun ⟨h₁, h₂, h₃, h₄, h₅, h₆⟩ => ⟨h₁, h₂, h₃, h₄, h₅, h₆⟩,
      fun ⟨h₁, h₂, h₃, h₄, h₅, h₆⟩ => ⟨h₁, h₂, h₃, h₄, h₅, h₆⟩⟩

variable {d d' : Diagnostics} {request response : List Byte} {now : ℕ}

/-- The three things SecurityAccess does: issue a seed, accept a key, refuse. -/
theorem securityAccess_cases (hs : request.getD 0 0 = Service.securityAccess.toByte) :
    (d.RequestsSeed request ∧ (d.securityAccess request now).2 =
      { d with securityLevel := subFunction request, lastSeed := d.seedAt now }) ∨
    (d.SendsKey request ∧ (d.securityAccess request now).2 = { d with unlocked := true }) ∨
    (¬ d.RequestsSeed request ∧ ¬ d.SendsKey request ∧ (d.securityAccess request now).2 = d) := by
  have hseed : (if d.unlocked = true then 0
      else 0xC0FFEE#32 ^^^ (BitVec.ofNat 32 now &&& 0xFFFFFF)) = d.seedAt now := rfl
  unfold securityAccess
  simp only [hseed]
  split_ifs with hlen hsession hodd hlevel hlen6 hkey
  · exact .inr (.inr ⟨fun h => by have := h.length; omega,
      fun h => by have := h.length; omega, rfl⟩)
  · exact .inr (.inr ⟨fun h => h.session hsession, fun h => h.session hsession, rfl⟩)
  · exact .inl ⟨⟨hs, Nat.not_lt.1 hlen, hsession, hodd⟩, rfl⟩
  · exact .inr (.inr ⟨fun h => h.odd (not_not.1 hodd), fun h => hlevel h.level, rfl⟩)
  · exact .inr (.inr ⟨fun h => h.odd (not_not.1 hodd), fun h => by have := h.length; omega, rfl⟩)
  · exact .inr (.inr ⟨fun h => h.odd (not_not.1 hodd), fun h => hkey h.key, rfl⟩)
  · exact .inr (.inl ⟨⟨hs, Nat.not_lt.1 hlen6, hsession, not_not.1 hodd, not_not.1 hlevel,
      not_not.1 hkey⟩, rfl⟩)

/-- **What a request does to the security of a server.** -/
theorem handle_security (h : d.handle request now = some (response, d')) :
    (d.RequestsSeed request ∧
      d' = { d with securityLevel := subFunction request, lastSeed := d.seedAt now }) ∨
    (d.SendsKey request ∧ d' = { d with unlocked := true }) ∨
    (¬ d.RequestsSeed request ∧ ¬ d.SendsKey request ∧ d'.securityLevel = d.securityLevel ∧
      d'.lastSeed = d.lastSeed ∧ (d'.unlocked = true → d.unlocked = true)) := by
  by_cases hs : request.getD 0 0 = Service.securityAccess.toByte
  · have hne : request ≠ [] := by
      rintro rfl
      exact absurd hs (by decide)
    obtain ⟨b, bs, rfl, hb⟩ := handle_eq (List.length_pos_iff.2 hne) hs
    rw [handle, hb] at h
    have hd' : (d.securityAccess (b :: bs) now).2 = d' := congrArg Prod.snd (Option.some.inj h)
    have hcases := @securityAccess_cases d (b :: bs) now hs
    rw [hd'] at hcases
    rcases hcases with hseed | hkey | ⟨hseed, hkey, rfl⟩
    · exact .inl hseed
    · exact .inr (.inl hkey)
    · exact .inr (.inr ⟨hseed, hkey, rfl, rfl, id⟩)
  · refine .inr (.inr ⟨fun h => hs h.service, fun h => hs h.service, ?_⟩)
    cases handle_handled h with
    | sentSeed positive session => exact absurd positive.service hs
    | acceptedKey positive session => exact absurd positive.service hs
    | enteredSession positive session =>
      refine ⟨rfl, rfl, fun hu => ?_⟩
      simp only at hu
      split_ifs at hu with hdefault
      exact hu
    | reset positive => exact ⟨rfl, rfl, fun hu => absurd hu Bool.false_ne_true⟩
    | _ => exact ⟨rfl, rfl, id⟩

/-- No request changes the secret. -/
theorem handle_secret (h : d.handle request now = some (response, d')) :
    d'.config.securitySecret = d.config.securitySecret := by
  cases handle_handled h <;> rfl

/-- A requestSeed is answered with the seed. -/
theorem RequestsSeed.answered (h : d.RequestsSeed request) (hanswer : suppresses request = false)
    (now : ℕ) : d.handle request now = some
      ([0x67, subFunction request] ++ pushBe (d.seedAt now) 4,
        { d with securityLevel := subFunction request, lastSeed := d.seedAt now }) := by
  obtain ⟨b, bs, rfl, hb⟩ := handle_eq (by have := h.length; omega) h.service
  have hservice : b = 0x27 := h.service
  rw [handle, hb]
  simp only [securityAccess]
  rw [if_neg (Nat.not_lt.2 h.length), if_neg h.session, if_pos h.odd, positive,
    if_neg (by rw [hanswer]; decide), hservice]
  rfl

/-- Four zero bytes are a zero seed. -/
theorem pushBe_eq_zero_iff (seed : BitVec 32) : pushBe seed 4 = List.replicate 4 0 ↔ seed = 0 := by
  constructor
  · intro h
    have hvalue := beValue_pushBe seed 4
    rw [h, Nat.mod_eq_of_lt seed.isLt] at hvalue
    exact BitVec.eq_of_toNat_eq hvalue.symm
  · rintro rfl
    rfl

/-- The seed of a locked server is zero at one nanosecond in `2 ^ 24`. -/
theorem seedAt_eq_zero_iff (d : Diagnostics) (now : ℕ) :
    d.seedAt now = 0 ↔ d.unlocked = true ∨ now % 2 ^ 24 = 0xC0FFEE := by
  have hmask : (BitVec.ofNat 32 now &&& 0xFFFFFF).toNat = now % 2 ^ 24 := by
    rw [BitVec.toNat_and, BitVec.toNat_ofNat,
      show (0xFFFFFF : BitVec 32).toNat = 2 ^ 24 - 1 from rfl, Nat.and_two_pow_sub_one_eq_mod]
    omega
  have htime : BitVec.ofNat 32 now &&& 0xFFFFFF = 0xC0FFEE#32 ↔ now % 2 ^ 24 = 0xC0FFEE := by
    rw [← hmask, ← BitVec.toNat_inj]
    rfl
  unfold seedAt
  split_ifs with hunlocked
  · exact iff_of_true rfl (.inl hunlocked)
  · rw [← htime]
    refine BitVec.xor_eq_zero_iff.trans ?_
    constructor
    · exact fun h => .inr h.symm
    · rintro (h | h)
      · exact absurd h hunlocked
      · exact h.symm

/-- **A zero seed, exactly.**  The seed that answers a requestSeed is zero for an unlocked server
and no other if and only if the server is unlocked or the time is not `0xC0FFEE` modulo
`2 ^ 24`. -/
theorem zero_seed_iff (h : d.RequestsSeed request) (hanswer : suppresses request = false)
    (now : ℕ) :
    ((∃ d', d.handle request now =
        some ([0x67, subFunction request] ++ List.replicate 4 0, d')) ↔ d.unlocked = true) ↔
      d.unlocked = true ∨ now % 2 ^ 24 ≠ 0xC0FFEE := by
  have hzero : (∃ d', d.handle request now =
      some ([0x67, subFunction request] ++ List.replicate 4 0, d')) ↔
      d.unlocked = true ∨ now % 2 ^ 24 = 0xC0FFEE := by
    rw [h.answered hanswer now, ← seedAt_eq_zero_iff, ← pushBe_eq_zero_iff]
    constructor
    · rintro ⟨d', hd⟩
      exact List.append_cancel_left (congrArg Prod.fst (Option.some.inj hd))
    · intro hseed
      exact ⟨_, by rw [hseed]⟩
  rw [hzero]
  tauto

end Diagnostics

/-- A seed: its level, whether it was issued since the server was last locked, and whether a
key for it has been accepted. -/
structure Issued where
  level : Byte
  seed : BitVec 32
  sinceLock : Bool := true
  used : Bool := false
  deriving DecidableEq

/-- A server and the seed it issued last. -/
structure Issues where
  server : UdsServer
  issued : Option Issued := none

namespace Issues

open Diagnostics UdsServer

/-- The seed issued last, behind an event that leads to `t`. -/
def nextIssued (w : Issues) (e : ServerEvent) (t : UdsServer) : Option Issued :=
  match w.server.incoming e with
  | none => w.issued
  | some (request, now) =>
    if w.server.RequestsSeed request then
      some { level := subFunction request, seed := w.server.seedAt now }
    else
      w.issued.map fun i =>
        { i with sinceLock := i.sinceLock && !(w.server.unlocked && !t.unlocked),
                 used := i.used || decide (w.server.SendsKey request) }

/-- One event. -/
def step (w : Issues) (e : ServerEvent) : Option Issues :=
  (w.server.step e).map fun t => ⟨t, w.nextIssued e t⟩

/-- The stored seed is the one issued last; if it was issued since the last relock, a locked
server has not accepted a key for it. -/
structure Agrees (config : UdsServerConfig) (w : Issues) : Prop where
  secret : w.server.config.securitySecret = config.securitySecret
  none : w.issued = none → w.server.securityLevel = 0
  level : ∀ i ∈ w.issued, w.server.securityLevel = i.level
  seed : ∀ i ∈ w.issued, w.server.lastSeed = i.seed
  unused : ∀ i ∈ w.issued, w.server.unlocked = false → i.sinceLock = true → i.used = false

variable {config : UdsServerConfig} {w w' : Issues} {e : ServerEvent}

/-- **A step keeps the seed and the record of it together.** -/
theorem Agrees.step (h : Agrees config w) (hstep : w.step e = some w') : Agrees config w' := by
  obtain ⟨t, ht, rfl⟩ := Option.map_eq_some_iff.1 hstep
  rcases step_cases ht with ⟨request, now, response, hin, hd⟩ | ⟨hin, _, _, _, hdiag⟩
  · have hsecret : t.config.securitySecret = config.securitySecret :=
      (handle_secret hd).trans h.secret
    have hnext : w.nextIssued e t = if w.server.RequestsSeed request then
        some { level := subFunction request, seed := w.server.seedAt now }
      else w.issued.map fun i =>
        { i with sinceLock := i.sinceLock && !(w.server.unlocked && !t.unlocked),
                 used := i.used || decide (w.server.SendsKey request) } := by
      rw [nextIssued, hin]
    rw [hnext]
    rcases handle_security hd with ⟨hseed, hd'⟩ | ⟨hkey, hd'⟩ |
      ⟨hseed, hkey, hlevel, hlast, hunlock⟩
    · rw [if_pos hseed]
      refine ⟨hsecret, nofun, ?_, ?_, ?_⟩ <;> rintro i ⟨⟩
      · rw [hd']
      · rw [hd']
      · exact fun _ _ => rfl
    · have hseed : ¬ w.server.RequestsSeed request := fun hseed => hseed.odd hkey.even
      rw [if_neg hseed]
      refine ⟨hsecret, fun hnone => ?_, fun i hi => ?_, fun i hi => ?_, fun i hi hlocked => ?_⟩
      · rw [hd']
        exact h.none (Option.map_eq_none_iff.1 hnone)
      · obtain ⟨j, hj, rfl⟩ := Option.map_eq_some_iff.1 hi
        rw [hd']
        exact h.level j hj
      · obtain ⟨j, hj, rfl⟩ := Option.map_eq_some_iff.1 hi
        rw [hd']
        exact h.seed j hj
      · rw [hd'] at hlocked
        cases hlocked
    · rw [if_neg hseed]
      refine ⟨hsecret, fun hnone => ?_, fun i hi => ?_, fun i hi => ?_,
        fun i hi hlocked hsince => ?_⟩
      · exact hlevel.trans (h.none (Option.map_eq_none_iff.1 hnone))
      · obtain ⟨j, hj, rfl⟩ := Option.map_eq_some_iff.1 hi
        exact hlevel.trans (h.level j hj)
      · obtain ⟨j, hj, rfl⟩ := Option.map_eq_some_iff.1 hi
        exact hlast.trans (h.seed j hj)
      · obtain ⟨j, hj, rfl⟩ := Option.map_eq_some_iff.1 hi
        -- not locked just now, so locked before
        simp only [Bool.and_eq_true, Bool.not_eq_true', Bool.and_eq_false_iff] at hsince hlocked
        have hbefore : w.server.unlocked = false := by
          rcases hsince.2 with hfalse | htrue
          · exact hfalse
          · rw [hlocked] at htrue
            cases htrue
        have hunused := h.unused j hj hbefore hsince.1
        simp only [hunused, hkey, decide_false, Bool.or_self]
  · have hnext : w.nextIssued e t = w.issued := by
      rw [nextIssued, hin]
    rw [hnext]
    refine ⟨?_, ?_, ?_, ?_, ?_⟩ <;> simp only [hdiag]
    · exact h.secret
    · exact h.none
    · exact h.level
    · exact h.seed
    · exact h.unused

theorem reach_agrees (h : Reach step (fun _ _ => True) ⟨create config, none⟩ w) :
    Agrees config w := by
  induction h with
  | refl => exact ⟨rfl, fun _ => rfl, nofun, nofun, nofun⟩
  | tail _ _ hstep ih => exact ih.step hstep

/-- **What unlocks a server.**  In every run a step from locked to unlocked handles a sendKey
outside the default session, for the level and with the key of the seed that was issued
last; if that seed was issued since the server was last locked, no key for it had been
accepted. -/
theorem unlocked_by_key (h : Reach step (fun _ _ => True) ⟨create config, none⟩ w)
    (hstep : w.step e = some w') (hlocked : w.server.unlocked = false)
    (hunlocked : w'.server.unlocked = true) : ∃ request now i,
    w.server.incoming e = some (request, now) ∧ w.issued = some i ∧
      request.getD 0 0 = Service.securityAccess.toByte ∧ w.server.session ≠ .default ∧
      (subFunction request).toNat = i.level.toNat + 1 ∧ 6 ≤ request.length ∧
      readBe request 2 4 = toyKeyFromSeed i.seed config.securitySecret ∧
      (i.sinceLock = true → i.used = false) := by
  have hagrees := reach_agrees h
  obtain ⟨t, ht, rfl⟩ := Option.map_eq_some_iff.1 hstep
  rcases step_cases ht with ⟨request, now, response, hin, hd⟩ | ⟨hin, _, _, _, hdiag⟩
  · rcases handle_security hd with ⟨hseed, hd'⟩ | ⟨hkey, hd'⟩ | ⟨_, _, _, _, hunlock⟩
    · simp only [hd', hlocked] at hunlocked
      cases hunlocked
    · cases hissued : w.issued with
      | none =>
        -- without a seed the level is zero, and no even level is behind it
        have hlevel := hkey.level
        rw [hagrees.none hissued] at hlevel
        have hodd : ∀ b : Byte, b.toNat = (0#8).toNat + 1 → b &&& 0x01 ≠ 0 := by decide +kernel
        exact absurd hkey.even (hodd _ hlevel)
      | some i =>
        refine ⟨request, now, i, hin, rfl, hkey.service, hkey.session, ?_, hkey.length, ?_,
          hagrees.unused i hissued hlocked⟩
        · rw [← hagrees.level i hissued]
          exact hkey.level
        · rw [← hagrees.seed i hissued, ← hagrees.secret]
          exact hkey.key
    · exact absurd (hlocked.symm.trans (hunlock hunlocked)) (by decide)
  · simp only [hdiag, hlocked] at hunlocked
    cases hunlocked

/-- The sendKey for the seed of time 0. -/
def firstKey : List Byte := [0x27, 0x02] ++ pushBe (toyKeyFromSeed 0xC0FFEE 0xA5C3F00D) 4

/-- The first key unlocks a server. -/
theorem unlocked_by_key_first : ∃ w w', Reach step (fun _ _ => True) ⟨create fourBytes, none⟩ w ∧
    w.step (.request firstKey 0) = some w' ∧ ∃ i, w.issued = some i ∧
      (i.sinceLock = true → i.used = false) := by
  obtain ⟨w, hw, hlocked, hnext⟩ : ∃ w, Reach step (fun _ _ => True) ⟨create fourBytes, none⟩ w ∧
      w.server.unlocked = false ∧
      ((w.step (.request firstKey 0)).map (·.server.unlocked)) = some true :=
    Reach.exists_of_run [.request [0x10, 0x02] 0, .request [0x27, 0x01] 0] (by decide +kernel)
  obtain ⟨w', hstep, hunlocked⟩ := Option.map_eq_some_iff.1 hnext
  obtain ⟨_, _, i, _, hissued, _, _, _, _, _, hunused⟩ := unlocked_by_key hw hstep hlocked hunlocked
  exact ⟨w, w', hw, hstep, i, hissued, hunused⟩

/-- **A used seed unlocks again.**  Back from the default session, which locks the server, the
key of the first seed is accepted a second time. -/
theorem used_seed_unlocks_again : ∃ w w', Reach step (fun _ _ => True) ⟨create fourBytes, none⟩ w ∧
    w.step (.request firstKey 0) = some w' ∧ w.server.unlocked = false ∧
    w'.server.unlocked = true ∧
    w.issued = some { level := 0x01, seed := 0xC0FFEE, sinceLock := false, used := true } := by
  obtain ⟨w, hw, hlocked, hissued, hnext⟩ : ∃ w,
      Reach step (fun _ _ => True) ⟨create fourBytes, none⟩ w ∧ w.server.unlocked = false ∧
      w.issued = some { level := 0x01, seed := 0xC0FFEE, sinceLock := false, used := true } ∧
      ((w.step (.request firstKey 0)).map (·.server.unlocked)) = some true :=
    Reach.exists_of_run [.request [0x10, 0x02] 0, .request [0x27, 0x01] 0, .request firstKey 0,
      .request [0x10, 0x01] 0, .request [0x10, 0x02] 0] (by decide +kernel)
  obtain ⟨w', hstep, hunlocked⟩ := Option.map_eq_some_iff.1 hnext
  exact ⟨w, w', hw, hstep, hlocked, hunlocked, hissued⟩

/-- One nanosecond later the seed is not zero. -/
theorem zero_seed_later : ∃ s, UdsServer.Reachable fourBytes s ∧ s.unlocked = false ∧
    ¬ ∃ d', s.handle [0x27, 0x01] 0xC0FFEF = some ([0x67, 0x01] ++ List.replicate 4 0, d') := by
  obtain ⟨s, hs, hlocked, hseed⟩ : ∃ s, UdsServer.Reachable fourBytes s ∧ s.unlocked = false ∧
      s.RequestsSeed [0x27, 0x01] :=
    Reach.exists_of_run [.request [0x10, 0x02] 0] (by decide +kernel)
  refine ⟨s, hs, hlocked, fun hzero => ?_⟩
  have hunlocked := ((zero_seed_iff hseed rfl 0xC0FFEF).2 (.inr (by decide))).1 hzero
  exact absurd (hlocked.symm.trans hunlocked) (by decide)

/-- **The defect.**  At `0xC0FFEE` nanoseconds a locked server answers a zero seed. -/
theorem locked_zero_seed : ∃ s, UdsServer.Reachable fourBytes s ∧ s.session ≠ .default ∧
    s.unlocked = false ∧
    ∃ d', s.handle [0x27, 0x01] 0xC0FFEE = some ([0x67, 0x01] ++ List.replicate 4 0, d') := by
  obtain ⟨s, hs, hlocked, hseed⟩ : ∃ s, UdsServer.Reachable fourBytes s ∧ s.unlocked = false ∧
      s.RequestsSeed [0x27, 0x01] :=
    Reach.exists_of_run [.request [0x10, 0x02] 0] (by decide +kernel)
  have hzero : s.seedAt 0xC0FFEE = 0 := (s.seedAt_eq_zero_iff 0xC0FFEE).2 (.inr rfl)
  have hanswer := hseed.answered rfl 0xC0FFEE
  rw [hzero] at hanswer
  exact ⟨s, hs, hseed.session, hlocked, _, hanswer⟩

end Issues

end Sim
end Canforge
