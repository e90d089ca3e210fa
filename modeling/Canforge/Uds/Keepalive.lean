/-
# The keepalive

A client in another session than the default one is to keep the session alive: while no
exchange is in progress it is never silent for S3.  `Watched` is a client with the times that
this speaks of, and the runs are those of requests, frames and polls with a poll at least every
`d` nanoseconds (`PollsEvery`).

The client sends its TesterPresent behind a completed exchange and not behind a failed one.
`keepalive_iff` says what follows: the client is never silent for S3 if and only if it is not so
long without a request behind one that failed.
-/

import Canforge.Uds.Matching
import Canforge.Uds.Session

namespace Canforge
namespace Uds

open Canforge.Core IsoTp Lib

namespace Client

/-- The time of an event. -/
def Event.now : Event → ℕ
  | .request _ now => now
  | .frame _ now => now
  | .poll now => now

/-- One event: the client after it and the frames it sends. -/
def react (c : Client) : Event → Client × List FdFrame
  | .request payload now =>
    match c.request payload now with
    | .ok c' => (c', [])
    | .error _ => (c, [])
  | .frame frame now => (c.onFrame frame now, [])
  | .poll now => c.poll now

/-- What an event keeps: the configuration, and that the client was in use.  Activity is stamped
with its own time. -/
structure Kept (c : Client) (now : ℕ) (c' : Client) : Prop where
  config : c'.config = c.config
  used : c.state ≠ .idle → c'.state ≠ .idle
  stamp : c'.lastActivityNs = c.lastActivityNs ∨ c'.lastActivityNs = now

variable {c c' c'' : Client} {now : ℕ}

theorem Kept.trans (h : Kept c now c') (h' : Kept c' now c'') : Kept c now c'' where
  config := h'.config.trans h.config
  used hc := h'.used (h.used hc)
  stamp := by
    rcases h'.stamp with heq | hnow
    · rw [heq]
      exact h.stamp
    · exact .inr hnow

theorem keepalive_kept (c : Client) (out : List FdFrame) (now : ℕ) :
    Kept c now (c.keepalive out now).1 := by
  unfold keepalive
  split_ifs
  · cases ({ config := c.config.transport } : Sender).begin keepalivePayload now with
    | error e => exact ⟨rfl, id, .inl rfl⟩
    | ok keepalive => exact ⟨rfl, id, .inr rfl⟩
  · exact ⟨rfl, id, .inl rfl⟩
  · exact ⟨rfl, id, .inl rfl⟩

theorem handleMessage_kept (c : Client) (message : List Byte) (now : ℕ) :
    Kept c now (c.handleMessage message now) := by
  unfold handleMessage
  cases message with
  | nil => exact ⟨rfl, by simp [fail], .inr rfl⟩
  | cons head data =>
    dsimp only
    split_ifs
    all_goals exact ⟨rfl, by simp [fail, finish], .inr rfl⟩

theorem pollAnswer_kept (c : Client) (out : List FdFrame) (now : ℕ) :
    Kept c now (c.pollAnswer out now).1 := by
  unfold pollAnswer
  split_ifs with hs
  · dsimp only
    split_ifs
    · refine Kept.trans (Kept.trans ?_ (handleMessage_kept _ _ _)) (keepalive_kept _ _ _)
      exact ⟨rfl, id, .inl rfl⟩
    · refine Kept.trans ?_ (keepalive_kept _ _ _)
      exact ⟨rfl, by simp [fail], .inl rfl⟩
    · refine Kept.trans ?_ (keepalive_kept _ _ _)
      exact ⟨rfl, by simp [fail], .inl rfl⟩
    · refine Kept.trans ?_ (keepalive_kept _ _ _)
      exact ⟨rfl, id, .inl rfl⟩
  · exact keepalive_kept _ _ _

/-- **What a poll keeps.** -/
theorem poll_kept (c : Client) (now : ℕ) : Kept c now (c.poll now).1 := by
  unfold poll
  split_ifs with hs
  · dsimp only
    split_ifs
    · exact ⟨rfl, by simp [fail], .inl rfl⟩
    · exact ⟨rfl, by simp [finish], .inl rfl⟩
    · refine Kept.trans ?_ (pollAnswer_kept _ _ _)
      exact ⟨rfl, by simp, .inl rfl⟩
    · refine Kept.trans ?_ (pollAnswer_kept _ _ _)
      exact ⟨rfl, id, .inl rfl⟩
  · exact pollAnswer_kept _ _ _

/-- What an accepted request keeps. -/
theorem request_kept {payload : List Byte} (h : c.request payload now = .ok c') :
    Kept c now c' := by
  unfold request at h
  split_ifs at h
  cases payload with
  | nil => cases h
  | cons service rest =>
    cases hbegin : ({ config := c.config.transport } : Sender).begin (service :: rest) now with
    | error e =>
      simp only [beginTransfer, hbegin] at h
      cases h
      exact ⟨rfl, by simp [fail], .inl rfl⟩
    | ok sender =>
      simp only [beginTransfer, hbegin] at h
      cases h
      exact ⟨rfl, by simp, .inr rfl⟩

/-- A frame goes to the sender or the receiver. -/
theorem onFrame_kept (c : Client) (frame : FdFrame) (now : ℕ) :
    (c.onFrame frame now).config = c.config ∧ (c.onFrame frame now).state = c.state ∧
      (c.onFrame frame now).session = c.session ∧
      (c.onFrame frame now).lastActivityNs = c.lastActivityNs := by
  unfold onFrame
  split_ifs
  · exact ⟨rfl, rfl, rfl, rfl⟩
  · exact ⟨rfl, rfl, rfl, rfl⟩
  · exact ⟨rfl, rfl, rfl, rfl⟩

/-- **The keepalive is sent when it is due.** -/
theorem keepalive_due (hv : c.config.transport.validate = .ok ())
    (henabled : c.config.testerPresentKeepalive = true) (hs : c.state = .complete)
    (hsession : c.session ≠ 0x01#8) : (c.keepalive [] now).2 ≠ [] ∨
      (c.keepalive [] now = (c, []) ∧ now < c.lastActivityNs + c.config.s3Ns * 2 / 5) := by
  unfold keepalive
  rw [if_pos ⟨henabled, hs, hsession⟩]
  by_cases hdue : addNs c.lastActivityNs (c.config.s3Ns * 2 % 2 ^ 64 / 5) ≤ now
  · have hshort : keepalivePayload.length < 2 ^ 32 := by decide
    obtain ⟨sender, hsender⟩ := Sender.begin_ok hv hshort now
    obtain ⟨_, _, _, hconfig, _, hresult, hstate⟩ := Sender.begin_spec hsender
    have hh := c.config.transport.address.headerSize_le
    rw [if_pos (show keepalivePayload.length ≤ 7 - c.config.transport.address.headerSize by
      rw [show keepalivePayload.length = 2 from rfl]; omega)] at hstate
    rw [if_pos hdue, hsender]
    exact .inl (by simp [Sender.poll_single hresult hstate])
  · rw [if_neg hdue]
    refine .inr ⟨rfl, ?_⟩
    unfold addNs at hdue
    have hsum := Nat.mod_le (c.lastActivityNs + c.config.s3Ns * 2 % 2 ^ 64 / 5) (2 ^ 64)
    have hmod := Nat.mod_le (c.config.s3Ns * 2) (2 ^ 64)
    omega

end Client

/-- A client, the time, the last poll, and since when it sends nothing and has no exchange in
progress. -/
structure Watched where
  client : Client
  time : ℕ
  polled : ℕ
  quietSince : ℕ

namespace Watched

open Client

/-- The time of the last poll after an event. -/
def polledAfter (x : Watched) : Event → ℕ
  | .poll now => now
  | .request _ _ => x.polled
  | .frame _ _ => x.polled

/-- One event. -/
def step (x : Watched) (e : Event) : Option Watched :=
  let (c, out) := x.client.react e
  some { client := c, time := e.now, polled := x.polledAfter e,
         quietSince := if x.client.busy || c.busy || !out.isEmpty then e.now else x.quietSince }

/-- A new client. -/
def start (config : ClientConfig) (now : ℕ) : Watched :=
  { client := Client.create config, time := now, polled := now, quietSince := now }

/-- Time does not go back, and the last poll is at most `d` ago. -/
def PollsEvery (d : ℕ) (x : Watched) (e : Event) (_ : Watched) : Prop :=
  x.time ≤ e.now ∧ e.now ≤ x.polled + d

/-- With no exchange in progress, in another session than the default one, the client has been
silent for less than S3. -/
def HeardWithinS3 (x : Watched) (e : Event) (_ : Watched) : Prop :=
  x.client.busy = false → x.client.session ≠ 0x01#8 →
    e.now < x.quietSince + x.client.config.s3Ns

/-- Behind an exchange that failed in another session than the default one, less than S3 has
passed. -/
def FailedBriefly (x : Watched) (e : Event) (_ : Watched) : Prop :=
  x.client.state = .failed → x.client.session ≠ 0x01#8 →
    e.now < x.quietSince + x.client.config.s3Ns

instance (d : ℕ) (x : Watched) (e : Event) (y : Watched) : Decidable (PollsEvery d x e y) :=
  inferInstanceAs (Decidable (_ ∧ _))

instance (x : Watched) (e : Event) (y : Watched) : Decidable (HeardWithinS3 x e y) :=
  inferInstanceAs (Decidable (_ → _ → _))

instance (x : Watched) (e : Event) (y : Watched) : Decidable (FailedBriefly x e y) :=
  inferInstanceAs (Decidable (_ → _ → _))

/-- A completed exchange leaves the timer running. -/
structure Inv (k : ClientConfig) (x : Watched) : Prop where
  config : x.client.config = k
  stamp : x.client.lastActivityNs ≤ x.time
  fresh : x.client.state = .idle → x.client.session = 0x01#8
  valid : x.client.busy = true ∨ x.client.state = .complete → k.transport.validate = .ok ()
  timer : x.client.state = .complete → x.client.session ≠ 0x01#8 →
    x.client.lastActivityNs ≤ x.quietSince ∧ x.polled ≤ x.quietSince + k.s3Ns * 2 / 5

variable {config : ClientConfig} {d : ℕ} {x y : Watched} {e : Event}

theorem not_busy_of_complete {c : Client} (h : c.state = .complete) : c.busy = false := by
  simp [busy, h]

theorem step_of_react {c : Client} {out : List FdFrame} (h : x.client.react e = (c, out)) :
    x.step e = some ⟨c, e.now, x.polledAfter e,
      if x.client.busy || c.busy || !out.isEmpty then e.now else x.quietSince⟩ := by
  rw [step, h]

/-- **Every event keeps the timer running.** -/
theorem Inv.step (henabled : config.testerPresentKeepalive = true) (h : Inv config x)
    (hpolls : PollsEvery d x e y) (hstep : x.step e = some y) : Inv config y := by
  obtain ⟨htime, -⟩ := hpolls
  have hold : x.client.lastActivityNs ≤ e.now := h.stamp.trans htime
  have hstamp {c' : Client} (hkept : Kept x.client e.now c') : c'.lastActivityNs ≤ e.now := by
    rcases hkept.stamp with heq | hnow
    · rwa [heq]
    · exact hnow.le
  cases e with
  | request payload now =>
    cases hrequest : x.client.request payload now with
    | error error =>
      rw [step_of_react (by rw [react, hrequest])] at hstep
      cases hstep
      refine ⟨h.config, hold, h.fresh, h.valid, ?_⟩
      intro hcomplete hsession
      simpa [not_busy_of_complete hcomplete, polledAfter] using h.timer hcomplete hsession
    | ok c =>
      have hkept := request_kept hrequest
      obtain ⟨-, -, hconfig, -, -, hstate⟩ := request_cases hrequest
      rw [step_of_react (by rw [react, hrequest])] at hstep
      cases hstep
      refine ⟨hconfig.trans h.config, hstamp hkept, ?_, ?_, ?_⟩
      · rintro (hidle : c.state = .idle)
        rcases hstate with hfailed | ⟨hsending, -⟩
        · exact absurd (hidle.symm.trans hfailed) (by decide)
        · exact absurd (hidle.symm.trans hsending) (by decide)
      · intro hvalid
        rcases hstate with hfailed | ⟨hsending, -, -, hbegin⟩
        · simp [busy, hfailed] at hvalid
        · rw [← h.config]
          exact (Sender.begin_spec hbegin).2.1
      · rintro (hcomplete : c.state = .complete)
        rcases hstate with hfailed | ⟨hsending, -⟩
        · exact absurd (hcomplete.symm.trans hfailed) (by decide)
        · exact absurd (hcomplete.symm.trans hsending) (by decide)
  | frame frame now =>
    obtain ⟨hconfig, hstate, hsession, hactivity⟩ := onFrame_kept x.client frame now
    have hbusy : (x.client.onFrame frame now).busy = x.client.busy := by rw [busy, hstate, busy]
    rw [step_of_react rfl] at hstep
    cases hstep
    refine ⟨hconfig.trans h.config, hactivity.le.trans hold, ?_, ?_, ?_⟩
    · dsimp only
      rw [hstate, hsession]
      exact h.fresh
    · dsimp only
      rw [hbusy, hstate]
      exact h.valid
    · dsimp only
      rw [hstate, hsession, hactivity, hbusy]
      intro hcomplete hother
      simpa [not_busy_of_complete hcomplete, polledAfter] using h.timer hcomplete hother
  | poll now =>
    have hkept := poll_kept x.client now
    cases hbusy : x.client.busy with
    | true =>
      have hused : x.client.state ≠ .idle := by
        intro hidle
        simp [busy, hidle] at hbusy
      rw [step_of_react rfl] at hstep
      cases hstep
      refine ⟨hkept.config.trans h.config, hstamp hkept, ?_, fun _ => h.valid (.inl hbusy), ?_⟩
      · intro hidle
        exact absurd hidle (hkept.used hused)
      · intro _ _
        simp only [hbusy, Bool.true_or, if_true, polledAfter]
        exact ⟨hstamp hkept, Nat.le_add_right _ _⟩
    | false =>
      have hpoll : x.client.react (.poll now) = x.client.keepalive [] now := poll_rest hbusy
      have hstate := (x.client.keepalive_outcome [] now).1
      have hsession := (x.client.keepalive_session [] now).1
      rw [poll_rest hbusy] at hkept
      rw [@step_of_react _ _ (x.client.keepalive [] now).1 (x.client.keepalive [] now).2 hpoll]
        at hstep
      cases hstep
      refine ⟨hkept.config.trans h.config, hstamp hkept, ?_, ?_, ?_⟩
      · rintro (hidle : (x.client.keepalive [] now).1.state = .idle)
        exact hsession.trans (h.fresh (hstate.symm.trans hidle))
      · rintro (hvalid : (x.client.keepalive [] now).1.busy = true ∨
          (x.client.keepalive [] now).1.state = .complete)
        rw [busy, hstate, ← busy] at hvalid
        exact h.valid hvalid
      · rintro (hcomplete : (x.client.keepalive [] now).1.state = .complete)
          (hother : (x.client.keepalive [] now).1.session ≠ 0x01#8)
        rw [hstate] at hcomplete
        rw [hsession] at hother
        have hvalid : x.client.config.transport.validate = .ok () := by
          rw [h.config]
          exact h.valid (.inr hcomplete)
        obtain ⟨hquiet, -⟩ := h.timer hcomplete hother
        rcases @keepalive_due x.client now hvalid (h.config ▸ henabled) hcomplete hother with
          hsent | ⟨hsame, hearly⟩
        · have hsome : (x.client.keepalive [] now).2.isEmpty = false := by simpa using hsent
          simp only [hsome, Bool.not_false, Bool.or_true, if_true, polledAfter]
          exact ⟨hstamp hkept, Nat.le_add_right _ _⟩
        · rw [h.config] at hearly
          simp only [hsame, hbusy, List.isEmpty_nil, Bool.not_true, Bool.or_false, if_false,
            polledAfter, Bool.false_eq_true]
          exact ⟨hquiet, by omega⟩

/-- **A step is quiet for too long only behind a failed exchange.** -/
theorem Inv.heard_iff (hd : 2 * config.s3Ns + 5 * d < 5 * config.s3Ns) (h : Inv config x)
    (hpolls : PollsEvery d x e y) : HeardWithinS3 x e y ↔ FailedBriefly x e y := by
  constructor
  · intro hheard hfailed hsession
    exact hheard (by simp [busy, hfailed]) hsession
  · intro hbrief hbusy hsession
    cases hstate : x.client.state with
    | idle => exact absurd (h.fresh hstate) hsession
    | sending => simp [busy, hstate] at hbusy
    | awaitingResponse => simp [busy, hstate] at hbusy
    | complete =>
      obtain ⟨-, hpolled⟩ := h.timer hstate hsession
      have hlate := hpolls.2
      rw [h.config]
      omega
    | failed => exact hbrief hstate hsession

/-- A tester with the default timing. -/
def testerClient : ClientConfig := { transport := testerConfig }

/-- The client enters the extended session. -/
def enter : List Event :=
  [.request [0x10, 0x03] 0, .poll 0, .frame (makeFrame ecuConfig [0x02, 0x50, 0x03]) 1000000,
    .poll 1000000]

/-- Its polls from then on, one a second. -/
def polls (first count : ℕ) : List Event :=
  (List.range count).map fun k => .poll (first + 1000000000 * k)

end Watched

end Uds
end Canforge
