import Libxs.SocketBase.Recv

/-! # How long commands wait while messages are received -/

namespace Libxs

variable {σ : Type} {src : MessageSource σ}

namespace RecvSocket

/-! ## Calls that look at the commands -/

def polls (s : RecvSocket σ) (c : RecvCall src) : Bool :=
  !s.ctxTerminated && c.valid &&
    match src.xrecv s.sock with
    | .ok (.ok _, _) => s.ticks + 1 == inboundPollRate
    | .ok (.error .eagain, _) => true
    | _ => false

def Available (s : RecvSocket σ) (c : RecvCall src) : Prop :=
  s.ctxTerminated = false ∧ c.valid = true ∧
    match src.xrecv s.sock with
    | .ok (.ok _, _) => True
    | _ => False

instance (s : RecvSocket σ) (c : RecvCall src) : Decidable (s.Available c) :=
  have : Decidable (match src.xrecv s.sock with
      | .ok (.ok _, _) => True
      | _ => False) :=
    match src.xrecv s.sock with
    | .ok (.ok _, _) => inferInstanceAs (Decidable True)
    | .ok (.error _, _) | .error _ => inferInstanceAs (Decidable False)
  inferInstanceAs (Decidable (_ ∧ _ ∧ _))

variable {s t : RecvSocket σ} {c : RecvCall src} {mailbox : List (MailboxResult src)}

theorem tick_unpolled (h : s.ticks + 1 ≠ inboundPollRate) (mailbox : List (MailboxResult src)) :
    s.tick mailbox = if 2 ^ 31 - 1 ≤ s.ticks then .error .signedOverflow
      else .ok (.ok mailbox, { s with ticks := s.ticks + 1 }) := by
  simp only [tick, if_neg h]

theorem processCommands_ticks : ∀ {mailbox : List (MailboxResult src)} {s t : RecvSocket σ}
    {r : Except Errno (List (MailboxResult src))}, processCommands mailbox s = .ok (r, t) →
    t.ticks = s.ticks ∧ ∀ e, r = .error e → e = .eintr ∨ t.ctxTerminated = true := by
  intro mailbox
  induction mailbox with
  | nil => exact fun h => absurd h (by simp [processCommands])
  | cons result mailbox ih =>
    intro s t r h
    cases result with
    | eagain => grind [processCommands]
    | eintr =>
      cases h
      exact ⟨rfl, fun e he => Or.inl (Except.error.inj he).symm⟩
    | stop => exact ih (s := { s with ctxTerminated := true }) h
    | command f => grind [processCommands]

theorem finish_ticks {msg : Msg} {r : Except Errno Msg} (h : s.finish msg = .ok (r, t)) :
    t.ticks = s.ticks ∧ r = .ok msg := by
  unfold finish extractFlags at h
  grind

inductive Receives (s : RecvSocket σ) (c : RecvCall src) (r : Except Errno Msg) (t : RecvSocket σ) :
    Prop where
  | counted : s.polls c = false → r ≠ .error .eintr → t.ticks = s.ticks + 1 → Receives s c r t
  | polled : s.polls c = true → s.ticks + 1 = inboundPollRate → r ≠ .error .eintr → t.ticks = 0 →
      Receives s c r t
  | interrupted : s.polls c = true → s.ticks + 1 = inboundPollRate → r = .error .eintr →
      t.ticks = inboundPollRate → Receives s c r t
  | stopped : s.polls c = true → s.ticks + 1 = inboundPollRate → r ≠ .error .eintr →
      t.ctxTerminated = true → Receives s c r t

theorem tick_cases {r : Except Errno (List (MailboxResult src))} (h : s.tick mailbox = .ok (r, t)) :
    (s.ticks + 1 ≠ inboundPollRate ∧ (∃ rest, r = .ok rest) ∧ t.ticks = s.ticks + 1) ∨
      s.ticks + 1 = inboundPollRate ∧ ((∃ rest, r = .ok rest) ∧ t.ticks = 0 ∨
        r = .error .eintr ∧ t.ticks = inboundPollRate ∨
        ∃ e, r = .error e ∧ e ≠ .eintr ∧ t.ctxTerminated = true) := by
  by_cases hrate : s.ticks + 1 = inboundPollRate
  · refine Or.inr ⟨hrate, ?_⟩
    unfold tick at h
    split at h
    · cases h
    · simp only [hrate, if_true] at h
      split at h
      · cases h
      next e t' hp =>
        cases h
        obtain ⟨hticks, herr⟩ := processCommands_ticks hp
        grind
      · cases h
        exact Or.inl ⟨⟨_, rfl⟩, rfl⟩
  · grind [tick_unpolled]

theorem Available.receives (h : s.Available c) {r : Except Errno Msg} (hr : s.recv c = .ok (r, t)) :
    s.Receives c r t := by
  obtain ⟨hctx, hvalid, hmsg⟩ := h
  split at hmsg
  next msg sock hx =>
    have hpolls : s.polls c = (s.ticks + 1 == inboundPollRate) := by grind [polls]
    unfold recv at hr
    rw [if_neg (by simp [hctx]), if_neg (by simp [hvalid]), hx] at hr
    simp only at hr
    split at hr
    · cases hr
    next e t' htick =>
      cases hr
      rcases tick_cases htick with
        ⟨-, ⟨rest, hc⟩, -⟩ | ⟨hrate, ⟨⟨rest, hc⟩, -⟩ | ⟨he, ht⟩ | ⟨e', he, hne, ht⟩⟩
      · cases hc
      · cases hc
      · rw [Except.error.injEq] at he
        exact .interrupted (by simpa [hpolls] using hrate) hrate (by rw [he]) ht
      · rw [Except.error.injEq] at he
        exact .stopped (by simpa [hpolls] using hrate) hrate (by simpa [he] using hne) ht
    next rest t' htick =>
      obtain ⟨hticks, rfl⟩ := finish_ticks hr
      rcases tick_cases htick with ⟨hrate, -, ht⟩ | ⟨hrate, ⟨-, ht⟩ | ⟨hc, -⟩ | ⟨e', hc, -⟩⟩
      · exact .counted (by simpa [hpolls] using hrate) (by simp) (hticks.trans ht)
      · exact .polled (by simpa [hpolls] using hrate) hrate (by simp) (hticks.trans ht)
      · cases hc
      · cases hc
  · exact absurd hmsg id

end RecvSocket

structure PolledSocket (σ : Type) where
  socket : RecvSocket σ
  unpolled : Nat
  sinceFailure : Option Nat

def failureAfter (r : Except Errno Msg) (n : Option Nat) : Option Nat :=
  match r with
  | .error .eintr => some 0
  | _ => n.map (· + 1)

theorem failureAfter_other {r : Except Errno Msg} (h : r ≠ .error .eintr) (n : Option Nat) :
    failureAfter r n = n.map (· + 1) := by
  unfold failureAfter
  split
  · exact absurd rfl h
  · rfl

namespace PolledSocket

def init (src : MessageSource σ) (sock : σ) (rcvtimeo : Int) (recvIdentity : Bool) : PolledSocket σ :=
  ⟨.init src sock rcvtimeo recvIdentity, 0, none⟩

def step (src : MessageSource σ) (s : PolledSocket σ) (c : RecvCall src) :
    Except Fault (PolledSocket σ) :=
  match s.socket.recv c with
  | .error e => .error e
  | .ok (r, t) => .ok
      { socket := { t with handed := s.socket.handed ++ r.toOption.toList }
        unpolled := if s.socket.polls c then 0 else s.unpolled + 1
        sinceFailure := failureAfter r s.sinceFailure }

def Available (s : PolledSocket σ) (c : RecvCall src) : Prop := s.socket.Available c

instance (s : PolledSocket σ) (c : RecvCall src) : Decidable (s.Available c) :=
  inferInstanceAs (Decidable (s.socket.Available c))

inductive Counts (s : PolledSocket σ) : Prop where
  | regular : s.sinceFailure = none → s.socket.ticks = s.unpolled → s.unpolled < 100 → Counts s
  | failed : s.sinceFailure = some s.unpolled → s.socket.ticks = s.unpolled + 100 → Counts s
  | stopped : s.sinceFailure = none → s.unpolled = 0 → s.socket.ctxTerminated = true → Counts s

variable {s s' : PolledSocket σ} {c : RecvCall src}

theorem Counts.step (h : s.Counts) (ha : s.Available c) (hs : step src s c = .ok s') : s'.Counts := by
  unfold PolledSocket.step at hs
  split at hs
  · cases hs
  next r t hr =>
    rw [Except.ok.injEq] at hs
    cases h with
    | stopped _ _ hctx => exact absurd (hctx.symm.trans ha.1) (by simp)
    | regular hnone hticks hlt =>
      cases ha.receives hr with
      | counted hpoll hne ht =>
        have hrate : s.socket.ticks + 1 ≠ 100 := by
          intro hc
          have hx := ha.2.2
          split at hx
          next hx' =>
            simp [RecvSocket.polls, ha.1, ha.2.1, hx', inboundPollRate, hc] at hpoll
          · exact absurd hx id
        subst hs
        refine .regular ?_ ?_ ?_
        · simp only [failureAfter_other hne, hnone, Option.map_none]
        · grind
        · grind
      | polled hpoll _ hne ht =>
        subst hs
        refine .regular ?_ ?_ ?_
        · simp only [failureAfter_other hne, hnone, Option.map_none]
        · simp only [hpoll, if_true, ht]
          rfl
        · simp only [hpoll, if_true]
          omega
      | interrupted hpoll _ he ht =>
        subst hs he
        refine .failed ?_ ?_
        · simp only [hpoll, if_true]
          rfl
        · simp only [hpoll, if_true, ht, inboundPollRate]
          rfl
      | stopped hpoll _ hne hstop =>
        subst hs
        refine .stopped ?_ ?_ hstop
        · simp only [failureAfter_other hne, hnone, Option.map_none]
        · simp only [hpoll, if_true]
    | failed hsome hticks =>
      -- the counter is past the bound, and stays there
      cases ha.receives hr with
      | counted hpoll hne ht =>
        subst hs
        refine .failed ?_ ?_
        · grind [failureAfter_other]
        · grind
      | polled _ hrate => rw [hticks, inboundPollRate] at hrate; omega
      | interrupted _ hrate => rw [hticks, inboundPollRate] at hrate; omega
      | stopped _ hrate => rw [hticks, inboundPollRate] at hrate; omega

/-- **When receiving does not starve the commands.** -/
theorem polled_in_time_iff (src : MessageSource σ) (sock : σ) (rcvtimeo : Int) (recvIdentity : Bool)
    (calls : List (RecvCall src)) (s : PolledSocket σ)
    (havailable : RunMeets (step src) Available (init src sock rcvtimeo recvIdentity) calls)
    (hrun : run (step src) (init src sock rcvtimeo recvIdentity) calls = .ok s) :
    (s.unpolled : Int) ≤ inboundPollRate ↔ ∀ n ∈ s.sinceFailure, (n : Int) ≤ inboundPollRate := by
  have hinit : (init src sock rcvtimeo recvIdentity).Counts := .regular rfl rfl (by simp [init])
  have h : s.Counts :=
    run_invariant (fun _ _ _ hI hc hs => Counts.step hI hc hs) calls _ s hinit havailable hrun
  unfold inboundPollRate
  cases h with
  | regular hnone _ hlt => grind
  | failed hsome _ => grind
  | stopped hnone h0 _ => exact ⟨fun _ n hn => absurd hn (by simp [hnone]), fun _ => by omega⟩

open RecvSocket (onePipe plainCall)

theorem twoCalls_polled_in_time : ∃ s : PolledSocket (List Msg × List Msg),
    run (step onePipe) (init onePipe ([.init, .init], []) (-1) false) [plainCall [], plainCall []] =
        .ok s ∧
      (s.unpolled : Int) ≤ inboundPollRate := by
  obtain ⟨s, hrun, hnone⟩ : ∃ s, run (step onePipe) (init onePipe ([.init, .init], []) (-1) false)
      [plainCall [], plainCall []] = .ok s ∧ s.sinceFailure = none := ⟨_, rfl, rfl⟩
  refine ⟨s, hrun, (polled_in_time_iff onePipe _ _ _ _ s (by decide) hrun).2 fun n hn => ?_⟩
  exact absurd hn (by simp [hnone])

theorem signal_starves_commands :
    RunMeets (step onePipe) Available (init onePipe (List.replicate 201 .init, []) (-1) false)
        (List.replicate 99 (plainCall []) ++ plainCall [.eintr] :: List.replicate 101 (plainCall [])) ∧
      (run (step onePipe) (init onePipe (List.replicate 201 .init, []) (-1) false)
        (List.replicate 99 (plainCall []) ++ plainCall [.eintr] :: List.replicate 101 (plainCall []))).map
        (fun s => (s.unpolled, s.socket.ticks, s.socket.handed.length)) = .ok (101, 201, 200) := by
  constructor <;> decide +kernel

end PolledSocket

end Libxs
