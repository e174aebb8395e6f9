import Libxs.Foundation.Run
import Libxs.Msg

/-! # `socket_base_t::recv` -/

namespace Libxs

def inboundPollRate : Int := 100

structure MessageSource (σ : Type) where
  xrecv : σ → Except Fault (Except Errno Msg × σ)
  taken : σ → List Msg
  taken_ok : ∀ {s t : σ} {msg : Msg}, xrecv s = .ok (.ok msg, t) → taken t = taken s ++ [msg]
  taken_error : ∀ {s t : σ} {e : Errno}, xrecv s = .ok (.error e, t) → taken t = taken s

def MessageSource.Command {σ : Type} (src : MessageSource σ) : Type :=
  { f : σ → Except Fault σ // ∀ {s t : σ}, f s = .ok t → src.taken t = src.taken s }

inductive MailboxResult {σ : Type} (src : MessageSource σ) where
  | command (f : src.Command)
  | stop
  | eagain
  | eintr

structure RecvCall {σ : Type} (src : MessageSource σ) where
  valid : Bool
  dontwait : Bool
  mailbox : List (MailboxResult src)
  clock : List Int

structure RecvSocket (σ : Type) where
  sock : σ
  ctxTerminated : Bool
  ticks : Int
  rcvmore : Bool
  rcvtimeo : Int
  recvIdentity : Bool
  handed : List Msg

namespace RecvSocket

variable {σ : Type} {src : MessageSource σ}

def processCommands : List (MailboxResult src) → RecvSocket σ →
    Except Fault (Except Errno (List (MailboxResult src)) × RecvSocket σ)
  | [], _ => .error .outOfFuel
  | .eagain :: mailbox, s =>
    if s.ctxTerminated then .ok (.error .eterm, s) else .ok (.ok mailbox, s)
  | .eintr :: _, s => .ok (.error .eintr, s)
  | .stop :: mailbox, s => processCommands mailbox { s with ctxTerminated := true }
  | .command f :: mailbox, s =>
    match f.1 s.sock with
    | .error e => .error e
    | .ok sock => processCommands mailbox { s with sock := sock }

def extractFlags (s : RecvSocket σ) (msg : Msg) : Except Fault (RecvSocket σ) :=
  -- xs_assert (options.recv_identity)
  if msg.isIdentity && !s.recvIdentity then .error .assertFailed
  else .ok { s with rcvmore := msg.more }

def finish (s : RecvSocket σ) (msg : Msg) : Except Fault (Except Errno Msg × RecvSocket σ) :=
  match s.extractFlags msg with
  | .error e => .error e
  | .ok s => .ok (.ok msg, s)

def retry (src : MessageSource σ) (s : RecvSocket σ) (mailbox : List (MailboxResult src)) :
    Except Fault (Except Errno Msg × RecvSocket σ) :=
  match processCommands mailbox s with
  | .error e => .error e
  | .ok (.error e, s) => .ok (.error e, s)
  | .ok (.ok _, s) =>
    match src.xrecv s.sock with
    | .error e => .error e
    | .ok (.error e, sock) => .ok (.error e, { s with sock := sock, ticks := 0 })
    | .ok (.ok msg, sock) => finish { s with sock := sock, ticks := 0 } msg

def block (src : MessageSource σ) (deadline : Int) : Nat → Int → RecvSocket σ →
    List (MailboxResult src) → List Int → Except Fault (Except Errno Msg × RecvSocket σ)
  | 0, _, _, _, _ => .error .outOfFuel
  | fuel + 1, timeout, s, mailbox, clock =>
    match processCommands mailbox s with
    | .error e => .error e
    | .ok (.error e, s) => .ok (.error e, s)
    | .ok (.ok mailbox, s) =>
      match src.xrecv s.sock with
      | .error e => .error e
      | .ok (.ok msg, sock) => finish { s with sock := sock, ticks := 0 } msg
      | .ok (.error e, sock) =>
        let s := { s with sock := sock }
        if e ≠ .eagain then .ok (.error e, s)
        else if 0 < timeout then
          -- timeout = (int) (end - clock.now_ms ())
          let timeout := (deadline - clock.headD 0).bmod (2 ^ 32)
          if timeout ≤ 0 then .ok (.error .eagain, s)
          else block src deadline fuel timeout s mailbox clock.tail
        else block src deadline fuel timeout s mailbox clock

def await (src : MessageSource σ) (s : RecvSocket σ) (c : RecvCall src)
    (mailbox : List (MailboxResult src)) : Except Fault (Except Errno Msg × RecvSocket σ) :=
  if c.dontwait ∨ s.rcvtimeo = 0 then retry src s mailbox
  else if s.rcvtimeo < 0 then block src 0 (mailbox.length + 1) s.rcvtimeo s mailbox c.clock
  else
    block src (c.clock.headD 0 + s.rcvtimeo) (mailbox.length + 1) s.rcvtimeo s mailbox c.clock.tail

def tick (s : RecvSocket σ) (mailbox : List (MailboxResult src)) :
    Except Fault (Except Errno (List (MailboxResult src)) × RecvSocket σ) :=
  if 2 ^ 31 - 1 ≤ s.ticks then .error .signedOverflow
  else
    let s := { s with ticks := s.ticks + 1 }
    if s.ticks = inboundPollRate then
      match processCommands mailbox s with
      | .error e => .error e
      | .ok (.error e, s) => .ok (.error e, s)
      | .ok (.ok mailbox, s) => .ok (.ok mailbox, { s with ticks := 0 })
    else .ok (.ok mailbox, s)

def recv (s : RecvSocket σ) (c : RecvCall src) : Except Fault (Except Errno Msg × RecvSocket σ) :=
  if s.ctxTerminated then .ok (.error .eterm, s)
  else if !c.valid then .ok (.error .efault, s)
  else
    match src.xrecv s.sock with
    | .error e => .error e
    | .ok (r, sock) =>
      let s := { s with sock := sock }
      match r with
      | .ok msg =>
        match s.tick c.mailbox with
        | .error e => .error e
        | .ok (.error e, s) => .ok (.error e, s)
        | .ok (.ok _, s) => s.finish msg
      | .error e =>
        if e ≠ .eagain then .ok (.error e, s)
        else
          match s.tick c.mailbox with
          | .error e => .error e
          | .ok (.error e, s) => .ok (.error e, s)
          | .ok (.ok mailbox, s) => await src s c mailbox

def step (src : MessageSource σ) (s : RecvSocket σ) (c : RecvCall src) : Except Fault (RecvSocket σ) :=
  match s.recv c with
  | .error e => .error e
  | .ok (r, t) => .ok { t with handed := s.handed ++ r.toOption.toList }

def init (src : MessageSource σ) (sock : σ) (rcvtimeo : Int) (recvIdentity : Bool) : RecvSocket σ where
  sock := sock
  ctxTerminated := false
  ticks := 0
  rcvmore := false
  rcvtimeo := rcvtimeo
  recvIdentity := recvIdentity
  handed := src.taken sock

/-! ## What the calls take -/

variable {s t : RecvSocket σ} {mailbox : List (MailboxResult src)}
variable {r : Except Errno Msg} {c : RecvCall src}

theorem processCommands_taken : ∀ {mailbox : List (MailboxResult src)} {s t : RecvSocket σ}
    {r : Except Errno (List (MailboxResult src))}, processCommands mailbox s = .ok (r, t) →
    src.taken t.sock = src.taken s.sock := by
  intro mailbox
  induction mailbox with
  | nil => exact fun h => absurd h (by simp [processCommands])
  | cons result mailbox ih =>
    intro s t r h
    cases result with
    | eagain => grind [processCommands]
    | eintr => exact (Prod.mk.inj (Except.ok.inj h)).2 ▸ rfl
    | stop => exact ih (s := { s with ctxTerminated := true }) h
    | command f => grind [processCommands]

def Accounted (src : MessageSource σ) (s : RecvSocket σ) (r : Except Errno Msg) (t : RecvSocket σ) :
    Prop :=
  src.taken t.sock = src.taken s.sock ++ r.toOption.toList

theorem Accounted.error {e : Errno} (h : src.taken t.sock = src.taken s.sock) :
    Accounted src s (.error e) t := by
  simpa [Accounted, Except.toOption] using h

theorem accounted_finish {msg : Msg} {u : RecvSocket σ}
    (hs : src.taken s.sock = src.taken u.sock ++ [msg]) (h : s.finish msg = .ok (r, t)) :
    Accounted src u r t := by
  unfold finish extractFlags at h
  split at h
  · cases h
  next s' hflags =>
    split at hflags
    · cases hflags
    · cases h
      rw [← Except.ok.inj hflags]
      exact hs

theorem accounted_retry (h : retry src s mailbox = .ok (r, t)) : Accounted src s r t := by
  unfold retry at h
  split at h
  · cases h
  next hp =>
    cases h
    exact .error (processCommands_taken hp)
  next hp =>
    have htaken := processCommands_taken hp
    split at h
    · cases h
    next hx =>
      cases h
      exact .error ((src.taken_error hx).trans htaken)
    next hx => exact accounted_finish ((src.taken_ok hx).trans (by rw [htaken])) h

theorem accounted_block {deadline : Int} : ∀ (fuel : Nat) {timeout : Int} {s t : RecvSocket σ}
    {mailbox : List (MailboxResult src)} {clock : List Int} {r : Except Errno Msg},
    block src deadline fuel timeout s mailbox clock = .ok (r, t) → Accounted src s r t := by
  intro fuel
  induction fuel with
  | zero => exact fun h => absurd h (by simp [block])
  | succ fuel ih =>
    intro timeout s t mailbox clock r h
    simp only [block] at h
    split at h
    · cases h
    next hp =>
      cases h
      exact .error (processCommands_taken hp)
    next hp =>
      have htaken := processCommands_taken hp
      split at h
      · cases h
      next hx => exact accounted_finish ((src.taken_ok hx).trans (by rw [htaken])) h
      next sock hx =>
        have hnext := (src.taken_error hx).trans htaken
        have hagain : ∀ {u : RecvSocket σ} {r : Except Errno Msg}, src.taken u.sock = src.taken s.sock →
            Accounted src u r t → Accounted src s r t := fun hu hacc => hacc.trans (by rw [hu])
        split at h
        · cases h
          exact .error hnext
        · split at h
          · split at h
            · cases h
              exact .error hnext
            · exact hagain hnext (ih h)
          · exact hagain hnext (ih h)

theorem accounted_await (h : await src s c mailbox = .ok (r, t)) : Accounted src s r t := by
  unfold await at h
  grind [accounted_retry, accounted_block]

theorem tick_taken {r : Except Errno (List (MailboxResult src))} (h : s.tick mailbox = .ok (r, t)) :
    src.taken t.sock = src.taken s.sock := by
  unfold tick at h
  split at h
  · cases h
  · simp only at h
    split at h
    · split at h
      · cases h
      next hp =>
        cases h
        exact (processCommands_taken hp :)
      next hp =>
        cases h
        exact (processCommands_taken hp :)
    · cases h
      rfl

/-! ## When nothing is lost -/

def KeepsMessage (s : RecvSocket σ) (c : RecvCall src) : Prop :=
  s.ctxTerminated = false → c.valid = true →
    match src.xrecv s.sock with
    | .ok (.ok _, sock) =>
      match ({ s with sock := sock } : RecvSocket σ).tick c.mailbox with
      | .ok (.error _, _) => False
      | _ => True
    | _ => True

instance (s : RecvSocket σ) (c : RecvCall src) : Decidable (s.KeepsMessage c) := by
  unfold KeepsMessage
  refine @instDecidableForall _ _ _ (@instDecidableForall _ _ _ ?_)
  split
  · split <;> infer_instance
  · infer_instance

theorem KeepsMessage.accounted (hk : s.KeepsMessage c)
    (h : s.recv c = .ok (r, t)) : Accounted src s r t := by
  unfold recv at h
  split at h
  · cases h
    exact .error rfl
  next hterm =>
    split at h
    · cases h
      exact .error rfl
    next hvalid =>
      split at h
      · cases h
      next r₁ sock hx =>
        cases r₁ with
        | ok msg =>
          simp only at h
          split at h
          · cases h
          next htick =>
            have := hk (by simpa using hterm) (by simpa using hvalid)
            simp only [hx, htick] at this
          next htick =>
            exact accounted_finish ((tick_taken htick).trans (src.taken_ok hx)) h
        | error e =>
          have hnone := src.taken_error hx
          simp only at h
          split at h
          · cases h
            exact .error hnone
          · split at h
            · cases h
            next htick =>
              cases h
              exact .error ((tick_taken htick).trans hnone)
            next htick =>
              have hacc := accounted_await h
              exact hacc.trans (by rw [tick_taken htick]; exact congrArg (· ++ _) hnone)

theorem lost_of_not_keepsMessage (hk : ¬ s.KeepsMessage c) (h : s.recv c = .ok (r, t)) :
    ∃ e msg, r = .error e ∧ src.taken t.sock = src.taken s.sock ++ [msg] := by
  unfold KeepsMessage at hk
  simp only [not_forall] at hk
  obtain ⟨hterm, hvalid, hk⟩ := hk
  split at hk
  next msg sock hx =>
    split at hk
    next e u htick =>
      rw [recv, if_neg (by simp [hterm]), if_neg (by simp [hvalid])] at h
      simp only [hx, htick] at h
      cases h
      exact ⟨e, msg, rfl, (tick_taken htick).trans (src.taken_ok hx)⟩
    · exact absurd trivial hk
  · exact absurd trivial hk

def FailsClean (s : RecvSocket σ) (c : RecvCall src) : Prop :=
  ∀ e t, s.recv c = .ok (.error e, t) → src.taken t.sock = src.taken s.sock

theorem KeepsMessage.failsClean (hk : s.KeepsMessage c) : s.FailsClean c := by
  intro e t h
  simpa [Accounted, Except.toOption] using hk.accounted h

theorem step_eq_ok (h : step src s c = .ok t) :
    ∃ r u, s.recv c = .ok (r, u) ∧ t = { u with handed := s.handed ++ r.toOption.toList } := by
  unfold step at h
  grind

def Lossy (src : MessageSource σ) (s : RecvSocket σ) : Prop :=
  s.handed.length < (src.taken s.sock).length

theorem step_lossless (hs : s.handed = src.taken s.sock) (hk : s.KeepsMessage c)
    (h : step src s c = .ok t) : t.handed = src.taken t.sock := by
  obtain ⟨r, u, hr, rfl⟩ := step_eq_ok h
  have hacc := hk.accounted hr
  unfold Accounted at hacc
  rw [← hs] at hacc
  exact hacc.symm

theorem step_loses (hs : s.handed = src.taken s.sock) (hk : ¬ s.KeepsMessage c)
    (h : step src s c = .ok t) : Lossy src t := by
  obtain ⟨r, u, hr, rfl⟩ := step_eq_ok h
  obtain ⟨e, msg, rfl, htaken⟩ := lost_of_not_keepsMessage hk hr
  simp [Lossy, htaken, hs, Except.toOption]

theorem Lossy.step (hs : Lossy src s) (h : step src s c = .ok t) : Lossy src t := by
  obtain ⟨r, u, hr, rfl⟩ := step_eq_ok h
  unfold Lossy at hs ⊢
  by_cases hk : s.KeepsMessage c
  · have hacc := congrArg List.length (hk.accounted hr)
    simp only [List.length_append] at hacc ⊢
    omega
  · obtain ⟨e, msg, rfl, htaken⟩ := lost_of_not_keepsMessage hk hr
    have := congrArg List.length htaken
    simp only [Except.toOption, Option.toList_none, List.append_nil, List.length_append,
      List.length_singleton] at this ⊢
    omega

/-- **No message is lost** exactly if each call that has taken a message and then processes commands
    can do so. -/
theorem lossless_iff (src : MessageSource σ) (sock : σ) (rcvtimeo : Int) (recvIdentity : Bool)
    (calls : List (RecvCall src)) (s : RecvSocket σ)
    (hrun : run (step src) (init src sock rcvtimeo recvIdentity) calls = .ok s) :
    (s.handed = src.taken s.sock ∧
        RunMeets (step src) FailsClean (init src sock rcvtimeo recvIdentity) calls) ↔
      RunMeets (step src) KeepsMessage (init src sock rcvtimeo recvIdentity) calls := by
  have hsplit := run_dichotomy (I := fun s => s.handed = src.taken s.sock) (J := Lossy src)
    (fun _ _ _ => step_lossless) (fun _ _ _ => step_loses) (fun _ _ _ => Lossy.step) calls _ s rfl hrun
  rcases hsplit with ⟨hmeets, hs⟩ | ⟨hmeets, hs⟩
  · grind [hmeets.mono, KeepsMessage.failsClean]
  · refine ⟨fun h => ?_, fun h => absurd h hmeets⟩
    exact absurd (congrArg List.length h.1) (Nat.ne_of_lt hs)

def onePipe : MessageSource (List Msg × List Msg) where
  xrecv s :=
    match s.1 with
    | [] => .ok (.error .eagain, s)
    | msg :: rest => .ok (.ok msg, (rest, s.2 ++ [msg]))
  taken s := s.2
  taken_ok {s t msg} h := by
    split at h
    · cases h
    · simp only [Except.ok.injEq, Prod.mk.injEq] at h
      rw [← h.2, h.1]
  taken_error {s t e} h := by
    split at h
    · rw [(Prod.mk.inj (Except.ok.inj h)).2]
    · cases h

def arrival : onePipe.Command :=
  ⟨fun s => .ok (s.1 ++ [.init], s.2), fun h => by rw [← Except.ok.inj h]; rfl⟩

def plainCall (mailbox : List (MailboxResult onePipe)) : RecvCall onePipe := ⟨true, false, mailbox, []⟩

theorem interruptedWait_lossless : ∃ s : RecvSocket (List Msg × List Msg),
    run (step onePipe) (init onePipe ([.init], []) (-1) false)
        [plainCall [], plainCall [.command arrival, .eagain], plainCall [.eagain, .eintr]] = .ok s ∧
      s.handed = onePipe.taken s.sock ∧ s.handed.length = 2 := by
  obtain ⟨s, hrun, hlength⟩ : ∃ s, run (step onePipe) (init onePipe ([.init], []) (-1) false)
      [plainCall [], plainCall [.command arrival, .eagain], plainCall [.eagain, .eintr]] = .ok s ∧
      s.handed.length = 2 := ⟨_, rfl, rfl⟩
  exact ⟨s, hrun, ((lossless_iff onePipe _ _ _ _ s hrun).mpr (by decide)).1, hlength⟩

theorem signal_loses_message :
    (run (step onePipe) (init onePipe (List.replicate 101 .init, []) (-1) false)
        (List.replicate 99 (plainCall []) ++ [plainCall [.eintr], plainCall []])).map
      (fun s => (s.sock.1.length, (onePipe.taken s.sock).length, s.handed.length)) =
    .ok (0, 101, 100) := by
  decide +kernel

end RecvSocket

end Libxs
