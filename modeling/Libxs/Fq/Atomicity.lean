import Libxs.Fq.Intake
import Libxs.Fq.Proofs

/-! # The parts of a message are received together -/

namespace Libxs

variable {α : Type}

abbrev Part (α : Type) : Type := α × Bool

def nextSource [DecidableEq α] : Option α → Part α → Option (Option α)
  | none, (p, more) => some (if more then some p else none)
  | some q, (p, more) => if p = q then some (if more then some p else none) else none

def sourceAfter [DecidableEq α] (trace : List (Part α)) : Option (Option α) :=
  trace.foldlM nextSource none

theorem sourceAfter_concat [DecidableEq α] {trace : List (Part α)} {source : Option α}
    (h : sourceAfter trace = some source) (part : Part α) :
    sourceAfter (trace ++ [part]) = nextSource source part := by
  unfold sourceAfter at h ⊢
  simp [h]

/-! ## The queue with its history -/

structure FqHistory (α : Type) extends FqSystem α where
  trace : List (Part α)

inductive FqHistoryOp (α : Type) where
  | call (op : FqOp α)
  | peerRollback (pipe : α)

namespace FqHistory

variable [DecidableEq α]

def init : FqHistory α := ⟨FqSystem.init, []⟩

def parts : Option (Msg × α) → List (Part α)
  | none => []
  | some (msg, pipe) => [(pipe, msg.more)]

def step (s : FqHistory α) : FqHistoryOp α → Except Fault (FqHistory α)
  | .call .recvpipe =>
    match s.fq.recvpipe s.ends with
    | .error err => .error err
    | .ok (r, fq, ends) => .ok ⟨⟨fq, ends⟩, s.trace ++ parts r⟩
  | .call op =>
    match s.toFqSystem.step op with
    | .error err => .error err
    | .ok system => .ok { s with toFqSystem := system }
  | .peerRollback pipe =>
    match (s.ends pipe).peerRollback with
    | .error err => .error err
    | .ok e => .ok { s with toFqSystem := s.toFqSystem.setEnd pipe e }

structure Inv (s : FqHistory α) : Prop where
  bounded : s.fq.Bounded
  inbound : ∀ p, s.attached p → (s.ends p).inq.Inbound (s.fq.midMessage p)
  current : s.fq.more = true → ∃ p, 0 < s.fq.active ∧ s.fq.pipes.get s.fq.current = some p ∧
    (s.ends p).pipe.inActive = true
  source : sourceAfter s.trace =
    some (if s.fq.more then s.fq.pipes.get s.fq.current else none)

theorem inv_init : (init : FqHistory α).Inv where
  bounded := Rotor.inv_init _
  inbound _ hp := absurd hp (by simp [init, FqSystem.init, Fq.init, Rotor.init, Rotor.attached,
    ArrayT.empty])
  current h := absurd h (by simp [init, FqSystem.init, Fq.init])
  source := rfl

variable {s : FqHistory α} {p : α}
variable {e : Endpoint} {ends' : Ends α} {fq' : Fq α}

theorem Inv.intake (h : s.Inv) : Fq.Intake Grammar.any () s.fq s.ends :=
  ⟨h.bounded, fun _ => rfl, fun p hp => (h.inbound p hp).content, h.current⟩

theorem inv_of_intake {fq : Fq α} {ends : Ends α} {trace : List (Part α)}
    (h : Fq.Intake Grammar.any () fq ends)
    (hsource : sourceAfter trace = some (if fq.more then fq.pipes.get fq.current else none)) :
    Inv ⟨⟨fq, ends⟩, trace⟩ :=
  ⟨h.bounded, fun p hp => (h.content p hp).toInbound, h.current, hsource⟩

theorem Inv.sameSource (h : s.Inv) (hsame : s.fq.SameSource fq') :
    sourceAfter s.trace = some (if fq'.more then fq'.pipes.get fq'.current else none) := by
  obtain ⟨hmore, hget⟩ := hsame
  have hsource := h.source
  rw [hmore]
  grind

theorem Inv.setEnd (h : s.Inv)
    (hin : s.attached p → ∀ mid, (s.ends p).inq.Inbound mid → e.inq.Inbound mid)
    (hact : (s.ends p).pipe.inActive = true → e.pipe.inActive = true) :
    Inv { s with toFqSystem := s.toFqSystem.setEnd p e } :=
  inv_of_intake (h.intake.setEnd (fun hp mid _ hc => (hin hp mid hc.toInbound).content) hact) h.source

/-! ## The loops -/

theorem hasInLoop_spec : ∀ (count : Nat) (fq : Fq α) (ends : Ends α), fq.Bounded → count = fq.active →
    fq.more = false → (∀ p, fq.attached p → (ends p).inq.Inbound false) →
    ∀ r fq' ends', Fq.hasInLoop count fq ends = .ok (r, fq', ends') →
      fq'.Bounded ∧ fq'.more = false ∧ ∀ p, fq'.attached p → (ends' p).inq.Inbound false := by
  intro count
  induction count with
  | zero => grind [Fq.hasInLoop]
  | succ count ih =>
    intro fq ends h hact hm hin r fq' ends' hrun
    obtain ⟨p, hget, hatt, -⟩ := h.get_current (by omega)
    have hupdate : ∀ e : Endpoint, e.inq.Inbound false → ∀ x, fq.attached x →
        (Function.update ends p e x).inq.Inbound false := by
      intro e he x hx
      grind
    simp only [Fq.hasInLoop, hget] at hrun
    split at hrun
    · cases hrun
    next e hchk =>
      cases hrun
      exact ⟨h, hm, hupdate e (Endpoint.checkRead_inbound (hin p hatt) hchk)⟩
    next e hchk =>
      cases hde : fq.deactivate with
      | error err => simp [hde] at hrun
      | ok fq₁ =>
        simp only [hde] at hrun
        obtain ⟨fq₂, hde₂, hb₁, hmore₁, hact₁, hmem₁⟩ := Fq.bounded_deactivate h (by omega)
        obtain rfl : fq₁ = fq₂ := by simpa [hde] using hde₂
        exact ih fq₁ _ hb₁ (by omega) (hmore₁.trans hm)
          (fun x hx => hupdate e (Endpoint.checkRead_inbound (hin p hatt) hchk) x
            ((hmem₁ x).1 hx)) r fq' ends' hrun

def PartsKeep (s : FqHistory α) : FqHistoryOp α → Prop
  | .call .recvpipe =>
    s.fq.more = true → ∀ p ∈ s.fq.pipes.get s.fq.current, (s.ends p).canRead = true
  | .call (.terminated p) =>
    s.attached p → s.fq.more = true →
      s.fq.pipes.index p ≠ s.fq.current ∧ s.fq.KeepsCurrent p
  | .call (.attach _ e) => e.inq.Inbound false
  | .call (.peerWrite p msg) =>
    msg.isDelimiter = true → msg.more = false ∧ (s.ends p).inq.incomplete = []
  | _ => True

instance (s : FqHistory α) (op : FqHistoryOp α) : Decidable (s.PartsKeep op) := by
  unfold PartsKeep; split <;> infer_instance

theorem Inv.recvpipe (h : s.Inv) {r : Option (Msg × α)}
    (hrun : s.fq.recvpipe s.ends = .ok (r, fq', ends')) :
    Inv ⟨⟨fq', ends'⟩, s.trace ++ parts r⟩ := by
  obtain ⟨_, hrec⟩ := h.intake.received hrun
  refine inv_of_intake (hrec.intake h.intake.place).1 ?_
  cases r with
  | none =>
    obtain ⟨hidle, hidle', -⟩ := hrec.nothing rfl
    have hsource := h.source
    simp only [hidle, Bool.false_eq_true, if_false] at hsource
    simpa [parts, hidle'] using hsource
  | some r =>
    obtain ⟨msg, p⟩ := r
    obtain ⟨-, hmore, hsame, hnext, -⟩ := hrec.part msg p rfl
    rw [parts, sourceAfter_concat h.source]
    simp only [hmore]
    -- the part is in place, and the next one is due from the same pipe
    have hplace : nextSource (if s.fq.more then s.fq.pipes.get s.fq.current else none)
        (p, msg.more) = some (if msg.more then some p else none) := by
      grind [nextSource]
    rw [hplace]
    grind

theorem Inv.hasIn (h : s.Inv) {r : Bool}
    (hrun : s.fq.hasIn s.ends = .ok (r, fq', ends')) : Inv ⟨⟨fq', ends'⟩, s.trace⟩ := by
  unfold Fq.hasIn at hrun
  cases hm : s.fq.more with
  | true =>
    simp only [hm, if_true] at hrun
    cases hrun
    exact ⟨h.bounded, h.inbound, h.current, h.source⟩
  | false =>
    simp only [hm, Bool.false_eq_true, if_false] at hrun
    have hin : ∀ p, s.attached p → (s.ends p).inq.Inbound false := fun p hp => by
      have := h.inbound p hp
      rwa [Fq.midMessage_of_more_false hm] at this
    obtain ⟨hb, hm', hin'⟩ := hasInLoop_spec _ _ _ h.bounded rfl hm hin _ _ _ hrun
    refine ⟨hb, fun p hp => ?_, fun hc => absurd hc (by simp [hm']), ?_⟩
    · rw [Fq.midMessage_of_more_false hm']
      exact hin' p hp
    · have hsource := h.source
      simpa [hm, hm'] using hsource

theorem Inv.attach (h : s.Inv) (hp : ¬ s.attached p) (he : e.inq.Inbound false)
    (hr : s.fq.attach p = .ok fq') :
    Inv ⟨⟨fq', Function.update s.ends p e⟩, s.trace⟩ := by
  obtain ⟨hintake, hsame⟩ := h.intake.attach hp he.content hr
  exact inv_of_intake hintake (h.sameSource hsame)

theorem Inv.activated (h : s.Inv) (hp : s.attached p)
    (hact : (s.ends p).processActivateRead = (true, e))
    (hr : s.fq.activated p = .ok fq') : Inv ⟨⟨fq', Function.update s.ends p e⟩, s.trace⟩ := by
  obtain ⟨hintake, hsame⟩ := h.intake.activated hp hact hr
  exact inv_of_intake hintake (h.sameSource hsame)

theorem Inv.terminated (h : s.Inv) (hp : s.attached p)
    (hk : s.fq.more = true → s.fq.pipes.index p ≠ s.fq.current ∧ s.fq.KeepsCurrent p)
    (hr : s.fq.terminated p = .ok fq') : Inv ⟨⟨fq', s.ends⟩, s.trace⟩ := by
  obtain ⟨hintake, hsame⟩ := h.intake.terminated hp hk hr
  exact inv_of_intake hintake (h.sameSource hsame)

theorem Inv.step {s' : FqHistory α} (h : s.Inv) {op : FqHistoryOp α} (hk : s.PartsKeep op)
    (hs : s.step op = .ok s') : s'.Inv := by
  cases op with
  | peerRollback p =>
    simp only [FqHistory.step, Endpoint.peerRollback] at hs
    cases hback : Pipe.rollbackLoop (s.ends p).inq.queue.length (s.ends p).inq with
    | error err => simp [hback] at hs
    | ok q =>
      simp only [hback] at hs
      cases hs
      refine h.setEnd (fun hp mid hin => ?_) fun ha => ha
      simp only [YPipe.rollbackLoop_eq _ _ hin.good (Nat.le_refl _)] at hback
      cases hback
      exact hin.rolledBack
  | call op =>
    cases op with
    | recvpipe => grind [FqHistory.step, h.recvpipe]
    | hasIn => grind [FqHistory.step, FqSystem.step, h.hasIn]
    | attach p e =>
      simp only [FqHistory.step, FqSystem.step] at hs
      by_cases hg : s.attached p ∨ e.pipe.inActive = false
      · simp only [hg, if_true] at hs
        cases hs
        exact h
      · simp only [hg, if_false] at hs
        cases hr : s.fq.attach p with
        | error err => simp [hr] at hs
        | ok fq' =>
          simp only [hr] at hs
          cases hs
          exact h.attach (not_or.1 hg).1 (e := { e with refusedRead := false }) hk hr
    | terminated p =>
      simp only [FqHistory.step, FqSystem.step] at hs
      by_cases hp : s.attached p
      · simp only [hp, if_true] at hs
        cases hr : s.fq.terminated p with
        | error err => simp [hr] at hs
        | ok fq' =>
          simp only [hr] at hs
          cases hs
          exact h.terminated hp (hk hp) hr
      · simp only [hp, if_false] at hs
        cases hs
        exact h
    | processActivateRead p =>
      simp only [FqHistory.step, FqSystem.step] at hs
      by_cases hp : s.attached p
      · simp only [hp, if_true] at hs
        rcases hact : (s.ends p).processActivateRead with ⟨_ | _, e⟩
        · simp only [hact, Except.ok.injEq] at hs
          obtain rfl := Endpoint.processActivateRead_false hact
          exact hs ▸ h.setEnd (fun _ _ hin => hin) fun ha => ha
        · simp only [hact] at hs
          cases hr : s.fq.activated p with
          | error err => simp [hr] at hs
          | ok fq' =>
            simp only [hr] at hs
            cases hs
            exact h.activated hp hact hr
      · simp only [hp, if_false] at hs
        cases hs
        exact h
    | processPipeTerm p =>
      simp only [FqHistory.step, FqSystem.step, Endpoint.processPipeTerm] at hs
      cases hpt : (s.ends p).pipe.processPipeTerm with
      | error err => simp [hpt] at hs
      | ok r =>
        simp only [hpt] at hs
        cases hs
        exact h.setEnd (fun _ _ hin => hin) fun ha =>
          (Pipe.processPipeTerm_reads hpt).1.trans ha
    | terminate p d =>
      simp only [FqHistory.step, FqSystem.step, Endpoint.terminate] at hs
      cases hpt : (s.ends p).pipe.terminate d (s.ends p).outPtr with
      | error err => simp [hpt] at hs
      | ok r =>
        simp only [hpt] at hs
        cases hs
        refine h.setEnd (fun _ _ hin => ?_) fun ha => (Pipe.terminate_reads hpt).1.trans ha
        simpa [Endpoint.setOut_inq] using hin
    | peerWrite p msg =>
      simp only [FqHistory.step, FqSystem.step] at hs
      cases hs
      exact h.setEnd (fun _ _ hin => hin.write hk) fun ha => ha
    | peerFlush p =>
      simp only [FqHistory.step, FqSystem.step] at hs
      cases hs
      exact h.setEnd (fun _ _ hin => hin.flush) fun ha => ha

/-! ## The assertion -/

theorem Inv.recvpipe_assertFailed_iff (h : s.Inv) :
    s.fq.recvpipe s.ends = .error .assertFailed ↔ ¬ s.PartsKeep (.call .recvpipe) := by
  refine ⟨fun hfail hk => ?_, fun hk => ?_⟩
  · obtain ⟨r, _, fq', ends', hrun, -⟩ := h.intake.recvpipe hk
    rw [hfail] at hrun
    cases hrun
  · simp only [PartsKeep, Classical.not_imp, not_forall] at hk
    obtain ⟨hm, p, hp, hcan⟩ := hk
    obtain ⟨-, hpos, -⟩ := h.current hm
    obtain ⟨count, hcount⟩ : ∃ count, s.fq.active = count + 1 :=
      ⟨_, (Nat.succ_pred_eq_of_pos hpos).symm⟩
    have hget : s.fq.pipes.get s.fq.current = some p := hp
    rcases (s.ends p).read_cases with ⟨msg, e, -, hcan', -⟩ | ⟨e, hread, -⟩
    · exact absurd hcan' hcan
    · simp [Fq.recvpipe, hcount, Fq.recvLoop, hget, hread, hm]

def PartsTogether (s : FqHistory α) : Prop := ∃ source, sourceAfter s.trace = some source

instance (s : FqHistory α) : Decidable s.PartsTogether :=
  decidable_of_iff ((sourceAfter s.trace).isSome = true) Option.isSome_iff_exists

/-- **In a run that meets `PartsKeep`, the parts of every message come from one pipe, one after the
    other.** -/
theorem parts_received_together (ops : List (FqHistoryOp α)) (s : FqHistory α)
    (hmeets : RunMeets step PartsKeep init ops)
    (hrun : run step init ops = .ok s) :
    s.PartsTogether ∧
      (s.fq.recvpipe s.ends = .error .assertFailed ↔ ¬ s.PartsKeep (.call .recvpipe)) := by
  have h : s.Inv :=
    run_invariant (fun _ _ _ hI hk hs => Inv.step hI hk hs) ops init s inv_init hmeets hrun
  exact ⟨⟨_, h.source⟩, h.recvpipe_assertFailed_iff⟩

def sendTwoParts (p : Nat) : List (FqHistoryOp Nat) :=
  [.call (.peerWrite p { Msg.init with flags := Msg.moreFlag }), .call (.peerWrite p .init),
    .call (.peerFlush p)]

def lingeringPeer : List (FqHistoryOp Nat) :=
  [.call (.attach 0 (.init 0 0 true)), .call (.attach 1 (.init 0 0 true))] ++ sendTwoParts 0 ++
    sendTwoParts 1 ++ [.call .recvpipe, .call (.processPipeTerm 0), .call .hasIn, .call .recvpipe,
      .call .recvpipe]

theorem lingeringPeer_together :
    RunMeets step PartsKeep init lingeringPeer ∧
      ∃ s, run step init lingeringPeer = .ok s ∧ s.PartsTogether ∧
        s.trace = [(0, true), (0, false), (1, true)] := by
  have hmeets : RunMeets step PartsKeep init lingeringPeer := by decide
  obtain ⟨s, hs⟩ : ∃ s, run step init lingeringPeer = .ok s := ⟨_, rfl⟩
  refine ⟨hmeets, s, hs, (parts_received_together lingeringPeer s hmeets hs).1, ?_⟩
  have ht : (run step init lingeringPeer).map trace =
      .ok [(0, true), (0, false), (1, true)] := by decide
  rw [hs] at ht
  simpa [Except.map] using ht

def hastyPeer : List (FqHistoryOp Nat) :=
  .call (.attach 0 (.init 0 0 false)) :: sendTwoParts 0 ++
    [.call .recvpipe, .call (.processPipeTerm 0)]

def terminatingOwner : List (FqHistoryOp Nat) :=
  .call (.attach 0 (.init 0 0 true)) :: sendTwoParts 0 ++
    [.call .recvpipe, .call (.terminate 0 false)]

def shiftedCurrent : List (FqHistoryOp Nat) :=
  [.call (.attach 0 (.init 0 0 true)), .call (.attach 1 (.init 0 0 true)),
    .call (.attach 2 (.init 0 0 true)), .call (.peerWrite 0 .init), .call (.peerFlush 0),
    .call (.peerWrite 1 .init), .call (.peerFlush 1)] ++ sendTwoParts 2 ++ sendTwoParts 0 ++
    sendTwoParts 1 ++ [.call .recvpipe, .call .recvpipe, .call .recvpipe,
      .call (.processPipeTerm 1), .call (.terminated 1), .call .recvpipe]

theorem hastyPeer_aborts :
    (∃ s, run step init hastyPeer = .ok s ∧
        s.fq.recvpipe s.ends = .error .assertFailed) ∧
      (∃ s, run step init terminatingOwner = .ok s ∧
        s.fq.recvpipe s.ends = .error .assertFailed) ∧
      ∃ s, run step init shiftedCurrent = .ok s ∧ ¬ s.PartsTogether :=
  ⟨⟨_, rfl, rfl⟩, ⟨_, rfl, rfl⟩, ⟨_, rfl, by decide⟩⟩

end FqHistory

end Libxs
