import Libxs.Fq.Intake
import Libxs.Fq.Proofs
import Libxs.SocketBase

/-! # The fair queue of a socket under the events of its pipes -/

namespace Libxs

variable {σ α Q : Type} [DecidableEq α] {G : Grammar Q} {q : Q}

namespace Fq

structure Supplied (G : Grammar Q) (q : Q) (fq : Fq α) (ends : Ends α) : Prop
    extends Intake G q fq ends where
  tracks : fq.Tracks readWatch ends

theorem supplied_init (ends : Ends α) : Supplied G G.start init ends :=
  ⟨intake_init ends, Rotor.tracks_init _ _⟩

variable {fq fq' : Fq α} {ends ends' : Ends α} {p : α}

theorem Supplied.recvpipe (h : Supplied G q fq ends) (hc : fq.Continues ends) :
    ∃ r q' fq' ends', fq.recvpipe ends = .ok (r, fq', ends') ∧ Received G q fq ends r q' fq' ends' ∧
      Supplied G q' fq' ends' ∧ fq'.Continues ends' := by
  obtain ⟨r, q', fq', ends', hrun, hrec⟩ := h.toIntake.recvpipe hc
  obtain ⟨hintake, hcont⟩ := hrec.intake h.place
  exact ⟨r, q', fq', ends', hrun, hrec, ⟨hintake, (FqSystem.Inv.recvpipe (s := ⟨fq, ends⟩) h.tracks hrun).1⟩, hcont⟩

theorem Supplied.not_readable (h : Supplied G q fq ends) (h0 : fq.active = 0) :
    ∀ p, fq.attached p → ¬ (ends p).Readable :=
  FqSystem.Inv.not_readable (s := ⟨fq, ends⟩) h.tracks h0

end Fq

/-! ## The attached pipes -/

namespace Fq

variable {fq fq' : Fq α} {p : α}

omit [DecidableEq α] in
theorem withRotor_ok {r : Except Fault (Rotor α)} (h : fq.withRotor r = .ok fq') :
    r = .ok fq'.toRotor ∧ fq'.more = fq.more := by
  unfold withRotor at h
  grind

theorem attached_attach (hwf : fq.pipes.WF) (hp : ¬ fq.attached p) (h : fq.attach p = .ok fq') :
    fq'.pipes.WF ∧ ∀ x, fq'.attached x ↔ fq.attached x ∨ x = p := by
  have hr := (withRotor_ok h).1
  unfold Rotor.attach at hr
  cases hs : (fq.pipes.pushBack p).swap fq.active ((fq.pipes.pushBack p).size - 1) with
  | none =>
    simp only [hs] at hr
    cases hr
  | some a =>
    simp only [hs, Except.ok.injEq] at hr
    have hpipes : fq'.pipes = a := (congrArg Rotor.pipes hr).symm
    unfold Rotor.attached
    rw [hpipes]
    exact ⟨(hwf.pushBack hp).swap hs, fun x => (ArrayT.mem_swap hs).trans ArrayT.mem_pushBack⟩

theorem attached_activated (hwf : fq.pipes.WF) (h : fq.activated p = .ok fq') :
    fq'.pipes.WF ∧ ∀ x, fq'.attached x ↔ fq.attached x := by
  have hr := (withRotor_ok h).1
  unfold Rotor.activated at hr
  cases hs : fq.pipes.swap (fq.pipes.index p) fq.active with
  | none =>
    simp only [hs] at hr
    cases hr
  | some a =>
    simp only [hs, Except.ok.injEq] at hr
    have hpipes : fq'.pipes = a := (congrArg Rotor.pipes hr).symm
    unfold Rotor.attached
    rw [hpipes]
    exact ⟨hwf.swap hs, fun x => ArrayT.mem_swap hs⟩

theorem attached_deactivate (hwf : fq.pipes.WF) (h : fq.deactivate = .ok fq') :
    fq'.pipes.WF ∧ ∀ x, fq'.attached x ↔ fq.attached x := by
  have hr := (withRotor_ok h).1
  unfold Rotor.deactivate at hr
  cases hs : fq.pipes.swap fq.current (fq.active - 1) with
  | none =>
    simp only [hs] at hr
    cases hr
  | some a =>
    simp only [hs, Except.ok.injEq] at hr
    have hpipes : fq'.pipes = a := (congrArg Rotor.pipes hr).symm
    unfold Rotor.attached
    rw [hpipes]
    exact ⟨hwf.swap hs, fun x => ArrayT.mem_swap hs⟩

theorem attached_terminated (hwf : fq.pipes.WF) (hp : fq.attached p) (h : fq.terminated p = .ok fq') :
    fq'.pipes.WF ∧ ∀ x, fq'.attached x ↔ fq.attached x ∧ x ≠ p := by
  have he := (Rotor.terminated_ok (withRotor_ok h).1).1
  refine ⟨hwf.eraseAt he, fun x => (ArrayT.mem_eraseAt hwf he).trans (and_congr_right fun hx => ?_)⟩
  exact not_congr ⟨fun hi => hwf.index_inj hx hp hi, fun hi => by rw [hi]⟩

theorem recvLoop_reads : ∀ (count : Nat) {fq fq' : Fq α} {ends ends' : Ends α}
    {r : Option (Msg × α)}, fq.pipes.WF → recvLoop count fq ends = .ok (r, fq', ends') →
    fq'.pipes.WF ∧ (∀ x, fq'.attached x ↔ fq.attached x) ∧
      (∀ x, Relation.ReflTransGen (fun e e' => ∃ msg, Endpoint.read e = .ok (msg, e'))
        (ends x) (ends' x)) ∧
      ∀ msg p, r = some (msg, p) → fq.attached p ∧ ∃ e,
        Relation.ReflTransGen (fun e e' => ∃ msg, Endpoint.read e = .ok (msg, e')) (ends p) e ∧
          e.read = .ok (some msg, ends' p) := by
  intro count
  induction count with
  | zero => grind [recvLoop]
  | succ count ih =>
    intro fq fq' ends ends' r hwf h
    cases hget : fq.pipes.get fq.current with
    | none => simp [recvLoop, hget] at h
    | some p =>
      -- what a read of the current pipe does to all ends
      have hupdate : ∀ {msg : Option Msg} {e : Endpoint}, (ends p).read = .ok (msg, e) → ∀ x,
          Relation.ReflTransGen (fun e e' => ∃ msg, Endpoint.read e = .ok (msg, e'))
            (ends x) (Function.update ends p e x) := fun hread x => by
        grind
      rcases (ends p).read_cases with ⟨msg, e, hread, -⟩ | ⟨e, hread, -⟩
      · simp only [recvLoop, hget, hread] at h
        cases h
        refine ⟨hwf, fun _ => Iff.rfl, hupdate hread, fun msg' x hr => ?_⟩
        simp only [Option.some.injEq, Prod.mk.injEq] at hr
        obtain ⟨rfl, rfl⟩ := hr
        exact ⟨ArrayT.mem_of_get hget, ends p, .refl, by simpa using hread⟩
      · cases hmore : fq.more with
        | true => simp [recvLoop, hget, hread, hmore] at h
        | false =>
          cases hde : fq.deactivate with
          | error err => simp [recvLoop, hget, hread, hmore, hde] at h
          | ok fq₁ =>
            simp only [recvLoop, hget, hread, hmore, hde, Bool.false_eq_true, if_false] at h
            obtain ⟨hwf₁, hatt₁⟩ := attached_deactivate hwf hde
            obtain ⟨hwf', hatt', hreads, hlast⟩ := ih hwf₁ h
            refine ⟨hwf', fun x => (hatt' x).trans (hatt₁ x),
              fun x => (hupdate hread x).trans (hreads x), fun msg x hr => ?_⟩
            obtain ⟨hx, e', he', hre'⟩ := hlast msg x hr
            exact ⟨(hatt₁ x).1 hx, e', (hupdate hread x).trans he', hre'⟩

end Fq

/-! ## What is left in a pipe -/

namespace Endpoint

variable {e e' : Endpoint}

theorem read_queue {msg : Option Msg} (h : e.read = .ok (msg, e')) :
    e'.inq.queue ⊆ e.inq.queue ∧ ∀ m, msg = some m → m ∈ e.inq.queue := by
  have hread : e.inq.read.2.queue ⊆ e.inq.queue ∧ ∀ m, e.inq.read.1 = some m → m ∈ e.inq.queue := by
    have hq := YPipe.checkRead_queue e.inq
    unfold YPipe.read
    grind
  unfold read Pipe.read at h
  split at h
  · cases h
  next hp =>
    cases h
    split at hp
    · grind
    · grind

theorem reads_queue
    (h : Relation.ReflTransGen (fun e e' => ∃ msg, read e = .ok (msg, e')) e e') :
    e'.inq.queue ⊆ e.inq.queue := by
  induction h with
  | refl => exact List.Subset.refl _
  | tail _ hr ih =>
    obtain ⟨msg, hr⟩ := hr
    exact List.Subset.trans (read_queue hr).1 ih

end Endpoint

structure Endpoint.SameInbound (e e' : Endpoint) : Prop where
  inq : e'.inq = e.inq
  inActive : e'.pipe.inActive = e.pipe.inActive
  reads : e'.pipe.reads = e.pipe.reads
  refusedRead : e'.refusedRead = e.refusedRead

namespace Endpoint

variable {ok : Bool} {e e' : Endpoint}

theorem SameInbound.refl (e : Endpoint) : e.SameInbound e := ⟨rfl, rfl, rfl, rfl⟩

theorem SameInbound.trans {e₁ e₂ e₃ : Endpoint} (h : e₁.SameInbound e₂) (h' : e₂.SameInbound e₃) :
    e₁.SameInbound e₃ :=
  ⟨h'.inq.trans h.inq, h'.inActive.trans h.inActive, h'.reads.trans h.reads,
    h'.refusedRead.trans h.refusedRead⟩

theorem SameInbound.canRead (h : e.SameInbound e') : e'.canRead = e.canRead := by
  unfold Endpoint.canRead
  rw [h.inActive, h.reads]

theorem sameInbound_write {msg : Msg} (h : e.write msg = .ok (ok, e')) : e.SameInbound e' := by
  have hrest : e'.inq = e.inq ∧ e'.refusedRead = e.refusedRead := by
    unfold write at h
    cases hw : e.pipe.write e.outPtr msg with
    | error err => simp [hw] at h
    | ok r =>
      simp only [hw, Except.ok.injEq, Prod.mk.injEq] at h
      rw [← h.2]
      exact ⟨by simp, by simp⟩
  cases ok with
  | true =>
    obtain ⟨-, hpipe, -⟩ := write_true h
    refine ⟨hrest.1, ?_, ?_, hrest.2⟩ <;> (rw [hpipe]; split <;> rfl)
  | false =>
    obtain ⟨hcheck, -⟩ := write_false h
    obtain ⟨-, hpipe⟩ := Pipe.checkWrite_false hcheck
    exact ⟨hrest.1, by rw [hpipe], by rw [hpipe]; rfl, hrest.2⟩

theorem sameInbound_checkWrite (h : e.checkWrite = (ok, e')) : e.SameInbound e' := by
  have hrest : e'.inq = e.inq ∧ e'.refusedRead = e.refusedRead := by
    obtain rfl : e.checkWrite.2 = e' := by rw [h]
    exact ⟨rfl, rfl⟩
  cases ok with
  | true =>
    obtain ⟨-, hpipe, -⟩ := checkWrite_true h
    exact ⟨hrest.1, by rw [hpipe], by rw [hpipe], hrest.2⟩
  | false =>
    obtain ⟨hcheck, -⟩ := checkWrite_false h
    obtain ⟨-, hpipe⟩ := Pipe.checkWrite_false hcheck
    exact ⟨hrest.1, by rw [hpipe], by rw [hpipe]; rfl, hrest.2⟩

theorem sameInbound_flush (e : Endpoint) : e.SameInbound e.flush :=
  ⟨by simp [flush], by rw [flush_pipe], by rw [flush_pipe], by simp [flush]⟩

end Endpoint

variable {e e' : Endpoint} {ends ends' : Ends α} {fq : Fq α} {ev : PipeEvent α} {S : Sink σ α}
variable {p : α} {s s' : σ}

theorem sameInbound_update
    (h : (ends p).SameInbound e) (x : α) : (ends x).SameInbound (Function.update ends p e x) := by
  grind [Endpoint.SameInbound.refl]

theorem Fq.Intake.sent (h : fq.Intake G q ends)
    (hsame : ∀ x, (ends x).SameInbound (ends' x)) : fq.Intake G q ends' where
  bounded := h.bounded
  place := h.place
  content x hx := by
    unfold Fq.Holds
    rw [(hsame x).inq]
    exact h.content x hx
  current hm := by
    obtain ⟨x, hpos, hget, hact⟩ := h.current hm
    exact ⟨x, hpos, hget, (hsame x).inActive.trans hact⟩

theorem Fq.Supplied.sent (h : fq.Supplied G q ends)
    (hsame : ∀ x, (ends x).SameInbound (ends' x)) : fq.Supplied G q ends' where
  toIntake := h.toIntake.sent hsame
  tracks := by
    refine ⟨h.tracks.rotor.congr fun x _ => ?_, fun x hx href => ?_, fun x hx has => ?_⟩
    · simp only [readWatch, (hsame x).refusedRead]
    · simp only [readWatch, (hsame x).refusedRead, (hsame x).canRead] at href ⊢
      exact h.tracks.closed x hx href
    · simp only [readWatch, (hsame x).inActive, (hsame x).refusedRead] at has ⊢
      exact h.tracks.refused x hx has

omit [DecidableEq α] in
theorem Fq.Continues.sent (h : fq.Continues ends)
    (hsame : ∀ x, (ends x).SameInbound (ends' x)) : fq.Continues ends' := fun hm p hp =>
  (hsame p).canRead.trans (h hm p hp)

structure Sink.Queues (S : Sink σ α) : Prop where
  attach : ∀ {s s' : σ} {p : α}, S.xattachPipe s p = .ok s' → (S.fq s).attach p = .ok (S.fq s')
  readActivated : ∀ {s s' : σ} {p : α}, S.xreadActivated s p = .ok s' →
    (S.fq s).activated p = .ok (S.fq s')
  writeActivated : ∀ {s s' : σ} {p : α}, S.xwriteActivated s p = .ok s' → S.fq s' = S.fq s
  terminated : ∀ {s s' : σ} {p : α}, S.xterminated s p = .ok s' →
    (S.fq s).terminated p = .ok (S.fq s')

def PipeEvent.Conforms (G : Grammar Q) (fq : Fq α) (ends : Ends α) : PipeEvent α → Prop
  | .attach _ e => e.inq.Content G false G.start
  | .terminated p =>
    fq.attached p → fq.more = true → fq.pipes.index p ≠ fq.current ∧ fq.KeepsCurrent p
  | .peerWrite p msg =>
    (msg.isDelimiter = true → msg.more = false ∧ (ends p).inq.incomplete = []) ∧
      (G.after G.start ((ends p).inq.incomplete ++ [msg])).isSome = true
  | _ => True

def PipeEvent.Displaces (fq : Fq α) : PipeEvent α → Prop
  | .terminated p => fq.attached p ∧ ¬ fq.TerminatedKeeps p
  | _ => False

def PipeEvent.Keeps (G : Grammar Q) (fq : Fq α) (ends : Ends α) (ev : PipeEvent α) : Prop :=
  ev.Conforms G fq ends ∧ ¬ ev.Displaces fq

instance [DecidableEq Q] (G : Grammar Q) (fq : Fq α) (ends : Ends α) (ev : PipeEvent α) :
    Decidable (ev.Conforms G fq ends) := by
  unfold PipeEvent.Conforms; split <;> infer_instance

instance (fq : Fq α) (ev : PipeEvent α) : Decidable (ev.Displaces fq) := by
  unfold PipeEvent.Displaces; split <;> infer_instance

instance [DecidableEq Q] (G : Grammar Q) (fq : Fq α) (ends : Ends α) (ev : PipeEvent α) :
    Decidable (ev.Keeps G fq ends) := by
  unfold PipeEvent.Keeps; infer_instance

theorem Endpoint.peerRollback_content {mid : Bool} (h : e.inq.Content G mid q)
    (hr : e.peerRollback = .ok e') : e'.inq.Content G mid q := by
  unfold Endpoint.peerRollback at hr
  rw [YPipe.rollbackLoop_eq _ _ h.good (Nat.le_refl _), Except.ok.injEq] at hr
  subst hr
  exact h.rolledBack

theorem Endpoint.peerRollback_fields (hr : e.peerRollback = .ok e') :
    e'.pipe = e.pipe ∧ e'.refusedRead = e.refusedRead := by
  unfold Endpoint.peerRollback at hr
  grind

theorem Endpoint.processActivateWrite_inbound {n : Nat} {sink : Bool}
    (h : e.processActivateWrite n = (sink, e')) :
    e'.inq = e.inq ∧ e'.pipe.inActive = e.pipe.inActive ∧ e'.pipe.reads = e.pipe.reads ∧
      e'.refusedRead = e.refusedRead := by
  have hrest : e'.inq = e.inq ∧ e'.refusedRead = e.refusedRead := by
    obtain rfl : (e.processActivateWrite n).2 = e' := by rw [h]
    exact ⟨rfl, rfl⟩
  cases sink with
  | true =>
    obtain ⟨-, -, hpipe⟩ := Endpoint.processActivateWrite_true h
    exact ⟨hrest.1, by rw [hpipe], by rw [hpipe]; rfl, hrest.2⟩
  | false =>
    obtain ⟨-, hpipe⟩ := Endpoint.processActivateWrite_false h
    exact ⟨hrest.1, by rw [hpipe], by rw [hpipe]; rfl, hrest.2⟩

structure Endpoint.StaysClosed (e e' : Endpoint) : Prop where
  inActive : e'.pipe.inActive = e.pipe.inActive
  reads : e.pipe.reads = false → e'.pipe.reads = false
  refusedRead : e'.refusedRead = e.refusedRead

theorem Endpoint.staysClosed_processPipeTerm (h : e.processPipeTerm = .ok e') :
    e.StaysClosed e' ∧ e'.inq = e.inq := by
  unfold Endpoint.processPipeTerm at h
  cases hp : e.pipe.processPipeTerm with
  | error err => simp [hp] at h
  | ok r =>
    simp only [hp] at h
    cases h
    obtain ⟨hin, hreads⟩ := Pipe.processPipeTerm_reads hp
    exact ⟨⟨hin, hreads, rfl⟩, rfl⟩

theorem Endpoint.staysClosed_terminate {delay : Bool}
    (h : e.terminate delay = .ok e') : e.StaysClosed e' ∧ e'.inq = e.inq := by
  unfold Endpoint.terminate at h
  cases hp : e.pipe.terminate delay e.outPtr with
  | error err => simp [hp] at h
  | ok r =>
    simp only [hp] at h
    cases h
    obtain ⟨hin, hreads⟩ := Pipe.terminate_reads hp
    exact ⟨⟨hin, hreads, by simp⟩, by simp⟩

theorem Fq.Intake.setOutbound (h : fq.Intake G q ends)
    (hinq : e.inq = (ends p).inq) (hact : e.pipe.inActive = (ends p).pipe.inActive) :
    fq.Intake G q (Function.update ends p e) :=
  h.setEnd (fun _ _ _ hc => hinq ▸ hc) fun ha => hact.trans ha

theorem PipeEvent.Steps.intake (hS : S.Queues)
    (hstep : ev.Steps S s ends s' ends') (h : (S.fq s).Intake G q ends)
    (hk : ev.Conforms G (S.fq s) ends) :
    (S.fq s').Intake G q ends' ∧ (S.fq s).SameSource (S.fq s') := by
  have hsame : (S.fq s).SameSource (S.fq s) := ⟨rfl, fun _ => rfl⟩
  cases hstep with
  | ignored => exact ⟨h, hsame⟩
  | attach hp _ hr => exact h.attach hp hk (hS.attach hr)
  | terminated hp hr => exact h.terminated hp (hk hp) (hS.terminated hr)
  | readActivated hp hact hr => exact h.activated hp hact (hS.readActivated hr)
  | writeActivated _ _ hact hr =>
    obtain ⟨hinq, hin, -⟩ := Endpoint.processActivateWrite_inbound hact
    rw [hS.writeActivated hr]
    exact ⟨h.setOutbound hinq hin, hsame⟩
  | writeReported _ _ hact =>
    obtain ⟨hinq, hin, -⟩ := Endpoint.processActivateWrite_inbound hact
    exact ⟨h.setOutbound hinq hin, hsame⟩
  | processPipeTerm hr =>
    obtain ⟨hclosed, hinq⟩ := Endpoint.staysClosed_processPipeTerm hr
    exact ⟨h.setOutbound hinq hclosed.inActive, hsame⟩
  | terminate hr =>
    obtain ⟨hclosed, hinq⟩ := Endpoint.staysClosed_terminate hr
    exact ⟨h.setOutbound hinq hclosed.inActive, hsame⟩
  | peerWrite => exact ⟨h.setEnd (fun _ _ _ hc => hc.write hk.1 hk.2) fun ha => ha, hsame⟩
  | peerFlush => exact ⟨h.setEnd (fun _ _ _ hc => hc.flush) fun ha => ha, hsame⟩
  | peerRollback hr =>
    obtain ⟨hpipe, -⟩ := Endpoint.peerRollback_fields hr
    exact ⟨h.setEnd (fun _ _ _ hc => Endpoint.peerRollback_content hc hr) fun ha => by rwa [hpipe],
      hsame⟩
  | peerRead => exact ⟨h.setOutbound rfl rfl, hsame⟩

theorem Endpoint.StaysClosed.tracks (he : (ends p).StaysClosed e) (h : fq.Tracks readWatch ends) :
    fq.Tracks readWatch (Function.update ends p e) :=
  h.setEnd he.refusedRead (Endpoint.canRead_mono he.inActive he.reads)
    fun ha => he.inActive.symm.trans ha

theorem PipeEvent.Steps.tracks (hS : S.Queues)
    (hstep : ev.Steps S s ends s' ends') (h : (S.fq s).Tracks readWatch ends)
    (hk : ¬ ev.Displaces (S.fq s)) : (S.fq s').Tracks readWatch ends' := by
  cases hstep with
  | ignored => exact h
  | @attach p e s' hp hfresh hr =>
    have hfq := hS.attach hr
    obtain ⟨r, hrot, -, htr⟩ := h.attach
      (e := { e with refusedRead := false, refusedWrite := false }) hp rfl
      (by simp [readWatch, hfresh.2.2.1])
    simp only [Fq.attach, Fq.withRotor, hrot, Except.ok.injEq] at hfq
    exact hfq ▸ htr
  | terminated hp hr =>
    have hfq := hS.terminated hr
    obtain ⟨r, hrot, htr⟩ := h.terminated hp (by simpa [Displaces, hp] using hk)
    simp only [Fq.terminated, Fq.withRotor, hrot, Except.ok.injEq] at hfq
    exact hfq ▸ htr
  | readActivated hp hact hr =>
    have hfq := hS.readActivated hr
    obtain ⟨hin, hin', href⟩ := Endpoint.processActivateRead_true hact
    obtain ⟨r, hrot, -, htr⟩ := h.activated hp hin href (by simp [readWatch, hin'])
    simp only [Fq.activated, Fq.withRotor, hrot, Except.ok.injEq] at hfq
    exact hfq ▸ htr
  | writeActivated _ _ hact hr =>
    obtain ⟨-, hin, hreads, href⟩ := Endpoint.processActivateWrite_inbound hact
    rw [hS.writeActivated hr]
    exact Endpoint.StaysClosed.tracks ⟨hin, fun hc => hreads.trans hc, href⟩ h
  | writeReported _ _ hact =>
    obtain ⟨-, hin, hreads, href⟩ := Endpoint.processActivateWrite_inbound hact
    exact Endpoint.StaysClosed.tracks ⟨hin, fun hc => hreads.trans hc, href⟩ h
  | processPipeTerm hr => exact (Endpoint.staysClosed_processPipeTerm hr).1.tracks h
  | terminate hr => exact (Endpoint.staysClosed_terminate hr).1.tracks h
  | peerWrite => exact Endpoint.StaysClosed.tracks ⟨rfl, fun hr => hr, rfl⟩ h
  | peerFlush => exact Endpoint.StaysClosed.tracks ⟨rfl, fun hr => hr, rfl⟩ h
  | peerRollback hr =>
    obtain ⟨hpipe, href⟩ := Endpoint.peerRollback_fields hr
    exact Endpoint.StaysClosed.tracks ⟨by rw [hpipe], fun hc => by rwa [hpipe], href⟩ h
  | peerRead => exact Endpoint.StaysClosed.tracks ⟨rfl, fun hr => hr, rfl⟩ h

theorem PipeEvent.Steps.supplied (hS : S.Queues)
    (hstep : ev.Steps S s ends s' ends') (h : (S.fq s).Supplied G q ends)
    (hk : ev.Keeps G (S.fq s) ends) :
    (S.fq s').Supplied G q ends' ∧ (S.fq s).SameSource (S.fq s') := by
  obtain ⟨hintake, hsame⟩ := hstep.intake hS h.toIntake hk.1
  exact ⟨⟨hintake, hstep.tracks hS h.tracks hk.2⟩, hsame⟩

end Libxs
