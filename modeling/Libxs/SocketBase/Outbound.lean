import Libxs.SocketBase.Events

/-! # The outbound halves of the pipes of a socket -/

namespace Libxs

variable {σ α Q : Type} [DecidableEq α] {G : Grammar Q} {q : Q}

namespace Endpoint

def Stalled (e : Endpoint) : Prop := e.pipe.state = .active ∧ e.pipe.outActive = false
deriving Decidable

structure SameOutbound (e e' : Endpoint) : Prop where
  kept : e.pipe.OutboundKept e'.pipe
  outpipe : e'.pipe.state = .active → e'.pipe.outpipe = e.pipe.outpipe

variable {e e' e'' : Endpoint}

theorem SameOutbound.refl (e : Endpoint) : e.SameOutbound e := ⟨.rfl, fun _ => rfl⟩

theorem SameOutbound.trans (h : e.SameOutbound e') (h' : e'.SameOutbound e'') :
    e.SameOutbound e'' := by
  obtain ⟨⟨hs, hw, hm, hp⟩, ho⟩ := h
  obtain ⟨⟨hs', hw', hm', hp'⟩, ho'⟩ := h'
  refine ⟨⟨fun hact => ?_, hw'.trans hw, hm'.trans hm, hp'.trans hp⟩, fun hact => ?_⟩
  · grind
  · exact (ho' hact).trans (ho (hs' hact).1)

theorem SameOutbound.of_pipe (h : e'.pipe = e.pipe) : e.SameOutbound e' :=
  ⟨h ▸ .rfl, fun _ => by rw [h]⟩

theorem SameOutbound.sound (h : e.SameOutbound e') (hs : e.Sound) : e'.Sound := fun hact => by
  rw [h.outpipe hact]
  exact hs (h.kept.1 hact).1

theorem SameOutbound.stalled (h : e.SameOutbound e') (hs : e'.Stalled) : e.Stalled :=
  ⟨(h.kept.1 hs.1).1, (h.kept.1 hs.1).2.symm.trans hs.2⟩

theorem sameOutbound_read {msg : Option Msg} (h : e.read = .ok (msg, e')) : e.SameOutbound e' := by
  unfold read at h
  cases hp : e.pipe.read e.inq with
  | error err => simp [hp] at h
  | ok r =>
    simp only [hp, Except.ok.injEq, Prod.mk.injEq] at h
    rw [← h.2]
    exact ⟨Pipe.read_outboundKept hp, Pipe.read_outpipe hp⟩

theorem sameOutbound_reads
    (h : Relation.ReflTransGen (fun e e' => ∃ msg, read e = .ok (msg, e')) e e') :
    e.SameOutbound e' := by
  induction h with
  | refl => exact .refl e
  | tail _ hr ih =>
    obtain ⟨msg, hr⟩ := hr
    exact ih.trans (sameOutbound_read hr)

theorem sameOutbound_processPipeTerm (h : e.processPipeTerm = .ok e') : e.SameOutbound e' := by
  unfold processPipeTerm at h
  cases hp : e.pipe.processPipeTerm with
  | error err => simp [hp] at h
  | ok r =>
    simp only [hp] at h
    cases h
    exact ⟨Pipe.processPipeTerm_outboundKept hp, fun hs => absurd hs (Pipe.processPipeTerm_state hp)⟩

theorem sameOutbound_terminate {delay : Bool} (h : e.terminate delay = .ok e') :
    e.SameOutbound e' := by
  unfold terminate at h
  cases hp : e.pipe.terminate delay e.outPtr with
  | error err => simp [hp] at h
  | ok r =>
    simp only [hp] at h
    cases h
    exact ⟨Pipe.terminate_outboundKept hp, fun hs => absurd hs (Pipe.terminate_state hp)⟩

theorem sameOutbound_processActivateRead {sink : Bool} (h : e.processActivateRead = (sink, e')) :
    e.SameOutbound e' := by
  obtain rfl : e.processActivateRead.2 = e' := by rw [h]
  refine ⟨Pipe.processActivateRead_outboundKept e.pipe, fun _ => ?_⟩
  show e.pipe.processActivateRead.2.outpipe = e.pipe.outpipe
  unfold Pipe.processActivateRead
  split <;> rfl

theorem not_stalled_of_activated {n : Nat} (h : e.processActivateWrite n = (true, e')) :
    e.Stalled ∧ ¬ e'.Stalled ∧ (e.Sound → e'.Sound) := by
  obtain ⟨hst, -, hpipe⟩ := processActivateWrite_true h
  refine ⟨hst.symm, fun hs => ?_, fun hs hact => ?_⟩
  · rw [Stalled, hpipe] at hs
    exact absurd hs.2 (by simp)
  · rw [hpipe] at hact ⊢
    exact hs hact

theorem stalled_of_reported {n : Nat} (h : e.processActivateWrite n = (false, e')) :
    (e'.Stalled → e.Stalled) ∧ (e.Sound → e'.Sound) := by
  obtain ⟨-, hpipe⟩ := processActivateWrite_false h
  unfold Stalled Sound
  rw [hpipe]
  exact ⟨fun hs => hs, fun hs => hs⟩

theorem Fresh.outbound (h : e.Fresh) : e.Sound ∧ ¬ e.Stalled := by
  obtain ⟨-, hout, -, hact, -⟩ := h
  refine ⟨fun _ hnone => ?_, fun hs => ?_⟩
  · rw [hnone] at hout
    cases hout
  · rw [hs.2] at hact
    cases hact

end Endpoint

theorem Fq.Received.sameOutbound {fq fq' : Fq α} {ends ends' : Ends α} {r : Option (Msg × α)} {q' : Q}
    (h : Fq.Received G q fq ends r q' fq' ends') (x : α) : (ends x).SameOutbound (ends' x) :=
  Endpoint.sameOutbound_reads (h.reads x)

theorem sameOutbound_update {ends : Ends α} {p : α} {e : Endpoint}
    (h : (ends p).SameOutbound e) (x : α) : (ends x).SameOutbound (Function.update ends p e x) := by
  grind [Endpoint.SameOutbound.refl]

inductive PipeEvent.OutboundStep (S : Sink σ α) (s : σ) (ends : Ends α) : σ → Ends α → Prop where
  | same {ends' : Ends α} : (∀ x, (ends x).SameOutbound (ends' x)) → OutboundStep S s ends s ends'
  | attach {p : α} {e : Endpoint} {s' : σ} : ¬ (S.fq s).attached p → e.Sound → ¬ e.Stalled →
      e.pipe.WithinHwm → S.xattachPipe s p = .ok s' → OutboundStep S s ends s' (Function.update ends p e)
  | terminated {p : α} {s' : σ} : (S.fq s).attached p → S.xterminated s p = .ok s' →
      OutboundStep S s ends s' ends
  | readActivated {p : α} {s' : σ} {ends' : Ends α} : (S.fq s).attached p →
      S.xreadActivated s p = .ok s' → (∀ x, (ends x).SameOutbound (ends' x)) →
      OutboundStep S s ends s' ends'
  | activated {p : α} {n : Nat} {e : Endpoint} {s' : σ} : (S.fq s).attached p →
      (ends p).pipe.Advances n → (ends p).processActivateWrite n = (true, e) →
      S.xwriteActivated s p = .ok s' → OutboundStep S s ends s' (Function.update ends p e)
  | reported {p : α} {n : Nat} {e : Endpoint} : (S.fq s).attached p →
      (ends p).pipe.Advances n → (ends p).processActivateWrite n = (false, e) →
      OutboundStep S s ends s (Function.update ends p e)

theorem PipeEvent.Steps.outboundStep {S : Sink σ α} {s s' : σ} {ends ends' : Ends α}
    {ev : PipeEvent α} (hstep : ev.Steps S s ends s' ends') : OutboundStep S s ends s' ends' := by
  cases hstep with
  | ignored => exact .same fun x => .refl _
  | attach hp hfresh hr =>
    obtain ⟨hsound, hst⟩ := hfresh.outbound
    exact .attach hp hsound hst hfresh.2.2.2.2 hr
  | terminated hp hr => exact .terminated hp hr
  | readActivated hp hr hx =>
    exact .readActivated hp hx (sameOutbound_update (Endpoint.sameOutbound_processActivateRead hr))
  | writeActivated hp hn hr hx => exact .activated hp hn hr hx
  | writeReported hp hn hr => exact .reported hp hn hr
  | processPipeTerm hr => exact .same (sameOutbound_update (Endpoint.sameOutbound_processPipeTerm hr))
  | terminate hr => exact .same (sameOutbound_update (Endpoint.sameOutbound_terminate hr))
  | peerWrite => exact .same (sameOutbound_update (.of_pipe rfl))
  | peerFlush => exact .same (sameOutbound_update (.of_pipe rfl))
  | peerRollback hr => exact .same (sameOutbound_update (.of_pipe (Endpoint.peerRollback_fields hr).1))
  | peerRead => exact .same (sameOutbound_update (.of_pipe rfl))

/-! ## What was written -/

instance (q : UPipe) : Decidable q.Good :=
  decidable_of_iff (q.WF ∧ ∀ m ∈ q.incomplete, m.more = true)
    ⟨fun h => ⟨h.1, h.2⟩, fun h => ⟨h.wf, h.more⟩⟩

namespace Pipe

variable {p p' : Pipe} {outq outq' : Option UPipe}

theorem terminateTail_good {cmds cmds' : List Command} (hgood : ∀ q, outq = some q → q.Good)
    (h : p.terminateTail outq cmds = .ok (p', outq', cmds')) : ∀ q, outq' = some q → q.Good := by
  unfold terminateTail at h
  simp only at h
  split at h
  · cases h
    exact hgood
  · cases outq with
    | none => exact absurd h (by simp [rollback])
    | some q =>
      have hq := hgood q rfl
      have hclosing : (q.rolledBack.write .initDelimiter false).Good :=
        hq.rolledBack.write (by simp)
      simp only [rollback_eq hq] at h
      split at h
      · grind
      · have hflush := hclosing.flush
        split at h
        next hf => grind
        next hf => grind

theorem terminate_good {delay : Bool} {cmds : List Command} (hgood : ∀ q, outq = some q → q.Good)
    (h : p.terminate delay outq = .ok (p', outq', cmds)) : ∀ q, outq' = some q → q.Good := by
  simp only [terminate] at h
  grind [terminateTail_good]

end Pipe

namespace Endpoint

variable {e e' : Endpoint}

theorem outPtr_good (h : e.outq.Good) : ∀ q, e.outPtr = some q → q.Good := by
  intro q hq
  unfold outPtr at hq
  grind

theorem setOut_good (h : e.outq.Good) {outq : Option UPipe} (hq : ∀ q, outq = some q → q.Good) :
    (e.setOut outq).outq.Good := by
  cases outq with
  | none => exact h
  | some q => exact hq q rfl

theorem read_outq {msg : Option Msg} (h : e.read = .ok (msg, e')) : e'.outq = e.outq := by
  unfold read at h
  grind

theorem reads_outq
    (h : Relation.ReflTransGen (fun e e' => ∃ msg, read e = .ok (msg, e')) e e') :
    e'.outq = e.outq := by
  induction h with
  | refl => rfl
  | tail _ hr ih =>
    obtain ⟨msg, hr⟩ := hr
    exact (read_outq hr).trans ih

theorem write_good {msg : Msg} {ok : Bool} (hg : e.outq.Good) (h : e.write msg = .ok (ok, e')) :
    e'.outq.Good := by
  unfold write Pipe.write at h
  cases hc : e.pipe.checkWrite with
  | mk b p' =>
    cases b with
    | false => grind [setOut_good, outPtr_good]
    | true =>
      cases hp : e.outPtr with
      | none => simp [hc, hp] at h
      | some q =>
        simp only [hc, hp, Except.ok.injEq, Prod.mk.injEq] at h
        rw [← h.2]
        refine setOut_good hg fun q' hq' => ?_
        exact Option.some.inj hq' ▸ (outPtr_good hg q hp).write id

theorem flush_good (hg : e.outq.Good) : e.flush.outq.Good := by
  have hflush : ∀ q, (e.pipe.flush e.outPtr).1 = some q → q.Good := by
    unfold Pipe.flush
    split
    case h_4 =>
      split
      · exact fun q hq => absurd hq (by simp)
      next q hq =>
        have hgood := (outPtr_good hg q hq).flush
        grind
    all_goals exact outPtr_good hg
  exact setOut_good hg hflush

theorem terminate_good {delay : Bool} (hg : e.outq.Good) (h : e.terminate delay = .ok e') :
    e'.outq.Good := by
  unfold terminate at h
  grind [setOut_good, Pipe.terminate_good, outPtr_good]

theorem peerRead_good (hg : e.outq.Good) : e.peerRead.outq.Good := by
  show e.outq.read.2.Good
  rcases YPipe.read_cases hg.wf with ⟨-, v, rest, r, hq, h1, h2, he⟩ | ⟨hfw, r, he, hr⟩
  · rw [he]
    exact hg.popped hq h1 h2
  · rw [he]
    exact hg.sleep hfw hr

theorem processPipeTerm_outq (h : e.processPipeTerm = .ok e') : e'.outq = e.outq := by
  unfold processPipeTerm at h
  grind

theorem peerRollback_outq (h : e.peerRollback = .ok e') : e'.outq = e.outq := by
  unfold peerRollback at h
  grind

theorem exists_terminate (hs : e.Sound) (hg : e.outq.Good) (hr : e.pipe.reads = true) :
    ∃ e', e.terminate false = .ok e' := by
  unfold Pipe.reads at hr
  cases hst : e.pipe.state with
  | active =>
    obtain ⟨o, ho⟩ := Option.ne_none_iff_exists'.1 (hs hst)
    have hptr : e.outPtr = some e.outq := by simp [outPtr, ho]
    have htail := Pipe.terminateTail_eq
      (p := { e.pipe with delay := false, state := .terminated }) hg (by simp [ho]) (by simp)
      [.pipeTerm]
    exact ⟨_, by simp only [terminate, Pipe.terminate, hst, hptr, htail]; rfl⟩
  | pending =>
    exact ⟨_, by simp only [terminate, Pipe.terminate, hst, Pipe.terminateTail,
      Bool.not_false, if_true]; rfl⟩
  | _ => simp [hst] at hr

end Endpoint

theorem outq_good_update {ends : Ends α} (h : ∀ x, (ends x).outq.Good) {p : α} {e : Endpoint}
    (he : e.outq.Good) (x : α) : (Function.update ends p e x).outq.Good := by
  grind

def PipeEvent.Clean : PipeEvent α → Prop
  | .attach _ e => e.outq.Good
  | _ => True

instance : ∀ ev : PipeEvent α, Decidable ev.Clean
  | .attach _ e => inferInstanceAs (Decidable e.outq.Good)
  | .terminated _ | .processActivateRead _ | .processActivateWrite _ _ | .processPipeTerm _
  | .terminate _ _ | .peerWrite _ _ | .peerFlush _ | .peerRollback _ | .peerRead _ =>
    inferInstanceAs (Decidable True)

theorem PipeEvent.Steps.outq_good {S : Sink σ α} {s s' : σ} {ends ends' : Ends α}
    {ev : PipeEvent α} (hstep : ev.Steps S s ends s' ends') (h : ∀ x, (ends x).outq.Good)
    (hk : ev.Clean) : ∀ x, (ends' x).outq.Good := by
  cases hstep with
  | ignored => exact h
  | attach _ _ _ => exact outq_good_update h hk
  | terminated _ _ => exact h
  | @readActivated p e _ _ hr _ =>
    obtain rfl : (ends p).processActivateRead.2 = e := by rw [hr]
    exact outq_good_update h (h p)
  | @writeActivated p n e _ _ _ hr _ =>
    obtain rfl : ((ends p).processActivateWrite n).2 = e := by rw [hr]
    exact outq_good_update h (h p)
  | @writeReported p n e _ _ hr =>
    obtain rfl : ((ends p).processActivateWrite n).2 = e := by rw [hr]
    exact outq_good_update h (h p)
  | processPipeTerm hr => exact outq_good_update h (Endpoint.processPipeTerm_outq hr ▸ h _)
  | terminate hr => exact outq_good_update h (Endpoint.terminate_good (h _) hr)
  | peerWrite => exact outq_good_update h (h _)
  | peerFlush => exact outq_good_update h (h _)
  | peerRollback hr => exact outq_good_update h (Endpoint.peerRollback_outq hr ▸ h _)
  | peerRead => exact outq_good_update h (Endpoint.peerRead_good (h _))

end Libxs
