import Libxs.Pipe.Halves

/-! # A pipe end as its owner sees it -/

namespace Libxs

structure Endpoint where
  pipe : Pipe
  inq : UPipe
  outq : UPipe
  outbox : List Command
  refusedRead : Bool
  refusedWrite : Bool

namespace Endpoint

def init (inhwm outhwm : Nat) (delay : Bool) : Endpoint :=
  ⟨Pipe.init 0 1 inhwm outhwm delay, YPipe.init, YPipe.init, [], false, false⟩

def outPtr (e : Endpoint) : Option UPipe :=
  match e.pipe.outpipe with
  | none => none
  | some _ => some e.outq

def setOut (e : Endpoint) (outq : Option UPipe) : Endpoint :=
  match outq with
  | none => e
  | some q => { e with outq := q }

@[simp] theorem setOut_outPtr (e : Endpoint) : e.setOut e.outPtr = e := by
  unfold setOut outPtr
  cases e.pipe.outpipe <;> rfl

@[simp] theorem setOut_pipe (e : Endpoint) (outq : Option UPipe) :
    (e.setOut outq).pipe = e.pipe := by
  cases outq <;> rfl

@[simp] theorem setOut_inq (e : Endpoint) (outq : Option UPipe) : (e.setOut outq).inq = e.inq := by
  cases outq <;> rfl

@[simp] theorem setOut_refusedRead (e : Endpoint) (outq : Option UPipe) :
    (e.setOut outq).refusedRead = e.refusedRead := by
  cases outq <;> rfl

@[simp] theorem setOut_refusedWrite (e : Endpoint) (outq : Option UPipe) :
    (e.setOut outq).refusedWrite = e.refusedWrite := by
  cases outq <;> rfl

/-! ## Methods called by the owner -/

def read (e : Endpoint) : Except Fault (Option Msg × Endpoint) :=
  match e.pipe.read e.inq with
  | .error err => .error err
  | .ok (msg, pipe, inq, cmds) =>
    .ok (msg, { e with pipe := pipe, inq := inq, outbox := e.outbox ++ cmds,
                       refusedRead := e.refusedRead || msg.isNone })

def checkRead (e : Endpoint) : Except Fault (Bool × Endpoint) :=
  match e.pipe.checkRead e.inq with
  | .error err => .error err
  | .ok (ok, pipe, inq, cmds) =>
    .ok (ok, { e with pipe := pipe, inq := inq, outbox := e.outbox ++ cmds,
                      refusedRead := e.refusedRead || !ok })

def write (e : Endpoint) (msg : Msg) : Except Fault (Bool × Endpoint) :=
  match e.pipe.write e.outPtr msg with
  | .error err => .error err
  | .ok (ok, pipe, outq) =>
    .ok (ok, { (e.setOut outq) with pipe := pipe, refusedWrite := e.refusedWrite || !ok })

def checkWrite (e : Endpoint) : Bool × Endpoint :=
  match e.pipe.checkWrite with
  | (ok, pipe) => (ok, { e with pipe := pipe, refusedWrite := e.refusedWrite || !ok })

def flush (e : Endpoint) : Endpoint :=
  match e.pipe.flush e.outPtr with
  | (outq, cmds) => { (e.setOut outq) with outbox := e.outbox ++ cmds }

def terminate (e : Endpoint) (delay : Bool) : Except Fault Endpoint :=
  match e.pipe.terminate delay e.outPtr with
  | .error err => .error err
  | .ok (pipe, outq, cmds) =>
    .ok { (e.setOut outq) with pipe := pipe, outbox := e.outbox ++ cmds }

def rollback (e : Endpoint) : Except Fault Endpoint :=
  match Pipe.rollback e.outPtr with
  | .error err => .error err
  | .ok outq => .ok (e.setOut outq)

def hiccup (e : Endpoint) : Endpoint :=
  match e.pipe.hiccup 1 with
  | (_, []) => e
  | (pipe, cmds) =>
    { e with pipe := pipe, inq := YPipe.init, outbox := e.outbox ++ cmds, refusedRead := false }

/-! ## Commands from the peer -/

def processActivateRead (e : Endpoint) : Bool × Endpoint :=
  match e.pipe.processActivateRead with
  | (sink, pipe) =>
    (sink, { e with pipe := pipe, refusedRead := if sink then false else e.refusedRead })

def processActivateWrite (e : Endpoint) (msgsRead : Nat) : Bool × Endpoint :=
  match e.pipe.processActivateWrite msgsRead with
  | (sink, pipe) =>
    (sink, { e with pipe := pipe, refusedWrite := if sink then false else e.refusedWrite })

def processPipeTerm (e : Endpoint) : Except Fault Endpoint :=
  match e.pipe.processPipeTerm with
  | .error err => .error err
  | .ok (pipe, cmds) => .ok { e with pipe := pipe, outbox := e.outbox ++ cmds }

def processHiccup (e : Endpoint) : Except Fault (Bool × Endpoint) :=
  match e.pipe.processHiccup 1 with
  | .error err => .error err
  | .ok (sink, pipe) => .ok (sink, { e with pipe := pipe, outq := YPipe.init })

/-! ## What the peer does to the shared pipes -/

def peerWrite (e : Endpoint) (msg : Msg) : Endpoint :=
  { e with inq := e.inq.write msg msg.more }

def peerFlush (e : Endpoint) : Endpoint := { e with inq := e.inq.flush.2 }

def peerRead (e : Endpoint) : Endpoint := { e with outq := e.outq.read.2 }

def peerRollback (e : Endpoint) : Except Fault Endpoint :=
  match Pipe.rollbackLoop e.inq.queue.length e.inq with
  | .error err => .error err
  | .ok inq => .ok { e with inq := inq }

/-! ## Ends that cannot be read or written -/

def canRead (e : Endpoint) : Bool := e.pipe.inActive && e.pipe.reads

def Readable (e : Endpoint) : Prop := ∃ msg e', e.read = .ok (some msg, e')

def canWrite (e : Endpoint) : Bool := e.pipe.outActive && e.pipe.state == .active

def RefusesWrite (e : Endpoint) : Prop := e.pipe.checkWrite.1 = false
deriving Decidable

end Endpoint

variable {p : Pipe}

def Pipe.WithinHwm (p : Pipe) : Prop := p.hwm = 0 ∨ sub64 p.msgsWritten p.peersMsgsRead ≤ p.hwm
deriving Decidable

def Pipe.Advances (p : Pipe) (msgsRead : Nat) : Prop :=
  sub64 p.msgsWritten msgsRead ≤ sub64 p.msgsWritten p.peersMsgsRead
deriving Decidable

def Pipe.HasCredit (p : Pipe) : Prop := p.hwm = 0 ∨ sub64 p.msgsWritten p.peersMsgsRead < p.hwm

theorem Pipe.hasCredit_of_not_full (h : p.WithinHwm) (hf : p.full = false) : p.HasCredit := by
  unfold Pipe.full at hf
  unfold Pipe.WithinHwm at h
  unfold Pipe.HasCredit
  rw [Bool.and_eq_false_iff, decide_eq_false_iff_not, beq_eq_false_iff_ne] at hf
  omega

theorem Pipe.HasCredit.not_full (h : p.HasCredit) : p.full = false := by
  unfold Pipe.HasCredit at h
  unfold Pipe.full
  rw [Bool.and_eq_false_iff, decide_eq_false_iff_not, beq_eq_false_iff_ne]
  omega

theorem Pipe.HasCredit.withinHwm_succ (h : p.HasCredit) :
    ({ p with msgsWritten := (p.msgsWritten + 1) % 2 ^ 64 } : Pipe).WithinHwm := by
  unfold Pipe.HasCredit sub64 at h
  unfold Pipe.WithinHwm sub64
  simp only
  omega

abbrev Ends (α : Type) : Type := α → Endpoint

theorem Pipe.delimit_ok (h : p.reads = true) :
    ∃ p' cmds, p.delimit = .ok (p', cmds) ∧ p'.reads = false := by
  unfold Pipe.reads at h
  cases hs : p.state <;> simp [hs] at h
  · exact ⟨_, _, by simp [Pipe.delimit, hs]; exact ⟨rfl, rfl⟩, by simp [Pipe.reads]⟩
  · exact ⟨_, _, by simp [Pipe.delimit, hs]; exact ⟨rfl, rfl⟩, by simp [Pipe.reads]⟩

namespace Endpoint

variable {e e' : Endpoint}

theorem read_cases (e : Endpoint) :
    (∃ msg e', e.read = .ok (some msg, e') ∧ e.canRead = true ∧ e'.canRead = true ∧
        e'.pipe.inActive = true ∧ e'.refusedRead = e.refusedRead) ∨
      (∃ e', e.read = .ok (none, e') ∧ e'.canRead = false ∧ e'.refusedRead = true) := by
  unfold read Pipe.read
  by_cases hg : e.canRead = true
  · have hg' : (!e.pipe.inActive || !e.pipe.reads) = false := by
      simp only [canRead, Bool.and_eq_true] at hg
      simp [hg.1, hg.2]
    simp only [canRead, Bool.and_eq_true] at hg
    rw [hg']
    simp only [Bool.false_eq_true, if_false]
    rcases e.inq.read with ⟨_ | msg, inq⟩
    · exact Or.inr ⟨_, rfl, by simp [canRead], by simp⟩
    · simp only
      by_cases hd : msg.isDelimiter = true
      · obtain ⟨p', cmds, hp, hr⟩ := Pipe.delimit_ok hg.2
        rw [if_pos hd, hp]
        exact Or.inr ⟨_, rfl, by simp [canRead, hr], by simp⟩
      · rw [if_neg hd]
        refine Or.inl ⟨msg, _, rfl, by simp [canRead, hg.1, hg.2], ?_, ?_, by simp⟩
        · simp only [canRead, Pipe.reads] at hg ⊢
          split <;> simp [hg.1, hg.2]
        · simp only
          split <;> simp [hg.1]
  · have hg' : (!e.pipe.inActive || !e.pipe.reads) = true := by
      simp only [canRead, Bool.and_eq_true] at hg
      cases hi : e.pipe.inActive <;> simp_all
    rw [hg']
    exact Or.inr ⟨_, rfl, by simpa [canRead] using hg, by simp⟩

theorem checkRead_cases (e : Endpoint) (e' : Endpoint) (ok : Bool) (h : e.checkRead = .ok (ok, e')) :
    (ok = true ∧ e.canRead = true ∧ e'.pipe = e.pipe ∧ e'.refusedRead = e.refusedRead) ∨
      (ok = false ∧ e'.canRead = false ∧ e'.refusedRead = true) := by
  unfold checkRead Pipe.checkRead at h
  by_cases hg : e.canRead = true
  · have hg' : (!e.pipe.inActive || !e.pipe.reads) = false := by
      simp only [canRead, Bool.and_eq_true] at hg
      simp [hg.1, hg.2]
    rw [hg'] at h
    simp only [Bool.false_eq_true, if_false] at h
    rcases hq : e.inq.checkRead with ⟨_ | _, inq⟩
    · grind [canRead]
    · rw [hq] at h
      simp only at h
      split at h
      · cases h
      next hx =>
        split at hx
        · cases hx
        · grind
        · grind [canRead, Pipe.delimit_ok]
  · have hg' : (!e.pipe.inActive || !e.pipe.reads) = true := by
      simp only [canRead, Bool.and_eq_true] at hg
      cases hi : e.pipe.inActive <;> simp_all
    rw [hg'] at h
    simp only [if_true] at h
    cases h
    exact Or.inr ⟨rfl, by simpa [canRead] using hg, by simp⟩

theorem not_readable_of_checkRead (h : e.checkRead = .ok (false, e')) : ¬ e.Readable := by
  rintro ⟨msg, e'', hr⟩
  unfold checkRead Pipe.checkRead at h
  unfold read Pipe.read at hr
  by_cases hg : (!e.pipe.inActive || !e.pipe.reads) = true
  · rw [hg] at hr
    cases hr
  · rw [Bool.not_eq_true] at hg
    rw [hg] at h hr
    simp only [Bool.false_eq_true, if_false] at h hr
    unfold YPipe.read at hr
    rcases hq : e.inq.checkRead with ⟨_ | _, inq⟩
    · rw [hq] at hr
      cases hr
    · rw [hq] at h hr
      cases hqq : inq.queue with
      | nil => simp [hqq] at hr
      | cons v rest =>
        simp only [hqq] at hr
        cases hd : v.isDelimiter with
        | true => grind
        | false =>
          -- `probe` looks at the same item and finds no delimiter
          simp only [YPipe.probe] at h
          rcases hq2 : inq.checkRead with ⟨_ | _, inq2⟩
          · rw [hq2] at h
            cases h
          · rw [hq2] at h
            have hsame : inq2.queue = v :: rest := by
              rw [← hqq, ← inq.checkRead_queue, hq2]
            simp [hsame, hd] at h

theorem processActivateRead_true (h : e.processActivateRead = (true, e')) :
    e.pipe.inActive = false ∧ e'.pipe.inActive = true ∧ e'.refusedRead = false := by
  unfold processActivateRead Pipe.processActivateRead at h
  split at h
  next sink pipe hpipe =>
  split at hpipe
  next hguard => grind
  · grind

theorem processActivateRead_false (h : e.processActivateRead = (false, e')) : e = e' := by
  unfold processActivateRead Pipe.processActivateRead at h
  split at h
  next sink pipe hpipe =>
  split at hpipe
  · grind
  · simp only [Prod.mk.injEq] at hpipe
    obtain ⟨rfl, rfl⟩ := hpipe
    simpa using h

theorem canRead_mono (hin : e'.pipe.inActive = e.pipe.inActive)
    (hreads : e.pipe.reads = false → e'.pipe.reads = false) (h : e.canRead = false) :
    e'.canRead = false := by
  simp only [canRead, Bool.and_eq_false_iff] at h ⊢
  exact h.imp (fun hi => hin.trans hi) hreads

theorem not_readable (h : e.canRead = false) : ¬ e.Readable := by
  rintro ⟨msg, e', hr⟩
  rcases read_cases e with ⟨_, _, _, hc, _⟩ | ⟨e'', hr', _⟩
  · rw [h] at hc
    cases hc
  · rw [hr] at hr'
    cases hr'

end Endpoint

/-! ## Ends that refuse a write -/

namespace Endpoint

variable {e e' : Endpoint} {msg : Msg}

theorem canWrite_eq_false :
    e.canWrite = false ↔ e.pipe.outActive = false ∨ e.pipe.state ≠ .active := by
  simp only [canWrite, Bool.and_eq_false_iff, beq_eq_false_iff_ne]

theorem refusesWrite_of_canWrite (h : e.canWrite = false) : e.RefusesWrite := by
  have hg : (!e.pipe.outActive || e.pipe.state != .active) = true := by
    simpa using canWrite_eq_false.1 h
  simp [RefusesWrite, Pipe.checkWrite, hg]

theorem write_true (h : e.write msg = .ok (true, e')) : e.pipe.checkWrite = (true, e.pipe) ∧
      e'.pipe = (if msg.more then e.pipe
        else { e.pipe with msgsWritten := (e.pipe.msgsWritten + 1) % 2 ^ 64 }) ∧
      e'.refusedWrite = e.refusedWrite := by
  unfold write Pipe.write at h
  rcases hc : e.pipe.checkWrite with ⟨_ | _, p'⟩
  · simp [hc] at h
  · obtain ⟨rfl, -⟩ := Pipe.checkWrite_true hc
    rw [hc] at h
    grind

theorem write_false (h : e.write msg = .ok (false, e')) :
    e.pipe.checkWrite = (false, e'.pipe) ∧ e'.refusedWrite = true := by
  unfold write Pipe.write at h
  grind

theorem write_ok {ok : Bool} (h : e.write msg = .ok (ok, e')) :
    ok = e.pipe.checkWrite.1 ∧ e'.pipe.state = e.pipe.state ∧ e'.pipe.hwm = e.pipe.hwm ∧
      (e.pipe.state = .active → e'.pipe.outActive = ok) ∧
      e'.outq.queue = e.outq.queue ++ (if ok then [msg] else []) := by
  cases ok with
  | false =>
    obtain ⟨hc, -⟩ := write_false h
    obtain ⟨hshut, hkept⟩ := Pipe.checkWrite_false hc
    refine ⟨by rw [hc], by rw [hkept], by rw [hkept], fun hs => ?_, ?_⟩
    · rw [hkept] at hshut
      simpa [hs] using hshut
    · grind [write, Pipe.write, setOut_outPtr]
  | true =>
    obtain ⟨hc, hpipe, -⟩ := write_true h
    obtain ⟨-, hact, -, -⟩ := Pipe.checkWrite_true hc
    refine ⟨by rw [hc], ?_, ?_, fun _ => ?_, ?_⟩
    · rw [hpipe]; split <;> rfl
    · rw [hpipe]; split <;> rfl
    · rw [hpipe]; split <;> exact hact
    · unfold write Pipe.write at h
      cases ho : e.pipe.outpipe with
      | none => simp [hc, outPtr, ho] at h
      | some o =>
        simp only [hc, outPtr, ho, Except.ok.injEq, Prod.mk.injEq, true_and] at h
        subst h
        simp [setOut]

def Sound (e : Endpoint) : Prop := e.pipe.state = .active → e.pipe.outpipe ≠ none
deriving Decidable

def accepts (e : Endpoint) : Bool := e.pipe.checkWrite.1

theorem Sound.write (h : e.Sound) (msg : Msg) :
    ∃ e', e.write msg = .ok (e.accepts, e') ∧ e'.Sound := by
  unfold accepts
  cases hc : e.pipe.checkWrite with
  | mk b p' =>
    cases b with
    | false =>
      obtain ⟨e', hw⟩ : ∃ e', e.write msg = .ok (false, e') := by
        simp [Endpoint.write, Pipe.write, hc]
      refine ⟨e', hw, ?_⟩
      obtain ⟨hcheck, -⟩ := write_false hw
      rw [Sound, (Pipe.checkWrite_false hcheck).2]
      exact h
    | true =>
      obtain ⟨-, -, hs, -⟩ := Pipe.checkWrite_true hc
      obtain ⟨o, ho⟩ := Option.ne_none_iff_exists'.1 (h hs)
      obtain ⟨e', hw⟩ : ∃ e', e.write msg = .ok (true, e') := by
        simp [Endpoint.write, Pipe.write, hc, outPtr, ho]
      refine ⟨e', hw, ?_⟩
      obtain ⟨-, hpipe, -⟩ := write_true hw
      rw [Sound, hpipe]
      split <;> exact h

theorem checkWrite_true (h : e.checkWrite = (true, e')) :
    e.pipe.checkWrite = (true, e.pipe) ∧ e'.pipe = e.pipe ∧ e'.refusedWrite = e.refusedWrite := by
  unfold checkWrite at h
  rcases hc : e.pipe.checkWrite with ⟨_ | _, p'⟩
  · simp [hc] at h
  · obtain ⟨rfl, -⟩ := Pipe.checkWrite_true hc
    simp only [hc, Prod.mk.injEq, true_and] at h
    subst h
    exact ⟨rfl, rfl, by simp⟩

theorem checkWrite_false (h : e.checkWrite = (false, e')) :
    e.pipe.checkWrite = (false, e'.pipe) ∧ e'.refusedWrite = true := by
  unfold checkWrite at h
  grind

theorem canWrite_of_checkWrite_false
    (h : e.pipe.checkWrite = (false, e'.pipe)) : e'.canWrite = false :=
  canWrite_eq_false.2 (Pipe.checkWrite_false h).1

theorem flush_pipe (e : Endpoint) : e.flush.pipe = e.pipe := by
  unfold flush setOut
  grind

theorem flush_queue (e : Endpoint) : e.flush.outq.queue = e.outq.queue := by
  have hout : e.flush.outq = (e.setOut (e.pipe.flush e.outPtr).1).outq := rfl
  rw [hout]
  unfold outPtr
  cases e.pipe.outpipe with
  | none => rw [Pipe.flush_none]; rfl
  | some o => rcases Pipe.flush_result e.pipe e.outq with hf | hf <;> simp [hf, setOut]

theorem flush_refusedWrite (e : Endpoint) : e.flush.refusedWrite = e.refusedWrite := by
  simp [flush]

end Endpoint

variable {n : Nat}

theorem Endpoint.processActivateWrite_true {e e' : Endpoint}
    (h : e.processActivateWrite n = (true, e')) :
    (e.pipe.outActive = false ∧ e.pipe.state = .active) ∧ e'.refusedWrite = false ∧
      e'.pipe = { e.pipe with peersMsgsRead := n, outActive := true } := by
  unfold Endpoint.processActivateWrite Pipe.processActivateWrite at h
  grind

theorem Endpoint.processActivateWrite_false {e e' : Endpoint}
    (h : e.processActivateWrite n = (false, e')) :
    e'.refusedWrite = e.refusedWrite ∧ e'.pipe = { e.pipe with peersMsgsRead := n } := by
  unfold Endpoint.processActivateWrite Pipe.processActivateWrite at h
  grind

end Libxs
