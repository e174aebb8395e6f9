import Libxs.Pipe.Halves

/-! # What a call does to an end and to the pipes it points to -/

namespace Libxs

/-! ## Pipes of messages -/

namespace YPipe

structure Good (q : UPipe) : Prop where
  wf : q.WF
  more : ∀ m ∈ q.incomplete, m.more = true

def rolledBack {α : Type} (q : YPipe α) : YPipe α :=
  { q with queue := q.queue.take (q.f - q.front) }

variable {q : UPipe}
variable {r : Nat}

theorem good_init : Good init := ⟨wf_init, by simp [incomplete, init]⟩

theorem Good.write (h : q.Good) {m : Msg} {b : Bool} (hb : b = true → m.more = true) :
    (q.write m b).Good := by
  refine ⟨h.wf.write m b, fun m' hm' => ?_⟩
  have h1 := h.wf.front_le_w
  have h2 := h.wf.w_le_f
  have h3 := h.wf.f_le_back
  simp only [back] at h3
  simp only [incomplete, write_queue, write_front, write_f, back] at hm'
  cases b with
  | true =>
    simp only [if_true] at hm'
    rw [List.drop_append_of_le_length (by omega), List.mem_append, List.mem_singleton] at hm'
    rcases hm' with hold | rfl
    · exact h.more m' hold
    · exact hb rfl
  | false => grind [List.drop_of_length_le]

theorem Good.flush (h : q.Good) : q.flush.2.Good := by
  refine ⟨h.wf.flush, ?_⟩
  rw [flush_eq h.wf]
  exact h.more

theorem Good.prefetch (h : q.Good) (h1 : q.front < r) (h2 : r ≤ q.w) :
    ({ q with r := some r } : UPipe).Good :=
  ⟨h.wf.prefetch h1 h2, h.more⟩

theorem Good.sleep (h : q.Good) (hfw : q.front = q.w) {r : Option Nat}
    (hr : r = some q.front ∨ r = none) : ({ q with r := r, c := none } : UPipe).Good :=
  ⟨h.wf.sleep hfw hr, h.more⟩

theorem Good.popped (h : q.Good) {v : Msg} {rest : List Msg} (hq : q.queue = v :: rest)
    (h1 : q.front < r) (h2 : r ≤ q.w) : (q.popped rest r).Good := by
  refine ⟨h.wf.popped hq h1 h2, fun m hm => h.more m ?_⟩
  have hw := h.wf.w_le_f
  have hf : q.f - q.front = q.f - (q.front + 1) + 1 := by omega
  rw [incomplete, hq, hf, List.drop_succ_cons]
  exact hm

theorem Good.rolledBack (h : q.Good) : q.rolledBack.Good := by
  have h1 := h.wf.front_le_w
  have h2 := h.wf.w_le_f
  have h3 := h.wf.f_le_back
  simp only [back] at h3
  have hlen : (q.queue.take (q.f - q.front)).length = q.f - q.front :=
    List.length_take_of_le (by omega)
  refine ⟨⟨h1, h2, ?_, h.wf.r_bounds, h.wf.c_eq⟩, fun m hm => ?_⟩
  · simp only [YPipe.rolledBack, back, hlen]
    omega
  · grind [YPipe.rolledBack, incomplete]

theorem rollbackLoop_eq : ∀ (fuel : Nat) (q : UPipe), q.Good → q.queue.length ≤ fuel →
    Pipe.rollbackLoop fuel q = .ok q.rolledBack := by
  intro fuel
  induction fuel with
  | zero =>
    intro q _ hlen
    have hnil : q.queue = [] := List.eq_nil_of_length_eq_zero (by omega)
    obtain ⟨queue, front, w, f, r, c⟩ := q
    simp only at hnil
    simp [Pipe.rollbackLoop, rolledBack, hnil]
  | succ fuel ih =>
    intro q h hlen
    have h1 := h.wf.front_le_w
    have h2 := h.wf.w_le_f
    have h3 := h.wf.f_le_back
    rw [Pipe.rollbackLoop]
    cases hu : q.unwrite with
    | none =>
      -- there is no unfinished message
      have hf : q.f = q.back := by
        unfold unwrite at hu
        split at hu
        · assumption
        next hne =>
          split at hu
          next hlast =>
            have hnil := List.getLast?_eq_none_iff.1 hlast
            simp only [back, hnil, List.length_nil] at h3 hne
            omega
          · cases hu
      have htake : q.queue.take (q.f - q.front) = q.queue :=
        List.take_of_length_le (by simp only [back] at hf; omega)
      simp only [rolledBack, htake]
    | some x =>
      obtain ⟨m, q'⟩ := x
      obtain ⟨hne, hqueue, rfl⟩ := unwrite_some hu
      simp only [back] at hne h3
      simp only at hqueue
      have hlast : m ∈ q.incomplete := by grind [incomplete]
      have hgood : ({ q with queue := q.queue.dropLast } : UPipe).Good := by
        refine ⟨h.wf.unwrite hu, fun m' hm' => h.more m' ?_⟩
        rw [incomplete, hqueue, List.drop_append_of_le_length (by simp; omega)]
        exact List.mem_append_left _ hm'
      simp only [h.more m hlast, if_true]
      rw [ih _ hgood (by simp; omega)]
      simp only [rolledBack, Except.ok.injEq, mk.injEq, and_true]
      rw [List.dropLast_eq_take, List.take_take, Nat.min_eq_left (by omega)]

end YPipe

namespace Pipe

theorem rollback_eq {q : UPipe} (h : q.Good) : rollback (some q) = .ok (some q.rolledBack) := by
  simp only [rollback, YPipe.rollbackLoop_eq _ q h (Nat.le_refl _)]

/-! ## The effects of the owner's calls -/

def took (p : Pipe) (msg : Msg) : Pipe :=
  if msg.more then p else { p with msgsRead := (p.msgsRead + 1) % 2 ^ 64 }

def credit (p : Pipe) : List Command :=
  if 0 < p.lwm ∧ p.msgsRead % p.lwm = 0 then [.activateWrite p.msgsRead] else []

def wrote (p : Pipe) (msg : Msg) : Pipe :=
  if msg.more then p else { p with msgsWritten := (p.msgsWritten + 1) % 2 ^ 64 }

def wake (awake : Bool) : List Command := if awake then [] else [.activateRead]

def closing (q : UPipe) : UPipe := q.rolledBack.write .initDelimiter false

inductive Calls (p : Pipe) (inq : UPipe) (outq : Option UPipe) :
    Bool → Pipe → UPipe → Option UPipe → List Command → Prop where
  | idle : Calls p inq outq false p inq outq []
  | prefetch {r : Nat} (h1 : inq.front < r) (h2 : r ≤ inq.w) :
      Calls p inq outq false p { inq with r := some r } outq []
  | sleep {r : Option Nat} (hempty : inq.front = inq.w) (hr : r = some inq.front ∨ r = none) :
      Calls p inq outq false { p with inActive := false } { inq with r := r, c := none } outq []
  | take {v : Msg} {rest : List Msg} {r : Nat} (hreads : p.reads = true)
      (hq : inq.queue = v :: rest) (h1 : inq.front < r) (h2 : r ≤ inq.w)
      (hv : v.isDelimiter = false) :
      Calls p inq outq false (p.took v) (inq.popped rest r) outq (p.took v).credit
  | delimit {v : Msg} {rest : List Msg} {r : Nat} (hs : p.state = .active)
      (hq : inq.queue = v :: rest) (h1 : inq.front < r) (h2 : r ≤ inq.w)
      (hv : v.isDelimiter = true) :
      Calls p inq outq false { p with state := .delimited } (inq.popped rest r) outq []
  | finish {v : Msg} {rest : List Msg} {r : Nat} (hs : p.state = .pending)
      (hq : inq.queue = v :: rest) (h1 : inq.front < r) (h2 : r ≤ inq.w)
      (hv : v.isDelimiter = true) :
      Calls p inq outq false { p with outpipe := none, state := .terminating } (inq.popped rest r) outq
        [.pipeTermAck]
  | fill (hs : p.state = .active) (hopen : p.outActive = true) (hfull : p.full = true) :
      Calls p inq outq false { p with outActive := false } inq outq []
  | write {q : UPipe} {msg : Msg} (hq : outq = some q) (hs : p.state = .active)
      (hopen : p.outActive = true) (hfull : p.full = false) (hm : msg.isDelimiter = false) :
      Calls p inq outq false (p.wrote msg) inq (some (q.write msg msg.more)) []
  | flush {q : UPipe} (hq : outq = some q)
      (hs : p.state = .active ∨ p.state = .delimited ∨ p.state = .pending) :
      Calls p inq outq false p inq (some q.flush.2) (wake q.flush.1)
  | rollback {q : UPipe} (hq : outq = some q) : Calls p inq outq false p inq (some q.rolledBack) []
  | close {q : UPipe} (delay : Bool) (hq : outq = some q)
      (hs : p.state = .active ∨ p.state = .delimited) :
      Calls p inq outq true { p with delay := delay, state := .terminated, outActive := false } inq
        (some (closing q).flush.2) (.pipeTerm :: wake (closing q).flush.1)
  | linger {q : UPipe} (hq : outq = some q) (hs : p.state = .pending) :
      Calls p inq outq true { p with delay := true, outActive := false } inq
        (some (closing q).flush.2) (wake (closing q).flush.1)
  | giveUp (hs : p.state = .pending) :
      Calls p inq outq true
        { p with delay := false, outpipe := none, state := .terminating, outActive := false } inq
        outq [.pipeTermAck]
  | ignore (delay : Bool)
      (hs : p.state = .terminated ∨ p.state = .doubleTerminated ∨ p.state = .terminating) :
      Calls p inq outq true { p with delay := delay } inq outq []

variable {p : Pipe} {inq : UPipe} {outq : Option UPipe}
variable {ends : Bool} {cmds : List Command} {outq' : Option UPipe} {p' : Pipe} {inq' q : UPipe}

theorem delimit_calls {v : Msg} {rest : List Msg} {r : Nat} (hreads : p.reads = true)
    (hq : inq.queue = v :: rest) (h1 : inq.front < r) (h2 : r ≤ inq.w)
    (hv : v.isDelimiter = true) :
    ∃ p' cmds, p.delimit = .ok (p', cmds) ∧
      ∀ outq, Calls p inq outq false p' (inq.popped rest r) outq cmds := by
  unfold reads at hreads
  cases hs : p.state with
  | active => exact ⟨_, _, by simp only [delimit, hs], fun _ => .delimit hs hq h1 h2 hv⟩
  | pending => exact ⟨_, _, by simp only [delimit, hs], fun _ => .finish hs hq h1 h2 hv⟩
  | delimited => simp [hs] at hreads
  | terminating => simp [hs] at hreads
  | terminated => simp [hs] at hreads
  | doubleTerminated => simp [hs] at hreads

theorem read_calls (outq : Option UPipe) (hin : inq.Good) :
    ∃ msg p' inq' cmds, p.read inq = .ok (msg, p', inq', cmds) ∧
      Calls p inq outq false p' inq' outq cmds := by
  unfold read
  by_cases hg : (!p.inActive || !p.reads) = true
  · rw [if_pos hg]
    exact ⟨none, p, inq, [], rfl, .idle⟩
  · rw [if_neg hg]
    have hreads : p.reads = true := by grind
    rcases YPipe.read_cases hin.wf with ⟨hlt, v, rest, r, hq, h1, h2, he⟩ | ⟨hfw, r, he, hr⟩
    · rw [he]
      simp only
      cases hd : v.isDelimiter with
      | true =>
        obtain ⟨p', cmds, hdel, hcalls⟩ := delimit_calls hreads hq h1 h2 hd
        simp only [if_true, hdel]
        exact ⟨none, p', _, cmds, rfl, hcalls outq⟩
      | false =>
        simp only [Bool.false_eq_true, if_false]
        exact ⟨some v, p.took v, _, (p.took v).credit, rfl, .take hreads hq h1 h2 hd⟩
    · rw [he]
      exact ⟨none, _, _, [], rfl, .sleep hfw hr⟩

theorem checkRead_calls (outq : Option UPipe) (hin : inq.Good) :
    ∃ b p' inq' cmds, p.checkRead inq = .ok (b, p', inq', cmds) ∧
      Calls p inq outq false p' inq' outq cmds := by
  unfold checkRead
  by_cases hg : (!p.inActive || !p.reads) = true
  · rw [if_pos hg]
    exact ⟨false, p, inq, [], rfl, .idle⟩
  · rw [if_neg hg]
    have hreads : p.reads = true := by grind
    rcases YPipe.checkRead_cases hin.wf with ⟨hlt, r, he, h1, h2⟩ | ⟨hfw, r, he, hr⟩
    · obtain ⟨v, rest, hq⟩ := hin.wf.queue_cons hlt
      have hprobe := YPipe.probe_prefetched (q := { inq with r := some r }) rfl h1 hq (·.isDelimiter)
      have hread := YPipe.read_prefetched (q := { inq with r := some r }) rfl h1 hq
      simp only [he, hprobe]
      cases hd : v.isDelimiter with
      | true =>
        obtain ⟨p', cmds, hdel, hcalls⟩ := delimit_calls hreads hq h1 h2 hd
        simp only [hread, hdel]
        exact ⟨false, p', _, cmds, rfl, hcalls outq⟩
      | false => exact ⟨true, p, _, [], rfl, .prefetch h1 h2⟩
    · rw [he]
      exact ⟨false, _, _, [], rfl, .sleep hfw hr⟩

theorem checkWrite_calls : Calls p inq outq false p.checkWrite.2 inq outq [] := by
  unfold checkWrite
  split
  · exact .idle
  next hg =>
    simp only [Bool.or_eq_true, Bool.not_eq_true', bne_iff_ne, ne_eq, not_or, Bool.not_eq_false,
      Decidable.not_not] at hg
    split
    · next hfull => exact .fill hg.2 hg.1 hfull
    · exact .idle

theorem write_calls (inq : UPipe) {msg : Msg} (hm : msg.isDelimiter = false)
    (hout : p.state = .active → outq ≠ none) :
    ∃ b p' outq', p.write outq msg = .ok (b, p', outq') ∧ Calls p inq outq false p' inq outq' [] := by
  have hcheck : Calls p inq outq false p.checkWrite.2 inq outq [] := checkWrite_calls
  unfold write
  cases hc : p.checkWrite with
  | mk b p' =>
    rw [hc] at hcheck
    cases b with
    | false => exact ⟨false, p', outq, rfl, hcheck⟩
    | true =>
      obtain ⟨rfl, hopen, hs, hfull⟩ := checkWrite_true hc
      obtain ⟨q, hq⟩ := Option.ne_none_iff_exists'.1 (hout hs)
      simp only [hq]
      exact ⟨true, _, _, rfl, .write rfl hs hopen hfull hm⟩

theorem flush_calls : Calls p inq outq false p inq (p.flush outq).1 (p.flush outq).2 := by
  unfold flush
  split
  · exact .idle
  · exact .idle
  · exact .idle
  · cases outq with
    | none => exact .idle
    | some q =>
      have hs : p.state = .active ∨ p.state = .delimited ∨ p.state = .pending := by
        cases hp : p.state <;> simp_all
      have hcall : Calls p inq (some q) false p inq (some q.flush.2) (wake q.flush.1) := .flush rfl hs
      cases hf : q.flush with
      | mk b q' =>
        rw [hf] at hcall
        simp only [hf]
        cases b <;> exact hcall

theorem rollback_calls (p : Pipe) (inq : UPipe) (hout : ∀ q, outq = some q → q.Good) :
    ∃ outq', rollback outq = .ok outq' ∧ Calls p inq outq false p inq outq' [] := by
  cases outq with
  | none => exact ⟨none, rfl, .idle⟩
  | some q => exact ⟨_, rollback_eq (hout q rfl), .rollback rfl⟩

theorem terminateTail_eq (hgood : q.Good) (hp : p.outpipe ≠ none)
    (hs : p.state ≠ .terminating) (cmds : List Command) :
    p.terminateTail (some q) cmds =
      .ok ({ p with outActive := false }, some (closing q).flush.2,
        cmds ++ wake (closing q).flush.1) := by
  unfold terminateTail
  simp only [hp, if_false, rollback_eq hgood, hs]
  rcases hflush : (closing q).flush with ⟨_ | _, q'⟩ <;> unfold closing at hflush <;> simp [hflush, wake]

theorem terminate_calls (inq : UPipe) (delay : Bool) (hout : ∀ q, outq = some q → q.Good)
    (hnull : outq = none ↔ p.outpipe = none)
    (hstate : p.state = .active ∨ p.state = .delimited ∨ p.state = .pending → p.outpipe ≠ none) :
    ∃ p' outq' cmds, p.terminate delay outq = .ok (p', outq', cmds) ∧
      Calls p inq outq true p' inq outq' cmds := by
  have hsome : p.state = .active ∨ p.state = .delimited ∨ p.state = .pending →
      ∃ q, outq = some q ∧ q.Good := by
    intro hs
    obtain ⟨q, hq⟩ := Option.ne_none_iff_exists'.1 (mt hnull.1 (hstate hs))
    exact ⟨q, hq, hout q hq⟩
  obtain ⟨inpipe, outpipe, inActive, outActive, hwm, lwm, msgsRead, msgsWritten, peersMsgsRead,
    state, delay₀⟩ := p
  cases state with
  | terminated => exact ⟨_, _, _, rfl, .ignore delay (by simp)⟩
  | doubleTerminated => exact ⟨_, _, _, rfl, .ignore delay (by simp)⟩
  | terminating => exact ⟨_, _, _, rfl, .ignore delay (by simp)⟩
  | active =>
    obtain ⟨q, rfl, hq⟩ := hsome (by simp)
    refine ⟨_, _, _, terminateTail_eq hq ?_ (by simp) _, .close delay rfl (by simp)⟩
    exact hstate (by simp)
  | delimited =>
    obtain ⟨q, rfl, hq⟩ := hsome (by simp)
    refine ⟨_, _, _, terminateTail_eq hq ?_ (by simp) _, .close delay rfl (by simp)⟩
    exact hstate (by simp)
  | pending =>
    cases delay with
    | false => exact ⟨_, _, _, rfl, .giveUp rfl⟩
    | true =>
      obtain ⟨q, rfl, hq⟩ := hsome (by simp)
      refine ⟨_, _, _, terminateTail_eq hq ?_ (by simp) _, .linger rfl rfl⟩
      exact hstate (by simp)

/-! ## The effects of the commands -/

theorem processActivateRead_eq (p : Pipe) :
    ∃ b, p.processActivateRead.2 = { p with inActive := b } := by
  unfold processActivateRead
  split
  · exact ⟨true, rfl⟩
  · exact ⟨p.inActive, rfl⟩

theorem processActivateWrite_eq (p : Pipe) (n : Nat) :
    ∃ b, (p.processActivateWrite n).2 = { p with peersMsgsRead := n, outActive := b } := by
  simp only [processActivateWrite]
  split
  · exact ⟨true, rfl⟩
  · exact ⟨p.outActive, rfl⟩

inductive Hears (p : Pipe) : Pipe → List Command → Prop where
  | pend (hs : p.state = .active) (hd : p.delay = true) : Hears p { p with state := .pending } []
  | ack (hs : (p.state = .active ∧ p.delay = false) ∨ p.state = .delimited) :
      Hears p { p with state := .terminating, outpipe := none } [.pipeTermAck]
  | cross (hs : p.state = .terminated) :
      Hears p { p with state := .doubleTerminated, outpipe := none } [.pipeTermAck]

theorem processPipeTerm_hears
    (hs : p.state = .active ∨ p.state = .delimited ∨ p.state = .terminated) :
    ∃ p' cmds, p.processPipeTerm = .ok (p', cmds) ∧ Hears p p' cmds := by
  unfold processPipeTerm
  rcases hs with hs | hs | hs
  · by_cases hd : p.delay = true
    · exact ⟨_, _, by simp only [hs, hd, Bool.not_true, Bool.false_eq_true, if_false], .pend hs hd⟩
    · rw [Bool.not_eq_true] at hd
      exact ⟨_, _, by simp only [hs, hd, Bool.not_false, if_true], .ack (Or.inl ⟨hs, hd⟩)⟩
  · exact ⟨_, _, by simp only [hs], .ack (Or.inr hs)⟩
  · exact ⟨_, _, by simp only [hs], .cross hs⟩

inductive Leaves (p : Pipe) : Pipe → List Command → Prop where
  | quietly (hs : p.state = .terminating ∨ p.state = .doubleTerminated) : Leaves p p []
  | acking (hs : p.state = .terminated) : Leaves p { p with outpipe := none } [.pipeTermAck]

theorem processPipeTermAck_leaves
    (hs : p.state = .terminating ∨ p.state = .doubleTerminated ∨ p.state = .terminated) :
    ∃ p' cmds, p.processPipeTermAck = .ok (p', cmds) ∧ Leaves p p' cmds := by
  unfold processPipeTermAck
  rcases hs with hs | hs | hs
  · exact ⟨p, [], by simp only [hs], .quietly (Or.inl hs)⟩
  · exact ⟨p, [], by simp only [hs], .quietly (Or.inr hs)⟩
  · exact ⟨_, _, by simp only [hs], .acking hs⟩

/-! ## What every effect keeps -/

theorem Calls.in_good
    (h : Calls p inq outq ends p' inq' outq' cmds) (hin : inq.Good) : inq'.Good := by
  cases h with
  | prefetch h1 h2 => exact hin.prefetch h1 h2
  | sleep hempty hr => exact hin.sleep hempty hr
  | take _ hq h1 h2 _ => exact hin.popped hq h1 h2
  | delimit _ hq h1 h2 _ => exact hin.popped hq h1 h2
  | finish _ hq h1 h2 _ => exact hin.popped hq h1 h2
  | _ => exact hin

theorem good_closing (h : q.Good) : (closing q).flush.2.Good :=
  (h.rolledBack.write (by simp)).flush

theorem Calls.out_good
    (h : Calls p inq outq ends p' inq' outq' cmds) (hout : ∀ q, outq = some q → q.Good) :
    ∀ q, outq' = some q → q.Good := by
  intro q' hq'
  cases h with
  | write hq _ _ _ _ => exact Option.some.inj hq' ▸ (hout _ hq).write id
  | flush hq _ => exact Option.some.inj hq' ▸ (hout _ hq).flush
  | rollback hq => exact Option.some.inj hq' ▸ (hout _ hq).rolledBack
  | close delay hq _ => exact Option.some.inj hq' ▸ good_closing (hout _ hq)
  | linger hq _ => exact Option.some.inj hq' ▸ good_closing (hout _ hq)
  | _ => exact hout q' hq'

end Pipe

end Libxs
