import Libxs.Foundation.Credit
import Libxs.Pipe.Safety

/-! # The high watermark -/

namespace Libxs

/-! ## Complete messages -/

namespace YPipe

variable {q : UPipe}

def complete (q : UPipe) : Nat := q.queue.countP fun m => !m.more

theorem complete_write (q : UPipe) (m : Msg) (b : Bool) :
    (q.write m b).complete = q.complete + if m.more then 0 else 1 := by
  simp only [complete, write_queue, List.countP_append, List.countP_singleton]
  cases m.more <;> rfl

theorem complete_flush (h : q.WF) : q.flush.2.complete = q.complete := by
  rw [flush_eq h]
  rfl

theorem complete_rolledBack (h : q.Good) : q.rolledBack.complete = q.complete := by
  have hdrop : q.incomplete.countP (fun m => !m.more) = 0 := by
    rw [List.countP_eq_zero]
    intro m hm
    simp [h.more m hm]
  have hsplit := List.take_append_drop (q.f - q.front) q.queue
  rw [incomplete] at hdrop
  simp only [complete, rolledBack]
  rw [← hsplit, List.countP_append, hdrop, hsplit, Nat.add_zero]

theorem complete_popped {m : Msg} {rest : List Msg} (hq : q.queue = m :: rest) (r : Nat) :
    q.complete = (q.popped rest r).complete + if m.more then 0 else 1 := by
  simp only [complete, popped, hq, List.countP_cons]
  cases m.more <;> rfl

def Plain (q : UPipe) : Prop := ∀ m ∈ q.queue, m.isDelimiter = false

end YPipe

variable {hwm : Nat}

/-! ## Reports -/

def credits (q : List Command) : List Nat :=
  q.filterMap fun
    | .activateWrite msgsRead => some msgsRead
    | _ => none

@[simp] theorem credits_nil : credits [] = [] := rfl

@[simp] theorem credits_append (q cs : List Command) :
    credits (q ++ cs) = credits q ++ credits cs := by
  simp [credits]

@[simp] theorem credits_activateRead (q : List Command) :
    credits (.activateRead :: q) = credits q := by
  simp [credits]

@[simp] theorem credits_activateWrite (n : Nat) (q : List Command) :
    credits (.activateWrite n :: q) = n :: credits q := by
  simp [credits]

theorem credits_eq_nil {q : List Command} (h : ∀ n, .activateWrite n ∉ q) : credits q = [] := by
  rw [credits, List.filterMap_eq_nil_iff]
  intro c hc
  grind

theorem credits_wake (b : Bool) : credits (Pipe.wake b) = [] := by
  cases b <;> simp [Pipe.wake]

def Due (hwm j : Nat) : Prop := j % 2 ^ 64 % Pipe.computeLwm hwm = 0

theorem Pipe.computeLwm_bounds (h : 0 < hwm) : 0 < computeLwm hwm ∧ computeLwm hwm ≤ hwm := by
  unfold computeLwm maxWmDelta
  split <;> omega

theorem due_soon (hpos : 0 < hwm) (hlt : hwm < 2 ^ 64) (n : Nat) :
    ∃ j, n < j ∧ j ≤ n + Pipe.computeLwm hwm ∧ Due hwm j := by
  obtain ⟨h1, h2⟩ := Pipe.computeLwm_bounds hpos
  generalize hlwm : Pipe.computeLwm hwm = lwm at h1 h2
  have hr : n % 2 ^ 64 < 2 ^ 64 := Nat.mod_lt _ (by decide)
  have hmod := Nat.mod_add_div (n % 2 ^ 64) lwm
  have hrem := Nat.mod_lt (n % 2 ^ 64) h1
  have hnext : lwm * (n % 2 ^ 64 / lwm + 1) = n % 2 ^ 64 - n % 2 ^ 64 % lwm + lwm := by
    rw [Nat.mul_add]
    omega
  by_cases hwrap : lwm * (n % 2 ^ 64 / lwm + 1) < 2 ^ 64
  · refine ⟨n + (lwm - n % 2 ^ 64 % lwm), by omega, by omega, ?_⟩
    have hj : (n + (lwm - n % 2 ^ 64 % lwm)) % 2 ^ 64 = lwm * (n % 2 ^ 64 / lwm + 1) := by
      omega
    rw [Due, hlwm, hj, Nat.mul_mod_right]
  · refine ⟨n + (2 ^ 64 - n % 2 ^ 64), by omega, by omega, ?_⟩
    have hj : (n + (2 ^ 64 - n % 2 ^ 64)) % 2 ^ 64 = 0 := by
      omega
    rw [Due, hj, Nat.zero_mod]

/-! ## One direction as flow control -/

structure Tracks {hwm : Nat} (writer reader : Pipe) (inbox : List Command) (q : UPipe)
    (c : Credit hwm (Due hwm)) : Prop where
  hwm_eq : writer.hwm = hwm
  lwm_eq : reader.lwm = Pipe.computeLwm hwm
  written : writer.msgsWritten = c.written % 2 ^ 64
  read : reader.msgsRead = c.read % 2 ^ 64
  acked : writer.peersMsgsRead = c.acked % 2 ^ 64
  inFlight : credits inbox = c.inFlight.map (· % 2 ^ 64)
  outActive : writer.outActive = !c.blocked
  queue : c.written = c.read + q.complete

namespace Tracks

variable {hwm : Nat} {writer reader : Pipe} {inbox : List Command} {q : UPipe}
  {c : Credit hwm (Due hwm)}
variable {msg : Msg} {n : Nat} {reader' : Pipe} {q' : UPipe}

theorem congr (h : Tracks writer reader inbox q c) {writer' : Pipe}
    {inbox' : List Command} (h1 : writer'.hwm = writer.hwm)
    (h2 : writer'.msgsWritten = writer.msgsWritten)
    (h3 : writer'.peersMsgsRead = writer.peersMsgsRead) (h4 : writer'.outActive = writer.outActive)
    (h5 : reader'.lwm = reader.lwm) (h6 : reader'.msgsRead = reader.msgsRead)
    (h7 : credits inbox' = credits inbox) (h8 : q'.complete = q.complete) :
    Tracks writer' reader' inbox' q' c :=
  ⟨h1.trans h.hwm_eq, h5.trans h.lwm_eq, h2.trans h.written, h6.trans h.read, h3.trans h.acked,
    h7.trans h.inFlight, h4.trans h.outActive, by rw [h8]; exact h.queue⟩

theorem full_iff (h : Tracks writer reader inbox q c) (hpos : 0 < hwm) (hlt : hwm < 2 ^ 64) :
    writer.full = true ↔ c.written = c.acked + hwm := by
  have h1 := c.within
  have h2 := c.acked_le_read
  have h3 := c.read_le
  simp only [Pipe.full, h.hwm_eq, Pipe.sub64, h.written, h.acked, Bool.and_eq_true, decide_eq_true_eq,
    beq_iff_eq, hpos, true_and]
  omega

theorem fill (h : Tracks writer reader inbox q c) (hfull : c.written = c.acked + hwm) :
    Tracks { writer with outActive := false } reader inbox q (c.block hfull) :=
  ⟨h.hwm_eq, h.lwm_eq, h.written, h.read, h.acked, h.inFlight, rfl, h.queue⟩

theorem write (h : Tracks writer reader inbox q c) (hopen : c.written ≠ c.acked + hwm)
    (hlast : msg.more = false) :
    Tracks (writer.wrote msg) reader inbox (q.write msg msg.more) (c.write hopen) := by
  simp only [Pipe.wrote, hlast, Bool.false_eq_true, if_false]
  refine ⟨h.hwm_eq, h.lwm_eq, ?_, h.read, h.acked, h.inFlight, h.outActive, ?_⟩
  · show (writer.msgsWritten + 1) % 2 ^ 64 = (c.written + 1) % 2 ^ 64
    rw [h.written]
    omega
  · show c.written + 1 = c.read + _
    rw [YPipe.complete_write, hlast, h.queue]
    rfl

theorem count (h : Tracks writer reader inbox q c) (hpos : 0 < hwm)
    (hn : n = c.read ∨ n = c.read + 1) (hlwm : reader'.lwm = reader.lwm)
    (hread : reader'.msgsRead = n % 2 ^ 64) (hqueue : c.written = n + q'.complete) :
    ∃ c' : Credit hwm (Due hwm), Tracks writer reader' (inbox ++ reader'.credit) q' c' := by
  obtain ⟨hpos', -⟩ := Pipe.computeLwm_bounds hpos
  have hlwm' := hlwm.trans h.lwm_eq
  by_cases hdue : Due hwm n
  · have hcredit : reader'.credit = [.activateWrite (n % 2 ^ 64)] := by
      rw [Pipe.credit, hlwm', hread, if_pos ⟨hpos', hdue⟩]
    refine ⟨c.report n (by omega) (by omega), h.hwm_eq, hlwm', h.written, hread, h.acked, ?_,
      h.outActive, hqueue⟩
    rw [hcredit, credits_append, h.inFlight]
    show _ = (c.inFlight ++ [n]).map (· % 2 ^ 64)
    simp
  · have hcredit : reader'.credit = [] := by
      rw [Pipe.credit, hlwm', hread, if_neg fun h => hdue h.2]
    rw [hcredit, List.append_nil]
    rcases hn with rfl | rfl
    · exact ⟨c, h.hwm_eq, hlwm', h.written, hread, h.acked, h.inFlight, h.outActive, hqueue⟩
    · exact ⟨c.advance (by omega) hdue, h.hwm_eq, hlwm', h.written, hread, h.acked, h.inFlight,
        h.outActive, hqueue⟩

theorem take (h : Tracks writer reader inbox q c) (hpos : 0 < hwm) {rest : List Msg}
    (hq : q.queue = msg :: rest) (r : Nat) :
    ∃ c' : Credit hwm (Due hwm),
      Tracks writer (reader.took msg) (inbox ++ (reader.took msg).credit) (q.popped rest r) c' := by
  have hcomplete := YPipe.complete_popped hq r
  have hqueue := h.queue
  cases hmore : msg.more with
  | true =>
    have htook : reader.took msg = reader := by
      simp [Pipe.took, hmore]
    rw [htook]
    refine h.count hpos (Or.inl rfl) rfl h.read ?_
    simp only [hmore, if_true] at hcomplete
    omega
  | false =>
    refine h.count hpos (Or.inr rfl) ?_ ?_ ?_
    · simp [Pipe.took, hmore]
    · grind [Pipe.took, h.read]
    · grind

theorem hear (h : Tracks writer reader (.activateWrite n :: inbox) q c)
    (hs : writer.state = .active) :
    ∃ c' : Credit hwm (Due hwm), Tracks (writer.processActivateWrite n).2 reader inbox q c' := by
  have hflight := h.inFlight
  rw [credits_activateWrite] at hflight
  cases hk : c.inFlight with
  | nil =>
    rw [hk] at hflight
    cases hflight
  | cons k ks =>
    rw [hk, List.map_cons, List.cons.injEq] at hflight
    have heard : Tracks { writer with peersMsgsRead := n, outActive := true } reader inbox q
        (c.hear hk) :=
      ⟨h.hwm_eq, h.lwm_eq, h.written, h.read, hflight.1, hflight.2, rfl, h.queue⟩
    refine ⟨c.hear hk, ?_⟩
    simp only [Pipe.processActivateWrite, hs]
    grind

end Tracks

def Accounts (hwm lost : Nat) (writer reader : Pipe) (inbox : List Command) (q : UPipe) : Prop :=
  ∃ v : UPipe, v.complete = q.complete + lost ∧
    ∃ c : Credit hwm (Due hwm), Tracks writer reader inbox v c

namespace Accounts

variable {hwm lost : Nat} {writer reader : Pipe} {inbox : List Command} {q : UPipe}
variable {q' : UPipe}

theorem congr (h : Accounts hwm lost writer reader inbox q) {writer' reader' : Pipe}
    {inbox' : List Command} (h1 : writer'.hwm = writer.hwm)
    (h2 : writer'.msgsWritten = writer.msgsWritten)
    (h3 : writer'.peersMsgsRead = writer.peersMsgsRead) (h4 : writer'.outActive = writer.outActive)
    (h5 : reader'.lwm = reader.lwm) (h6 : reader'.msgsRead = reader.msgsRead)
    (h7 : credits inbox' = credits inbox) (h8 : q'.complete = q.complete) :
    Accounts hwm lost writer' reader' inbox' q' := by
  obtain ⟨v, hv, c, ht⟩ := h
  exact ⟨v, by rw [hv, h8], c, ht.congr h1 h2 h3 h4 h5 h6 h7 rfl⟩

theorem shift (h : Accounts hwm lost writer reader inbox q) {lost' : Nat}
    (heq : q'.complete + lost' = q.complete + lost) : Accounts hwm lost' writer reader inbox q' := by
  obtain ⟨v, hv, ht⟩ := h
  exact ⟨v, by rw [hv, heq], ht⟩

theorem reopen (h : Accounts hwm lost writer reader inbox q) :
    Accounts hwm lost { writer with outActive := true } reader inbox q := by
  obtain ⟨v, hv, c, ht⟩ := h
  exact ⟨v, hv, c.reopen, ht.hwm_eq, ht.lwm_eq, ht.written, ht.read, ht.acked, ht.inFlight, rfl,
    ht.queue⟩

theorem of_tracks {c : Credit hwm (Due hwm)} (h : Tracks writer reader inbox q c) :
    Accounts hwm 0 writer reader inbox q := ⟨q, rfl, c, h⟩

theorem tracks (h : Accounts hwm 0 writer reader inbox q) :
    ∃ c : Credit hwm (Due hwm), Tracks writer reader inbox q c := by
  obtain ⟨v, hv, c, ht⟩ := h
  exact ⟨c, ht.congr rfl rfl rfl rfl rfl rfl rfl (by omega)⟩

theorem hear {n : Nat} (h : Accounts hwm lost writer reader (.activateWrite n :: inbox) q)
    (hs : writer.state = .active) :
    Accounts hwm lost (writer.processActivateWrite n).2 reader inbox q := by
  obtain ⟨v, hv, c, ht⟩ := h
  exact ⟨v, hv, ht.hear hs⟩

theorem take (h : Accounts hwm lost writer reader inbox q) (hpos : 0 < hwm) {msg : Msg}
    {rest : List Msg} (hq : q.queue = msg :: rest) (r : Nat) :
    Accounts hwm lost writer (reader.took msg) (inbox ++ (reader.took msg).credit)
      (q.popped rest r) := by
  obtain ⟨v, hv, c, ht⟩ := h
  -- what is lost stands behind what can still be read
  obtain ⟨extra, hextra⟩ : ∃ extra : List Msg, extra.countP (fun m => !m.more) = lost := by
    refine ⟨List.replicate lost ⟨false, 0, []⟩, ?_⟩
    rw [List.countP_replicate, if_pos (by decide)]
  have hcomplete : ∀ q : UPipe,
      YPipe.complete { q with queue := q.queue ++ extra } = q.complete + lost := by
    intro q
    simp only [YPipe.complete, List.countP_append, hextra]
  have ht' : Tracks writer reader inbox { q with queue := q.queue ++ extra } c :=
    ht.congr rfl rfl rfl rfl rfl rfl rfl (by rw [hcomplete, hv])
  have hqueue : ({ q with queue := q.queue ++ extra } : UPipe).queue = msg :: (rest ++ extra) := by
    simp [hq]
  exact ⟨_, hcomplete (q.popped rest r), ht'.take hpos hqueue r⟩

end Accounts

namespace Pipe

variable {p p' : Pipe} {inq inq' : UPipe} {outq outq' : Option UPipe} {cmds : List Command}
  {hwm : Nat} {peer : Pipe} {inbox : List Command}
variable {lost : Nat} {q : UPipe}

theorem Calls.active (h : Calls p inq outq false p' inq' outq' cmds) (hs : p.state = .active)
    (hin : inq.Plain) : p'.state = .active ∧ Activates cmds ∧ inq'.Plain := by
  cases h with
  | take hreads hq =>
    refine ⟨by rw [took_state, hs], activates_credit _, fun m hm => hin m ?_⟩
    rw [hq]
    exact List.mem_cons_of_mem _ hm
  | delimit _ hq _ _ hv =>
    rw [hin _ (by simp [hq])] at hv
    cases hv
  | finish hs' =>
    rw [hs] at hs'
    cases hs'
  | write => exact ⟨by rw [wrote_state, hs], activates_nil, hin⟩
  | flush => exact ⟨hs, activates_wake _, hin⟩
  | _ => exact ⟨hs, activates_nil, hin⟩

theorem Calls.plain (h : Calls p inq outq false p' inq' outq' cmds)
    (hq : outq = some q) (hgood : q.Good) (hplain : q.Plain) :
    ∃ q', outq' = some q' ∧ q'.Plain := by
  cases h with
  | write hq' _ _ _ hm =>
    cases hq.symm.trans hq'
    refine ⟨_, rfl, fun m hm' => ?_⟩
    rw [YPipe.write_queue, List.mem_append, List.mem_singleton] at hm'
    rcases hm' with hm' | rfl
    · exact hplain m hm'
    · exact hm
  | flush hq' =>
    cases hq.symm.trans hq'
    refine ⟨_, rfl, ?_⟩
    rw [YPipe.flush_eq hgood.wf]
    exact hplain
  | rollback hq' =>
    cases hq.symm.trans hq'
    exact ⟨_, rfl, fun m hm => hplain m (List.mem_of_mem_take hm)⟩
  | _ => exact ⟨q, hq, hplain⟩

theorem Calls.accounts_writer (h : Calls p inq outq false p' inq' outq' cmds) (hpos : 0 < hwm)
    (hlt : hwm < 2 ^ 64) (hq : outq = some q) (hgood : q.Good)
    (ha : Accounts hwm lost p peer inbox q) :
    ∃ q', outq' = some q' ∧ Accounts hwm lost p' peer inbox q' := by
  cases h with
  | fill _ _ hfull =>
    obtain ⟨v, hv, c, ht⟩ := ha
    exact ⟨q, hq, v, hv, _, ht.fill ((ht.full_iff hpos hlt).1 hfull)⟩
  | @write q' msg hq' _ _ hfull =>
    cases hq.symm.trans hq'
    refine ⟨_, rfl, ?_⟩
    cases hmore : msg.more with
    | false =>
      obtain ⟨v, hv, c, ht⟩ := ha
      have hopen : c.written ≠ c.acked + hwm := by
        rw [Ne, ← ht.full_iff hpos hlt, hfull]
        simp
      refine ⟨v.write msg msg.more, ?_, c.write hopen, ht.write hopen hmore⟩
      rw [YPipe.complete_write, YPipe.complete_write, hv]
      omega
    | true =>
      have hwrote : p.wrote msg = p := by
        simp [wrote, hmore]
      rw [hwrote]
      refine ha.congr rfl rfl rfl rfl rfl rfl rfl ?_
      rw [YPipe.complete_write, hmore]
      rfl
  | take => grind [ha.congr, took]
  | flush hq' => grind [ha.congr, YPipe.complete_flush, hgood.wf]
  | rollback hq' => grind [ha.congr, YPipe.complete_rolledBack]
  | _ => exact ⟨q, hq, ha.congr rfl rfl rfl rfl rfl rfl rfl rfl⟩

theorem Calls.accounts_reader (h : Calls p inq outq false p' inq' outq' cmds) (hpos : 0 < hwm)
    (hs : p.state = .active) (hplain : inq.Plain)
    (ha : Accounts hwm lost peer p inbox inq) :
    Accounts hwm lost peer p' (inbox ++ cmds) inq' := by
  cases h with
  | @take v rest r hreads hq => exact ha.take hpos hq r
  | delimit _ hq _ _ hv =>
    rw [hplain _ (by simp [hq])] at hv
    cases hv
  | finish hs' =>
    rw [hs] at hs'
    cases hs'
  | write => grind [ha.congr, wrote]
  | flush => exact ha.congr rfl rfl rfl rfl rfl rfl (by simp [credits_wake]) rfl
  | _ => exact ha.congr rfl rfl rfl rfl rfl rfl (by simp) rfl

end Pipe

end Libxs
