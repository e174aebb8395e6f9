import Libxs.Pipe.Framing
import Libxs.Pipe.Progress
import Libxs.Pipe.Watermark
import Libxs.XPub.Proofs
import Mathlib.Data.List.TakeWhile
import Mathlib.Order.Fin.Basic

/-! # Malformed subscriptions -/

namespace Libxs

variable {α : Type} [LinearOrder α]

/-! ## The link between a publisher and one subscriber -/

inductive LinkOp where
  | write (flags : UInt8) (data : List UInt8)
  | rollback
  | flush
  | peerProcess
  | attach
  | process
deriving DecidableEq, Repr

structure PubLink (α : Type) [LinearOrder α] where
  pub : XPub α
  own : Endpoint
  peer : Pipe
  inbox : List Command
  attached : Bool
  log : List Msg

namespace PubLink

def init (x : XPub α) (inhwm outhwm : Nat) (delay delay' : Bool) : PubLink α where
  pub := x
  own := Endpoint.init inhwm outhwm delay
  peer := Pipe.init 1 0 outhwm inhwm delay'
  inbox := []
  attached := false
  log := []

def peerCall (s : PubLink α) (peer : Pipe) (outq : Option UPipe) (cmds : List Command) : PubLink α :=
  { s with
    own := { s.own with inq := outq.getD s.own.inq }
    peer := peer
    inbox := s.inbox ++ cmds
    log := s.log ++ (outq.getD s.own.inq).flushed.drop s.own.inq.flushed.length }

def peerHears (peer : Pipe) : Command → Pipe
  | .activateRead => peer.processActivateRead.2
  | .activateWrite msgsRead => (peer.processActivateWrite msgsRead).2
  | _ => peer

def readActivated (pipe : α) (s : PubLink α) : Except Fault (PubLink α) :=
  match s.pub.xreadActivated (fun _ => s.own) pipe with
  | .error err => .error err
  | .ok (pub, ends) => .ok { s with pub := pub, own := ends pipe }

def step (pipe : α) (s : PubLink α) : LinkOp → Except Fault (PubLink α)
  | .write flags data =>
    match s.peer.write (some s.own.inq) ⟨false, flags, data⟩ with
    | .error err => .error err
    | .ok (_, peer, outq) => .ok (s.peerCall peer outq [])
  | .rollback =>
    match Pipe.rollback (some s.own.inq) with
    | .error err => .error err
    | .ok outq => .ok (s.peerCall s.peer outq [])
  | .flush =>
    match s.peer.flush (some s.own.inq) with
    | (outq, cmds) => .ok (s.peerCall s.peer outq cmds)
  | .peerProcess =>
    match s.own.outbox with
    | [] => .ok s
    | cmd :: rest =>
      .ok { s with peer := peerHears s.peer cmd, own := { s.own with outbox := rest } }
  | .attach => if s.attached then .ok s else readActivated pipe { s with attached := true }
  | .process =>
    if s.attached then
      match s.inbox with
      | [] => .ok s
      | .activateRead :: rest =>
        match s.own.processActivateRead with
        | (false, own) => .ok { s with own := own, inbox := rest }
        | (true, own) => readActivated pipe { s with own := own, inbox := rest }
      | _ :: rest => .ok { s with inbox := rest }
    else .ok s

end PubLink

/-! ## Commands among the messages -/

namespace XPub

def WellFormed (m : Msg) : Prop := (PubSub.parse m.data).isSome = true
deriving Decidable

def commandsOf (msgs : List Msg) : List (List UInt8 × Change Subscription) :=
  msgs.filterMap fun m => (PubSub.parse m.data).map (m.data, ·)

def commandsBefore (msgs : List Msg) : List (List UInt8 × Change Subscription) :=
  commandsOf (msgs.takeWhile fun m => decide (WellFormed m))

theorem commandsOf_cons {m : Msg} {c : Change Subscription} (h : PubSub.parse m.data = some c)
    (msgs : List Msg) : commandsOf (m :: msgs) = (m.data, c) :: commandsOf msgs := by
  simp [commandsOf, h]

theorem commandsBefore_of_wellFormed {msgs : List Msg} (h : ∀ m ∈ msgs, WellFormed m) :
    commandsBefore msgs = commandsOf msgs := by
  rw [commandsBefore, List.takeWhile_eq_self_iff.2]
  intro m hm
  exact decide_eq_true (h m hm)

theorem commandsBefore_append {taken rest : List Msg} {bad : Msg} (h : ∀ m ∈ taken, WellFormed m)
    (hbad : ¬ WellFormed bad) : commandsBefore (taken ++ bad :: rest) = commandsOf taken := by
  rw [commandsBefore, List.takeWhile_append_of_pos fun m hm => decide_eq_true (h m hm),
    List.takeWhile_cons_of_neg (by simpa using hbad), List.append_nil]

end XPub

/-! ## The loop of `xread_activated` -/

structure Endpoint.InUse (e : Endpoint) : Prop where
  good : e.inq.Good
  plain : e.inq.Plain
  active : e.pipe.state = .active

theorem Endpoint.InUse.read {e : Endpoint} (h : e.InUse) (hin : e.pipe.inActive = true) :
    (∃ m e', e.read = .ok (some m, e') ∧ e'.InUse ∧ e'.pipe.inActive = true ∧
        e.inq.flushed = m :: e'.inq.flushed) ∨
      (∃ e', e.read = .ok (none, e') ∧ e'.InUse ∧ e'.pipe.inActive = false ∧ e'.inq.c = none ∧
        e.inq.flushed = [] ∧ e'.inq.flushed = []) := by
  have hguard : (!e.pipe.inActive || !e.pipe.reads) = false := by
    simp [hin, Pipe.reads, h.active]
  unfold Endpoint.read Pipe.read
  rw [hguard]
  rcases YPipe.read_cases h.good.wf with ⟨hlt, m, rest, r, hq, h1, h2, he⟩ | ⟨hfw, r, he, hr⟩
  · have hm : m.isDelimiter = false := h.plain m (by simp [hq])
    obtain ⟨hflushed, -, -⟩ := h.good.wf.content_popped hq r hlt
    left
    simp only [he, hm, Bool.false_eq_true, if_false]
    refine ⟨m, _, rfl, ⟨h.good.popped hq h1 h2, fun m' hm' => ?_, ?_⟩, ?_, hflushed⟩
    · exact h.plain m' (by rw [hq]; exact List.mem_cons_of_mem _ hm')
    · cases hmore : m.more <;> simpa [hmore] using h.active
    · cases hmore : m.more <;> simpa [hmore] using hin
  · have hnil : e.inq.flushed = [] := by
      simp [YPipe.flushed, hfw]
    right
    simp only [he, Bool.false_eq_true, if_false]
    exact ⟨_, rfl, ⟨h.good.sleep hfw hr, h.plain, h.active⟩, rfl, rfl, hnil, hnil⟩

namespace XPub

inductive Drains (pipe : α) (x : XPub α) (e : Endpoint) (x' : XPub α) (e' : Endpoint) : Prop where
  | emptied (hcommands : ∀ m ∈ e.inq.flushed, WellFormed m)
      (hrun : run (turn pipe) x (commandsOf e.inq.flushed) = .ok x')
      (hasleep : e'.pipe.inActive = false) (hc : e'.inq.c = none) (hnil : e'.inq.flushed = [])
  | stopped (taken rest : List Msg) (bad : Msg) (hflushed : e.inq.flushed = taken ++ bad :: rest)
      (hcommands : ∀ m ∈ taken, WellFormed m) (hbad : ¬ WellFormed bad)
      (hrun : run (turn pipe) x (commandsOf taken) = .ok x') (hawake : e'.pipe.inActive = true)

theorem Drains.cons {pipe : α} {x x₁ x' : XPub α} {e e₁ e' : Endpoint} {m : Msg}
    {c : Change Subscription} (h : Drains pipe x₁ e₁ x' e') (hparse : PubSub.parse m.data = some c)
    (hturn : x.process pipe m.data c = .ok x₁) (hflushed : e.inq.flushed = m :: e₁.inq.flushed) :
    Drains pipe x e x' e' := by
  have hm : WellFormed m := by
    simp [WellFormed, hparse]
  have hrun : ∀ msgs, run (turn pipe) x (commandsOf (m :: msgs)) =
      run (turn pipe) x₁ (commandsOf msgs) := by
    intro msgs
    rw [commandsOf_cons hparse]
    exact run_cons_ok hturn
  cases h with
  | emptied hcommands hrest hasleep hc hnil =>
    refine .emptied ?_ ?_ hasleep hc hnil
    · grind
    · rw [hflushed, hrun, hrest]
  | stopped taken rest bad hsplit hcommands hbad hrest hawake =>
    refine .stopped (m :: taken) rest bad ?_ ?_ hbad ?_ hawake
    · rw [hflushed, hsplit]
      rfl
    · exact List.forall_mem_cons.2 ⟨hm, hcommands⟩
    · rw [hrun, hrest]

theorem readLoop_drains (pipe : α) : ∀ (fuel : Nat) {x x' : XPub α} {e e' : Endpoint}, e.InUse →
    e.pipe.inActive = true → e.inq.queue.length < fuel →
    readLoop fuel x pipe e = .ok (x', e') → e'.InUse ∧ Drains pipe x e x' e' := by
  intro fuel
  induction fuel with
  | zero => grind
  | succ fuel ih =>
    intro x x' e e' huse hin hfuel hloop
    unfold readLoop at hloop
    rcases huse.read hin with ⟨m, e₁, hr, huse₁, hin₁, hflushed⟩ | ⟨e₁, hr, huse₁, hin₁, hc, hnil, hnil₁⟩
    · have hshorter := Endpoint.read_shorter hr
      rw [hr] at hloop
      simp only at hloop
      cases hparse : PubSub.parse m.data with
      | none =>
        rw [hparse, Except.ok.injEq, Prod.mk.injEq] at hloop
        obtain ⟨rfl, rfl⟩ := hloop
        exact ⟨huse₁, .stopped [] _ m hflushed (by simp) (by simp [WellFormed, hparse]) rfl hin₁⟩
      | some c =>
        rw [hparse] at hloop
        simp only at hloop
        split at hloop
        · cases hloop
        next x₁ hturn =>
          obtain ⟨huse', hdrains⟩ := ih huse₁ hin₁ (by omega) hloop
          exact ⟨huse', hdrains.cons hparse hturn hflushed⟩
    · rw [hr, Except.ok.injEq, Prod.mk.injEq] at hloop
      obtain ⟨rfl, rfl⟩ := hloop
      exact ⟨huse₁, .emptied (by simp [hnil]) (by rw [hnil]; rfl) hin₁ hc hnil₁⟩

end XPub

theorem Pipe.Calls.flushed {p p' : Pipe} {inq inq' : UPipe} {outq outq' : Option UPipe}
    {cmds : List Command} (h : Calls p inq outq false p' inq' outq' cmds) {q : UPipe}
    (hq : outq = some q) (hgood : q.Good) : ∃ q', outq' = some q' ∧ q.flushed <+: q'.flushed := by
  cases h with
  | write hq' =>
    cases hq.symm.trans hq'
    exact ⟨_, rfl, by rw [hgood.wf.flushed_write]⟩
  | flush hq' =>
    cases hq.symm.trans hq'
    refine ⟨_, rfl, ?_⟩
    rw [hgood.wf.content_flush.1]
    exact hgood.wf.flushed_le_ready
  | rollback hq' =>
    cases hq.symm.trans hq'
    exact ⟨_, rfl, by rw [hgood.wf.content_rolledBack.1]⟩
  | _ => exact ⟨q, hq, List.prefix_rfl⟩

/-! ## What is read in a run -/

namespace PubLink

variable {pipe : α} {x : XPub α} {s s' : PubLink α}

inductive Progress (pipe : α) (x : XPub α) (s : PubLink α) : Prop where
  | fresh (hatt : s.attached = false) (hpub : s.pub = x) (hawake : s.own.pipe.inActive = true)
      (hlog : s.log = s.own.inq.flushed)
  | waiting (taken : List Msg) (hatt : s.attached = true)
      (hlog : s.log = taken ++ s.own.inq.flushed) (hcommands : ∀ m ∈ taken, XPub.WellFormed m)
      (hrun : run (XPub.turn pipe) x (XPub.commandsOf taken) = .ok s.pub)
      (hasleep : s.own.pipe.inActive = false)
      (hwoken : .activateRead ∈ s.inbox ∨ s.own.inq.c = none)
  | stuck (taken rest : List Msg) (bad : Msg) (hatt : s.attached = true)
      (hlog : s.log = taken ++ bad :: rest) (hcommands : ∀ m ∈ taken, XPub.WellFormed m)
      (hbad : ¬ XPub.WellFormed bad)
      (hrun : run (XPub.turn pipe) x (XPub.commandsOf taken) = .ok s.pub)
      (hawake : s.own.pipe.inActive = true)

structure Inv (pipe : α) (x : XPub α) (s : PubLink α) : Prop where
  inUse : s.own.InUse
  peer : s.peer.state = .active
  progress : Progress pipe x s

theorem inv_init (pipe : α) (x : XPub α) (inhwm outhwm : Nat) (delay delay' : Bool) :
    Inv pipe x (init x inhwm outhwm delay delay') :=
  ⟨⟨YPipe.good_init, fun _ hm => absurd hm List.not_mem_nil, rfl⟩, rfl, .fresh rfl rfl rfl rfl⟩

theorem Inv.peerCall (h : Inv pipe x s) {peer : Pipe} {inq inq' : UPipe} {outq : Option UPipe}
    {cmds : List Command} (hinq : inq.Plain)
    (hcalls : Pipe.Calls s.peer inq (some s.own.inq) false peer inq' outq cmds) :
    Inv pipe x (s.peerCall peer outq cmds) := by
  obtain ⟨hactive, -, -⟩ := hcalls.active h.peer hinq
  have hgood' := hcalls.out_good fun q hq => Option.some.inj hq ▸ h.inUse.good
  obtain ⟨q, rfl, hplain⟩ := hcalls.plain rfl h.inUse.good h.inUse.plain
  obtain ⟨q₁, hq₁, hfeeds⟩ := hcalls.feeds rfl h.inUse.good
  obtain ⟨q₂, hq₂, hflushed⟩ := hcalls.flushed rfl h.inUse.good
  cases hq₁
  cases hq₂
  have hnew : s.own.inq.flushed ++ q.flushed.drop s.own.inq.flushed.length = q.flushed := by
    obtain ⟨more, hmore⟩ := hflushed
    rw [← hmore, List.drop_left]
  refine ⟨⟨hgood' q rfl, hplain, h.inUse.active⟩, hactive, ?_⟩
  cases h.progress with
  | fresh hatt hpub hawake hlog =>
    refine .fresh hatt hpub hawake ?_
    show s.log ++ q.flushed.drop s.own.inq.flushed.length = q.flushed
    rw [hlog, hnew]
  | waiting taken hatt hlog hcommands hrun hasleep hwoken =>
    refine .waiting taken hatt ?_ hcommands hrun hasleep ?_
    · show s.log ++ q.flushed.drop s.own.inq.flushed.length = taken ++ q.flushed
      rw [hlog, List.append_assoc, hnew]
    · show .activateRead ∈ s.inbox ++ cmds ∨ q.c = none
      rw [List.mem_append]
      grind [hfeeds.wake]
  | stuck taken rest bad hatt hlog hcommands hbad hrun hawake =>
    refine .stuck taken (rest ++ q.flushed.drop s.own.inq.flushed.length) bad hatt ?_ hcommands hbad
      hrun hawake
    show s.log ++ _ = _
    rw [hlog, List.append_assoc]
    rfl

theorem readActivated_progress (taken : List Msg) (huse : s.own.InUse) (hatt : s.attached = true)
    (hlog : s.log = taken ++ s.own.inq.flushed) (hcommands : ∀ m ∈ taken, XPub.WellFormed m)
    (hrun : run (XPub.turn pipe) x (XPub.commandsOf taken) = .ok s.pub)
    (hawake : s.own.pipe.inActive = true) (hs : readActivated pipe s = .ok s') :
    s'.own.InUse ∧ s'.peer = s.peer ∧ Progress pipe x s' := by
  unfold readActivated XPub.xreadActivated at hs
  split at hs
  · cases hs
  next pub ends hread =>
    rw [Except.ok.injEq] at hs
    split at hread
    · cases hread
    next pub' own hloop =>
      cases hread
      rw [Function.update_self] at hs
      subst hs
      obtain ⟨huse', hdrains⟩ := XPub.readLoop_drains pipe _ huse hawake (Nat.lt_succ_self _) hloop
      refine ⟨huse', rfl, ?_⟩
      have happend : ∀ msgs, run (XPub.turn pipe) x (XPub.commandsOf (taken ++ msgs)) =
          run (XPub.turn pipe) s.pub (XPub.commandsOf msgs) := by
        intro msgs
        rw [XPub.commandsOf, List.filterMap_append]
        exact run_append hrun
      cases hdrains with
      | emptied hcommands' hrun' hasleep hc hnil =>
        refine .waiting (taken ++ s.own.inq.flushed) hatt ?_ ?_ ?_ hasleep (Or.inr hc)
        · show s.log = _ ++ own.inq.flushed
          rw [hlog, hnil, List.append_nil]
        · grind
        · rw [happend, hrun']
      | stopped taken' rest bad hflushed hcommands' hbad hrun' hawake' =>
        refine .stuck (taken ++ taken') rest bad hatt ?_ ?_ hbad ?_ hawake'
        · show s.log = _
          rw [hlog, hflushed, List.append_assoc]
        · grind
        · rw [happend, hrun']

theorem Inv.attach (h : Inv pipe x s) (hs : step pipe s .attach = .ok s') : Inv pipe x s' := by
  unfold step at hs
  cases hatt : s.attached with
  | true =>
    simp only [hatt] at hs
    cases hs
    exact h
  | false =>
    rw [hatt, if_neg (by simp)] at hs
    cases h.progress with
    | fresh _ hpub hawake hlog =>
      obtain ⟨huse, hpeer, hprogress⟩ := readActivated_progress (x := x)
        (s := { s with attached := true }) [] h.inUse rfl hlog (by simp) (by rw [← hpub]; rfl) hawake hs
      exact ⟨huse, hpeer ▸ h.peer, hprogress⟩
    | waiting _ hatt' => exact absurd (hatt.symm.trans hatt') (by simp)
    | stuck _ _ _ hatt' => exact absurd (hatt.symm.trans hatt') (by simp)

theorem Inv.skip (h : Inv pipe x s) {c : Command} {rest : List Command} (hbox : s.inbox = c :: rest)
    (hc : c ≠ .activateRead) : Inv pipe x { s with inbox := rest } := by
  refine ⟨h.inUse, h.peer, ?_⟩
  cases h.progress with
  | fresh hatt hpub hawake hlog => exact .fresh hatt hpub hawake hlog
  | waiting taken hatt hlog hcommands hrun hasleep hwoken =>
    refine .waiting taken hatt hlog hcommands hrun hasleep ?_
    rw [hbox, List.mem_cons] at hwoken
    grind
  | stuck taken rest' bad hatt hlog hcommands hbad hrun hawake =>
    exact .stuck taken rest' bad hatt hlog hcommands hbad hrun hawake

theorem Inv.activateRead (h : Inv pipe x s) (hatt : s.attached = true) {rest : List Command}
    (hbox : s.inbox = .activateRead :: rest) (hs : step pipe s .process = .ok s') :
    Inv pipe x s' := by
  have hreads : s.own.pipe.reads = true := by
    simp [Pipe.reads, h.inUse.active]
  simp only [step] at hs
  rw [if_pos hatt, hbox] at hs
  simp only at hs
  cases h.progress with
  | fresh hatt' => exact absurd (hatt.symm.trans hatt') (by simp)
  | waiting taken _ hlog hcommands hrun hasleep _ =>
    have hwake : s.own.processActivateRead =
        (true, { s.own with pipe := { s.own.pipe with inActive := true }, refusedRead := false }) := by
      simp [Endpoint.processActivateRead, Pipe.processActivateRead, hasleep, hreads]
    rw [hwake] at hs
    obtain ⟨huse, hpeer, hprogress⟩ := readActivated_progress (x := x)
      (s := { s with
        own := { s.own with pipe := { s.own.pipe with inActive := true }, refusedRead := false }
        inbox := rest })
      taken ⟨h.inUse.good, h.inUse.plain, h.inUse.active⟩ hatt hlog hcommands hrun rfl hs
    exact ⟨huse, hpeer ▸ h.peer, hprogress⟩
  | stuck taken rest' bad _ hlog hcommands hbad hrun hawake =>
    have hdeaf : s.own.processActivateRead = (false, s.own) := by
      simp [Endpoint.processActivateRead, Pipe.processActivateRead, hawake]
    rw [hdeaf] at hs
    simp only [Except.ok.injEq] at hs
    rw [← hs]
    exact ⟨h.inUse, h.peer, .stuck taken rest' bad hatt hlog hcommands hbad hrun hawake⟩

theorem peerHears_state (peer : Pipe) (c : Command) : (peerHears peer c).state = peer.state := by
  cases c with
  | activateRead =>
    obtain ⟨b, hb⟩ := peer.processActivateRead_eq
    simp only [peerHears, hb]
  | activateWrite n =>
    obtain ⟨b, hb⟩ := peer.processActivateWrite_eq n
    simp only [peerHears, hb]
  | _ => rfl

theorem Inv.step {op : LinkOp} (h : Inv pipe x s) (hs : step pipe s op = .ok s') :
    Inv pipe x s' := by
  have hempty : (YPipe.init : UPipe).Plain := fun _ hm => absurd hm List.not_mem_nil
  cases op with
  | write flags data =>
    obtain ⟨b, peer, outq, hwrite, hcalls⟩ : ∃ b peer outq,
        s.peer.write (some s.own.inq) ⟨false, flags, data⟩ = .ok (b, peer, outq) ∧
          Pipe.Calls s.peer YPipe.init (some s.own.inq) false peer YPipe.init outq [] :=
      Pipe.write_calls YPipe.init rfl (by simp)
    simp only [PubLink.step, hwrite] at hs
    cases hs
    exact h.peerCall hempty hcalls
  | rollback =>
    obtain ⟨outq, hback, hcalls⟩ := Pipe.rollback_calls s.peer YPipe.init
      (fun q (hq : some s.own.inq = some q) => Option.some.inj hq ▸ h.inUse.good)
    simp only [PubLink.step, hback] at hs
    cases hs
    exact h.peerCall hempty hcalls
  | flush =>
    simp only [PubLink.step] at hs
    cases hs
    exact h.peerCall hempty Pipe.flush_calls
  | peerProcess =>
    simp only [PubLink.step] at hs
    split at hs
    · cases hs
      exact h
    · cases hs
      refine ⟨⟨h.inUse.good, h.inUse.plain, h.inUse.active⟩, ?_, ?_⟩
      · rw [peerHears_state]
        exact h.peer
      · cases h.progress with
        | fresh hatt hpub hawake hlog => exact .fresh hatt hpub hawake hlog
        | waiting taken hatt hlog hcommands hrun hasleep hwoken =>
          exact .waiting taken hatt hlog hcommands hrun hasleep hwoken
        | stuck taken rest bad hatt hlog hcommands hbad hrun hawake =>
          exact .stuck taken rest bad hatt hlog hcommands hbad hrun hawake
  | attach => exact h.attach hs
  | process =>
    cases hatt : s.attached with
    | false => grind [PubLink.step]
    | true =>
      cases hbox : s.inbox with
      | nil => grind [PubLink.step]
      | cons c rest => grind [h.activateRead, PubLink.step, h.skip]

/-! ## What the publisher knows -/

def Reflects (pipe : α) (x : XPub α) (s : PubLink α) : Prop :=
  ∃ x', run (XPub.turn pipe) x (XPub.commandsOf s.log) = .ok x' ∧ s.pub.filters = x'.filters

def TailInert (pipe : α) (x : XPub α) (log : List Msg) : Prop :=
  ∃ x₁ x₂, run (XPub.turn pipe) x (XPub.commandsBefore log) = .ok x₁ ∧
    run (XPub.turn pipe) x (XPub.commandsOf log) = .ok x₂ ∧ x₁.filters = x₂.filters

/-- **A malformed subscription disables its pipe.** -/
theorem malformed_disables_pipe (inhwm outhwm : Nat) (delay delay' : Bool) (ops : List LinkOp)
    (hrun : run (step pipe) (init x inhwm outhwm delay delay') ops = .ok s) (hatt : s.attached = true)
    (hheard : s.inbox = []) :
    run (XPub.turn pipe) x (XPub.commandsBefore s.log) = .ok s.pub ∧
      (s.Reflects pipe x ↔ TailInert pipe x s.log) ∧
      (XPub.commandsBefore s.log = XPub.commandsOf s.log → s.Reflects pipe x) := by
  have hI : Inv pipe x s := run_preserves (fun _ _ _ hI hs => hI.step hs) ops _ s
    (inv_init pipe x inhwm outhwm delay delay') hrun
  have hbefore : run (XPub.turn pipe) x (XPub.commandsBefore s.log) = .ok s.pub := by
    cases hI.progress with
    | fresh hatt' => exact absurd (hatt.symm.trans hatt') (by simp)
    | waiting taken _ hlog hcommands htaken _ hwoken =>
      have hc : s.own.inq.c = none := by grind
      -- a reader that is asleep has emptied the pipe
      have hnil : s.own.inq.flushed = [] := by
        rcases hI.inUse.good.wf.c_eq with hc' | ⟨-, hfw⟩
        · exact absurd (hc.symm.trans hc') (by simp)
        · simp [YPipe.flushed, hfw]
      rw [hlog, hnil, List.append_nil, XPub.commandsBefore_of_wellFormed hcommands, htaken]
    | stuck taken rest bad _ hlog hcommands hbad htaken _ =>
      rw [hlog, XPub.commandsBefore_append hcommands hbad, htaken]
  refine ⟨hbefore, ⟨?_, ?_⟩, fun heq => ?_⟩
  · rintro ⟨x', hall, hfilters⟩
    exact ⟨s.pub, x', hbefore, hall, hfilters⟩
  · rintro ⟨x₁, x₂, hx₁, hall, hfilters⟩
    rw [hbefore, Except.ok.injEq] at hx₁
    subst hx₁
    exact ⟨x₂, hall, hfilters⟩
  · exact ⟨s.pub, heq ▸ hbefore, rfl⟩

def send (data : List UInt8) : List LinkOp := [.write 0 data, .flush, .process]

def subscribeA : List UInt8 := PubSub.command ⟨true, PubSub.filterPrefixId, [97]⟩

def subscribeB : List UInt8 := PubSub.command ⟨true, PubSub.filterPrefixId, [98]⟩

theorem malformed_last_is_harmless :
    ∃ s, run (step 0) (init (XPub.init true : XPub (Fin 1)) 0 0 false false)
        ([.attach] ++ send subscribeA ++ send subscribeB ++ send [7]) = .ok s ∧
      s.Reflects 0 (XPub.init true) := by
  have hrun : run (step 0) (init (XPub.init true : XPub (Fin 1)) 0 0 false false)
      ([.attach] ++ send subscribeA ++ send subscribeB ++ send [7]) = .ok _ := rfl
  exact ⟨_, hrun, (malformed_disables_pipe 0 0 false false _ hrun rfl rfl).2.2 rfl⟩

theorem malformed_hides_subscription :
    ∃ s, run (step 0) (init (XPub.init true : XPub (Fin 1)) 0 0 false false)
        ([.attach] ++ send subscribeA ++ send [7] ++ send subscribeB) = .ok s ∧
      s.attached = true ∧ s.inbox = [] ∧
      XPub.commandsOf s.log = [(subscribeA, ⟨true, 1, [97]⟩), (subscribeB, ⟨true, 1, [98]⟩)] ∧
      Filter.countIn s.pub.filters (1, [97]) 0 = 1 ∧ Filter.countIn s.pub.filters (1, [98]) 0 = 0 ∧
      ¬ s.Reflects 0 (XPub.init true) := by
  refine ⟨_, rfl, rfl, rfl, rfl, rfl, rfl, ?_⟩
  rintro ⟨x', hall, hfilters⟩
  have hknown : ∃ x', run (XPub.turn 0) (XPub.init true : XPub (Fin 1))
      [(subscribeA, ⟨true, 1, [97]⟩), (subscribeB, ⟨true, 1, [98]⟩)] = .ok x' ∧
      Filter.countIn x'.filters (1, [98]) 0 = 1 := ⟨_, rfl, rfl⟩
  obtain ⟨x₁, hx₁, hcount⟩ := hknown
  have he : x' = x₁ := Except.ok.inj (hall.symm.trans hx₁)
  rw [← he, ← hfilters] at hcount
  exact absurd hcount (by decide)

end PubLink

end Libxs
