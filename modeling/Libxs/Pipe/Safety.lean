import Libxs.Foundation.Ownership
import Libxs.Pipe.Effect
import Libxs.Pipe.Handshake

/-! # Safety of a pair of ends -/

namespace Libxs

namespace PipePair

variable {p : PipePair} {x : Side}

def acked (p : PipePair) (x : Side) : Bool := p.dead x || (p.pipe x).state.sentAck

def chain (out : Option Nat) (hiccups : List Nat) (dead : Bool) (inp : Option Nat) : List Nat :=
  match out with
  | some h => h :: hiccups
  | none => if dead then [] else inp.toList

def handles (p : PipePair) (x : Side) : List Nat :=
  chain (p.pipe x.other).outpipe (hiccups (p.inbox x.other)) (p.dead x) (p.pipe x).inpipe

def Linked (p : PipePair) (x : Side) : Prop :=
  Link (p.pipe x).state.sentTerm (p.acked x) (p.pipe x.other).state.gotTerm (p.dead x.other)
    (p.inbox x.other)

def reading (p : PipePair) (x : Side) : Option UPipe := (p.pipe x).inpipe.bind p.heap

theorem reading_eq {p' : PipePair} (hin : (p'.pipe x).inpipe = (p.pipe x).inpipe)
    (hheap : ∀ i, (p.pipe x).inpipe = some i → p'.heap i = p.heap i) :
    p'.reading x = p.reading x := by
  unfold reading
  rw [hin]
  cases hi : (p.pipe x).inpipe with
  | none => rfl
  | some i => exact hheap i hi

structure Inv (p : PipePair) : Prop where
  link : ∀ x, p.Linked x
  out : ∀ x, (p.pipe x).outpipe = none ↔ p.acked x = true
  last : ∀ x, p.dead x = false →
    ∃ i, (p.pipe x).inpipe = some i ∧ (p.handles x).getLast? = some i
  owns : Owns YPipe.Good p.handles p.heap p.fresh

theorem inv_init (hwms : Side → Nat) (delays : Side → Bool) : Inv (init hwms delays) := by
  have hstate : ∀ x, ((init hwms delays).pipe x).state = .active := by
    intro x
    cases x <;> rfl
  have hhandles : (init hwms delays).handles = fun x => [if x = .left then 0 else 1] := by
    funext x
    cases x <;> rfl
  refine ⟨fun x => ?_, fun x => ?_, fun x _ => ?_, ?_⟩
  · simp only [Linked, acked, hstate]
    exact ⟨rfl, rfl, trivial, by simp [PipeState.gotTerm], by simp [init], fun _ => rfl, fun _ => rfl⟩
  · cases x <;> simp [init, Pipe.init, acked, PipeState.sentAck]
  · rw [hhandles]
    cases x
    · exact ⟨0, rfl, rfl⟩
    · exact ⟨1, rfl, rfl⟩
  · rw [hhandles]
    refine ⟨fun x => ?_, fun x y h hx hy => ?_, fun h => ?_, fun h q hq => ?_, fun x h hx => ?_⟩
    · cases x <;> simp
    · cases x <;> cases y <;> simp_all
    · constructor
      · intro hh
        have hlt : h < 2 := by
          by_contra hge
          exact hh (if_neg hge)
        rcases (by omega : h = 0 ∨ h = 1) with rfl | rfl
        · exact ⟨.left, by simp⟩
        · exact ⟨.right, by simp⟩
      · rintro ⟨x, hx⟩
        cases x <;> simp_all [init]
    · grind [init, YPipe.good_init]
    · cases x <;> simp_all [init]

/-! ## What the invariant says about one end -/

namespace Inv

variable {c : Command} {cmds rest : List Command} {i o : Nat} {h : Option Nat}
variable {outq' q : Option UPipe} {op : PairOp} {pipe : Pipe} {p' : PipePair} {asked : Side → Bool}
variable {inq' : UPipe}

theorem link_from (hI : Inv p) (x : Side) :
    Link (p.pipe x).state.sentTerm (p.acked x) (p.pipe x.other).state.gotTerm (p.dead x.other)
      (p.inbox x.other) :=
  hI.link x

theorem link_to (hI : Inv p) (x : Side) :
    Link (p.pipe x.other).state.sentTerm (p.acked x.other) (p.pipe x).state.gotTerm (p.dead x)
      (p.inbox x) := by
  have h := hI.link x.other
  simp only [Linked, Side.other_other] at h
  exact h

theorem alive_of_inbox (hI : Inv p) (hbox : p.inbox x = c :: rest) : p.dead x = false := by
  have hto := hI.link_to x
  rw [hbox] at hto
  exact hto.alive_of_cons

theorem acked_alive (halive : p.dead x = false) : p.acked x = (p.pipe x).state.sentAck := by
  simp [acked, halive]

theorem peer_alive (hI : Inv p) (hack : p.acked x = false) : p.dead x.other = false := by
  cases hd : p.dead x.other with
  | false => rfl
  | true =>
    rw [(hI.link x).ack_of_dead hd] at hack
    cases hack

theorem closing_of_peer_acked (hI : Inv p) (halive : p.dead x = false)
    (hack : p.acked x.other = true) :
    (p.pipe x).state.sentTerm = true ∨ (p.pipe x).state.sentAck = true := by
  simp only [acked, Bool.or_eq_true] at hack
  rcases hack with hd | hs
  · right
    rw [← acked_alive halive]
    exact (hI.link x).ack_of_dead hd
  · left
    exact (hI.link x).term_of_got (PipeState.gotTerm_of_sentAck hs)

theorem inq (hI : Inv p) (halive : p.dead x = false) :
    ∃ i q, (p.pipe x).inpipe = some i ∧ i ∈ p.handles x ∧ p.heap i = some q ∧ q.Good := by
  obtain ⟨i, hi, hlast⟩ := hI.last x halive
  have hmem := List.mem_of_getLast? hlast
  obtain ⟨q, hq, hgood⟩ := hI.owns.get hmem
  exact ⟨i, q, hi, hmem, hq, hgood⟩

theorem outq (hI : Inv p) (hout : (p.pipe x).outpipe = some o) :
    o ∈ p.handles x.other ∧ ∃ q, p.heap o = some q ∧ q.Good := by
  have hmem : o ∈ p.handles x.other := by
    simp [handles, chain, hout]
  exact ⟨hmem, hI.owns.get hmem⟩

theorem in_ne_out (hI : Inv p) (halive : p.dead x = false)
    (hin : (p.pipe x).inpipe = some i) (hout : (p.pipe x).outpipe = some o) : i ≠ o := by
  intro he
  obtain ⟨i', q, hi', hmem, -, -⟩ := hI.inq halive
  rw [hin, Option.some.injEq] at hi'
  subst hi' he
  exact absurd (hI.owns.disjoint _ _ i hmem (hI.outq hout).1) (by simp)

theorem in_ne_in (hI : Inv p) (halive : p.dead x = false) (halive' : p.dead x.other = false)
    {j : Nat} (hin : (p.pipe x).inpipe = some i) (hin' : (p.pipe x.other).inpipe = some j) :
    j ≠ i := by
  intro he
  obtain ⟨i', -, hi', hmem, -, -⟩ := hI.inq halive
  obtain ⟨j', -, hj', hmem', -, -⟩ := hI.inq halive'
  rw [hin, Option.some.injEq] at hi'
  rw [hin', Option.some.injEq] at hj'
  subst hi' hj' he
  exact absurd (hI.owns.disjoint _ _ _ hmem hmem') (by simp)

theorem handles_settled (hI : Inv p) (halive : p.dead x.other = false)
    (hh : hiccups (p.inbox x) = []) : p.handles x.other = (p.pipe x.other).inpipe.toList := by
  obtain ⟨i, hi, hlast⟩ := hI.last x.other halive
  simp only [handles, chain, Side.other_other, halive] at hlast ⊢
  grind

theorem attached (hI : Inv p) (halive : p.dead x.other = false) (hack : p.acked x = false)
    (hh : hiccups (p.inbox x) = []) : (p.pipe x).outpipe = (p.pipe x.other).inpipe := by
  obtain ⟨o, hout⟩ := Option.ne_none_iff_exists'.1
    (fun hn => absurd ((hI.out x).1 hn) (by simp [hack]))
  have hmem := (hI.outq hout).1
  rw [hI.handles_settled halive hh, Option.mem_toList] at hmem
  exact hout.trans hmem.symm

/-! ## Every step keeps the invariant -/

theorem next (hI : Inv p) (x : Side) (hpipe : p'.pipe x.other = p.pipe x.other)
    (hdead : p'.dead x.other = p.dead x.other)
    (hfrom : Link (p'.pipe x).state.sentTerm (p'.acked x) (p.pipe x.other).state.gotTerm
      (p.dead x.other) (p'.inbox x.other))
    (hto : Link (p.pipe x.other).state.sentTerm (p.acked x.other) (p'.pipe x).state.gotTerm
      (p'.dead x) (p'.inbox x))
    (hout : (p'.pipe x).outpipe = none ↔ p'.acked x = true)
    (hlast : ∀ y, p'.dead y = false →
      ∃ i, (p'.pipe y).inpipe = some i ∧ (p'.handles y).getLast? = some i)
    (howns : Owns YPipe.Good p'.handles p'.heap p'.fresh) : Inv p' := by
  have hacked : p'.acked x.other = p.acked x.other := by
    simp only [acked, hpipe, hdead]
  refine ⟨(Side.forall_iff x).2 ⟨?_, ?_⟩, (Side.forall_iff x).2 ⟨hout, ?_⟩, hlast, howns⟩
  · rw [Linked, hpipe, hdead]
    exact hfrom
  · rw [Linked, Side.other_other, hpipe, hacked]
    exact hto
  · rw [hpipe, hacked]
    exact hI.out x.other

theorem handles_other_eq (hI : Inv p) (hpipe : p'.pipe x.other = p.pipe x.other)
    (hdead : p'.dead x.other = p.dead x.other)
    (hhic : hiccups (p'.inbox x) = hiccups (p.inbox x))
    (hout : (p'.pipe x).outpipe = (p.pipe x).outpipe ∨
      ((p'.pipe x).outpipe = none ∧ p.dead x.other = false ∧ hiccups (p.inbox x) = [])) :
    p'.handles x.other = p.handles x.other := by
  grind [handles, Side.other_other, hI.handles_settled, chain]

theorem handles_self_eq (hpipe : p'.pipe x.other = p.pipe x.other)
    (hdead : p'.dead x = p.dead x) (hinp : (p'.pipe x).inpipe = (p.pipe x).inpipe)
    (hhic : hiccups (p'.inbox x.other) = hiccups (p.inbox x.other)) :
    p'.handles x = p.handles x := by
  simp only [handles, hpipe, hdead, hinp, hhic]

theorem moved (hI : Inv p) (halive : p.dead x = false) (cmds : List Command)
    (hpipe : p'.pipe x.other = p.pipe x.other) (hdead : p'.dead = p.dead)
    (hsent : p'.inbox x.other = p.inbox x.other ++ cmds)
    (hfresh : p'.fresh = p.fresh)
    (hann : Announces (p.pipe x).state.sentTerm (p.pipe x).state.sentAck
      (p'.pipe x).state.sentTerm (p'.pipe x).state.sentAck cmds)
    (hnone : hiccups cmds = [])
    (hto : Link (p.pipe x.other).state.sentTerm (p.acked x.other) (p'.pipe x).state.gotTerm
      (p.dead x) (p'.inbox x))
    (hhic : hiccups (p'.inbox x) = hiccups (p.inbox x))
    (hin : (p'.pipe x).inpipe = (p.pipe x).inpipe) (hkeeps : Pipe.Keeps (p.pipe x) (p'.pipe x))
    (howns : Owns YPipe.Good p.handles p'.heap p.fresh) : Inv p' := by
  have hack := acked_alive halive
  have hack' : p'.acked x = (p'.pipe x).state.sentAck := acked_alive (by rw [hdead, halive])
  have hfrom := hI.link_from x
  rw [hack] at hfrom
  have hhandles : p'.handles = p.handles := by
    funext y
    revert y
    refine (Side.forall_iff x).2 ⟨handles_self_eq hpipe (by rw [hdead]) hin ?_,
      hI.handles_other_eq hpipe (by rw [hdead]) hhic ?_⟩
    · rw [hsent, hiccups_append, hnone, List.append_nil]
    · rcases hkeeps with ⟨hout, -⟩ | ⟨hout, hold, hnew⟩
      · exact Or.inl hout
      · grind [hI.peer_alive, hto.hiccups_of_got, PipeState.gotTerm_of_sentAck]
  refine hI.next x hpipe (by rw [hdead]) ?_ (by rw [hdead]; exact hto) ?_ ?_ ?_
  · rw [hack', hsent]
    exact hfrom.send hann fun _ => hnone
  · rw [hack']
    rcases hkeeps with ⟨hout, hsame⟩ | ⟨hout, -, hnew⟩
    · rw [hout, hsame, ← hack]
      exact hI.out x
    · simp [hout, hnew]
  · rw [hdead, hhandles]
    refine (Side.forall_iff x).2 ⟨?_, ?_⟩
    · rw [hin]
      exact hI.last x
    · rw [hpipe]
      exact hI.last x.other
  · rw [hhandles, hfresh]
    exact howns

theorem owns_store {own : Side → List Nat} (H : Owns YPipe.Good own p.heap p.fresh)
    (hlive : ∀ h', h = some h' → p.heap h' ≠ none)
    (hgood : ∀ q', q = some q' → q'.Good) :
    Owns YPipe.Good own (p.store h q).heap p.fresh := by
  cases h with
  | none => exact H
  | some h =>
    cases q with
    | none => exact H
    | some q =>
      obtain ⟨b, hb⟩ := Option.ne_none_iff_exists'.1 (hlive h rfl)
      exact H.store hb (hgood q rfl)

theorem store_live {a : Nat} (ha : p.heap a ≠ none) : (p.store h q).heap a ≠ none := by
  cases h with
  | none => exact ha
  | some h =>
    cases q with
    | none => exact ha
    | some q =>
      simp only [store]
      grind

theorem called (hI : Inv p) (halive : p.dead x = false) {inq : UPipe}
    {outq : Option UPipe} {ends : Bool}
    (hinq : p.heap i = some inq) (houtq : (p.pipe x).outpipe.bind p.heap = outq)
    (hcalls : Pipe.Calls (p.pipe x) inq outq ends pipe inq' outq' cmds) :
    Inv (p.afterCall x i inq' outq' pipe cmds asked) := by
  have howns : Owns YPipe.Good p.handles
      ((p.store (some i) (some inq')).store (p.pipe x).outpipe outq').heap p.fresh := by
    have h1 : Owns YPipe.Good p.handles (p.store (some i) (some inq')).heap
        (p.store (some i) (some inq')).fresh := by
      rw [store_fresh]
      refine owns_store hI.owns (fun h' hh => ?_) (fun q hq => ?_)
      · rw [← Option.some.inj hh, hinq]
        simp
      · rw [← Option.some.inj hq]
        exact hcalls.in_good (hI.owns.good i inq hinq)
    refine owns_store h1 (fun o ho => store_live ?_) (hcalls.out_good fun q hq => ?_)
    · exact (hI.owns.live o).2 ⟨x.other, (hI.outq ho).1⟩
    · rw [← houtq, Option.bind_eq_some_iff] at hq
      obtain ⟨o, -, hq⟩ := hq
      exact hI.owns.good o q hq
  refine hI.moved halive cmds ?_ ?_ ?_ ?_ ?_ hcalls.hiccups_eq ?_ ?_ ?_ ?_ howns
  · simp
  · simp
  · simp
  · simp
  · simpa using hcalls.announces
  · simpa [hcalls.gotTerm_eq] using hI.link_to x
  · simp
  · simpa using hcalls.inpipe_eq
  · simpa using hcalls.keeps

theorem quiet (hI : Inv p)
    (hbox : p.inbox x = c :: rest) (hc : Activates [c]) (hstate : pipe.state = (p.pipe x).state)
    (hin : pipe.inpipe = (p.pipe x).inpipe) (hout : pipe.outpipe = (p.pipe x).outpipe) :
    Inv ({ p with inbox := Function.update p.inbox x rest }.after x pipe []) := by
  have hto := hI.link_to x
  rw [hbox] at hto
  have hne : c ≠ .pipeTerm ∧ c ≠ .pipeTermAck ∧ hiccups (c :: rest) = hiccups rest := by
    rcases hc c (by simp) with rfl | ⟨n, rfl⟩ <;> simp
  refine hI.moved hto.alive_of_cons [] ?_ ?_ ?_ ?_ ?_ rfl ?_ ?_ ?_ ?_ hI.owns
  · simp
  · simp
  · simp
  · simp
  · simpa [hstate] using activates_nil.announces (by simp)
  · simpa [hstate] using hto.pop hne.1 hne.2.1
  · simp [hbox, hne.2.2]
  · simpa using hin
  · exact Or.inl (by simp [hout, hstate])

theorem hears (hI : Inv p)
    (hbox : p.inbox x = .pipeTerm :: rest) (hhears : Pipe.Hears (p.pipe x) pipe cmds) :
    Inv ({ p with inbox := Function.update p.inbox x rest }.after x pipe cmds) := by
  have hto := hI.link_to x
  rw [hbox] at hto
  obtain ⟨-, -, hnil, hpop⟩ := hto.pop_term
  refine hI.moved hto.alive_of_cons cmds ?_ ?_ ?_ ?_ ?_ hhears.hiccups_eq ?_ ?_ ?_ ?_
    hI.owns
  · simp
  · simp
  · simp
  · simp
  · simpa using hhears.announces
  · simpa [hhears.gotTerm_eq] using hpop
  · simp [hbox]
  · simpa using hhears.inpipe_eq
  · simpa using hhears.keeps

theorem hiccup (hI : Inv p) (halive : p.dead x = false) (hs : (p.pipe x).state = .active) :
    Inv (p.hiccuped x) := by
  have hack : p.acked x = false := by
    simp [acked, halive, hs, PipeState.sentAck]
  -- the peer still writes: it could only have stopped after this end was terminated
  have hpeer : p.acked x.other = false := by
    cases hp : p.acked x.other with
    | false => rfl
    | true =>
      have := hI.closing_of_peer_acked halive hp
      simp [hs, PipeState.sentTerm, PipeState.sentAck] at this
  obtain ⟨o, hout⟩ := Option.ne_none_iff_exists'.1
    (fun hn => absurd ((hI.out x.other).1 hn) (by simp [hpeer]))
  have hself : (p.hiccuped x).handles x = p.handles x ++ [p.fresh] := by
    simp [handles, chain, hiccuped, hout]
  have hother : (p.hiccuped x).handles x.other = p.handles x.other := by
    simp [handles, hiccuped]
  have hhandles : (p.hiccuped x).handles = Function.update p.handles x (p.handles x ++ [p.fresh]) :=
    Side.eq_update hself hother
  refine hI.next x ?_ ?_ ?_ ?_ ?_ ((Side.forall_iff x).2 ⟨fun _ => ?_, ?_⟩) ?_
  · simp [hiccuped]
  · simp [hiccuped]
  · have hann : Announces (p.pipe x).state.sentTerm (p.acked x) (p.pipe x).state.sentTerm (p.acked x)
        [.hiccup p.fresh] := ⟨id, id, by simp, by simp, trivial, by simp [hack]⟩
    have hsend := (hI.link_from x).send hann (by simp [hs, PipeState.sentTerm])
    simpa [hiccuped, acked] using hsend
  · simpa [hiccuped] using hI.link_to x
  · simpa [hiccuped, acked] using hI.out x
  · exact ⟨p.fresh, by simp [hiccuped], by rw [hself]; simp⟩
  · rw [hother]
    simpa [hiccuped] using hI.last x.other
  · rw [hhandles]
    exact hI.owns.alloc x YPipe.good_init

theorem replace (hI : Inv p) {h : Nat}
    (hbox : p.inbox x = .hiccup h :: rest) (hout : (p.pipe x).outpipe = some o) :
    Inv (p.replaced x rest o h) := by
  have hto := hI.link_to x
  rw [hbox] at hto
  have hold : p.handles x.other = o :: h :: hiccups rest := by
    simp [handles, chain, hout, hbox]
  have hself : (p.replaced x rest o h).handles x = p.handles x := by
    simp [handles, replaced]
  have hother : (p.replaced x rest o h).handles x.other = h :: hiccups rest := by
    simp [handles, chain, replaced]
  have hhandles : (p.replaced x rest o h).handles =
      Function.update p.handles x.other (h :: hiccups rest) :=
    Side.eq_update hother (by rw [Side.other_other]; exact hself)
  have hack : (p.replaced x rest o h).acked x = p.acked x := by
    simp [acked, replaced]
  refine hI.next x ?_ ?_ ?_ ?_ ?_ ((Side.forall_iff x).2 ⟨?_, ?_⟩) ?_
  · simp [replaced]
  · simp [replaced]
  · rw [hack]
    simpa [replaced] using hI.link_from x
  · simpa [replaced] using hto.pop (by simp) (by simp)
  · rw [hack, ← hI.out x]
    simp [replaced, hout]
  · rw [hself]
    simpa [replaced] using hI.last x
  · have hlast := hI.last x.other
    rw [hold, List.getLast?_cons_cons] at hlast
    rw [hother]
    simpa [replaced] using hlast
  · rw [hhandles]
    exact hI.owns.free hold

theorem leaves (hI : Inv p)
    (hbox : p.inbox x = .pipeTermAck :: rest) (hin : (p.pipe x).inpipe = some i)
    (hleaves : Pipe.Leaves (p.pipe x) pipe cmds) :
    Inv (p.departed x rest i pipe cmds) := by
  have hto := hI.link_to x
  rw [hbox] at hto
  have halive := hto.alive_of_cons
  obtain ⟨hpeer, hnil, hpop⟩ := hto.pop_ack
  have hack := acked_alive halive
  -- the peer has detached, so the inbound pipe is this end's own
  have hold : p.handles x = [i] := by
    simp [handles, chain, (hI.out x.other).2 hpeer, halive, hin]
  have hstate : pipe.state = (p.pipe x).state := by
    cases hleaves <;> rfl
  have hnone : hiccups cmds = [] := by
    cases hleaves <;> rfl
  have hannounce : Announces (p.pipe x).state.sentTerm (p.acked x) pipe.state.sentTerm true cmds := by
    rw [hack]
    cases hleaves with
    | quietly hs => rcases hs with hs | hs <;> rw [hs] <;> exact activates_nil.announces (by simp)
    | acking hs =>
      show Announces _ _ (p.pipe x).state.sentTerm _ _
      rw [hs]
      exact announces_ack true
  have hpipe : pipe.outpipe = none := by
    cases hleaves with
    | quietly hs =>
      rw [hI.out x, hack]
      rcases hs with hs | hs <;> rw [hs] <;> rfl
    | acking hs => rfl
  have hself : (p.departed x rest i pipe cmds).handles x = [] := by
    simp [handles, chain, departed, (hI.out x.other).2 hpeer]
  have hother : (p.departed x rest i pipe cmds).handles x.other = p.handles x.other := by
    refine hI.handles_other_eq ?_ ?_ ?_ ?_
    · simp [departed]
    · simp [departed]
    · simp [departed, hbox]
    · cases hleaves with
      | quietly hs => exact Or.inl (by simp [departed])
      | acking hs =>
        refine Or.inr ⟨by simp [departed], hI.peer_alive ?_, by simp [hbox, hnil]⟩
        rw [hack, hs]
        rfl
  have hhandles : (p.departed x rest i pipe cmds).handles = Function.update p.handles x [] :=
    Side.eq_update hself hother
  refine hI.next x ?_ ?_ ?_ ?_ ?_ ((Side.forall_iff x).2 ⟨?_, ?_⟩) ?_
  · simp [departed]
  · simp [departed]
  · simpa [departed, acked] using (hI.link_from x).send hannounce fun _ => hnone
  · simpa [departed, hstate] using hpop
  · simp [departed, acked, hpipe]
  · simp [departed]
  · rw [hother]
    simpa [departed] using hI.last x.other
  · rw [hhandles]
    exact hI.owns.free hold

theorem effect (hI : Inv p) (h : Effect p op p') : Inv p' := by
  cases h with
  | idle => exact hI
  | called halive hin hinq houtq hcalls _ => exact hI.called halive hinq houtq hcalls
  | hiccup halive hs => exact hI.hiccup halive hs
  | @activateRead x rest hbox =>
    obtain ⟨b, hb⟩ := (p.pipe x).processActivateRead_eq
    rw [hb]
    exact hI.quiet hbox (by simp [Activates]) rfl rfl rfl
  | @activateWrite x n rest hbox =>
    obtain ⟨b, hb⟩ := (p.pipe x).processActivateWrite_eq n
    rw [hb]
    exact hI.quiet hbox (by simp [Activates]) rfl rfl rfl
  | replace hbox hout => exact hI.replace hbox hout
  | pipeTerm hbox hhears => exact hI.hears hbox hhears
  | pipeTermAck hbox hin hleaves => exact hI.leaves hbox hin hleaves

/-! ## What the ends read from -/

theorem reading_self (hI : Inv p) (halive : p.dead x = false)
    (hin : (p.pipe x).inpipe = some i) (hpipe : pipe.inpipe = (p.pipe x).inpipe) :
    (p.afterCall x i inq' outq' pipe cmds asked).reading x = some inq' := by
  simp only [reading, afterCall, after_pipe_self, hpipe, hin, Option.bind_some, after_heap]
  cases hout : (p.pipe x).outpipe with
  | none => simp [store]
  | some o =>
    have hne := hI.in_ne_out halive hin hout
    cases outq' with
    | none => simp [store]
    | some q => simp [store, hne]

theorem reading_fed {q : UPipe} (hin' : (p.pipe x.other).inpipe ≠ none)
    (hsame : (p.pipe x).outpipe = (p.pipe x.other).inpipe) :
    (p.afterCall x i inq' (some q) pipe cmds asked).reading x.other = some q := by
  obtain ⟨j, hj⟩ := Option.ne_none_iff_exists'.1 hin'
  simp [reading, afterCall, store, hsame, hj]

theorem reading_unfed (hI : Inv p) (halive : p.dead x = false) (halive' : p.dead x.other = false)
    (hin : (p.pipe x).inpipe = some i)
    (hne : (p.pipe x).outpipe ≠ (p.pipe x.other).inpipe) :
    (p.afterCall x i inq' outq' pipe cmds asked).reading x.other = p.reading x.other := by
  obtain ⟨j, -, hj, -⟩ := hI.inq halive'
  have hji := hI.in_ne_in halive halive' hin hj
  rw [hj] at hne
  simp only [reading, afterCall, after_pipe_other, store_pipe, hj, Option.bind_some, after_heap]
  cases hout : (p.pipe x).outpipe with
  | none => simp [store, hji]
  | some o =>
    have hjo : j ≠ o := fun he => hne (by rw [hout, he])
    cases outq' with
    | none => simp [store, hji]
    | some q => simp [store, hji, hjo]

/-! ## Every step succeeds -/

structure Ready (pipe : Pipe) (outq : Option UPipe) : Prop where
  good : ∀ q, outq = some q → q.Good
  null : outq = none ↔ pipe.outpipe = none
  attached : pipe.state = .active ∨ pipe.state = .delimited ∨ pipe.state = .pending →
    pipe.outpipe ≠ none

theorem ready (hI : Inv p) (halive : p.dead x = false) :
    Ready (p.pipe x) ((p.pipe x).outpipe.bind p.heap) := by
  refine ⟨fun q hq => ?_, ?_, fun hs hn => ?_⟩
  · obtain ⟨o, -, hq⟩ := Option.bind_eq_some_iff.1 hq
    exact hI.owns.good o q hq
  · cases hout : (p.pipe x).outpipe with
    | none => simp
    | some o =>
      obtain ⟨-, q, hq, -⟩ := hI.outq hout
      simp [hq]
  · grind [hI.out, acked_alive, PipeState.sentAck]

theorem derefOut_eq (hI : Inv p) :
    p.derefOut (p.pipe x).outpipe = .ok ((p.pipe x).outpipe.bind p.heap) := by
  cases hout : (p.pipe x).outpipe with
  | none => rfl
  | some o =>
    obtain ⟨-, q, hq, -⟩ := hI.outq hout
    simp [derefOut, hq]

theorem inbound_ok (hI : Inv p) (halive : p.dead x = false) {inq : UPipe}
    {method : Pipe → UPipe → Except Fault (Pipe × UPipe × List Command)}
    (hin : (p.pipe x).inpipe = some i) (hinq : p.heap i = some inq)
    (hm : method (p.pipe x) inq = .ok (pipe, inq', cmds)) :
    p.inbound x method =
      .ok (p.afterCall x i inq' ((p.pipe x).outpipe.bind p.heap) pipe cmds p.asked) := by
  have hback : (p.store (some i) (some inq')).store (p.pipe x).outpipe
      ((p.pipe x).outpipe.bind p.heap) = p.store (some i) (some inq') := by
    cases hout : (p.pipe x).outpipe with
    | none => rfl
    | some o =>
      obtain ⟨-, q, hq, -⟩ := hI.outq hout
      have hne := hI.in_ne_out halive hin hout
      rw [Option.bind_some, hq]
      refine store_same ?_
      simp only [store]
      rw [Function.update_of_ne (Ne.symm hne), hq]
  unfold inbound
  rw [afterCall, hback]
  simp only [halive, Bool.false_eq_true, if_false, deref, hin, hinq, hm]
  rfl

theorem outbound_ok (hI : Inv p) (halive : p.dead x = false) (asked : Side → Bool) {inq : UPipe}
    {method : Pipe → Option UPipe → Except Fault (Pipe × Option UPipe × List Command)}
    (hinq : p.heap i = some inq)
    (hm : method (p.pipe x) ((p.pipe x).outpipe.bind p.heap) = .ok (pipe, outq', cmds)) :
    { p with asked := asked }.outbound x method =
      .ok (p.afterCall x i inq outq' pipe cmds asked) := by
  have hderef : { p with asked := asked }.derefOut (p.pipe x).outpipe =
      .ok ((p.pipe x).outpipe.bind p.heap) := hI.derefOut_eq
  unfold outbound
  rw [afterCall, store_same hinq]
  simp only [halive, Bool.false_eq_true, if_false, hderef, hm]
  cases (p.pipe x).outpipe <;> cases outq' <;> rfl

theorem inbound_effect (hI : Inv p)
    {method : Pipe → UPipe → Except Fault (Pipe × UPipe × List Command)}
    (hmethod : ∀ inq outq, inq.Good → ∃ pipe inq' cmds,
      method (p.pipe x) inq = .ok (pipe, inq', cmds) ∧
        Pipe.Calls (p.pipe x) inq outq false pipe inq' outq cmds) :
    ∃ p', p.inbound x method = .ok p' ∧ Effect p op p' := by
  cases halive : p.dead x with
  | true => exact ⟨p, by simp [inbound, halive], .idle⟩
  | false =>
    obtain ⟨i, inq, hin, -, hinq, hgood⟩ := hI.inq halive
    obtain ⟨pipe, inq', cmds, hm, hcalls⟩ :=
      hmethod inq ((p.pipe x).outpipe.bind p.heap) hgood
    exact ⟨_, hI.inbound_ok halive hin hinq hm, .called halive hin hinq rfl hcalls (by simp)⟩

theorem outbound_effect (hI : Inv p) (halive : p.dead x = false) (ends : Bool)
    {method : Pipe → Option UPipe → Except Fault (Pipe × Option UPipe × List Command)}
    (hmethod : ∀ inq outq, Ready (p.pipe x) outq → ∃ pipe outq' cmds,
      method (p.pipe x) outq = .ok (pipe, outq', cmds) ∧
        Pipe.Calls (p.pipe x) inq outq ends pipe inq outq' cmds)
    (hop : ends = true → ∃ delay, op = .terminate x delay) :
    ∃ p', { p with asked := if ends then Function.update p.asked x true else p.asked }.outbound x
      method = .ok p' ∧ Effect p op p' := by
  obtain ⟨i, inq, hin, -, hinq, -⟩ := hI.inq halive
  obtain ⟨pipe, outq', cmds, hm, hcalls⟩ := hmethod inq _ (hI.ready halive)
  exact ⟨_, hI.outbound_ok halive _ hinq hm, .called halive hin hinq rfl hcalls hop⟩

theorem call_effect (hI : Inv p)
    {method : Pipe → Option UPipe → Except Fault (Pipe × Option UPipe × List Command)}
    (hmethod : ∀ inq outq, Ready (p.pipe x) outq → ∃ pipe outq' cmds,
      method (p.pipe x) outq = .ok (pipe, outq', cmds) ∧
        Pipe.Calls (p.pipe x) inq outq false pipe inq outq' cmds) :
    ∃ p', p.outbound x method = .ok p' ∧ Effect p op p' := by
  cases halive : p.dead x with
  | true => exact ⟨p, by simp [outbound, halive], .idle⟩
  | false => exact hI.outbound_effect halive false hmethod (by simp)

theorem terminate_effect (hI : Inv p) (delay : Bool) :
    ∃ p', p.terminate x delay = .ok p' ∧ Effect p (.terminate x delay) p' := by
  unfold PipePair.terminate
  cases halive : p.dead x with
  | true => exact ⟨p, rfl, .idle⟩
  | false =>
    rw [if_neg (by simp)]
    refine hI.outbound_effect halive true (fun inq outq hready => ?_) fun _ => ⟨delay, rfl⟩
    exact Pipe.terminate_calls inq delay hready.good hready.null hready.attached

theorem hiccup_effect : ∃ p', p.hiccup x = .ok p' ∧ Effect p (.hiccup x) p' := by
  unfold PipePair.hiccup
  cases halive : p.dead x with
  | true => exact ⟨p, rfl, .idle⟩
  | false =>
    by_cases hs : (p.pipe x).state = .active
    · refine ⟨p.hiccuped x, ?_, .hiccup halive hs⟩
      rw [if_neg (by simp), if_neg (by simpa using hs)]
      simp only [Pipe.hiccup, if_pos hs]
      rfl
    · exact ⟨p, by simp [hs], .idle⟩

theorem process_processes (hI : Inv p) : ∃ p', p.process x = .ok p' ∧ Processes p x p' := by
  unfold PipePair.process
  cases hbox : p.inbox x with
  | nil => exact ⟨p, rfl, .idle⟩
  | cons cmd rest =>
    have hto := hI.link_to x
    rw [hbox] at hto
    have halive := hto.alive_of_cons
    simp only [halive, Bool.false_eq_true, if_false]
    cases cmd with
    | activateRead => exact ⟨_, rfl, .activateRead hbox⟩
    | activateWrite n => exact ⟨_, rfl, .activateWrite hbox⟩
    | hiccup h =>
      have hgot : (p.pipe x).state.gotTerm = false := by
        cases hg : (p.pipe x).state.gotTerm with
        | false => rfl
        | true => exact absurd (hto.hiccups_of_got hg) (by simp)
      have hack : p.acked x = false := by grind [acked_alive, PipeState.gotTerm_of_sentAck]
      obtain ⟨o, hout⟩ := Option.ne_none_iff_exists'.1
        (fun hn => absurd ((hI.out x).1 hn) (by simp [hack]))
      obtain ⟨-, q, hq, -⟩ := hI.outq hout
      refine ⟨p.replaced x rest o h, ?_, .replace hbox hout⟩
      simp only [deliver, PipePair.processHiccup, Pipe.processHiccup, hout, deref, hq, release]
      rfl
    | pipeTerm =>
      obtain ⟨hgot, -, -, -⟩ := hto.pop_term
      have hs : (p.pipe x).state = .active ∨ (p.pipe x).state = .delimited ∨
          (p.pipe x).state = .terminated := by
        cases hs : (p.pipe x).state <;> simp_all [PipeState.gotTerm]
      obtain ⟨pipe, cmds, hterm, hhears⟩ := Pipe.processPipeTerm_hears hs
      refine ⟨_, ?_, .pipeTerm hbox hhears⟩
      simp only [deliver, hterm]
    | pipeTermAck =>
      obtain ⟨hpeer, -, -⟩ := hto.pop_ack
      have hs : (p.pipe x).state = .terminating ∨ (p.pipe x).state = .doubleTerminated ∨
          (p.pipe x).state = .terminated := by
        rcases hI.closing_of_peer_acked halive hpeer with h | h <;>
          cases hs : (p.pipe x).state <;> simp_all [PipeState.sentTerm, PipeState.sentAck]
      obtain ⟨pipe, cmds, hack, hleaves⟩ := Pipe.processPipeTermAck_leaves hs
      obtain ⟨i, q, hin, -, hq, -⟩ := hI.inq halive
      refine ⟨p.departed x rest i pipe cmds, ?_, .pipeTermAck hbox hin hleaves⟩
      simp only [deliver, PipePair.processPipeTermAck, hack, hin, deref, hq, release]
      rfl

theorem step_effect (hI : Inv p) (op : PairOp) : ∃ p', p.step op = .ok p' ∧ Effect p op p' := by
  cases op with
  | write x flags data =>
    simp only [PipePair.step, PipePair.write]
    refine hI.call_effect fun inq outq hready => ?_
    obtain ⟨b, pipe, outq', hm, hcalls⟩ := Pipe.write_calls inq
      (rfl : Msg.isDelimiter ⟨false, flags, data⟩ = false)
      fun hs => mt hready.null.1 (hready.attached (Or.inl hs))
    exact ⟨pipe, outq', [], by simp only [hm], hcalls⟩
  | checkWrite x =>
    simp only [PipePair.step, PipePair.checkWrite]
    exact hI.call_effect fun inq outq _ => ⟨_, outq, [], rfl, Pipe.checkWrite_calls⟩
  | flush x =>
    simp only [PipePair.step, PipePair.flush]
    exact hI.call_effect fun inq outq _ => ⟨_, _, _, rfl, Pipe.flush_calls⟩
  | rollback x =>
    simp only [PipePair.step, PipePair.rollback]
    refine hI.call_effect fun inq outq hready => ?_
    obtain ⟨outq', hm, hcalls⟩ := Pipe.rollback_calls (p.pipe x) inq hready.good
    exact ⟨_, outq', [], by simp only [hm], hcalls⟩
  | read x =>
    simp only [PipePair.step, PipePair.read]
    refine hI.inbound_effect fun inq outq hgood => ?_
    obtain ⟨msg, pipe, inq', cmds, hm, hcalls⟩ := Pipe.read_calls outq hgood
    exact ⟨pipe, inq', cmds, by simp only [hm], hcalls⟩
  | checkRead x =>
    simp only [PipePair.step, PipePair.checkRead]
    refine hI.inbound_effect fun inq outq hgood => ?_
    obtain ⟨b, pipe, inq', cmds, hm, hcalls⟩ := Pipe.checkRead_calls outq hgood
    exact ⟨pipe, inq', cmds, by simp only [hm], hcalls⟩
  | terminate x delay => exact hI.terminate_effect delay
  | hiccup x => exact hiccup_effect
  | process x =>
    obtain ⟨p', hp', hprocesses⟩ := hI.process_processes
    exact ⟨p', hp', hprocesses.effect⟩

end Inv

theorem step_safe (op : PairOp) (hI : Inv p) : ∃ p', p.step op = .ok p' ∧ Inv p' := by
  obtain ⟨p', hstep, heffect⟩ := hI.step_effect op
  exact ⟨p', hstep, hI.effect heffect⟩

/-- **Safety of the termination handshake.** -/
theorem pair_never_faults (hwms : Side → Nat) (delays : Side → Bool) (ops : List PairOp) :
    ∃ p, run step (init hwms delays) ops = .ok p := by
  obtain ⟨p, hrun, -⟩ := run_safe (fun p op => step_safe op) ops _ (inv_init hwms delays)
  exact ⟨p, hrun⟩

/-- **Nothing leaks.** Once both ends are deallocated, no pipe is left with messages in it. -/
theorem no_pipe_left {hwms : Side → Nat} {delays : Side → Bool} {ops : List PairOp}
    (hrun : run step (init hwms delays) ops = .ok p) (hdead : ∀ x, p.dead x = true) (h : Nat) :
    p.heap h = none := by
  obtain ⟨p', hrun', hI⟩ := run_safe (fun p op => step_safe op) ops _ (inv_init hwms delays)
  rw [hrun, Except.ok.injEq] at hrun'
  subst hrun'
  by_contra hlive
  obtain ⟨x, hx⟩ := (hI.owns.live h).1 hlive
  have hout : (p.pipe x.other).outpipe = none := by
    rw [hI.out x.other]
    simp [acked, hdead]
  simp [handles, chain, hout, hdead] at hx

def hiccupAndLeave : List PairOp :=
  [.write .left 0 [1], .hiccup .right, .process .left, .terminate .left true, .process .right,
    .read .right, .process .left, .process .right]

theorem no_pipe_left_hiccup :
    ∃ p, run step (init (fun _ => 0) fun _ => true) hiccupAndLeave = .ok p ∧
      ∀ h, p.heap h = none := by
  have hrun : run step (init (fun _ => 0) fun _ => true) hiccupAndLeave = .ok _ := rfl
  exact ⟨_, hrun, no_pipe_left hrun fun x => by cases x <;> rfl⟩

end PipePair

end Libxs
