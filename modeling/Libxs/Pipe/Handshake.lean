import Libxs.Pipe.Calls

/-! # The commands between two ends -/

namespace Libxs

namespace PipeState

def sentTerm : PipeState → Bool
  | terminated | doubleTerminated => true
  | _ => false

def sentAck : PipeState → Bool
  | terminating | doubleTerminated => true
  | _ => false

def gotTerm : PipeState → Bool
  | pending | terminating | doubleTerminated => true
  | _ => false

theorem gotTerm_of_sentAck {s : PipeState} (h : s.sentAck = true) : s.gotTerm = true := by
  cases s <;> first | rfl | exact absurd h (by simp [sentAck])

end PipeState

/-! ## Queues of commands -/

def hiccups (q : List Command) : List Nat :=
  q.filterMap fun
    | .hiccup pipe => some pipe
    | _ => none

@[simp] theorem hiccups_nil : hiccups [] = [] := rfl

@[simp] theorem hiccups_append (q cs : List Command) :
    hiccups (q ++ cs) = hiccups q ++ hiccups cs := by
  simp [hiccups]

@[simp] theorem hiccups_hiccup (pipe : Nat) (q : List Command) :
    hiccups (.hiccup pipe :: q) = pipe :: hiccups q := by
  simp [hiccups]

@[simp] theorem hiccups_activateRead (q : List Command) :
    hiccups (.activateRead :: q) = hiccups q := by
  simp [hiccups]

@[simp] theorem hiccups_activateWrite (n : Nat) (q : List Command) :
    hiccups (.activateWrite n :: q) = hiccups q := by
  simp [hiccups]

@[simp] theorem hiccups_pipeTerm (q : List Command) : hiccups (.pipeTerm :: q) = hiccups q := by
  simp [hiccups]

@[simp] theorem hiccups_pipeTermAck (q : List Command) :
    hiccups (.pipeTermAck :: q) = hiccups q := by
  simp [hiccups]

def Ordered : List Command → Prop
  | [] => True
  | .pipeTerm :: q => hiccups q = [] ∧ Ordered q
  | .pipeTermAck :: q => q = []
  | _ :: q => Ordered q

theorem Ordered.tail {c : Command} {q : List Command} (h : Ordered (c :: q)) : Ordered q := by
  cases c with
  | pipeTerm => exact h.2
  | pipeTermAck =>
    have hq : q = [] := h
    rw [hq]
    exact trivial
  | activateRead => exact h
  | activateWrite _ => exact h
  | hiccup _ => exact h

theorem Ordered.append {q cs : List Command} (h : Ordered q) (hcs : Ordered cs)
    (hterm : .pipeTerm ∈ q → hiccups cs = []) (hack : .pipeTermAck ∈ q → cs = []) :
    Ordered (q ++ cs) := by
  induction q with
  | nil => exact hcs
  | cons c q ih =>
    have hrest : Ordered (q ++ cs) :=
      ih h.tail (fun hm => hterm (List.mem_cons_of_mem _ hm))
        (fun hm => hack (List.mem_cons_of_mem _ hm))
    cases c with
    | pipeTerm =>
      refine ⟨?_, hrest⟩
      show hiccups (q ++ cs) = []
      rw [hiccups_append, h.1, hterm (by simp)]
      rfl
    | pipeTermAck =>
      show q ++ cs = []
      rw [show q = [] from h, hack (by simp)]
      rfl
    | activateRead => exact hrest
    | activateWrite _ => exact hrest
    | hiccup _ => exact hrest

/-! ## Links -/

structure Announces (term ack term' ack' : Bool) (cs : List Command) : Prop where
  term_mono : term = true → term' = true
  ack_mono : ack = true → ack' = true
  terms : cs.count .pipeTerm = if term' && !term then 1 else 0
  acks : cs.count .pipeTermAck = if ack' && !ack then 1 else 0
  ordered : Ordered cs
  silent : ack = true → cs = []

structure Link (term ack got dead : Bool) (q : List Command) : Prop where
  terms : q.count .pipeTerm = if term && !got then 1 else 0
  acks : q.count .pipeTermAck = if ack && !dead then 1 else 0
  ordered : Ordered q
  term_of_got : got = true → term = true
  ack_of_dead : dead = true → ack = true
  nil_of_dead : dead = true → q = []
  hiccups_of_got : got = true → hiccups q = []

namespace Link

variable {term ack got dead term' ack' : Bool} {q cs : List Command}

theorem send (h : Link term ack got dead q) (hs : Announces term ack term' ack' cs)
    (hh : term = true → hiccups cs = []) : Link term' ack' got dead (q ++ cs) := by
  refine ⟨?_, ?_, ?_, fun hg => hs.term_mono (h.term_of_got hg),
    fun hd => hs.ack_mono (h.ack_of_dead hd), fun hd => ?_, fun hg => ?_⟩
  · rw [List.count_append, h.terms, hs.terms]
    have h1 := h.term_of_got
    have h2 := hs.term_mono
    cases term <;> cases got <;> cases term' <;> simp_all
  · rw [List.count_append, h.acks, hs.acks]
    have h1 := h.ack_of_dead
    have h2 := hs.ack_mono
    cases ack <;> cases dead <;> cases ack' <;> simp_all
  · refine h.ordered.append hs.ordered (fun hm => hh ?_) (fun hm => hs.silent ?_)
    · have hpos := List.count_pos_iff.2 hm
      rw [h.terms] at hpos
      cases term <;> simp_all
    · have hpos := List.count_pos_iff.2 hm
      rw [h.acks] at hpos
      cases ack <;> simp_all
  · rw [h.nil_of_dead hd, hs.silent (h.ack_of_dead hd)]
    rfl
  · rw [hiccups_append, h.hiccups_of_got hg, hh (h.term_of_got hg)]
    rfl

theorem alive_of_cons {c : Command} (h : Link term ack got dead (c :: q)) : dead = false := by
  cases hd : dead with
  | false => rfl
  | true => exact absurd (h.nil_of_dead hd) (by simp)

theorem pop {c : Command} (h : Link term ack got dead (c :: q)) (h1 : c ≠ .pipeTerm)
    (h2 : c ≠ .pipeTermAck) : Link term ack got dead q := by
  have hd := h.alive_of_cons
  refine ⟨?_, ?_, h.ordered.tail, h.term_of_got, h.ack_of_dead, fun hd' => ?_, fun hg => ?_⟩
  · rw [← h.terms, List.count_cons_of_ne (fun he => h1 he)]
  · rw [← h.acks, List.count_cons_of_ne (fun he => h2 he)]
  · rw [hd] at hd'
    cases hd'
  · have hh := h.hiccups_of_got hg
    cases c <;> simp_all

theorem pop_term (h : Link term ack got dead (.pipeTerm :: q)) :
    got = false ∧ term = true ∧ hiccups q = [] ∧ Link term ack true dead q := by
  have hd := h.alive_of_cons
  have hcount := h.terms
  rw [List.count_cons_self] at hcount
  have hflags : got = false ∧ term = true := by
    cases term <;> cases got <;> simp_all
  obtain ⟨hgot, hterm⟩ := hflags
  refine ⟨hgot, hterm, h.ordered.1, ?_, ?_, h.ordered.2, fun _ => hterm, h.ack_of_dead, fun hd' => ?_,
    fun _ => h.ordered.1⟩
  · grind
  · rw [← h.acks, List.count_cons_of_ne (by simp)]
  · rw [hd] at hd'
    cases hd'

theorem pop_ack (h : Link term ack got dead (.pipeTermAck :: q)) :
    ack = true ∧ q = [] ∧ Link term ack got true q := by
  have hq : q = [] := h.ordered
  subst hq
  have hcount := h.acks
  have hack : ack = true := by
    cases ack <;> simp_all
  refine ⟨hack, rfl, ?_, ?_, trivial, h.term_of_got, fun _ => hack, fun _ => rfl, fun _ => rfl⟩
  · rw [← h.terms]
    rfl
  · simp

end Link

/-! ## What the methods say -/

def Activates (cs : List Command) : Prop :=
  ∀ c ∈ cs, c = .activateRead ∨ ∃ n, c = .activateWrite n

namespace Activates

variable {cs : List Command}

theorem ordered (h : Activates cs) : Ordered cs ∧ hiccups cs = [] := by
  induction cs with
  | nil => exact ⟨trivial, rfl⟩
  | cons c cs ih =>
    obtain ⟨h1, h2⟩ := ih fun c' hc' => h c' (List.mem_cons_of_mem _ hc')
    rcases h c (by simp) with rfl | ⟨n, rfl⟩
    · exact ⟨h1, by rwa [hiccups_activateRead]⟩
    · exact ⟨h1, by rwa [hiccups_activateWrite]⟩

theorem count (h : Activates cs) :
    cs.count .pipeTerm = 0 ∧ cs.count .pipeTermAck = 0 := by
  constructor <;> rw [List.count_eq_zero] <;> intro hm <;> rcases h _ hm with he | ⟨n, he⟩ <;>
    cases he

theorem announces (h : Activates cs) {term ack : Bool} (hsilent : ack = true → cs = []) :
    Announces term ack term ack cs :=
  ⟨id, id, by rw [h.count.1]; simp, by rw [h.count.2]; simp, h.ordered.1, hsilent⟩

theorem announces_term (h : Activates cs) : Announces false false true false (.pipeTerm :: cs) := by
  refine ⟨by simp, by simp, ?_, ?_, ⟨h.ordered.2, h.ordered.1⟩, by simp⟩
  · simp [h.count.1]
  · rw [List.count_cons_of_ne (by simp), h.count.2]
    rfl

end Activates

theorem announces_ack (term : Bool) : Announces term false term true [.pipeTermAck] :=
  ⟨id, by simp, by simp, by simp, rfl, by simp⟩

theorem activates_nil : Activates [] := by
  intro c hc
  cases hc

namespace Pipe

variable {p : Pipe}

theorem activates_wake (b : Bool) : Activates (wake b) := by
  cases b <;> simp [wake, Activates]

theorem activates_credit (p : Pipe) : Activates p.credit := by
  unfold credit
  split <;> simp [Activates]

@[simp] theorem took_state (p : Pipe) (m : Msg) : (p.took m).state = p.state := by
  unfold took; split <;> rfl

@[simp] theorem took_inpipe (p : Pipe) (m : Msg) : (p.took m).inpipe = p.inpipe := by
  unfold took; split <;> rfl

@[simp] theorem took_outpipe (p : Pipe) (m : Msg) : (p.took m).outpipe = p.outpipe := by
  unfold took; split <;> rfl

@[simp] theorem wrote_state (p : Pipe) (m : Msg) : (p.wrote m).state = p.state := by
  unfold wrote; split <;> rfl

@[simp] theorem wrote_inpipe (p : Pipe) (m : Msg) : (p.wrote m).inpipe = p.inpipe := by
  unfold wrote; split <;> rfl

@[simp] theorem wrote_outpipe (p : Pipe) (m : Msg) : (p.wrote m).outpipe = p.outpipe := by
  unfold wrote; split <;> rfl

def Keeps (p p' : Pipe) : Prop :=
  (p'.outpipe = p.outpipe ∧ p'.state.sentAck = p.state.sentAck) ∨
    (p'.outpipe = none ∧ p.state.sentAck = false ∧ p'.state.sentAck = true)

theorem reads_iff : p.reads = true ↔ p.state = .active ∨ p.state = .pending := by
  simp [reads]

variable {inq inq' : UPipe} {outq outq' : Option UPipe} {p' : Pipe} {cmds : List Command}
  {ends : Bool}

theorem Calls.announces (h : Calls p inq outq ends p' inq' outq' cmds) :
    Announces p.state.sentTerm p.state.sentAck p'.state.sentTerm p'.state.sentAck cmds := by
  cases h with
  | take hreads =>
    rw [took_state]
    refine (activates_credit _).announces fun hack => ?_
    rcases reads_iff.1 hreads with hs | hs <;> simp [hs, PipeState.sentAck] at hack
  | write =>
    rw [wrote_state]
    exact activates_nil.announces (by simp)
  | flush hq hs =>
    refine (activates_wake _).announces fun hack => ?_
    rcases hs with hs | hs | hs <;> simp [hs, PipeState.sentAck] at hack
  | linger hq hs =>
    refine (activates_wake _).announces fun hack => ?_
    simp [hs, PipeState.sentAck] at hack
  | close delay hq hs =>
    rcases hs with hs | hs <;> rw [hs] <;> exact (activates_wake _).announces_term
  | finish hs =>
    rw [hs]
    exact announces_ack false
  | giveUp hs =>
    rw [hs]
    exact announces_ack false
  | delimit hs =>
    rw [hs]
    exact activates_nil.announces (by simp)
  | _ => exact activates_nil.announces (by simp)

theorem Calls.hiccups_eq (h : Calls p inq outq ends p' inq' outq' cmds) : hiccups cmds = [] := by
  cases h with
  | take => exact (activates_credit _).ordered.2
  | flush => exact (activates_wake _).ordered.2
  | linger => exact (activates_wake _).ordered.2
  | close =>
    rw [hiccups_pipeTerm]
    exact (activates_wake _).ordered.2
  | _ => rfl

theorem Calls.gotTerm_eq (h : Calls p inq outq ends p' inq' outq' cmds) :
    p'.state.gotTerm = p.state.gotTerm := by
  cases h with
  | take => rw [took_state]
  | write => rw [wrote_state]
  | delimit hs => rw [hs]; rfl
  | finish hs => rw [hs]; rfl
  | giveUp hs => rw [hs]; rfl
  | close delay hq hs => rcases hs with hs | hs <;> rw [hs] <;> rfl
  | _ => rfl

theorem Calls.inpipe_eq (h : Calls p inq outq ends p' inq' outq' cmds) : p'.inpipe = p.inpipe := by
  cases h with
  | take => exact took_inpipe _ _
  | write => exact wrote_inpipe _ _
  | _ => rfl

theorem Calls.keeps (h : Calls p inq outq ends p' inq' outq' cmds) : Keeps p p' := by
  cases h with
  | take => exact Or.inl ⟨took_outpipe _ _, by rw [took_state]⟩
  | write => exact Or.inl ⟨wrote_outpipe _ _, by rw [wrote_state]⟩
  | delimit hs => exact Or.inl ⟨rfl, by rw [hs]; rfl⟩
  | close delay hq hs => exact Or.inl ⟨rfl, by rcases hs with hs | hs <;> rw [hs] <;> rfl⟩
  | finish hs => exact Or.inr ⟨rfl, by rw [hs]; rfl, rfl⟩
  | giveUp hs => exact Or.inr ⟨rfl, by rw [hs]; rfl, rfl⟩
  | _ => exact Or.inl ⟨rfl, rfl⟩

theorem Hears.announces (h : Hears p p' cmds) :
    Announces p.state.sentTerm p.state.sentAck p'.state.sentTerm p'.state.sentAck cmds := by
  cases h with
  | pend hs =>
    rw [hs]
    exact activates_nil.announces (by simp)
  | ack hs => rcases hs with ⟨hs, -⟩ | hs <;> rw [hs] <;> exact announces_ack false
  | cross hs =>
    rw [hs]
    exact announces_ack true

theorem Hears.hiccups_eq (h : Hears p p' cmds) : hiccups cmds = [] := by
  cases h <;> rfl

theorem Hears.gotTerm_eq (h : Hears p p' cmds) : p'.state.gotTerm = true := by
  cases h <;> rfl

theorem Hears.inpipe_eq (h : Hears p p' cmds) : p'.inpipe = p.inpipe := by
  cases h <;> rfl

theorem Hears.keeps (h : Hears p p' cmds) : Keeps p p' := by
  cases h with
  | pend hs => exact Or.inl ⟨rfl, by rw [hs]; rfl⟩
  | ack hs => exact Or.inr ⟨rfl, by rcases hs with ⟨hs, -⟩ | hs <;> rw [hs] <;> rfl, rfl⟩
  | cross hs => exact Or.inr ⟨rfl, by rw [hs]; rfl, rfl⟩

end Pipe

end Libxs
