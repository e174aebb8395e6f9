import Libxs.Pipe.Calls
import Libxs.Pipe.Pair

/-! # What a step does to a pair -/

namespace Libxs

namespace PipePair

variable {p : PipePair} {x : Side}

/-! ## What a step leaves alone -/

section frame

variable {pipe : Pipe} {cmds : List Command} {h : Option Nat} {q : Option UPipe}

@[simp] theorem after_pipe_self : (p.after x pipe cmds).pipe x = pipe := Function.update_self ..

@[simp] theorem after_pipe_other : (p.after x pipe cmds).pipe x.other = p.pipe x.other :=
  Function.update_of_ne (Side.other_ne x) ..

@[simp] theorem after_inbox_self : (p.after x pipe cmds).inbox x = p.inbox x :=
  Function.update_of_ne (Side.ne_other x) ..

@[simp] theorem after_inbox_other :
    (p.after x pipe cmds).inbox x.other = p.inbox x.other ++ cmds := Function.update_self ..

@[simp] theorem after_dead : (p.after x pipe cmds).dead = p.dead := rfl

@[simp] theorem after_heap : (p.after x pipe cmds).heap = p.heap := rfl

@[simp] theorem after_fresh : (p.after x pipe cmds).fresh = p.fresh := rfl

@[simp] theorem after_asked : (p.after x pipe cmds).asked = p.asked := rfl

@[simp] theorem store_pipe : (p.store h q).pipe = p.pipe := by
  cases h <;> cases q <;> rfl

@[simp] theorem store_dead : (p.store h q).dead = p.dead := by
  cases h <;> cases q <;> rfl

@[simp] theorem store_inbox : (p.store h q).inbox = p.inbox := by
  cases h <;> cases q <;> rfl

@[simp] theorem store_fresh : (p.store h q).fresh = p.fresh := by
  cases h <;> cases q <;> rfl

@[simp] theorem store_asked : (p.store h q).asked = p.asked := by
  cases h <;> cases q <;> rfl

theorem store_same {h : Nat} {q : UPipe} (hq : p.heap h = some q) :
    p.store (some h) (some q) = p := by
  simp only [store]
  rw [← hq, Function.update_eq_self]

end frame

/-! ## The effect of a step -/

def afterCall (p : PipePair) (x : Side) (i : Nat) (inq : UPipe) (outq : Option UPipe) (pipe : Pipe)
    (cmds : List Command) (asked : Side → Bool) : PipePair :=
  { ((p.store (some i) (some inq)).store (p.pipe x).outpipe outq).after x pipe cmds with
    asked := asked }

def hiccuped (p : PipePair) (x : Side) : PipePair :=
  { p with heap := Function.update p.heap p.fresh (some .init),
           fresh := p.fresh + 1 }.after x
    { p.pipe x with inpipe := some p.fresh, inActive := true } [.hiccup p.fresh]

def replaced (p : PipePair) (x : Side) (rest : List Command) (o h : Nat) : PipePair :=
  { p with inbox := Function.update p.inbox x rest,
           heap := Function.update p.heap o none }.after x
    { p.pipe x with outpipe := some h, outActive := true } []

def departed (p : PipePair) (x : Side) (rest : List Command) (i : Nat) (pipe : Pipe)
    (cmds : List Command) : PipePair :=
  { { p with inbox := Function.update p.inbox x rest,
             heap := Function.update p.heap i none }.after x pipe cmds with
    dead := Function.update p.dead x true }

section afterCall

variable {i : Nat} {inq : UPipe} {outq : Option UPipe} {pipe : Pipe} {cmds : List Command}
  {asked : Side → Bool}

@[simp] theorem afterCall_pipe_self :
    (p.afterCall x i inq outq pipe cmds asked).pipe x = pipe := by
  simp [afterCall]

@[simp] theorem afterCall_pipe_other :
    (p.afterCall x i inq outq pipe cmds asked).pipe x.other = p.pipe x.other := by
  simp [afterCall]

@[simp] theorem afterCall_inbox_self :
    (p.afterCall x i inq outq pipe cmds asked).inbox x = p.inbox x := by
  simp [afterCall]

@[simp] theorem afterCall_inbox_other :
    (p.afterCall x i inq outq pipe cmds asked).inbox x.other = p.inbox x.other ++ cmds := by
  simp [afterCall]

@[simp] theorem afterCall_dead : (p.afterCall x i inq outq pipe cmds asked).dead = p.dead := by
  simp [afterCall]

@[simp] theorem afterCall_fresh : (p.afterCall x i inq outq pipe cmds asked).fresh = p.fresh := by
  simp [afterCall]

@[simp] theorem afterCall_asked : (p.afterCall x i inq outq pipe cmds asked).asked = asked := rfl

end afterCall

inductive Effect (p : PipePair) : PairOp → PipePair → Prop where
  | idle {op : PairOp} : Effect p op p
  | called {op : PairOp} {x : Side} {i : Nat} {inq inq' : UPipe} {outq outq' : Option UPipe}
      {ends : Bool} {pipe : Pipe} {cmds : List Command} (halive : p.dead x = false)
      (hin : (p.pipe x).inpipe = some i) (hinq : p.heap i = some inq)
      (houtq : (p.pipe x).outpipe.bind p.heap = outq)
      (hcalls : Pipe.Calls (p.pipe x) inq outq ends pipe inq' outq' cmds)
      (hop : ends = true → ∃ delay, op = .terminate x delay) :
      Effect p op (p.afterCall x i inq' outq' pipe cmds
        (if ends then Function.update p.asked x true else p.asked))
  | hiccup {x : Side} (halive : p.dead x = false) (hs : (p.pipe x).state = .active) :
      Effect p (.hiccup x) (p.hiccuped x)
  | activateRead {x : Side} {rest : List Command} (hbox : p.inbox x = .activateRead :: rest) :
      Effect p (.process x)
        ({ p with inbox := Function.update p.inbox x rest }.after x
          (p.pipe x).processActivateRead.2 [])
  | activateWrite {x : Side} {n : Nat} {rest : List Command}
      (hbox : p.inbox x = .activateWrite n :: rest) :
      Effect p (.process x)
        ({ p with inbox := Function.update p.inbox x rest }.after x
          ((p.pipe x).processActivateWrite n).2 [])
  | replace {x : Side} {h o : Nat} {rest : List Command} (hbox : p.inbox x = .hiccup h :: rest)
      (hout : (p.pipe x).outpipe = some o) :
      Effect p (.process x) (p.replaced x rest o h)
  | pipeTerm {x : Side} {rest : List Command} {pipe : Pipe} {cmds : List Command}
      (hbox : p.inbox x = .pipeTerm :: rest)
      (hhears : Pipe.Hears (p.pipe x) pipe cmds) :
      Effect p (.process x) ({ p with inbox := Function.update p.inbox x rest }.after x pipe cmds)
  | pipeTermAck {x : Side} {rest : List Command} {i : Nat} {pipe : Pipe} {cmds : List Command}
      (hbox : p.inbox x = .pipeTermAck :: rest) (hin : (p.pipe x).inpipe = some i)
      (hleaves : Pipe.Leaves (p.pipe x) pipe cmds) :
      Effect p (.process x) (p.departed x rest i pipe cmds)

inductive Processes (p : PipePair) (x : Side) : PipePair → Prop where
  | idle : Processes p x p
  | activateRead {rest : List Command} (hbox : p.inbox x = .activateRead :: rest) :
      Processes p x
        ({ p with inbox := Function.update p.inbox x rest }.after x
          (p.pipe x).processActivateRead.2 [])
  | activateWrite {n : Nat} {rest : List Command} (hbox : p.inbox x = .activateWrite n :: rest) :
      Processes p x
        ({ p with inbox := Function.update p.inbox x rest }.after x
          ((p.pipe x).processActivateWrite n).2 [])
  | replace {h o : Nat} {rest : List Command} (hbox : p.inbox x = .hiccup h :: rest)
      (hout : (p.pipe x).outpipe = some o) : Processes p x (p.replaced x rest o h)
  | pipeTerm {rest : List Command} {pipe : Pipe} {cmds : List Command}
      (hbox : p.inbox x = .pipeTerm :: rest) (hhears : Pipe.Hears (p.pipe x) pipe cmds) :
      Processes p x ({ p with inbox := Function.update p.inbox x rest }.after x pipe cmds)
  | pipeTermAck {rest : List Command} {i : Nat} {pipe : Pipe} {cmds : List Command}
      (hbox : p.inbox x = .pipeTermAck :: rest) (hin : (p.pipe x).inpipe = some i)
      (hleaves : Pipe.Leaves (p.pipe x) pipe cmds) :
      Processes p x (p.departed x rest i pipe cmds)

theorem Processes.effect {p' : PipePair} (h : Processes p x p') : Effect p (.process x) p' := by
  cases h with
  | idle => exact .idle
  | activateRead hbox => exact .activateRead hbox
  | activateWrite hbox => exact .activateWrite hbox
  | replace hbox hout => exact .replace hbox hout
  | pipeTerm hbox hhears => exact .pipeTerm hbox hhears
  | pipeTermAck hbox hin hleaves => exact .pipeTermAck hbox hin hleaves

end PipePair

end Libxs
