import Libxs.Foundation.Run
import Libxs.Pipe

/-! # `pipepair`: two ends, two threads -/

namespace Libxs

inductive Side where
  | left
  | right
deriving DecidableEq, Repr

namespace Side

def other : Side → Side
  | left => right
  | right => left

@[simp] theorem other_other (x : Side) : x.other.other = x := by cases x <;> rfl

@[simp] theorem other_ne (x : Side) : x.other ≠ x := by cases x <;> simp [other]

@[simp] theorem ne_other (x : Side) : x ≠ x.other := by cases x <;> simp [other]

theorem forall_iff {P : Side → Prop} (x : Side) : (∀ y, P y) ↔ P x ∧ P x.other := by
  constructor
  · intro h
    exact ⟨h x, h x.other⟩
  · rintro ⟨hx, hy⟩ y
    cases x <;> cases y <;> assumption

theorem eq_update {α : Type} {f g : Side → α} {x : Side} {a : α} (hself : f x = a)
    (hother : f x.other = g x.other) : f = Function.update g x a := by
  funext y
  revert y
  exact (forall_iff x).2 ⟨by simpa using hself, by simpa using hother⟩

end Side

structure PipePair where
  pipe : Side → Pipe
  dead : Side → Bool
  inbox : Side → List Command
  heap : Nat → Option UPipe
  fresh : Nat
  asked : Side → Bool

inductive PairOp where
  | write (x : Side) (flags : UInt8) (data : List UInt8)
  | checkWrite (x : Side)
  | read (x : Side)
  | checkRead (x : Side)
  | flush (x : Side)
  | rollback (x : Side)
  | terminate (x : Side) (delay : Bool)
  | hiccup (x : Side)
  | process (x : Side)
deriving DecidableEq, Repr

namespace PipePair

def init (hwms : Side → Nat) (delays : Side → Bool) : PipePair where
  pipe
    | .left => .init 0 1 (hwms .right) (hwms .left) (delays .left)
    | .right => .init 1 0 (hwms .left) (hwms .right) (delays .right)
  dead _ := false
  inbox _ := []
  heap h := if h < 2 then some .init else none
  fresh := 2
  asked _ := false

/-! ## Memory -/

def deref (p : PipePair) : Option Nat → Except Fault UPipe
  | none => .error .nullPointer
  | some h =>
    match p.heap h with
    | none => .error .useAfterFree
    | some q => .ok q

def derefOut (p : PipePair) : Option Nat → Except Fault (Option UPipe)
  | none => .ok none
  | some h =>
    match p.heap h with
    | none => .error .useAfterFree
    | some q => .ok (some q)

def store (p : PipePair) : Option Nat → Option UPipe → PipePair
  | some h, some q => { p with heap := Function.update p.heap h (some q) }
  | _, _ => p

def release (p : PipePair) : Option Nat → Except Fault PipePair
  | none => .ok p
  | some h =>
    match p.heap h with
    | none => .error .doubleFree
    | some _ => .ok { p with heap := Function.update p.heap h none }

def after (p : PipePair) (x : Side) (pipe : Pipe) (cmds : List Command) : PipePair :=
  { p with
    pipe := Function.update p.pipe x pipe
    inbox := Function.update p.inbox x.other (p.inbox x.other ++ cmds) }

def inbound (p : PipePair) (x : Side)
    (method : Pipe → UPipe → Except Fault (Pipe × UPipe × List Command)) : Except Fault PipePair :=
  if p.dead x then .ok p
  else
    match p.deref (p.pipe x).inpipe with
    | .error e => .error e
    | .ok inq =>
      match method (p.pipe x) inq with
      | .error e => .error e
      | .ok (pipe, inq, cmds) => .ok ((p.store (p.pipe x).inpipe (some inq)).after x pipe cmds)

def outbound (p : PipePair) (x : Side)
    (method : Pipe → Option UPipe → Except Fault (Pipe × Option UPipe × List Command)) :
    Except Fault PipePair :=
  if p.dead x then .ok p
  else
    match p.derefOut (p.pipe x).outpipe with
    | .error e => .error e
    | .ok outq =>
      match method (p.pipe x) outq with
      | .error e => .error e
      | .ok (pipe, outq, cmds) => .ok ((p.store (p.pipe x).outpipe outq).after x pipe cmds)

def write (p : PipePair) (x : Side) (msg : Msg) : Except Fault PipePair :=
  p.outbound x fun pipe outq =>
    match pipe.write outq msg with
    | .error e => .error e
    | .ok (_, pipe, outq) => .ok (pipe, outq, [])

def checkWrite (p : PipePair) (x : Side) : Except Fault PipePair :=
  p.outbound x fun pipe outq => .ok (pipe.checkWrite.2, outq, [])

def read (p : PipePair) (x : Side) : Except Fault PipePair :=
  p.inbound x fun pipe inq =>
    match pipe.read inq with
    | .error e => .error e
    | .ok (_, pipe, inq, cmds) => .ok (pipe, inq, cmds)

def checkRead (p : PipePair) (x : Side) : Except Fault PipePair :=
  p.inbound x fun pipe inq =>
    match pipe.checkRead inq with
    | .error e => .error e
    | .ok (_, pipe, inq, cmds) => .ok (pipe, inq, cmds)

def flush (p : PipePair) (x : Side) : Except Fault PipePair :=
  p.outbound x fun pipe outq =>
    match pipe.flush outq with
    | (outq, cmds) => .ok (pipe, outq, cmds)

def rollback (p : PipePair) (x : Side) : Except Fault PipePair :=
  p.outbound x fun pipe outq =>
    match Pipe.rollback outq with
    | .error e => .error e
    | .ok outq => .ok (pipe, outq, [])

def terminate (p : PipePair) (x : Side) (delay : Bool) : Except Fault PipePair :=
  if p.dead x then .ok p
  else
    { p with asked := Function.update p.asked x true }.outbound x fun pipe outq =>
      pipe.terminate delay outq

def hiccup (p : PipePair) (x : Side) : Except Fault PipePair :=
  if p.dead x then .ok p
  else if (p.pipe x).state ≠ .active then .ok p
  else
    match (p.pipe x).hiccup p.fresh with
    | (pipe, cmds) =>
      .ok ({ p with heap := Function.update p.heap p.fresh (some .init),
                    fresh := p.fresh + 1 }.after x pipe cmds)

def processHiccup (p : PipePair) (x : Side) (pipe : Nat) : Except Fault PipePair :=
  match (p.pipe x).processHiccup pipe with
  | .error e => .error e
  | .ok (_, pipe) =>
    -- the old pipe is flushed and read to its end; nothing of it is left after the deallocation
    match p.deref (p.pipe x).outpipe with
    | .error e => .error e
    | .ok _ =>
      match p.release (p.pipe x).outpipe with
      | .error e => .error e
      | .ok p => .ok (p.after x pipe [])

def processPipeTermAck (p : PipePair) (x : Side) : Except Fault PipePair :=
  match (p.pipe x).processPipeTermAck with
  | .error e => .error e
  | .ok (pipe, cmds) =>
    match p.deref (p.pipe x).inpipe with
    | .error e => .error e
    | .ok _ =>
      match p.release (p.pipe x).inpipe with
      | .error e => .error e
      | .ok p => .ok { p.after x pipe cmds with dead := Function.update p.dead x true }

def deliver (p : PipePair) (x : Side) : Command → Except Fault PipePair
  | .activateRead => .ok (p.after x (p.pipe x).processActivateRead.2 [])
  | .activateWrite msgsRead => .ok (p.after x ((p.pipe x).processActivateWrite msgsRead).2 [])
  | .hiccup pipe => p.processHiccup x pipe
  | .pipeTerm =>
    match (p.pipe x).processPipeTerm with
    | .error e => .error e
    | .ok (pipe, cmds) => .ok (p.after x pipe cmds)
  | .pipeTermAck => p.processPipeTermAck x

def process (p : PipePair) (x : Side) : Except Fault PipePair :=
  match p.inbox x with
  | [] => .ok p
  | cmd :: rest =>
    if p.dead x then .error .deadObject
    else { p with inbox := Function.update p.inbox x rest }.deliver x cmd

def step (p : PipePair) : PairOp → Except Fault PipePair
  | .write x flags data => p.write x ⟨false, flags, data⟩
  | .checkWrite x => p.checkWrite x
  | .read x => p.read x
  | .checkRead x => p.checkRead x
  | .flush x => p.flush x
  | .rollback x => p.rollback x
  | .terminate x delay => p.terminate x delay
  | .hiccup x => p.hiccup x
  | .process x => p.process x

end PipePair

end Libxs
