import Libxs.YPipe

/-! # `pipe_t`: one end of a bidirectional message pipe

`src/pipe.cpp`. -/

namespace Libxs

abbrev UPipe : Type := YPipe Msg

inductive PipeState where
  | active
  | delimited
  | pending
  | terminating
  | terminated
  | doubleTerminated
deriving DecidableEq, Repr

inductive Command where
  | activateRead
  | activateWrite (msgsRead : Nat)
  | hiccup (pipe : Nat)
  | pipeTerm
  | pipeTermAck
deriving DecidableEq, Repr

structure Pipe where
  inpipe : Option Nat
  outpipe : Option Nat
  inActive : Bool
  outActive : Bool
  hwm : Nat
  lwm : Nat
  msgsRead : Nat
  msgsWritten : Nat
  peersMsgsRead : Nat
  state : PipeState
  delay : Bool
deriving DecidableEq, Repr

namespace Pipe

def maxWmDelta : Nat := 1024

def computeLwm (hwm : Nat) : Nat :=
  if hwm > maxWmDelta * 2 then hwm - maxWmDelta else (hwm + 1) / 2

def sub64 (a b : Nat) : Nat := (a + 2 ^ 64 - b) % 2 ^ 64

def init (inpipe outpipe : Nat) (inhwm outhwm : Nat) (delay : Bool) : Pipe where
  inpipe := some inpipe
  outpipe := some outpipe
  inActive := true
  outActive := true
  hwm := outhwm
  lwm := computeLwm inhwm
  msgsRead := 0
  msgsWritten := 0
  peersMsgsRead := 0
  state := .active
  delay := delay

def reads (p : Pipe) : Bool := p.state == .active || p.state == .pending

def delimit (p : Pipe) : Except Fault (Pipe × List Command) :=
  match p.state with
  | .active => .ok ({ p with state := .delimited }, [])
  | .pending => .ok ({ p with outpipe := none, state := .terminating }, [.pipeTermAck])
  | _ => .error .assertFailed

def checkRead (p : Pipe) (inq : UPipe) : Except Fault (Bool × Pipe × UPipe × List Command) :=
  if !p.inActive || !p.reads then .ok (false, p, inq, [])
  else
    match inq.checkRead with
    | (false, inq) => .ok (false, { p with inActive := false }, inq, [])
    | (true, inq) =>
      -- a delimiter at the front starts the termination right away
      match inq.probe (·.isDelimiter) with
      | .error e => .error e
      | .ok (false, inq) => .ok (true, p, inq, [])
      | .ok (true, inq) =>
        match inq.read with
        | (none, _) => .error .assertFailed
        | (some _, inq) =>
          match p.delimit with
          | .error e => .error e
          | .ok (p, cmds) => .ok (false, p, inq, cmds)

def read (p : Pipe) (inq : UPipe) : Except Fault (Option Msg × Pipe × UPipe × List Command) :=
  if !p.inActive || !p.reads then .ok (none, p, inq, [])
  else
    match inq.read with
    | (none, inq) => .ok (none, { p with inActive := false }, inq, [])
    | (some msg, inq) =>
      if msg.isDelimiter then
        match p.delimit with
        | .error e => .error e
        | .ok (p, cmds) => .ok (none, p, inq, cmds)
      else
        let p := if msg.more then p else { p with msgsRead := (p.msgsRead + 1) % 2 ^ 64 }
        let cmds :=
          if 0 < p.lwm ∧ p.msgsRead % p.lwm = 0 then [.activateWrite p.msgsRead] else []
        .ok (some msg, p, inq, cmds)

def full (p : Pipe) : Bool := 0 < p.hwm && sub64 p.msgsWritten p.peersMsgsRead == p.hwm

def checkWrite (p : Pipe) : Bool × Pipe :=
  if !p.outActive || p.state != .active then (false, p)
  else if p.full then (false, { p with outActive := false })
  else (true, p)

def write (p : Pipe) (outq : Option UPipe) (msg : Msg) :
    Except Fault (Bool × Pipe × Option UPipe) :=
  match p.checkWrite with
  | (false, p) => .ok (false, p, outq)
  | (true, p) =>
    match outq with
    | none => .error .nullPointer
    | some q =>
      let p := if msg.more then p else { p with msgsWritten := (p.msgsWritten + 1) % 2 ^ 64 }
      .ok (true, p, some (q.write msg msg.more))

def rollbackLoop : Nat → UPipe → Except Fault UPipe
  | 0, q => .ok q
  | fuel + 1, q =>
    match q.unwrite with
    | none => .ok q
    | some (msg, q) => if msg.more then rollbackLoop fuel q else .error .assertFailed

def rollback (outq : Option UPipe) : Except Fault (Option UPipe) :=
  match outq with
  | none => .ok none
  | some q =>
    match rollbackLoop q.queue.length q with
    | .error e => .error e
    | .ok q => .ok (some q)

def flush (p : Pipe) (outq : Option UPipe) : Option UPipe × List Command :=
  match p.state with
  | .terminated | .doubleTerminated | .terminating => (outq, [])
  | _ =>
    match outq with
    | none => (none, [])
    | some q =>
      match q.flush with
      | (true, q) => (some q, [])
      | (false, q) => (some q, [.activateRead])

def processActivateRead (p : Pipe) : Bool × Pipe :=
  if !p.inActive && p.reads then (true, { p with inActive := true }) else (false, p)

def processActivateWrite (p : Pipe) (msgsRead : Nat) : Bool × Pipe :=
  let p := { p with peersMsgsRead := msgsRead }
  if !p.outActive && p.state == .active then (true, { p with outActive := true }) else (false, p)

def processPipeTerm (p : Pipe) : Except Fault (Pipe × List Command) :=
  match p.state with
  | .active =>
    if !p.delay then .ok ({ p with state := .terminating, outpipe := none }, [.pipeTermAck])
    else .ok ({ p with state := .pending }, [])
  | .delimited => .ok ({ p with state := .terminating, outpipe := none }, [.pipeTermAck])
  | .terminated => .ok ({ p with state := .doubleTerminated, outpipe := none }, [.pipeTermAck])
  | _ => .error .assertFailed

def processHiccup (p : Pipe) (pipe : Nat) : Except Fault (Bool × Pipe) :=
  match p.outpipe with
  | none => .error .assertFailed
  | some _ => .ok (p.state == .active, { p with outpipe := some pipe, outActive := true })

def processPipeTermAck (p : Pipe) : Except Fault (Pipe × List Command) :=
  match p.state with
  | .terminating | .doubleTerminated => .ok (p, [])
  | .terminated => .ok ({ p with outpipe := none }, [.pipeTermAck])
  | _ => .error .assertFailed

def terminateTail (p : Pipe) (outq : Option UPipe) (cmds : List Command) :
    Except Fault (Pipe × Option UPipe × List Command) :=
  let p := { p with outActive := false }
  if p.outpipe = none then .ok (p, outq, cmds)
  else
    match rollback outq with
    | .error e => .error e
    | .ok none => .error .nullPointer
    | .ok (some q) =>
      let q := q.write .initDelimiter false
      if p.state = .terminating then .ok (p, some q, cmds)
      else
        match q.flush with
        | (true, q) => .ok (p, some q, cmds)
        | (false, q) => .ok (p, some q, cmds ++ [.activateRead])

def terminate (p : Pipe) (delay : Bool) (outq : Option UPipe) :
    Except Fault (Pipe × Option UPipe × List Command) :=
  let p := { p with delay := delay }
  match p.state with
  | .terminated | .doubleTerminated | .terminating => .ok (p, outq, [])
  | .active | .delimited => terminateTail { p with state := .terminated } outq [.pipeTerm]
  | .pending =>
    if !p.delay then
      terminateTail { p with outpipe := none, state := .terminating } outq [.pipeTermAck]
    else terminateTail p outq []

def hiccup (p : Pipe) (pipe : Nat) : Pipe × List Command :=
  if p.state = .active then ({ p with inpipe := some pipe, inActive := true }, [.hiccup pipe])
  else (p, [])

end Pipe

end Libxs
