import Libxs.Foundation.Run
import Libxs.Rotor
import Libxs.Pipe.Endpoint

/-! # `lb_t`: load balancing over outbound pipes

`src/lb.cpp` on top of `Rotor` and `Endpoint`. -/

namespace Libxs

variable {α : Type} [DecidableEq α]

structure Lb (α : Type) extends Rotor α where
  more : Bool
  dropping : Bool

inductive SendResult (α : Type) where
  | again
  | dropped
  | written (pipe : α)
deriving DecidableEq, Repr

namespace Lb

def init : Lb α := ⟨Rotor.init, false, false⟩

def withRotor (lb : Lb α) (r : Except Fault (Rotor α)) : Except Fault (Lb α) :=
  match r with
  | .error e => .error e
  | .ok r => .ok { lb with toRotor := r }

def attach (lb : Lb α) (pipe : α) : Except Fault (Lb α) := lb.withRotor (lb.toRotor.attach pipe)

def terminated (lb : Lb α) (pipe : α) : Except Fault (Lb α) :=
  let index := lb.pipes.index pipe
  let lb := { lb with dropping := lb.dropping || (index == lb.current && lb.more) }
  lb.withRotor (lb.toRotor.terminated pipe)

def activated (lb : Lb α) (pipe : α) : Except Fault (Lb α) :=
  lb.withRotor (lb.toRotor.activated pipe)

def sendDeactivate (lb : Lb α) : Except Fault (Lb α) :=
  if lb.current < lb.active - 1 then
    match lb.pipes.swap lb.current (lb.active - 1) with
    | none => .error .badIndex
    | some pipes => .ok { lb with pipes := pipes, active := lb.active - 1 }
  else .ok { lb with active := lb.active - 1, current := 0 }

def sendLoop : Nat → Lb α → Ends α → Msg → Except Fault (Option α × Lb α × Ends α)
  | 0, lb, ends, _ => .ok (none, lb, ends)
  | count + 1, lb, ends, msg =>
    match lb.pipes.get lb.current with
    | none => .error .badIndex
    | some pipe =>
      match (ends pipe).write msg with
      | .error e => .error e
      | .ok (true, e) =>
        .ok (some pipe, { lb with more := msg.more }, Function.update ends pipe e)
      | .ok (false, e) =>
        -- xs_assert (!more)
        if lb.more then .error .assertFailed
        else
          match lb.sendDeactivate with
          | .error e => .error e
          | .ok lb => sendLoop count lb (Function.update ends pipe e) msg

def send (lb : Lb α) (ends : Ends α) (msg : Msg) :
    Except Fault (SendResult α × Lb α × Ends α) :=
  if lb.dropping then
    .ok (.dropped, { lb with more := msg.more, dropping := msg.more }, ends)
  else
    match sendLoop lb.active lb ends msg with
    | .error e => .error e
    | .ok (none, lb, ends) => .ok (.again, lb, ends)
    | .ok (some pipe, lb, ends) =>
      if lb.more then .ok (.written pipe, lb, ends)
      else
        .ok (.written pipe, { lb with current := (lb.current + 1) % lb.active },
          Function.update ends pipe (ends pipe).flush)

def hasOutLoop : Nat → Lb α → Ends α → Except Fault (Bool × Lb α × Ends α)
  | 0, lb, ends => .ok (false, lb, ends)
  | count + 1, lb, ends =>
    match lb.pipes.get lb.current with
    | none => .error .badIndex
    | some pipe =>
      match (ends pipe).checkWrite with
      | (true, e) => .ok (true, lb, Function.update ends pipe e)
      | (false, e) =>
        match lb.withRotor lb.toRotor.deactivate with
        | .error e => .error e
        | .ok lb => hasOutLoop count lb (Function.update ends pipe e)

def hasOut (lb : Lb α) (ends : Ends α) : Except Fault (Bool × Lb α × Ends α) :=
  if lb.more then .ok (true, lb, ends) else hasOutLoop lb.active lb ends

end Lb

/-! ## The load balancer among its pipes -/

inductive LbEvent (α : Type) where
  | written (pipe : α) (more : Bool)
  | dropped (more : Bool)
  | gone (pipe : α)
deriving DecidableEq, Repr

structure LbSystem (α : Type) where
  lb : Lb α
  ends : Ends α
  trace : List (LbEvent α)

inductive LbOp (α : Type) where
  | attach (pipe : α) (e : Endpoint)
  | send (msg : Msg)
  | hasOut
  | terminated (pipe : α)
  | processActivateWrite (pipe : α) (msgsRead : Nat)
  | processPipeTerm (pipe : α)
  | terminate (pipe : α) (delay : Bool)
  | read (pipe : α)
  | processActivateRead (pipe : α)
  | peerWrite (pipe : α) (msg : Msg)
  | peerFlush (pipe : α)
  | peerRead (pipe : α)

namespace LbSystem

def init : LbSystem α := ⟨Lb.init, fun _ => Endpoint.init 0 0 true, []⟩

abbrev attached (s : LbSystem α) (pipe : α) : Prop := s.lb.attached pipe

def setEnd (s : LbSystem α) (pipe : α) (e : Endpoint) : LbSystem α :=
  { s with ends := Function.update s.ends pipe e }

def sendEvents (msg : Msg) : SendResult α → List (LbEvent α)
  | .again => []
  | .dropped => [.dropped msg.more]
  | .written pipe => [.written pipe msg.more]

def step (s : LbSystem α) : LbOp α → Except Fault (LbSystem α)
  | .attach pipe e =>
    if s.attached pipe ∨ e.pipe.outActive = false ∨ ¬ e.pipe.WithinHwm then .ok s
    else
      match s.lb.attach pipe with
      | .error err => .error err
      | .ok lb => .ok { (s.setEnd pipe { e with refusedWrite := false }) with lb := lb }
  | .send msg =>
    match s.lb.send s.ends msg with
    | .error err => .error err
    | .ok (r, lb, ends) => .ok ⟨lb, ends, s.trace ++ sendEvents msg r⟩
  | .hasOut =>
    match s.lb.hasOut s.ends with
    | .error err => .error err
    | .ok (_, lb, ends) => .ok { s with lb := lb, ends := ends }
  | .terminated pipe =>
    if s.attached pipe then
      match s.lb.terminated pipe with
      | .error err => .error err
      | .ok lb => .ok { s with lb := lb, trace := s.trace ++ [.gone pipe] }
    else .ok s
  | .processActivateWrite pipe msgsRead =>
    if s.attached pipe ∧ (s.ends pipe).pipe.Advances msgsRead then
      match (s.ends pipe).processActivateWrite msgsRead with
      | (false, e) => .ok (s.setEnd pipe e)
      | (true, e) =>
        match s.lb.activated pipe with
        | .error err => .error err
        | .ok lb => .ok { (s.setEnd pipe e) with lb := lb }
    else .ok s
  | .processPipeTerm pipe =>
    match (s.ends pipe).processPipeTerm with
    | .error err => .error err
    | .ok e => .ok (s.setEnd pipe e)
  | .terminate pipe delay =>
    match (s.ends pipe).terminate delay with
    | .error err => .error err
    | .ok e => .ok (s.setEnd pipe e)
  | .read pipe =>
    match (s.ends pipe).read with
    | .error err => .error err
    | .ok (_, e) => .ok (s.setEnd pipe e)
  | .processActivateRead pipe => .ok (s.setEnd pipe (s.ends pipe).processActivateRead.2)
  | .peerWrite pipe msg => .ok (s.setEnd pipe ((s.ends pipe).peerWrite msg))
  | .peerFlush pipe => .ok (s.setEnd pipe (s.ends pipe).peerFlush)
  | .peerRead pipe => .ok (s.setEnd pipe (s.ends pipe).peerRead)

end LbSystem

end Libxs
