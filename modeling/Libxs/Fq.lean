import Libxs.Foundation.Run
import Libxs.Rotor
import Libxs.Pipe.Endpoint

/-! # `fq_t`: fair queueing over inbound pipes

`src/fq.cpp` on top of `Rotor` and `Endpoint`. -/

namespace Libxs

variable {α : Type} [DecidableEq α]

structure Fq (α : Type) extends Rotor α where
  more : Bool

namespace Fq

def init : Fq α := ⟨Rotor.init, false⟩

def withRotor (fq : Fq α) (r : Except Fault (Rotor α)) : Except Fault (Fq α) :=
  match r with
  | .error e => .error e
  | .ok r => .ok { fq with toRotor := r }

def attach (fq : Fq α) (pipe : α) : Except Fault (Fq α) := fq.withRotor (fq.toRotor.attach pipe)

def terminated (fq : Fq α) (pipe : α) : Except Fault (Fq α) :=
  fq.withRotor (fq.toRotor.terminated pipe)

def activated (fq : Fq α) (pipe : α) : Except Fault (Fq α) :=
  fq.withRotor (fq.toRotor.activated pipe)

def deactivate (fq : Fq α) : Except Fault (Fq α) := fq.withRotor fq.toRotor.deactivate

def recvLoop : Nat → Fq α → Ends α → Except Fault (Option (Msg × α) × Fq α × Ends α)
  | 0, fq, ends => .ok (none, fq, ends)
  | count + 1, fq, ends =>
    match fq.pipes.get fq.current with
    | none => .error .badIndex
    | some pipe =>
      match (ends pipe).read with
      | .error e => .error e
      | .ok (some msg, e) =>
        let ends := Function.update ends pipe e
        let current :=
          if msg.more then fq.current
          else if fq.current + 1 ≥ fq.active then 0 else fq.current + 1
        .ok (some (msg, pipe), { fq with more := msg.more, current := current }, ends)
      | .ok (none, e) =>
        -- xs_assert (!(more && !fetched))
        if fq.more then .error .assertFailed
        else
          match fq.deactivate with
          | .error e => .error e
          | .ok fq => recvLoop count fq (Function.update ends pipe e)

def recvpipe (fq : Fq α) (ends : Ends α) : Except Fault (Option (Msg × α) × Fq α × Ends α) :=
  recvLoop fq.active fq ends

def hasInLoop : Nat → Fq α → Ends α → Except Fault (Bool × Fq α × Ends α)
  | 0, fq, ends => .ok (false, fq, ends)
  | count + 1, fq, ends =>
    match fq.pipes.get fq.current with
    | none => .error .badIndex
    | some pipe =>
      match (ends pipe).checkRead with
      | .error e => .error e
      | .ok (true, e) => .ok (true, fq, Function.update ends pipe e)
      | .ok (false, e) =>
        match fq.deactivate with
        | .error e => .error e
        | .ok fq => hasInLoop count fq (Function.update ends pipe e)

def hasIn (fq : Fq α) (ends : Ends α) : Except Fault (Bool × Fq α × Ends α) :=
  if fq.more then .ok (true, fq, ends) else hasInLoop fq.active fq ends

end Fq

/-! ## The queue among its pipes -/

structure FqSystem (α : Type) where
  fq : Fq α
  ends : Ends α

inductive FqOp (α : Type) where
  | attach (pipe : α) (e : Endpoint)
  | recvpipe
  | hasIn
  | terminated (pipe : α)
  | processActivateRead (pipe : α)
  | processPipeTerm (pipe : α)
  | terminate (pipe : α) (delay : Bool)
  | peerWrite (pipe : α) (msg : Msg)
  | peerFlush (pipe : α)

namespace FqSystem

def init : FqSystem α := ⟨Fq.init, fun _ => Endpoint.init 0 0 true⟩

abbrev attached (s : FqSystem α) (pipe : α) : Prop := s.fq.attached pipe

def setEnd (s : FqSystem α) (pipe : α) (e : Endpoint) : FqSystem α :=
  { s with ends := Function.update s.ends pipe e }

def step (s : FqSystem α) : FqOp α → Except Fault (FqSystem α)
  | .attach pipe e =>
    if s.attached pipe ∨ e.pipe.inActive = false then .ok s
    else
      match s.fq.attach pipe with
      | .error err => .error err
      | .ok fq => .ok { (s.setEnd pipe { e with refusedRead := false }) with fq := fq }
  | .recvpipe =>
    match s.fq.recvpipe s.ends with
    | .error err => .error err
    | .ok (_, fq, ends) => .ok ⟨fq, ends⟩
  | .hasIn =>
    match s.fq.hasIn s.ends with
    | .error err => .error err
    | .ok (_, fq, ends) => .ok ⟨fq, ends⟩
  | .terminated pipe =>
    if s.attached pipe then
      match s.fq.terminated pipe with
      | .error err => .error err
      | .ok fq => .ok { s with fq := fq }
    else .ok s
  | .processActivateRead pipe =>
    if s.attached pipe then
      match (s.ends pipe).processActivateRead with
      | (false, e) => .ok (s.setEnd pipe e)
      | (true, e) =>
        match s.fq.activated pipe with
        | .error err => .error err
        | .ok fq => .ok { (s.setEnd pipe e) with fq := fq }
    else .ok s
  | .processPipeTerm pipe =>
    match (s.ends pipe).processPipeTerm with
    | .error err => .error err
    | .ok e => .ok (s.setEnd pipe e)
  | .terminate pipe delay =>
    match (s.ends pipe).terminate delay with
    | .error err => .error err
    | .ok e => .ok (s.setEnd pipe e)
  | .peerWrite pipe msg => .ok (s.setEnd pipe ((s.ends pipe).peerWrite msg))
  | .peerFlush pipe => .ok (s.setEnd pipe (s.ends pipe).peerFlush)

end FqSystem

end Libxs
