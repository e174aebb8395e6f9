import Libxs.XRep

/-! # `rep_t`: requests and the replies to them -/

namespace Libxs

variable {α : Type} [DecidableEq α]

structure Rep (α : Type) where
  xrep : XRep α
  sendingReply : Bool
  requestBegins : Bool

namespace Rep

def init (nextPeerId : UInt32) : Rep α := ⟨Router.init nextPeerId, false, true⟩

def xsend (s : Rep α) (ends : Ends α) (msg : Msg) :
    Except Fault (Except Errno Unit × Rep α × Ends α) :=
  if !s.sendingReply then .ok (.error .efsm, s, ends)
  else
    match s.xrep.xsend ends msg with
    | .error err => .error err
    | .ok (x, ends) =>
      if msg.more then .ok (.ok (), { s with xrep := x }, ends)
      else .ok (.ok (), { s with xrep := x, sendingReply := false }, ends)

def copyLabels : Nat → XRep α → Ends α → Except Fault (Bool × XRep α × Ends α)
  | 0, _, _ => .error .outOfFuel
  | fuel + 1, x, ends =>
    match x.xrecv ends with
    | .error err => .error err
    | .ok (none, x, ends) => .ok (false, x, ends)
    | .ok (some msg, x, ends) =>
      -- xs_assert (msg_->flags () & msg_t::more)
      if !msg.more then .error .assertFailed
      else
        match x.xsend ends msg with
        | .error err => .error err
        | .ok (x, ends) =>
          if msg.size = 0 then .ok (true, x, ends) else copyLabels fuel x ends

def recvBody (s : Rep α) (ends : Ends α) : Except Fault (Except Errno Msg × Rep α × Ends α) :=
  match s.xrep.xrecv ends with
  | .error err => .error err
  | .ok (none, x, ends) => .ok (.error .eagain, { s with xrep := x }, ends)
  | .ok (some msg, x, ends) =>
    if msg.more then .ok (.ok msg, { s with xrep := x }, ends)
    else .ok (.ok msg, ⟨x, true, true⟩, ends)

def labelFuel (x : XRep α) (ends : Ends α) : Nat := 2 * x.fq.backlog ends + 3

def xrecv (s : Rep α) (ends : Ends α) : Except Fault (Except Errno Msg × Rep α × Ends α) :=
  if s.sendingReply then .ok (.error .efsm, s, ends)
  else if s.requestBegins then
    match copyLabels (labelFuel s.xrep ends) s.xrep ends with
    | .error err => .error err
    | .ok (false, x, ends) => .ok (.error .eagain, { s with xrep := x }, ends)
    | .ok (true, x, ends) => ({ s with xrep := x, requestBegins := false } : Rep α).recvBody ends
  else s.recvBody ends

def xhasIn (s : Rep α) (ends : Ends α) : Except Fault (Bool × Rep α × Ends α) :=
  if s.sendingReply then .ok (false, s, ends)
  else
    match s.xrep.xhasIn ends with
    | .error err => .error err
    | .ok (r, x, ends) => .ok (r, { s with xrep := x }, ends)

def base (f : XRep α → α → Except Fault (XRep α)) (s : Rep α) (pipe : α) : Except Fault (Rep α) :=
  match f s.xrep pipe with
  | .error err => .error err
  | .ok x => .ok { s with xrep := x }

def sink : Sink (Rep α) α where
  fq := fun s => s.xrep.fq
  xattachPipe := base XRep.xattachPipe
  xreadActivated := base Router.xreadActivated
  xwriteActivated := base Router.xwriteActivated
  xterminated := base Router.xterminated

end Rep

structure RepSystem (α : Type) where
  rep : Rep α
  ends : Ends α
  delivered : List Msg

inductive RepOp (α : Type) where
  | event (ev : PipeEvent α)
  | xsend (msg : Msg)
  | xrecv
  | xhasIn

namespace RepSystem

def init (nextPeerId : UInt32) : RepSystem α :=
  ⟨Rep.init nextPeerId, fun _ => Endpoint.init 0 0 true, []⟩

def step (s : RepSystem α) : RepOp α → Except Fault (RepSystem α)
  | .event ev =>
    match ev.step Rep.sink s.rep s.ends with
    | .error err => .error err
    | .ok (rep, ends) => .ok { s with rep := rep, ends := ends }
  | .xsend msg =>
    match s.rep.xsend s.ends msg with
    | .error err => .error err
    | .ok (_, rep, ends) => .ok { s with rep := rep, ends := ends }
  | .xrecv =>
    match s.rep.xrecv s.ends with
    | .error err => .error err
    | .ok (r, rep, ends) => .ok ⟨rep, ends, s.delivered ++ r.toOption.toList⟩
  | .xhasIn =>
    match s.rep.xhasIn s.ends with
    | .error err => .error err
    | .ok (_, rep, ends) => .ok { s with rep := rep, ends := ends }

end RepSystem

end Libxs
