import Libxs.Router

/-! # `xrespondent_t`: a router with numbers

`src/xrespondent.cpp`. -/

namespace Libxs

variable {α : Type} [DecidableEq α]

abbrev XRespondent (α : Type) : Type := Router UInt32 α

namespace XRespondent

def xattachPipe (s : XRespondent α) (pipe : α) : Except Fault (XRespondent α) :=
  match s.register s.nextPeerId pipe with
  | .error err => .error err
  | .ok s =>
    match s.fq.attach pipe with
    | .error err => .error err
    | .ok fq =>
      .ok { s with fq := fq, nextPeerId := s.nextPeerId + 1,
                   identity := Function.update s.identity pipe (putUint32 s.nextPeerId) }

def address (msg : Msg) : Option UInt32 :=
  if msg.more && msg.size == 4 then some (getUint32 msg.data) else none

def xsend (s : XRespondent α) (ends : Ends α) (msg : Msg) :
    Except Fault (XRespondent α × Ends α) :=
  Router.xsend address s ends msg

/-- `none` is `EAGAIN`. -/
def xrecv (s : XRespondent α) (ends : Ends α) :
    Except Fault (Option Msg × XRespondent α × Ends α) :=
  match s.takePrefetched with
  | some (msg, s) => .ok (some msg, s, ends)
  | none =>
    match s.fq.recvpipe ends with
    | .error err => .error err
    | .ok (none, fq, ends) => .ok (none, { s with fq := fq }, ends)
    | .ok (some (msg, pipe), fq, ends) =>
      match ({ s with fq := fq } : XRespondent α).deliver pipe msg with
      | (msg', s) => .ok (some msg', s.note [.received pipe msg], ends)

def xhasIn (s : XRespondent α) (ends : Ends α) : Except Fault (Bool × XRespondent α × Ends α) :=
  Router.xhasIn xrecv s ends

def sink : Sink (XRespondent α) α where
  fq := fun s => s.fq
  xattachPipe := xattachPipe
  xreadActivated := Router.xreadActivated
  xwriteActivated := Router.xwriteActivated
  xterminated := Router.xterminated

end XRespondent

structure XRespondentSystem (α : Type) where
  xrespondent : XRespondent α
  ends : Ends α

inductive XRespondentOp (α : Type) where
  | event (ev : PipeEvent α)
  | xsend (msg : Msg)
  | xrecv
  | xhasIn

namespace XRespondentSystem

def init (nextPeerId : UInt32) : XRespondentSystem α :=
  ⟨Router.init nextPeerId, fun _ => Endpoint.init 0 0 true⟩

def step (s : XRespondentSystem α) : XRespondentOp α → Except Fault (XRespondentSystem α)
  | .event ev =>
    match ev.step XRespondent.sink s.xrespondent s.ends with
    | .error err => .error err
    | .ok (xrespondent, ends) => .ok ⟨xrespondent, ends⟩
  | .xsend msg =>
    match s.xrespondent.xsend s.ends msg with
    | .error err => .error err
    | .ok (xrespondent, ends) => .ok ⟨xrespondent, ends⟩
  | .xrecv =>
    match s.xrespondent.xrecv s.ends with
    | .error err => .error err
    | .ok (_, xrespondent, ends) => .ok ⟨xrespondent, ends⟩
  | .xhasIn =>
    match s.xrespondent.xhasIn s.ends with
    | .error err => .error err
    | .ok (_, xrespondent, ends) => .ok ⟨xrespondent, ends⟩

end XRespondentSystem

end Libxs
