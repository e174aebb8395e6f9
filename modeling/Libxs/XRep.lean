import Libxs.Router

/-! # `xrep_t`: a router with identities

`src/xrep.cpp`. -/

namespace Libxs

variable {α : Type} [DecidableEq α]

abbrev XRep (α : Type) : Type := Router (List UInt8) α

namespace XRep

def autoId (id : UInt32) : List UInt8 := 0 :: putUint32 id

def xattachPipe (s : XRep α) (pipe : α) : Except Fault (XRep α) :=
  let id := autoId s.nextPeerId
  match ({ s with nextPeerId := s.nextPeerId + 1 } : XRep α).register id pipe with
  | .error err => .error err
  | .ok s =>
    match s.fq.attach pipe with
    | .error err => .error err
    | .ok fq => .ok { s with fq := fq, identity := Function.update s.identity pipe id }

def address (msg : Msg) : Option (List UInt8) := if msg.more then some msg.data else none

def xsend (s : XRep α) (ends : Ends α) (msg : Msg) : Except Fault (XRep α × Ends α) :=
  Router.xsend address s ends msg

def changeIdentity (s : XRep α) (pipe : α) (id : List UInt8) : Except Fault (XRep α) :=
  match s.entryOf pipe with
  -- xs_assert (changed)
  | none => .error .assertFailed
  | some x =>
    ({ s with identity := Function.update s.identity pipe id,
              outpipes := s.outpipes.erase x.1 } : XRep α).register id pipe

def processIdentity (s : XRep α) (ends : Ends α) (pipe : α) (msg : Msg) :
    Except Fault (XRep α × Ends α) :=
  -- xs_assert (!more_in)
  if s.moreIn then .error .assertFailed
  else if msg.size = 0 then .ok (s, ends)
  else if msg.data ∈ s.outpipes then
    match (ends pipe).terminate false with
    | .error err => .error err
    | .ok e => .ok (s, Function.update ends pipe e)
  else
    match s.changeIdentity pipe msg.data with
    | .error err => .error err
    | .ok s => .ok (s, ends)

def recvLoop : Nat → XRep α → Ends α → Except Fault (Option Msg × XRep α × Ends α)
  | 0, _, _ => .error .outOfFuel
  | fuel + 1, s, ends =>
    match s.fq.recvpipe ends with
    | .error err => .error err
    | .ok (none, fq, ends) => .ok (none, { s with fq := fq }, ends)
    | .ok (some (msg, pipe), fq, ends) =>
      let s : XRep α := { s with fq := fq }
      if msg.isIdentity then
        match s.processIdentity ends pipe msg with
        | .error err => .error err
        | .ok (s, ends) => recvLoop fuel s ends
      else
        match s.deliver pipe msg with
        | (msg', s) => .ok (some msg', s.note [.received pipe msg], ends)

def xrecv (s : XRep α) (ends : Ends α) : Except Fault (Option Msg × XRep α × Ends α) :=
  match s.takePrefetched with
  | some (msg, s) => .ok (some msg, s, ends)
  | none => recvLoop (s.fq.backlog ends + 1) s ends

def xhasIn (s : XRep α) (ends : Ends α) : Except Fault (Bool × XRep α × Ends α) :=
  Router.xhasIn xrecv s ends

def sink : Sink (XRep α) α where
  fq := fun s => s.fq
  xattachPipe := xattachPipe
  xreadActivated := Router.xreadActivated
  xwriteActivated := Router.xwriteActivated
  xterminated := Router.xterminated

end XRep

structure XRepSystem (α : Type) where
  xrep : XRep α
  ends : Ends α

inductive XRepOp (α : Type) where
  | event (ev : PipeEvent α)
  | xsend (msg : Msg)
  | xrecv
  | xhasIn

namespace XRepSystem

def init (nextPeerId : UInt32) : XRepSystem α :=
  ⟨Router.init nextPeerId, fun _ => Endpoint.init 0 0 true⟩

def step (s : XRepSystem α) : XRepOp α → Except Fault (XRepSystem α)
  | .event ev =>
    match ev.step XRep.sink s.xrep s.ends with
    | .error err => .error err
    | .ok (xrep, ends) => .ok ⟨xrep, ends⟩
  | .xsend msg =>
    match s.xrep.xsend s.ends msg with
    | .error err => .error err
    | .ok (xrep, ends) => .ok ⟨xrep, ends⟩
  | .xrecv =>
    match s.xrep.xrecv s.ends with
    | .error err => .error err
    | .ok (_, xrep, ends) => .ok ⟨xrep, ends⟩
  | .xhasIn =>
    match s.xrep.xhasIn s.ends with
    | .error err => .error err
    | .ok (_, xrep, ends) => .ok ⟨xrep, ends⟩

end XRepSystem

end Libxs
