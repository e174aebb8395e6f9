import Libxs.Foundation.Supply
import Libxs.Fq.Intake
import Libxs.Lb
import Libxs.SocketBase
import Libxs.Wire

/-! # `xreq_t` and `req_t`: requests and the replies to them

`src/xreq.cpp` and `src/req.cpp`. -/

namespace Libxs

variable {α : Type} [DecidableEq α]

structure XReq (α : Type) where
  fq : Fq α
  lb : Lb α
  prefetched : Option Msg

namespace XReq

def init : XReq α := ⟨Fq.init, Lb.init, none⟩

def xattachPipe (s : XReq α) (pipe : α) : Except Fault (XReq α) :=
  match s.fq.attach pipe with
  | .error err => .error err
  | .ok fq =>
    match s.lb.attach pipe with
    | .error err => .error err
    | .ok lb => .ok { s with fq := fq, lb := lb }

def xreadActivated (s : XReq α) (pipe : α) : Except Fault (XReq α) :=
  match s.fq.activated pipe with
  | .error err => .error err
  | .ok fq => .ok { s with fq := fq }

def xwriteActivated (s : XReq α) (pipe : α) : Except Fault (XReq α) :=
  match s.lb.activated pipe with
  | .error err => .error err
  | .ok lb => .ok { s with lb := lb }

def xterminated (s : XReq α) (pipe : α) : Except Fault (XReq α) :=
  match s.fq.terminated pipe with
  | .error err => .error err
  | .ok fq =>
    match s.lb.terminated pipe with
    | .error err => .error err
    | .ok lb => .ok { s with fq := fq, lb := lb }

def xsend (s : XReq α) (ends : Ends α) (msg : Msg) :
    Except Fault (SendResult α × XReq α × Ends α) :=
  match s.lb.send ends msg with
  | .error err => .error err
  | .ok (r, lb, ends) => .ok (r, { s with lb := lb }, ends)

def recvLoop : Nat → XReq α → Ends α → Except Fault (Option Msg × XReq α × Ends α)
  | 0, _, _ => .error .outOfFuel
  | fuel + 1, s, ends =>
    match s.fq.recvpipe ends with
    | .error err => .error err
    | .ok (none, fq, ends) => .ok (none, { s with fq := fq }, ends)
    | .ok (some (msg, _), fq, ends) =>
      if msg.isIdentity then recvLoop fuel { s with fq := fq } ends
      else .ok (some msg, { s with fq := fq }, ends)

def xrecv (s : XReq α) (ends : Ends α) : Except Fault (Option Msg × XReq α × Ends α) :=
  match s.prefetched with
  | some msg => .ok (some msg, { s with prefetched := none }, ends)
  | none => recvLoop (s.fq.backlog ends + 1) s ends

def xhasIn (s : XReq α) (ends : Ends α) : Except Fault (Bool × XReq α × Ends α) :=
  match s.prefetched with
  | some _ => .ok (true, s, ends)
  | none =>
    match s.xrecv ends with
    | .error err => .error err
    | .ok (none, s, ends) => .ok (false, s, ends)
    | .ok (some msg, s, ends) => .ok (true, { s with prefetched := some msg }, ends)

def xhasOut (s : XReq α) (ends : Ends α) : Except Fault (Bool × XReq α × Ends α) :=
  match s.lb.hasOut ends with
  | .error err => .error err
  | .ok (r, lb, ends) => .ok (r, { s with lb := lb }, ends)

def supply : Supply Fault (XReq α × Ends α) Msg where
  recv := fun x =>
    match x.1.xrecv x.2 with
    | .error err => .error err
    | .ok (msg, s, ends) => .ok (msg, s, ends)
  more := Msg.more
  left := fun x => x.1.fq.backlog x.2 + (if x.1.prefetched.isSome then 1 else 0)

end XReq

structure Req (α : Type) extends XReq α where
  spVersion : Int
  receivingReply : Bool
  messageBegins : Bool
  requestId : UInt32

namespace Req

def init (spVersion : Int) (requestId : UInt32) : Req α :=
  ⟨XReq.init, spVersion, false, true, requestId⟩

def bottomPart : Msg := { Msg.init with flags := Msg.moreFlag }

def sendPart (s : Req α) (ends : Ends α) (msg : Msg) :
    Except Fault (SendResult α × Req α × Ends α) :=
  match s.toXReq.xsend ends msg with
  | .error err => .error err
  | .ok (r, x, ends) => .ok (r, { s with toXReq := x }, ends)

def sendBottom (s : Req α) (ends : Ends α) : Except Fault (Bool × Req α × Ends α) :=
  match s.sendPart ends bottomPart with
  | .error err => .error err
  | .ok (.again, s, ends) => .ok (false, s, ends)
  | .ok (_, s, ends) => .ok (true, { s with messageBegins := false }, ends)

def sendEnvelope (s : Req α) (ends : Ends α) : Except Fault (Bool × Req α × Ends α) :=
  if 3 ≤ s.spVersion then
    match s.sendPart ends (Msg.idPart s.requestId) with
    | .error err => .error err
    | .ok (.again, s, ends) => .ok (false, s, ends)
    | .ok (_, s, ends) => s.sendBottom ends
  else s.sendBottom ends

def sendBody (s : Req α) (ends : Ends α) (msg : Msg) :
    Except Fault (Except Errno Unit × Req α × Ends α) :=
  match s.sendPart ends msg with
  | .error err => .error err
  | .ok (.again, s, ends) => .ok (.error .eagain, s, ends)
  | .ok (_, s, ends) =>
    if msg.more then .ok (.ok (), s, ends)
    else .ok (.ok (), { s with receivingReply := true, messageBegins := true }, ends)

def xsend (s : Req α) (ends : Ends α) (msg : Msg) :
    Except Fault (Except Errno Unit × Req α × Ends α) :=
  if s.receivingReply then .ok (.error .efsm, s, ends)
  else if s.messageBegins then
    match s.sendEnvelope ends with
    | .error err => .error err
    | .ok (false, s, ends) => .ok (.error .eagain, s, ends)
    | .ok (true, s, ends) => s.sendBody ends msg
  else s.sendBody ends msg

def recvPart (s : Req α) (ends : Ends α) : Except Fault (Option Msg × Req α × Ends α) :=
  match XReq.supply.recv (s.toXReq, ends) with
  | .error err => .error err
  | .ok (msg, x, ends) => .ok (msg, { s with toXReq := x }, ends)

inductive Round where
  | again
  | retry
  | done
deriving DecidableEq, Repr

def discard (s : Req α) (ends : Ends α) : Except Fault (Round × Req α × Ends α) :=
  match XReq.supply.drain .assertFailed .outOfFuel (XReq.supply.left (s.toXReq, ends) + 1)
      (s.toXReq, ends) with
  | .error err => .error err
  | .ok (x, ends) => .ok (.retry, { s with toXReq := x }, ends)

def recvBottom (s : Req α) (ends : Ends α) (msg : Msg) :
    Except Fault (Round × Req α × Ends α) :=
  if !msg.more || msg.size != 0 then s.discard ends else .ok (.done, s, ends)

def recvEnvelope (s : Req α) (ends : Ends α) : Except Fault (Round × Req α × Ends α) :=
  match s.recvPart ends with
  | .error err => .error err
  | .ok (none, s, ends) => .ok (.again, s, ends)
  | .ok (some msg, s, ends) =>
    if 3 ≤ s.spVersion then
      if !msg.more || msg.size != 4 || getUint32 msg.data != s.requestId then s.discard ends
      else
        match ({ s with requestId := s.requestId + 1 } : Req α).recvPart ends with
        | .error err => .error err
        -- errno_assert (rc == 0)
        | .ok (none, _, _) => .error .assertFailed
        | .ok (some msg, s, ends) => s.recvBottom ends msg
    else s.recvBottom ends msg

def retryLoop : Nat → Req α → Ends α → Except Fault (Bool × Req α × Ends α)
  | 0, _, _ => .error .outOfFuel
  | fuel + 1, s, ends =>
    match s.recvEnvelope ends with
    | .error err => .error err
    | .ok (.again, s, ends) => .ok (false, s, ends)
    | .ok (.retry, s, ends) => retryLoop fuel s ends
    | .ok (.done, s, ends) => .ok (true, { s with messageBegins := false }, ends)

def recvBody (s : Req α) (ends : Ends α) : Except Fault (Except Errno Msg × Req α × Ends α) :=
  match s.recvPart ends with
  | .error err => .error err
  | .ok (none, s, ends) => .ok (.error .eagain, s, ends)
  | .ok (some msg, s, ends) =>
    if msg.more then .ok (.ok msg, s, ends)
    else .ok (.ok msg, { s with receivingReply := false, messageBegins := true }, ends)

def xrecv (s : Req α) (ends : Ends α) : Except Fault (Except Errno Msg × Req α × Ends α) :=
  if !s.receivingReply then .ok (.error .efsm, s, ends)
  else if s.messageBegins then
    match retryLoop (XReq.supply.left (s.toXReq, ends) + 1) s ends with
    | .error err => .error err
    | .ok (false, s, ends) => .ok (.error .eagain, s, ends)
    | .ok (true, s, ends) => s.recvBody ends
  else s.recvBody ends

def xhasIn (s : Req α) (ends : Ends α) : Except Fault (Bool × Req α × Ends α) :=
  if !s.receivingReply then .ok (false, s, ends)
  else
    match s.toXReq.xhasIn ends with
    | .error err => .error err
    | .ok (r, x, ends) => .ok (r, { s with toXReq := x }, ends)

def xhasOut (s : Req α) (ends : Ends α) : Except Fault (Bool × Req α × Ends α) :=
  if s.receivingReply then .ok (false, s, ends)
  else
    match s.toXReq.xhasOut ends with
    | .error err => .error err
    | .ok (r, x, ends) => .ok (r, { s with toXReq := x }, ends)

def base (f : XReq α → α → Except Fault (XReq α)) (s : Req α) (pipe : α) : Except Fault (Req α) :=
  match f s.toXReq pipe with
  | .error err => .error err
  | .ok x => .ok { s with toXReq := x }

def sink : Sink (Req α) α where
  fq := fun s => s.fq
  xattachPipe := base XReq.xattachPipe
  xreadActivated := base XReq.xreadActivated
  xwriteActivated := base XReq.xwriteActivated
  xterminated := base XReq.xterminated

end Req

structure ReqSystem (α : Type) where
  req : Req α
  ends : Ends α
  asked : UInt32

inductive ReqOp (α : Type) where
  | event (ev : PipeEvent α)
  | xsend (msg : Msg)
  | xrecv
  | xhasIn
  | xhasOut

namespace ReqSystem

def init (spVersion : Int) (requestId : UInt32) : ReqSystem α :=
  ⟨Req.init spVersion requestId, fun _ => Endpoint.init 0 0 true, requestId⟩

def step (s : ReqSystem α) : ReqOp α → Except Fault (ReqSystem α)
  | .event ev =>
    match ev.step Req.sink s.req s.ends with
    | .error err => .error err
    | .ok (req, ends) => .ok { s with req := req, ends := ends }
  | .xsend msg =>
    match s.req.xsend s.ends msg with
    | .error err => .error err
    | .ok (_, req, ends) =>
      let begins := !s.req.receivingReply && s.req.messageBegins
      .ok ⟨req, ends, if begins then s.req.requestId else s.asked⟩
  | .xrecv =>
    match s.req.xrecv s.ends with
    | .error err => .error err
    | .ok (_, req, ends) => .ok { s with req := req, ends := ends }
  | .xhasIn =>
    match s.req.xhasIn s.ends with
    | .error err => .error err
    | .ok (_, req, ends) => .ok { s with req := req, ends := ends }
  | .xhasOut =>
    match s.req.xhasOut s.ends with
    | .error err => .error err
    | .ok (_, req, ends) => .ok { s with req := req, ends := ends }

end ReqSystem

end Libxs
