import Libxs.Dist
import Libxs.Foundation.Supply
import Libxs.Fq.Intake
import Libxs.SocketBase
import Libxs.Wire

/-! # `xsurveyor_t` and `surveyor_t`: a survey and the responses to it

`src/xsurveyor.cpp` and `src/surveyor.cpp`. -/

namespace Libxs

variable {α : Type} [DecidableEq α]

structure XSurveyor (α : Type) where
  fq : Fq α
  dist : Dist α
  received : List (Msg × α)

namespace XSurveyor

def init : XSurveyor α := ⟨Fq.init, Dist.init, []⟩

def xattachPipe (s : XSurveyor α) (pipe : α) : Except Fault (XSurveyor α) :=
  match s.fq.attach pipe with
  | .error err => .error err
  | .ok fq =>
    match s.dist.attach pipe with
    | .error err => .error err
    | .ok dist => .ok { s with fq := fq, dist := dist }

def xreadActivated (s : XSurveyor α) (pipe : α) : Except Fault (XSurveyor α) :=
  match s.fq.activated pipe with
  | .error err => .error err
  | .ok fq => .ok { s with fq := fq }

def xwriteActivated (s : XSurveyor α) (pipe : α) : Except Fault (XSurveyor α) :=
  match s.dist.activated pipe with
  | .error err => .error err
  | .ok dist => .ok { s with dist := dist }

def xterminated (s : XSurveyor α) (pipe : α) : Except Fault (XSurveyor α) :=
  match s.fq.terminated pipe with
  | .error err => .error err
  | .ok fq =>
    match s.dist.terminated pipe with
    | .error err => .error err
    | .ok dist => .ok { s with fq := fq, dist := dist }

def xsend (s : XSurveyor α) (ends : Ends α) (msg : Msg) : Except Fault (XSurveyor α × Ends α) :=
  match s.dist.sendToAll ends msg with
  | .error err => .error err
  | .ok (dist, ends) => .ok ({ s with dist := dist }, ends)

/-- `none` is `EAGAIN`. -/
def xrecv (s : XSurveyor α) (ends : Ends α) : Except Fault (Option Msg × XSurveyor α × Ends α) :=
  match s.fq.recvpipe ends with
  | .error err => .error err
  | .ok (none, fq, ends) => .ok (none, { s with fq := fq }, ends)
  | .ok (some part, fq, ends) =>
    .ok (some part.1, { s with fq := fq, received := s.received ++ [part] }, ends)

def supply : Supply Fault (XSurveyor α × Ends α) Msg where
  recv := fun x =>
    match x.1.xrecv x.2 with
    | .error err => .error err
    | .ok (msg, s, ends) => .ok (msg, s, ends)
  more := Msg.more
  left := fun x => x.1.fq.backlog x.2

end XSurveyor

structure Surveyor (α : Type) extends XSurveyor α where
  surveyTimeout : Int
  receivingResponses : Bool
  surveyId : UInt32
  timeout : Nat
  prefetched : Option Msg

namespace Surveyor

def init (surveyTimeout : Int) (surveyId : UInt32) : Surveyor α :=
  ⟨XSurveyor.init, surveyTimeout, false, surveyId, 0, none⟩

def deadline (s : Surveyor α) (now : Nat) : Nat :=
  if s.surveyTimeout = 0 then 2 ^ 64 - 1 else ((now + s.surveyTimeout) % 2 ^ 64).toNat

def xsend (s : Surveyor α) (ends : Ends α) (msg : Msg) (sndmore : Bool) (now : Nat) :
    Except Fault (Except Errno Unit × Surveyor α × Ends α) :=
  if sndmore || msg.more then .ok (.error .einval, s, ends)
  else
    let id := s.surveyId + 1
    match s.toXSurveyor.xsend ends (Msg.idPart id) with
    | .error err => .error err
    | .ok (x, ends) =>
      match x.xsend ends msg with
      | .error err => .error err
      | .ok (x, ends) =>
        .ok (.ok (), { s with toXSurveyor := x, surveyId := id, receivingResponses := true,
                              timeout := s.deadline now }, ends)

def recvPart (s : Surveyor α) (ends : Ends α) : Except Fault (Option Msg × Surveyor α × Ends α) :=
  match XSurveyor.supply.recv (s.toXSurveyor, ends) with
  | .error err => .error err
  | .ok (msg, x, ends) => .ok (msg, { s with toXSurveyor := x }, ends)

def discard (s : Surveyor α) (ends : Ends α) : Except Fault (Surveyor α × Ends α) :=
  match XSurveyor.supply.drain .assertFailed .outOfFuel
      (XSurveyor.supply.left (s.toXSurveyor, ends) + 1) (s.toXSurveyor, ends) with
  | .error err => .error err
  | .ok (x, ends) => .ok ({ s with toXSurveyor := x }, ends)

def recvResponse (s : Surveyor α) (ends : Ends α) (now : Nat) :
    Except Fault (Except Errno Msg × Surveyor α × Ends α) :=
  match s.recvPart ends with
  | .error err => .error err
  | .ok (none, s, ends) =>
    .ok (.error (if now ≥ s.timeout then .etimedout else .eagain), s, ends)
  | .ok (some msg, s, ends) =>
    if !msg.more || msg.size != 4 || getUint32 msg.data != s.surveyId then
      match s.discard ends with
      | .error err => .error err
      | .ok (s, ends) => .ok (.error .eagain, s, ends)
    else
      match s.recvPart ends with
      | .error err => .error err
      -- errno_assert (rc == 0)
      | .ok (none, _, _) => .error .assertFailed
      | .ok (some msg, s, ends) => .ok (.ok msg, s, ends)

def xrecv (s : Surveyor α) (ends : Ends α) (now : Nat) :
    Except Fault (Except Errno Msg × Surveyor α × Ends α) :=
  if !s.receivingResponses then .ok (.error .efsm, s, ends)
  else
    match s.prefetched with
    | some msg => .ok (.ok msg, { s with prefetched := none }, ends)
    | none => s.recvResponse ends now

def xhasIn (s : Surveyor α) (ends : Ends α) (now : Nat) :
    Except Fault (Bool × Surveyor α × Ends α) :=
  if !s.receivingResponses then .ok (false, s, ends)
  else
    match s.prefetched with
    | some _ => .ok (true, s, ends)
    | none =>
      match s.xrecv ends now with
      | .error err => .error err
      | .ok (.error .eagain, s, ends) => .ok (false, s, ends)
      -- errno_assert (rc == 0)
      | .ok (.error _, _, _) => .error .assertFailed
      | .ok (.ok msg, s, ends) => .ok (true, { s with prefetched := some msg }, ends)

def rcvtimeo (s : Surveyor α) (option : Int) (now : Nat) : Int :=
  let t := (((s.timeout : Int) - now) % 2 ^ 64).bmod (2 ^ 32)
  if t < 0 then option
  else if option < 0 then t
  else min t option

def base (f : XSurveyor α → α → Except Fault (XSurveyor α)) (s : Surveyor α) (pipe : α) :
    Except Fault (Surveyor α) :=
  match f s.toXSurveyor pipe with
  | .error err => .error err
  | .ok x => .ok { s with toXSurveyor := x }

def sink : Sink (Surveyor α) α where
  fq := fun s => s.fq
  xattachPipe := base XSurveyor.xattachPipe
  xreadActivated := base XSurveyor.xreadActivated
  xwriteActivated := base XSurveyor.xwriteActivated
  xterminated := base XSurveyor.xterminated

end Surveyor

structure SurveyorSystem (α : Type) where
  surveyor : Surveyor α
  ends : Ends α

inductive SurveyorOp (α : Type) where
  | event (ev : PipeEvent α)
  | setTimeout (surveyTimeout : Int)
  | xsend (msg : Msg) (sndmore : Bool) (now : Nat)
  | xrecv (now : Nat)
  | xhasIn (now : Nat)

namespace SurveyorSystem

def init (surveyTimeout : Int) (surveyId : UInt32) : SurveyorSystem α :=
  ⟨Surveyor.init surveyTimeout surveyId, fun _ => Endpoint.init 0 0 true⟩

def step (s : SurveyorSystem α) : SurveyorOp α → Except Fault (SurveyorSystem α)
  | .event ev =>
    match ev.step Surveyor.sink s.surveyor s.ends with
    | .error err => .error err
    | .ok (surveyor, ends) => .ok ⟨surveyor, ends⟩
  | .setTimeout t => .ok { s with surveyor := { s.surveyor with surveyTimeout := t } }
  | .xsend msg sndmore now =>
    match s.surveyor.xsend s.ends msg sndmore now with
    | .error err => .error err
    | .ok (_, surveyor, ends) => .ok ⟨surveyor, ends⟩
  | .xrecv now =>
    match s.surveyor.xrecv s.ends now with
    | .error err => .error err
    | .ok (_, surveyor, ends) => .ok ⟨surveyor, ends⟩
  | .xhasIn now =>
    match s.surveyor.xhasIn s.ends now with
    | .error err => .error err
    | .ok (_, surveyor, ends) => .ok ⟨surveyor, ends⟩

end SurveyorSystem

end Libxs
