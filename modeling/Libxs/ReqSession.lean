import Libxs.SessionBase
import Libxs.Wire
import Libxs.Foundation.Rounds

/-! # `req_session_t`: the format of the replies -/

namespace Libxs

open scoped Computability

/-! ## The session -/

inductive ReqState where
  | identity
  | reqid
  | bottom
  | body
deriving DecidableEq, Repr

structure ReqSession extends SessionBase where
  state : ReqState

namespace ReqSession

def init (options : Options) (connect : Bool) : ReqSession :=
  ⟨SessionBase.init options connect, .identity⟩

def pass (s : ReqSession) (state : ReqState) (msg : Msg) :
    Except Fault (Option Errno × Msg × ReqSession) :=
  match s.toSessionBase.write msg with
  | .error e => .error e
  | .ok (ok, msg, base) => .ok (if ok then none else some .eagain, msg, ⟨base, state⟩)

def write (s : ReqSession) (msg : Msg) : Except Fault (Option Errno × Msg × ReqSession) :=
  let refused := .ok (some .efault, msg, s)
  match s.state with
  | .reqid =>
    if msg.flags = Msg.moreFlag ∧ msg.size = 4 then s.pass .bottom msg else refused
  | .bottom =>
    if msg.flags = Msg.moreFlag ∧ msg.size = 0 then s.pass .body msg else refused
  | .body =>
    if msg.flags = Msg.moreFlag then s.pass .body msg
    else if msg.flags = 0 then s.pass .bottom msg
    else refused
  | .identity =>
    if msg.flags = 0 then
      s.pass (if s.options.spVersion ≥ 3 then .reqid else .bottom) msg
    else refused

def detach (s : ReqSession) : Except Fault ReqSession :=
  match s.toSessionBase.detach with
  | .error e => .error e
  | .ok base => .ok ⟨base, if s.options.recvIdentity then .identity else .bottom⟩

end ReqSession

/-! ## A connection -/

structure WirePart where
  data : List UInt8
  more : Bool
deriving DecidableEq, Repr

def WirePart.msg (p : WirePart) : Msg := ⟨false, if p.more then Msg.moreFlag else 0, p.data⟩

inductive ReqSessionOp where
  | write (part : WirePart)
  | change (base : SessionBase)

namespace ReqSession

def arriving (ops : List ReqSessionOp) : List WirePart :=
  ops.filterMap fun
    | .write part => some part
    | .change _ => none

def accepts : ReqSession → List ReqSessionOp → Bool
  | _, [] => true
  | s, .change base :: ops => accepts { s with toSessionBase := base } ops
  | s, .write part :: ops =>
    match s.write part.msg with
    | .error _ => false
    | .ok (some .efault, _, _) => false
    | .ok (_, _, s) => accepts s ops

inductive Fresh (options : Options) : ReqSession → Prop where
  | created (connect : Bool) : Fresh options (init options connect)
  | detached {s s' : ReqSession} : s.options = options → s.detach = .ok s' → Fresh options s'

end ReqSession

/-! ## The format of replies -/

namespace ReplyFormat

def identity : Language WirePart := letter fun p => p.more = false

def requestId : Language WirePart := letter fun p => p.more = true ∧ p.data.length = 4

def bottom : Language WirePart := letter fun p => p.more = true ∧ p.data = []

def body : Language WirePart := (letter fun p => p.more = true)∗ * letter fun p => p.more = false

def reply (version : Int) : Language WirePart :=
  if 3 ≤ version then requestId * (bottom * body) else bottom * body

def stream (version : Int) : Language WirePart := identity * (reply version)∗

end ReplyFormat

end Libxs
