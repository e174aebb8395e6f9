import Libxs.Fq.Intake
import Libxs.SocketBase
import Libxs.Wire
import Mathlib.Data.List.AList

/-! # Sockets that route by the first part of a message -/

namespace Libxs

variable {κ α : Type}

structure OutPipe (α : Type) where
  pipe : α
  active : Bool
deriving DecidableEq

inductive Prefetched where
  | nothing
  | body
  | idAndBody
deriving DecidableEq, Repr

inductive RouteEvent (α : Type) where
  | sent (msg : Msg) (first : Bool) (named written : Option α)
  | closed (pipe : α)
  | received (pipe : α) (msg : Msg)
deriving DecidableEq

structure Router (κ α : Type) where
  fq : Fq α
  prefetched : Prefetched
  prefetchedId : List UInt8
  prefetchedMsg : Msg
  moreIn : Bool
  outpipes : AList fun _ : κ => OutPipe α
  currentOut : Option α
  moreOut : Bool
  nextPeerId : UInt32
  identity : α → List UInt8
  trace : List (RouteEvent α)

namespace Router

def init (nextPeerId : UInt32) : Router κ α :=
  ⟨Fq.init, .nothing, [], Msg.init, false, ∅, none, false, nextPeerId, fun _ => [], []⟩

def note (s : Router κ α) (events : List (RouteEvent α)) : Router κ α :=
  { s with trace := s.trace ++ events }

def idPart (id : List UInt8) : Msg := ⟨false, Msg.moreFlag, id⟩

def deliverFirst (s : Router κ α) (pipe : α) (msg : Msg) : Msg × Router κ α :=
  (idPart (s.identity pipe), { s with prefetchedMsg := msg, prefetched := .body })

def deliver (s : Router κ α) (pipe : α) (msg : Msg) : Msg × Router κ α :=
  if s.moreIn then (msg, { s with moreIn := msg.more }) else s.deliverFirst pipe msg

def takePrefetched (s : Router κ α) : Option (Msg × Router κ α) :=
  match s.prefetched with
  | .idAndBody => some (idPart s.prefetchedId, { s with prefetched := .body })
  | .body =>
    some (s.prefetchedMsg, { s with prefetchedMsg := Msg.init, moreIn := s.prefetchedMsg.more,
                                    prefetched := .nothing })
  | .nothing => none

variable [DecidableEq α]

def entryOf (s : Router κ α) (pipe : α) : Option (Σ _ : κ, OutPipe α) :=
  s.outpipes.entries.find? (fun x => x.2.pipe = pipe)

variable [DecidableEq κ]

def register (s : Router κ α) (key : κ) (pipe : α) : Except Fault (Router κ α) :=
  -- xs_assert (ok)
  if key ∈ s.outpipes then .error .assertFailed
  else .ok { s with outpipes := s.outpipes.insert key ⟨pipe, true⟩ }

def xterminated (s : Router κ α) (pipe : α) : Except Fault (Router κ α) :=
  match s.fq.terminated pipe with
  | .error err => .error err
  | .ok fq =>
    match s.entryOf pipe with
    -- xs_assert (false)
    | none => .error .assertFailed
    | some x =>
      .ok (({ s with
        fq := fq
        outpipes := s.outpipes.erase x.1
        currentOut := if s.currentOut = some pipe then none else s.currentOut } :
          Router κ α).note [.closed pipe])

def xreadActivated (s : Router κ α) (pipe : α) : Except Fault (Router κ α) :=
  match s.fq.activated pipe with
  | .error err => .error err
  | .ok fq => .ok { s with fq := fq }

def xwriteActivated (s : Router κ α) (pipe : α) : Except Fault (Router κ α) :=
  match s.entryOf pipe with
  -- xs_assert (false)
  | none => .error .assertFailed
  | some x =>
    -- xs_assert (!it->second.active)
    if x.2.active then .error .assertFailed
    else .ok { s with outpipes := s.outpipes.insert x.1 { x.2 with active := true } }

def sendFirst (s : Router κ α) (ends : Ends α) (msg : Msg) (key : Option κ) :
    Except Fault (Router κ α × Ends α) :=
  -- xs_assert (!current_out)
  if s.currentOut.isSome then .error .assertFailed
  else
    match key with
    | none => .ok (s.note [.sent msg true none none], ends)
    | some id =>
      match s.outpipes.lookup id with
      | none => .ok (({ s with moreOut := true } : Router κ α).note [.sent msg true none none], ends)
      | some out =>
        match (ends out.pipe).checkWrite with
        | (true, e) =>
          .ok (({ s with moreOut := true, currentOut := some out.pipe } : Router κ α).note
            [.sent msg true (some out.pipe) none], Function.update ends out.pipe e)
        | (false, e) =>
          .ok (({ s with outpipes := s.outpipes.insert id { out with active := false } } :
            Router κ α).note [.sent msg true (some out.pipe) none],
            Function.update ends out.pipe e)

def sendNext (s : Router κ α) (ends : Ends α) (msg : Msg) : Except Fault (Router κ α × Ends α) :=
  match s.currentOut with
  | none => .ok (({ s with moreOut := msg.more } : Router κ α).note [.sent msg false none none], ends)
  | some pipe =>
    match (ends pipe).write msg with
    | .error err => .error err
    | .ok (false, e) =>
      let closed := if (ends pipe).pipe.state = .active then [] else [.closed pipe]
      .ok (({ s with moreOut := msg.more, currentOut := none } : Router κ α).note
        (closed ++ [.sent msg false none none]), Function.update ends pipe e)
    | .ok (true, e) =>
      if msg.more then
        .ok (({ s with moreOut := true } : Router κ α).note [.sent msg false none (some pipe)],
          Function.update ends pipe e)
      else
        .ok (({ s with moreOut := false, currentOut := none } : Router κ α).note
          [.sent msg false none (some pipe)], Function.update ends pipe e.flush)

def xsend (address : Msg → Option κ) (s : Router κ α) (ends : Ends α) (msg : Msg) :
    Except Fault (Router κ α × Ends α) :=
  if s.moreOut then s.sendNext ends msg else s.sendFirst ends msg (address msg)

def xhasIn (xrecv : Router κ α → Ends α → Except Fault (Option Msg × Router κ α × Ends α))
    (s : Router κ α) (ends : Ends α) : Except Fault (Bool × Router κ α × Ends α) :=
  if s.moreIn then .ok (true, s, ends)
  else if s.prefetched ≠ .nothing then .ok (true, s, ends)
  else
    match xrecv s ends with
    | .error err => .error err
    | .ok (none, s, ends) => .ok (false, s, ends)
    | .ok (some id, s, ends) =>
      .ok (true, { s with prefetchedId := id.data, prefetched := .idAndBody }, ends)

end Router

end Libxs
