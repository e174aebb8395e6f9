import Libxs.Filter
import Libxs.Foundation.Supply
import Libxs.Fq.Feeding

/-! # `sub_t`: receiving what was subscribed to -/

namespace Libxs

structure Subscriptions where
  filters : List (Filter Unit)
  wf : ∀ f ∈ filters, f.WF

variable {α : Type} [DecidableEq α]

structure SubReader (α : Type) where
  fq : Fq α
  subscriptions : Subscriptions
  more : Bool
  message : Option Msg
  fetched : List (α × Msg)

namespace SubReader

def matchAny : List (Filter Unit) → List UInt8 → Except Fault Bool
  | [], _ => .ok false
  | f :: filters, data =>
    match f.sfMatch data with
    | .error err => .error err
    | .ok true => .ok true
    | .ok false => matchAny filters data

def recvPart (s : SubReader α) (ends : Ends α) : Except Fault (Option Msg × SubReader α × Ends α) :=
  match s.fq.recvpipe ends with
  | .error err => .error err
  | .ok (r, fq, ends) =>
    .ok (r.map Prod.fst, { s with fq := fq, fetched := s.fetched ++ Fq.entry r }, ends)

def supply : Supply Fault (SubReader α × Ends α) Msg where
  recv := fun x => x.1.recvPart x.2
  more := Msg.more
  left := fun x => x.1.fq.backlog x.2

def popRest (s : SubReader α) (ends : Ends α) (msg : Msg) : Except Fault (SubReader α × Ends α) :=
  if msg.more then supply.drain .assertFailed .outOfFuel (supply.left (s, ends) + 1) (s, ends)
  else .ok (s, ends)

def fetchLoop : Nat → SubReader α → Ends α → Except Fault (Option Msg × SubReader α × Ends α)
  | 0, _, _ => .error .outOfFuel
  | fuel + 1, s, ends =>
    match s.recvPart ends with
    | .error err => .error err
    | .ok (none, s, ends) => .ok (none, s, ends)
    | .ok (some msg, s, ends) =>
      match if s.more then .ok true else matchAny s.subscriptions.filters msg.data with
      | .error err => .error err
      | .ok true => .ok (some msg, s, ends)
      | .ok false =>
        match s.popRest ends msg with
        | .error err => .error err
        | .ok (s, ends) => fetchLoop fuel s ends

def xrecv (s : SubReader α) (ends : Ends α) : Except Fault (Option Msg × SubReader α × Ends α) :=
  match s.message with
  | some msg => .ok (some msg, { s with message := none, more := msg.more }, ends)
  | none =>
    match fetchLoop (s.fq.backlog ends + 1) s ends with
    | .error err => .error err
    | .ok (none, s, ends) => .ok (none, s, ends)
    | .ok (some msg, s, ends) => .ok (some msg, { s with more := msg.more }, ends)

def xhasIn (s : SubReader α) (ends : Ends α) : Except Fault (Bool × SubReader α × Ends α) :=
  if s.more then .ok (true, s, ends)
  else if s.message.isSome then .ok (true, s, ends)
  else
    match fetchLoop (s.fq.backlog ends + 1) s ends with
    | .error err => .error err
    | .ok (none, s, ends) => .ok (false, s, ends)
    | .ok (some msg, s, ends) => .ok (true, { s with message := some msg }, ends)

end SubReader

structure SubReaderSystem (α : Type) where
  sub : SubReader α
  ends : Ends α
  returned : List Msg
  fed : α → List Msg

inductive SubReaderOp (α : Type) where
  | pipes (op : PipeFeed α)
  | xrecv
  | xhasIn

namespace SubReaderSystem

def init (subscriptions : Subscriptions) (inhwm outhwm : α → Nat) (delay : α → Bool) :
    SubReaderSystem α where
  sub := ⟨Fq.init, subscriptions, false, none, []⟩
  ends := fun p => Endpoint.init (inhwm p) (outhwm p) (delay p)
  returned := []
  fed := fun _ => []

def step (s : SubReaderSystem α) : SubReaderOp α → Except Fault (SubReaderSystem α)
  | .pipes op =>
    match op.step s.sub.fq s.ends with
    | .error err => .error err
    | .ok (fq, ends) =>
      .ok { s with sub := { s.sub with fq := fq }, ends := ends,
                   fed := fun p => s.fed p ++ op.written p }
  | .xrecv =>
    match s.sub.xrecv s.ends with
    | .error err => .error err
    | .ok (r, sub, ends) =>
      .ok { s with sub := sub, ends := ends, returned := s.returned ++ r.toList }
  | .xhasIn =>
    match s.sub.xhasIn s.ends with
    | .error err => .error err
    | .ok (_, sub, ends) => .ok { s with sub := sub, ends := ends }

end SubReaderSystem

end Libxs
