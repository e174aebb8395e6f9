import Libxs.Filter
import Libxs.XSub

/-! # `sub_t`: subscriptions as socket options -/

namespace Libxs

variable {α : Type} [DecidableEq α]

structure Sub (α : Type) extends XSub α where
  filters : List (Filter Unit)
  filter : Nat

namespace Sub

def init : Sub α := ⟨XSub.init, [], PubSub.filterPrefixId⟩

def passOn (s : Sub α) (ends : Ends α) (subscribe : Bool) (data : List UInt8) :
    Except Fault (Option Errno × Sub α × Ends α) :=
  match s.toXSub.xsend ends (XSub.subscriptionMsg subscribe (s.filter, data)) with
  | .error err => .error err
  | .ok (errno, x, ends) => .ok (errno, { s with toXSub := x }, ends)

def filterSubscribed (s : Sub α) (ends : Ends α) (data : List UInt8) :
    Except Fault (Option Errno × Sub α × Ends α) :=
  s.passOn ends true data

def filterUnsubscribed (s : Sub α) (ends : Ends α) (data : List UInt8) :
    Except Fault (Option Errno × Sub α × Ends α) :=
  s.passOn ends false data

def assertDone {τ : Type} (r : Except Fault (Option Errno × τ)) : Except Fault τ :=
  match r with
  | .error err => .error err
  | .ok (some _, _) => .error .assertFailed
  | .ok (none, x) => .ok x

def finish (s : Sub α) (ends : Ends α) (data : List UInt8) (r : Except Fault (Filter.Return × Filter Unit)) :
    Except Fault (Sub α × Ends α) :=
  match r with
  | .error err => .error err
  | .ok (ret, f) =>
    let s := { s with filters := Filter.store s.filters f }
    match ret with
    | .value rc => if rc = 0 then .ok (s, ends) else .error .assertFailed
    | .subscribed => assertDone (s.filterSubscribed ends data)
    | .unsubscribed => assertDone (s.filterUnsubscribed ends data)

def xsetsockopt (s : Sub α) (ends : Ends α) (subscribe : Bool) (data : List UInt8) :
    Except Fault (Sub α × Ends α) :=
  match subscribe, Filter.find s.filters s.filter with
  | true, some f => s.finish ends data (f.sfSubscribe data)
  | true, none =>
    match Filter.create s.filter with
    | none => .error .assertFailed
    | some f => s.finish ends data (f.sfSubscribe data)
  | false, some f => s.finish ends data (f.sfUnsubscribe data)
  | false, none => .error .assertFailed

end Sub

structure SubSystem (α : Type) where
  sub : Sub α
  ends : Ends α
  spVersion : α → Nat
  log : α → List Msg
  tally : Tally

inductive SubOption (α : Type) where
  | filter (id : Nat)
  | option (subscribe : Bool) (data : List UInt8)
  | pipes (op : XSubOp α)

namespace SubSystem

def init : SubSystem α :=
  ⟨Sub.init, XSubSystem.init.ends, XSubSystem.init.spVersion, XSubSystem.init.log, Tally.init⟩

def base (s : SubSystem α) : XSubSystem α := ⟨s.sub.toXSub, s.ends, s.spVersion, s.log⟩

def withBase (s : SubSystem α) (b : XSubSystem α) : SubSystem α where
  sub := { s.sub with toXSub := b.sub }
  ends := b.ends
  spVersion := b.spVersion
  log := b.log
  tally := s.tally

def step (s : SubSystem α) : SubOption α → Except Fault (SubSystem α)
  | .filter id => .ok { s with sub := { s.sub with filter := id } }
  | .option subscribe data =>
    match s.sub.xsetsockopt s.ends subscribe data with
    | .error err => .error err
    | .ok (sub, ends) =>
      .ok { s with
        sub := sub, ends := ends
        log := fun p => s.log p ++ XSubSystem.written (s.ends p) (ends p)
        tally := s.tally.note ⟨subscribe, s.sub.filter, data⟩ }
  | .pipes (.send _) => .ok s
  | .pipes op =>
    match s.base.step op with
    | .error err => .error err
    | .ok b => .ok (s.withBase b)

end SubSystem

end Libxs
