import Libxs.Dist
import Libxs.Fq
import Libxs.PubSub
import Mathlib.Data.List.AList

/-! # `xsub_t`: subscriptions on their way upstream

`src/xsub.cpp` on top of `Fq` and `Dist`. -/

namespace Libxs

variable {α : Type} [DecidableEq α]

structure XSub (α : Type) where
  fq : Fq α
  dist : Dist α
  subscriptions : AList fun _ : Subscription => Nat

namespace XSub

def init : XSub α := ⟨Fq.init, Dist.init, ∅⟩

def subscriptionMsg (subscribe : Bool) (key : Subscription) : Msg :=
  ⟨false, 0, PubSub.command ⟨subscribe, key⟩⟩

def sendSubscription (e : Endpoint) (subscribe : Bool) (key : Subscription) :
    Except Fault Endpoint :=
  match e.write (subscriptionMsg subscribe key) with
  | .error err => .error err
  | .ok (_, e) => .ok e

def sendSubscriptions (e : Endpoint) : List Subscription → Except Fault Endpoint
  | [] => .ok e
  | key :: keys =>
    match sendSubscription e true key with
    | .error err => .error err
    | .ok e => sendSubscriptions e keys

def sendCached (x : XSub α) (e : Endpoint) : Except Fault Endpoint :=
  match sendSubscriptions e x.subscriptions.keys with
  | .error err => .error err
  | .ok e => .ok e.flush

def xattachPipe (x : XSub α) (ends : Ends α) (spVersion : Nat) (pipe : α) :
    Except Fault (XSub α × Ends α) :=
  match x.fq.attach pipe with
  | .error err => .error err
  | .ok fq =>
    if spVersion = 1 then .ok ({ x with fq := fq }, ends)
    else
      match x.dist.attach pipe with
      | .error err => .error err
      | .ok dist =>
        match x.sendCached (ends pipe) with
        | .error err => .error err
        | .ok e => .ok ({ x with fq := fq, dist := dist }, Function.update ends pipe e)

def xreadActivated (x : XSub α) (pipe : α) : Except Fault (XSub α) :=
  match x.fq.activated pipe with
  | .error err => .error err
  | .ok fq => .ok { x with fq := fq }

def xwriteActivated (x : XSub α) (pipe : α) : Except Fault (XSub α) :=
  match x.dist.activated pipe with
  | .error err => .error err
  | .ok dist => .ok { x with dist := dist }

def xterminated (x : XSub α) (spVersion : Nat) (pipe : α) : Except Fault (XSub α) :=
  match x.fq.terminated pipe with
  | .error err => .error err
  | .ok fq =>
    if spVersion = 1 then .ok { x with fq := fq }
    else
      match x.dist.terminated pipe with
      | .error err => .error err
      | .ok dist => .ok { x with fq := fq, dist := dist }

def xhiccuped (x : XSub α) (ends : Ends α) (spVersion : Nat) (pipe : α) : Except Fault (Ends α) :=
  if spVersion = 1 then .ok ends
  else
    match x.sendCached (ends pipe) with
    | .error err => .error err
    | .ok e => .ok (Function.update ends pipe e)

def count (x : XSub α) (key : Subscription) : Nat := (x.subscriptions.lookup key).getD 0

def subscribe (x : XSub α) (key : Subscription) : Except Fault (Bool × XSub α) :=
  if x.count key + 1 < 2 ^ 31 then
    .ok (x.count key + 1 == 1,
      { x with subscriptions := x.subscriptions.insert key (x.count key + 1) })
  else .error .signedOverflow

def unsubscribe (x : XSub α) (key : Subscription) : Except Fault (Bool × XSub α) :=
  match x.subscriptions.lookup key with
  | none => .ok (false, x)
  | some 0 => .error .assertFailed
  | some 1 => .ok (true, { x with subscriptions := x.subscriptions.erase key })
  | some (count + 2) =>
    .ok (false, { x with subscriptions := x.subscriptions.insert key (count + 1) })

def process (x : XSub α) (c : Change Subscription) : Except Fault (Bool × XSub α) :=
  if c.present then x.subscribe c.key else x.unsubscribe c.key

/-- `none` is success. -/
def xsend (x : XSub α) (ends : Ends α) (msg : Msg) :
    Except Fault (Option Errno × XSub α × Ends α) :=
  match PubSub.parse msg.data with
  | none => .ok (some .einval, x, ends)
  | some c =>
    match x.process c with
    | .error err => .error err
    | .ok (false, x) => .ok (none, x, ends)
    | .ok (true, x) =>
      match x.dist.sendToAll ends msg with
      | .error err => .error err
      | .ok (dist, ends) => .ok (none, { x with dist := dist }, ends)

def xrecv (x : XSub α) (ends : Ends α) :
    Except Fault (Option (Msg × α) × XSub α × Ends α) :=
  match x.fq.recvpipe ends with
  | .error err => .error err
  | .ok (msg, fq, ends) => .ok (msg, { x with fq := fq }, ends)

def xhasIn (x : XSub α) (ends : Ends α) : Except Fault (Bool × XSub α × Ends α) :=
  match x.fq.hasIn ends with
  | .error err => .error err
  | .ok (has, fq, ends) => .ok (has, { x with fq := fq }, ends)

end XSub

structure XSubSystem (α : Type) where
  sub : XSub α
  ends : Ends α
  spVersion : α → Nat
  log : α → List Msg

inductive XSubOp (α : Type) where
  | attach (pipe : α) (inhwm outhwm : Nat) (delay : Bool) (spVersion : Nat)
  | send (msg : Msg)
  | hiccup (pipe : α)
  | activateWrite (pipe : α) (msgsRead : Nat)
  | terminated (pipe : α)
  | change (pipe : α) (e : Endpoint)

namespace XSubSystem

def init : XSubSystem α := ⟨XSub.init, fun _ => Endpoint.init 0 0 true, fun _ => 4, fun _ => []⟩

abbrev attached (s : XSubSystem α) (pipe : α) : Prop := s.sub.fq.attached pipe

def written (before after : Endpoint) : List Msg :=
  after.outq.queue.drop before.outq.queue.length

def plugged (s : XSubSystem α) (pipe : α) (sub : XSub α) (ends : Ends α) : XSubSystem α :=
  { s with sub := sub, ends := ends, log := Function.update s.log pipe (ends pipe).outq.queue }

def step (s : XSubSystem α) : XSubOp α → Except Fault (XSubSystem α)
  | .attach pipe inhwm outhwm delay spVersion =>
    if s.attached pipe then .ok s
    else
      let ends := Function.update s.ends pipe (Endpoint.init inhwm outhwm delay)
      match s.sub.xattachPipe ends spVersion pipe with
      | .error err => .error err
      | .ok (sub, ends) =>
        .ok { (s.plugged pipe sub ends) with
          spVersion := Function.update s.spVersion pipe spVersion }
  | .send msg =>
    match s.sub.xsend s.ends msg with
    | .error err => .error err
    | .ok (_, sub, ends) =>
      .ok { s with
        sub := sub, ends := ends, log := fun p => s.log p ++ written (s.ends p) (ends p) }
  | .hiccup pipe =>
    if s.attached pipe ∧ (s.ends pipe).pipe.outpipe ≠ none then
      match (s.ends pipe).processHiccup with
      | .error err => .error err
      | .ok (false, e) => .ok (s.plugged pipe s.sub (Function.update s.ends pipe e))
      | .ok (true, e) =>
        match s.sub.xhiccuped (Function.update s.ends pipe e) (s.spVersion pipe) pipe with
        | .error err => .error err
        | .ok ends => .ok (s.plugged pipe s.sub ends)
    else .ok s
  | .activateWrite pipe msgsRead =>
    if s.attached pipe then
      match (s.ends pipe).processActivateWrite msgsRead with
      | (false, e) => .ok { s with ends := Function.update s.ends pipe e }
      | (true, e) =>
        match s.sub.xwriteActivated pipe with
        | .error err => .error err
        | .ok sub => .ok { s with sub := sub, ends := Function.update s.ends pipe e }
    else .ok s
  | .terminated pipe =>
    if s.attached pipe then
      match s.sub.xterminated (s.spVersion pipe) pipe with
      | .error err => .error err
      | .ok sub => .ok { s with sub := sub }
    else .ok s
  | .change pipe e =>
    if e.Sound ∧ (s.ends pipe).pipe.OutboundKept e.pipe then
      .ok { s with ends := Function.update s.ends pipe e }
    else .ok s

end XSubSystem

end Libxs
