import Libxs.Dist
import Libxs.Filter

/-! # `xpub_t`: subscriptions from downstream

The subscription side of the class of `src/xpub.cpp`. -/

namespace Libxs

variable {α : Type} [LinearOrder α]

structure XPub (α : Type) [LinearOrder α] where
  isPub : Bool
  filters : List (Filter α)
  dist : Dist α
  pending : List (List UInt8)

namespace XPub

def init (isPub : Bool) : XPub α := ⟨isPub, [], Dist.init, []⟩

def push (x : XPub α) (blob : List UInt8) : XPub α :=
  if x.isPub then x else { x with pending := x.pending ++ [blob] }

def filterUnsubscribed (x : XPub α) (tmpFilterId : Nat) (data : List UInt8) : XPub α :=
  x.push (PubSub.command ⟨false, tmpFilterId, data⟩)

def evaluate (x : XPub α) (data : List UInt8) : Filter.Return → Int × XPub α
  | .value rc => (rc, x)
  | .subscribed => (-1, x)
  | .unsubscribed => (0, x.filterUnsubscribed 65535 data)

def finish (x : XPub α) (blob data : List UInt8) (r : Except Fault (Filter.Return × Filter α)) :
    Except Fault (XPub α) :=
  match r with
  | .error err => .error err
  | .ok (ret, f) =>
    match ({ x with filters := Filter.store x.filters f } : XPub α).evaluate data ret with
    | (rc, x) => .ok (if rc ≠ 0 then x.push blob else x)

def filterFor (x : XPub α) (id : Nat) : Option (Filter α) :=
  match Filter.find x.filters id with
  | some f => some f
  | none => Filter.create id

def process (x : XPub α) (pipe : α) (blob : List UInt8) (c : Change Subscription) :
    Except Fault (XPub α) :=
  if c.present then
    match x.filterFor c.key.1 with
    | none => .error .assertFailed
    | some f => x.finish blob c.key.2 (f.pfSubscribe pipe c.key.2)
  else
    match Filter.find x.filters c.key.1 with
    | none => .error .assertFailed
    | some f => x.finish blob c.key.2 (f.pfUnsubscribe pipe c.key.2)

def readLoop : Nat → XPub α → α → Endpoint → Except Fault (XPub α × Endpoint)
  | 0, x, _, e => .ok (x, e)
  | fuel + 1, x, pipe, e =>
    match e.read with
    | .error err => .error err
    | .ok (none, e) => .ok (x, e)
    | .ok (some sub, e) =>
      match PubSub.parse sub.data with
      | none => .ok (x, e)
      | some c =>
        match x.process pipe sub.data c with
        | .error err => .error err
        | .ok x => readLoop fuel x pipe e

def xreadActivated (x : XPub α) (ends : Ends α) (pipe : α) : Except Fault (XPub α × Ends α) :=
  match readLoop ((ends pipe).inq.queue.length + 1) x pipe (ends pipe) with
  | .error err => .error err
  | .ok (x, e) => .ok (x, Function.update ends pipe e)

def subscribeAll (x : XPub α) (pipe : α) : Except Fault (XPub α) :=
  match x.filterFor PubSub.filterPrefixId with
  | none => .error .assertFailed
  | some f =>
    match f.pfSubscribe pipe [] with
    | .error err => .error err
    | .ok (_, f) => .ok { x with filters := Filter.store x.filters f }

def enter (x : XPub α) (icanhasall : Bool) (spVersion : Nat) (pipe : α) : Except Fault (XPub α) :=
  match x.dist.attach pipe with
  | .error err => .error err
  | .ok dist =>
    if icanhasall ∨ spVersion = 1 then ({ x with dist := dist } : XPub α).subscribeAll pipe
    else .ok { x with dist := dist }

def xattachPipe (x : XPub α) (ends : Ends α) (icanhasall : Bool) (spVersion : Nat) (pipe : α) :
    Except Fault (XPub α × Ends α) :=
  match x.enter icanhasall spVersion pipe with
  | .error err => .error err
  | .ok x => x.xreadActivated ends pipe

def unsubscribeAll : List (Filter α) → α → Except Fault (List (Filter α) × List Subscription)
  | [], _ => .ok ([], [])
  | f :: filters, pipe =>
    match f.pfUnsubscribeAll pipe with
    | .error err => .error err
    | .ok (f, calls) =>
      match unsubscribeAll filters pipe with
      | .error err => .error err
      | .ok (filters, keys) => .ok (f :: filters, calls.map (f.id, ·) ++ keys)

def xterminated (x : XPub α) (pipe : α) : Except Fault (XPub α) :=
  match unsubscribeAll x.filters pipe with
  | .error err => .error err
  | .ok (filters, keys) =>
    let x := keys.foldl (fun x key => x.filterUnsubscribed key.1 key.2)
      { x with filters := filters }
    match x.dist.terminated pipe with
    | .error err => .error err
    | .ok dist => .ok { x with dist := dist }

/-- `none` is `EAGAIN`. -/
def xrecv (x : XPub α) : Option (List UInt8) × XPub α :=
  match x.pending with
  | [] => (none, x)
  | blob :: pending => (some blob, { x with pending := pending })

def xhasIn (x : XPub α) : Bool := !x.pending.isEmpty

end XPub

abbrev Wants (α : Type) : Type := α → List Subscription

def Wants.note (w : Wants α) (pipe : α) (c : Change Subscription) : Wants α :=
  Function.update w pipe (if c.present then c.key :: w pipe else (w pipe).erase c.key)

def Endpoint.commands : Nat → Endpoint → List (List UInt8 × Change Subscription)
  | 0, _ => []
  | fuel + 1, e =>
    match e.read with
    | .ok (some sub, e) =>
      match PubSub.parse sub.data with
      | none => []
      | some c => (sub.data, c) :: commands fuel e
    | _ => []

def Endpoint.waiting (e : Endpoint) : List (List UInt8 × Change Subscription) :=
  e.commands (e.inq.queue.length + 1)

structure XPubSystem (α : Type) [LinearOrder α] where
  pub : XPub α
  ends : Ends α
  received : List (List UInt8)
  wants : Wants α

inductive XPubOp (α : Type) where
  | attach (pipe : α) (e : Endpoint) (icanhasall : Bool) (spVersion : Nat)
  | activateRead (pipe : α)
  | terminated (pipe : α)
  | recv
  | change (pipe : α) (e : Endpoint)

namespace XPubSystem

def init (isPub : Bool) : XPubSystem α :=
  ⟨XPub.init isPub, fun _ => Endpoint.init 0 0 true, [], fun _ => []⟩

abbrev attached (s : XPubSystem α) (pipe : α) : Prop := s.pub.dist.attached pipe

instance (s : XPubSystem α) (pipe : α) : Decidable (s.attached pipe) :=
  inferInstanceAs (Decidable (s.pub.dist.attached pipe))

def noteAll (wants : Wants α) (pipe : α) (e : Endpoint) : Wants α :=
  e.waiting.foldl (fun w c => w.note pipe c.2) wants

def noteAttached (wants : Wants α) (pipe : α) (icanhasall : Bool) (spVersion : Nat) : Wants α :=
  if icanhasall ∨ spVersion = 1 then wants.note pipe ⟨true, PubSub.filterPrefixId, []⟩ else wants

def step (s : XPubSystem α) : XPubOp α → Except Fault (XPubSystem α)
  | .attach pipe e icanhasall spVersion =>
    if s.attached pipe then .ok s
    else
      match s.pub.xattachPipe (Function.update s.ends pipe e) icanhasall spVersion pipe with
      | .error err => .error err
      | .ok (pub, ends) =>
        .ok { s with
          pub := pub, ends := ends
          wants := noteAll (noteAttached s.wants pipe icanhasall spVersion) pipe e }
  | .activateRead pipe =>
    if s.attached pipe then
      match (s.ends pipe).processActivateRead with
      | (false, e) => .ok { s with ends := Function.update s.ends pipe e }
      | (true, e) =>
        match s.pub.xreadActivated (Function.update s.ends pipe e) pipe with
        | .error err => .error err
        | .ok (pub, ends) =>
          .ok { s with pub := pub, ends := ends, wants := noteAll s.wants pipe e }
    else .ok s
  | .terminated pipe =>
    if s.attached pipe then
      match s.pub.xterminated pipe with
      | .error err => .error err
      | .ok pub => .ok { s with pub := pub, wants := Function.update s.wants pipe [] }
    else .ok s
  | .recv =>
    match s.pub.xrecv with
    | (none, pub) => .ok { s with pub := pub }
    | (some blob, pub) => .ok { s with pub := pub, received := s.received ++ [blob] }
  | .change pipe e => .ok { s with ends := Function.update s.ends pipe e }

end XPubSystem

end Libxs
