import Libxs.ArrayT.Partition
import Libxs.Foundation.Run
import Libxs.Pipe.Endpoint

/-! # `dist_t`: distribution over outbound pipes

`src/dist.cpp`. -/

namespace Libxs

variable {α : Type}

/-! ## An array with an empty slot -/

structure Slots (α : Type) where
  items : List (Option α)
  arrayIndex : α → Nat

namespace Slots

def ofArray (a : ArrayT α) : Slots α := ⟨a.items.map some, a.arrayIndex⟩

variable [DecidableEq α]

def setArrayIndex (f : α → Nat) (item : Option α) (i : Nat) : α → Nat :=
  match item with
  | none => f
  | some x => ArrayT.setArrayIndex f x i

def shift (s : Slots α) (i n : Nat) : Option (Slots α) :=
  match s.items[i]?, s.items[n - 1]? with
  | some _, some last =>
    let items := (s.items.set i last).set (n - 1) none
    some ⟨items, setArrayIndex s.arrayIndex (items[i]?.getD none) i⟩
  | _, _ => none

def eraseAt (s : Slots α) (i : Nat) : Option (Slots α) :=
  match s.items.getLast? with
  | none => none
  | some back =>
    if i < s.items.length then
      some ⟨(s.items.set i back).dropLast, setArrayIndex s.arrayIndex back i⟩
    else none

def pointers : List (Option α) → Option (List α)
  | [] => some []
  | none :: _ => none
  | some x :: rest => (pointers rest).map (x :: ·)

end Slots

/-! ## The distributor -/

structure Dist (α : Type) where
  pipes : ArrayT α
  matching : Nat
  active : Nat
  eligible : Nat
  more : Bool

inductive Region where
  | matching
  | active
  | eligible
  | passive
deriving DecidableEq, Repr

namespace Dist

def init : Dist α := ⟨ArrayT.empty, 0, 0, 0, false⟩

def attached (d : Dist α) (pipe : α) : Prop := pipe ∈ d.pipes.items

def region (d : Dist α) (pipe : α) : Region :=
  if d.pipes.index pipe < d.matching then .matching
  else if d.pipes.index pipe < d.active then .active
  else if d.pipes.index pipe < d.eligible then .eligible
  else .passive

variable [DecidableEq α]

instance (d : Dist α) (pipe : α) : Decidable (d.attached pipe) := by
  unfold attached; infer_instance

def attach (d : Dist α) (pipe : α) : Except Fault (Dist α) :=
  let pipes := d.pipes.pushBack pipe
  if d.more then
    match pipes.swap d.eligible (pipes.size - 1) with
    | none => .error .badIndex
    | some pipes => .ok { d with pipes := pipes, eligible := d.eligible + 1 }
  else
    match pipes.swap d.active (pipes.size - 1) with
    | none => .error .badIndex
    | some pipes =>
      .ok { d with pipes := pipes, active := d.active + 1, eligible := d.eligible + 1 }

/-- `match`. -/
def matchPipe (d : Dist α) (pipe : α) : Except Fault (Dist α) :=
  if d.pipes.index pipe < d.matching then .ok d
  else if d.pipes.index pipe ≥ d.eligible then .ok d
  else
    match d.pipes.swap (d.pipes.index pipe) d.matching with
    | none => .error .badIndex
    | some pipes => .ok { d with pipes := pipes, matching := d.matching + 1 }

def unmatch (d : Dist α) : Dist α := { d with matching := 0 }

def leave (s : Slots α) (i n : Nat) : Except Fault (Slots α × Nat × Nat) :=
  if i < n then
    match s.shift i n with
    | none => .error .badIndex
    | some s => .ok (s, n - 1, n - 1)
  else .ok (s, n, i)

def terminated (d : Dist α) (pipe : α) : Except Fault (Dist α) :=
  match leave (.ofArray d.pipes) (d.pipes.index pipe) d.matching with
  | .error e => .error e
  | .ok (s, matching, i) =>
    match leave s i d.active with
    | .error e => .error e
    | .ok (s, active, i) =>
      match leave s i d.eligible with
      | .error e => .error e
      | .ok (s, eligible, i) =>
        match s.eraseAt i with
        | none => .error .badIndex
        | some s =>
          match Slots.pointers s.items with
          | none => .error .nullPointer
          | some items =>
            .ok { d with
              pipes := ⟨items, s.arrayIndex⟩
              matching := matching
              active := active
              eligible := eligible }

def activated (d : Dist α) (pipe : α) : Except Fault (Dist α) :=
  match d.pipes.swap (d.pipes.index pipe) d.eligible with
  | none => .error .badIndex
  | some pipes =>
    let d := { d with pipes := pipes, eligible := d.eligible + 1 }
    if d.more then .ok d
    else
      match d.pipes.swap (d.eligible - 1) d.active with
      | none => .error .badIndex
      | some pipes => .ok { d with pipes := pipes, active := d.active + 1 }

def swapLast (a : ArrayT α) (i n : Nat) : Except Fault (ArrayT α) :=
  if n = 0 then .error .badIndex
  else
    match a.swap i (n - 1) with
    | none => .error .badIndex
    | some a => .ok a

def makePassive (d : Dist α) (pipe : α) : Except Fault (Dist α) :=
  match swapLast d.pipes (d.pipes.index pipe) d.matching with
  | .error e => .error e
  | .ok pipes =>
    match swapLast pipes (pipes.index pipe) d.active with
    | .error e => .error e
    | .ok pipes =>
      match swapLast pipes (d.active - 1) d.eligible with
      | .error e => .error e
      | .ok pipes =>
        .ok { d with
          pipes := pipes
          matching := d.matching - 1
          active := d.active - 1
          eligible := d.eligible - 1 }

def write (d : Dist α) (ends : Ends α) (pipe : α) (msg : Msg) :
    Except Fault (Bool × Dist α × Ends α) :=
  match (ends pipe).write msg with
  | .error e => .error e
  | .ok (false, e) =>
    match d.makePassive pipe with
    | .error err => .error err
    | .ok d => .ok (false, d, Function.update ends pipe e)
  | .ok (true, e) =>
    .ok (true, d, Function.update ends pipe (if msg.more then e else e.flush))

def distributeLoop : Nat → Nat → Dist α → Ends α → Msg → Except Fault (Nat × Dist α × Ends α)
  | 0, i, d, ends, _ => if i < d.matching then .error .outOfFuel else .ok (0, d, ends)
  | fuel + 1, i, d, ends, msg =>
    if i < d.matching then
      match d.pipes.get i with
      | none => .error .badIndex
      | some pipe =>
        match d.write ends pipe msg with
        | .error e => .error e
        | .ok (true, d, ends) => distributeLoop fuel (i + 1) d ends msg
        | .ok (false, d, ends) =>
          match distributeLoop fuel i d ends msg with
          | .error e => .error e
          | .ok (failed, d, ends) => .ok (failed + 1, d, ends)
    else .ok (0, d, ends)

def distribute (d : Dist α) (ends : Ends α) (msg : Msg) : Except Fault (Nat × Dist α × Ends α) :=
  distributeLoop d.matching 0 d ends msg

def sendToMatching (d : Dist α) (ends : Ends α) (msg : Msg) : Except Fault (Dist α × Ends α) :=
  match d.distribute ends msg with
  | .error e => .error e
  | .ok (_, d, ends) =>
    let d := if msg.more then d else { d with active := d.eligible }
    .ok ({ d with more := msg.more }, ends)

def sendToAll (d : Dist α) (ends : Ends α) (msg : Msg) : Except Fault (Dist α × Ends α) :=
  { d with matching := d.active }.sendToMatching ends msg

end Dist

/-! ## The distributor among its pipes -/

structure DistSystem (α : Type) where
  dist : Dist α
  ends : Ends α
  stalled : α → Bool
  late : α → Bool

inductive DistOp (α : Type) where
  | attach (pipe : α) (e : Endpoint)
  | activated (pipe : α)
  | matchPipe (pipe : α)
  | unmatch
  | terminated (pipe : α)
  | sendToAll (msg : Msg)
  | sendToMatching (msg : Msg)
  | change (pipe : α) (e : Endpoint)

namespace DistSystem

variable [DecidableEq α]

def init : DistSystem α :=
  ⟨Dist.init, fun _ => Endpoint.init 0 0 true, fun _ => false, fun _ => false⟩

abbrev attached (s : DistSystem α) (pipe : α) : Prop := s.dist.attached pipe

def noteSent (s : DistSystem α) (bound : Nat) (msg : Msg) (dist : Dist α) (ends : Ends α) :
    DistSystem α where
  dist := dist
  ends := ends
  stalled pipe :=
    s.stalled pipe || (decide (s.attached pipe ∧ s.dist.pipes.index pipe < bound) &&
      !(s.ends pipe).pipe.checkWrite.1)
  late pipe := s.late pipe && msg.more

def step (s : DistSystem α) : DistOp α → Except Fault (DistSystem α)
  | .attach pipe e =>
    if s.attached pipe ∨ ¬ e.Sound then .ok s
    else
      match s.dist.attach pipe with
      | .error err => .error err
      | .ok dist =>
        .ok ⟨dist, Function.update s.ends pipe e, Function.update s.stalled pipe false,
          Function.update s.late pipe s.dist.more⟩
  | .activated pipe =>
    if s.attached pipe then
      match s.dist.activated pipe with
      | .error err => .error err
      | .ok dist =>
        .ok { s with
          dist := dist
          stalled := Function.update s.stalled pipe false
          late := Function.update s.late pipe s.dist.more }
    else .ok s
  | .matchPipe pipe =>
    if s.attached pipe then
      match s.dist.matchPipe pipe with
      | .error err => .error err
      | .ok dist => .ok { s with dist := dist }
    else .ok s
  | .unmatch => .ok { s with dist := s.dist.unmatch }
  | .terminated pipe =>
    if s.attached pipe then
      match s.dist.terminated pipe with
      | .error err => .error err
      | .ok dist => .ok { s with dist := dist }
    else .ok s
  | .sendToAll msg =>
    match s.dist.sendToAll s.ends msg with
    | .error err => .error err
    | .ok (dist, ends) => .ok (s.noteSent s.dist.active msg dist ends)
  | .sendToMatching msg =>
    match s.dist.sendToMatching s.ends msg with
    | .error err => .error err
    | .ok (dist, ends) => .ok (s.noteSent s.dist.matching msg dist ends)
  | .change pipe e =>
    if e.Sound then .ok { s with ends := Function.update s.ends pipe e } else .ok s

end DistSystem

end Libxs
