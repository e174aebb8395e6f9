import Libxs.Foundation.Run
import Libxs.Foundation.InFlight
import Libxs.Msg
import Mathlib.Data.List.Sort

/-! # `own_t`: the tree of owned objects -/

namespace Libxs

inductive SeqCommand where
  | plug | attach | bind
deriving DecidableEq, Repr

inductive OwnCommand (α : Type) where
  | seq (kind : SeqCommand)
  | termReq (object : α)
  | term (linger : Int)
  | termAck (child : α)
deriving DecidableEq, Repr

structure Own (α : Type) where
  terminating : Bool
  sentSeqnum : UInt32
  processedSeqnum : UInt64
  owner : Option α
  owned : List α
  termAcks : Int
  linger : Int
deriving DecidableEq, Repr

namespace Own

variable {α : Type}

def init (linger : Int) : Own α := ⟨false, 0, 0, none, [], 0, linger⟩

structure Outcome (α : Type) where
  own : Own α
  sends : List (α × OwnCommand α)
  destroyed : Bool

def incSeqnum (o : Own α) : Own α := { o with sentSeqnum := o.sentSeqnum + 1 }

def caughtUp (o : Own α) : Bool := o.processedSeqnum == o.sentSeqnum.toUInt64

def checkTermAcks (self : α) (o : Own α) : Except Fault (Outcome α) :=
  if o.terminating && o.caughtUp && o.termAcks == 0 then
    if !o.owned.isEmpty then .error .assertFailed
    else .ok ⟨o, o.owner.toList.map fun p => (p, .termAck self), true⟩
  else .ok ⟨o, [], false⟩

def countProcessed (o : Own α) : Own α := { o with processedSeqnum := o.processedSeqnum + 1 }

def processSeqnum (self : α) (o : Own α) : Except Fault (Outcome α) :=
  checkTermAcks self o.countProcessed

def registerTermAcks (o : Own α) (count : Nat) : Own α := { o with termAcks := o.termAcks + count }

def beginTerm (o : Own α) : Own α :=
  { o.registerTermAcks o.owned.length with owned := [], terminating := true }

def processTerm (self : α) (linger : Int) (o : Own α) : Except Fault (Outcome α) :=
  -- double termination should never happen
  if o.terminating then .error .assertFailed
  else
    match checkTermAcks self o.beginTerm with
    | .error e => .error e
    | .ok r => .ok { r with sends := o.owned.map (fun c => (c, .term linger)) ++ r.sends }

def terminate (self : α) (o : Own α) : Except Fault (Outcome α) :=
  if o.terminating then .ok ⟨o, [], false⟩
  else
    match o.owner with
    | none => processTerm self o.linger o
    | some p => .ok ⟨o, [(p, .termReq self)], false⟩

def unregisterTermAck (self : α) (o : Own α) : Except Fault (Outcome α) :=
  if ¬ 0 < o.termAcks then .error .assertFailed
  else checkTermAcks self { o with termAcks := o.termAcks - 1 }

def setOwner (o : Own α) (p : α) : Except Fault (Own α) :=
  if o.owner.isSome then .error .assertFailed else .ok { o with owner := some p }

variable [LinearOrder α]

def release (object : α) (o : Own α) : Own α :=
  { o.registerTermAcks 1 with owned := o.owned.erase object }

def processTermReq (object : α) (o : Own α) : Outcome α :=
  if o.terminating then ⟨o, [], false⟩
  else if object ∉ o.owned then ⟨o, [], false⟩
  else ⟨o.release object, [(object, .term o.linger)], false⟩

def insertOwned (object : α) (owned : List α) : List α :=
  if object ∈ owned then owned else owned.orderedInsert (· ≤ ·) object

theorem mem_insertOwned {object c : α} {owned : List α} :
    c ∈ insertOwned object owned ↔ c = object ∨ c ∈ owned := by
  unfold insertOwned
  grind [List.mem_orderedInsert]

theorem nodup_insertOwned {object : α} {owned : List α} (h : owned.Nodup) :
    (insertOwned object owned).Nodup := by
  unfold insertOwned
  grind [List.perm_orderedInsert]

def launchChild (object : α) (o : Own α) : Outcome α :=
  if o.terminating then
    ⟨o.registerTermAcks 1, [(object, .seq .plug), (object, .term 0)], false⟩
  else ⟨{ o with owned := insertOwned object o.owned }, [(object, .seq .plug)], false⟩

def processCommand (self : α) (o : Own α) : OwnCommand α → Except Fault (Outcome α)
  | .seq _ => processSeqnum self o
  | .termReq object => .ok (processTermReq object o)
  | .term linger => processTerm self linger o
  | .termAck _ => unregisterTermAck self o

end Own

/-! ## The objects and their threads -/

inductive Life where
  | unborn
  | alive
  | destroyed
deriving DecidableEq, Repr

structure Envelope (α τ : Type) where
  source : τ
  destination : α
  command : OwnCommand α
deriving DecidableEq, Repr

structure OwnSystem (α τ : Type) where
  objs : α → Own α
  life : α → Life
  wire : List (Envelope α τ)
  terms : α → Nat
  acked : α → Bool
  sent : α → Nat
  processed : α → Nat
  reserved : α → Nat
  events : α → Nat

inductive OwnOp (α τ : Type) where
  | create (x : α)
  | launchChild (x child : α)
  | terminate (x : α)
  | incSeqnum (x : α)
  | send (source : τ) (x : α) (kind : SeqCommand)
  | deliver (source target : τ)
  | registerTermAcks (x : α) (count : Nat)
  | unregisterTermAck (x : α)

namespace OwnSystem

variable {α τ : Type} [LinearOrder α] [DecidableEq τ]

def init (linger : α → Int) : OwnSystem α τ where
  objs := fun x => Own.init (linger x)
  life := fun _ => .unborn
  wire := []
  terms := fun _ => 0
  acked := fun _ => false
  sent := fun _ => 0
  processed := fun _ => 0
  reserved := fun _ => 0
  events := fun _ => 0

def isTermTo (c : α) : α × OwnCommand α → Bool
  | (x, .term _) => x = c
  | _ => false

def apply (tid : α → τ) (s : OwnSystem α τ) (x : α) (r : Own.Outcome α) : OwnSystem α τ :=
  { s with
    objs := Function.update s.objs x r.own
    life := if r.destroyed then Function.update s.life x .destroyed else s.life
    wire := s.wire ++ r.sends.map fun m => ⟨tid x, m.1, m.2⟩
    terms := fun c => s.terms c + r.sends.countP (isTermTo c) }

def call (tid : α → τ) (s : OwnSystem α τ) (x : α) :
    Except Fault (Own.Outcome α) → Except Fault (OwnSystem α τ)
  | .error e => .error e
  | .ok r => .ok (s.apply tid x r)

def countSent (s : OwnSystem α τ) (x : α) : OwnSystem α τ :=
  { s with
    objs := Function.update s.objs x (s.objs x).incSeqnum
    sent := Function.update s.sent x (s.sent x + 1) }

def record (s : OwnSystem α τ) (x : α) : OwnCommand α → OwnSystem α τ
  | .seq _ => { s with processed := Function.update s.processed x (s.processed x + 1) }
  | .termAck child => { s with acked := Function.update s.acked child true }
  | _ => s

def route (tid : α → τ) (e : Envelope α τ) : τ × τ := (e.source, tid e.destination)

def step (tid : α → τ) (s : OwnSystem α τ) : OwnOp α τ → Except Fault (OwnSystem α τ)
  | .create x =>
    if s.life x = .unborn then .ok { s with life := Function.update s.life x .alive } else .ok s
  | .launchChild x child =>
    if s.life x = .alive ∧ s.life child = .unborn then
      match (s.objs child).setOwner x with
      | .error e => .error e
      | .ok c =>
        let s := { s with
          objs := Function.update s.objs child c
          life := Function.update s.life child .alive }
        -- `send_plug` announces the command to the child
        let s := s.countSent child
        .ok (s.apply tid x ((s.objs x).launchChild child))
    else .ok s
  | .terminate x =>
    if s.life x = .alive then s.call tid x ((s.objs x).terminate x) else .ok s
  | .incSeqnum x =>
    if s.life x = .destroyed then .ok s
    else .ok { s.countSent x with reserved := Function.update s.reserved x (s.reserved x + 1) }
  | .send source x kind =>
    if 0 < s.reserved x then
      .ok { s with
        reserved := Function.update s.reserved x (s.reserved x - 1)
        wire := s.wire ++ [⟨source, x, .seq kind⟩] }
    else .ok s
  | .deliver source target =>
    match deliverNext (route tid) (source, target) s.wire with
    | none => .ok s
    | some (e, wire) =>
      let x := e.destination
      if s.life x = .destroyed then .error .deadObject
      else
        ({ s with wire := wire }.record x e.command).call tid x
          ((s.objs x).processCommand x e.command)
  | .registerTermAcks x count =>
    if s.life x = .alive then
      .ok { s with
        objs := Function.update s.objs x ((s.objs x).registerTermAcks count)
        events := Function.update s.events x (s.events x + count) }
    else .ok s
  | .unregisterTermAck x =>
    if 0 < s.events x then
      { s with events := Function.update s.events x (s.events x - 1) }.call tid x
        ((s.objs x).unregisterTermAck x)
    else .ok s

end OwnSystem

end Libxs
