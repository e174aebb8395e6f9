import Libxs.Wire
import Libxs.Foundation.Run

/-! # `decoder_t`: from bytes to messages -/

namespace Libxs

inductive Answer where
  | accepted
  | again
  | failed
deriving DecidableEq, Repr

structure Session where
  answers : List Answer
  accepted : List Msg

def Session.write (s : Session) (msg : Msg) : Answer × Session :=
  match s.answers with
  | [] => (.accepted, { s with accepted := s.accepted ++ [msg] })
  | .accepted :: answers => (.accepted, ⟨answers, s.accepted ++ [msg]⟩)
  | .again :: answers => (.again, { s with answers := answers })
  | .failed :: answers => (.failed, { s with answers := answers })

inductive DecoderStep where
  | oneByteSizeReady
  | eightByteSizeReady
  | flagsReady
  | messageReady
deriving DecidableEq, Repr

structure Decoder where
  filled : List UInt8
  toRead : Nat
  next : Option DecoderStep
  bufsize : Nat
  maxmsgsize : Nat
  size : Nat
  flags : UInt8
deriving DecidableEq, Repr

namespace Decoder

def init (bufsize maxmsgsize : Nat) : Decoder where
  filled := []
  toRead := 1
  next := some .oneByteSizeReady
  bufsize := bufsize
  maxmsgsize := maxmsgsize
  size := 0
  flags := 0

def nextStep (d : Decoder) (toRead : Nat) (next : DecoderStep) : Decoder :=
  { d with filled := [], toRead := toRead, next := some next }

def decodingError (d : Decoder) : Decoder := { d with next := none }

def allocate (malloc : Nat → Bool) (d : Decoder) (size : Nat) : Except Fault (Bool × Decoder) :=
  match Msg.initSize malloc size with
  | .error e => .error e
  | .ok false => .ok (false, { d with size := 0, flags := 0 }.decodingError)
  | .ok true => .ok (true, { d with size := size, flags := 0 }.nextStep 1 .flagsReady)

def oneByteSizeReady (malloc : Nat → Bool) (d : Decoder) : Except Fault (Bool × Decoder) :=
  let b := d.filled.headD 0
  if b = 0xff then .ok (true, d.nextStep 8 .eightByteSizeReady)
  else if b = 0 then .ok (false, d.decodingError)
  else if d.maxmsgsize < b.toNat - 1 then
    .ok (false, { d with size := 0, flags := 0 }.decodingError)
  else d.allocate malloc (b.toNat - 1)

def eightByteSizeReady (malloc : Nat → Bool) (d : Decoder) : Except Fault (Bool × Decoder) :=
  let payloadLength := (getUint64 d.filled).toNat
  if payloadLength = 0 then .ok (false, d.decodingError)
  else if d.maxmsgsize < payloadLength - 1 then .ok (false, d.decodingError)
  -- `size_t` has 64 bits here
  else if 2 ^ 64 - 1 < payloadLength - 1 then .ok (false, d.decodingError)
  else d.allocate malloc (payloadLength - 1)

def flagsReady (d : Decoder) : Decoder :=
  { d with flags := d.flags ||| (d.filled.headD 0 &&& 0x01) }.nextStep d.size .messageReady

def message (d : Decoder) : Msg := ⟨false, d.flags, d.filled⟩

def messageReady (d : Decoder) (s : Session) : Bool × Decoder × Session :=
  match s.write d.message with
  | (.accepted, s) => (true, { d with size := 0, flags := 0 }.nextStep 1 .oneByteSizeReady, s)
  | (.again, s) => (false, d, s)
  | (.failed, s) => (false, d.decodingError, s)

def act (malloc : Nat → Bool) (d : Decoder) (s : Session) :
    Except Fault (Bool × Decoder × Session) :=
  match d.next with
  | none => .error .nullPointer
  | some .oneByteSizeReady =>
    match d.oneByteSizeReady malloc with
    | .error e => .error e
    | .ok (b, d) => .ok (b, d, s)
  | some .eightByteSizeReady =>
    match d.eightByteSizeReady malloc with
    | .error e => .error e
    | .ok (b, d) => .ok (b, d, s)
  | some .flagsReady => .ok (true, d.flagsReady, s)
  | some .messageReady => .ok (d.messageReady s)

def settle (malloc : Nat → Bool) : Nat → Decoder → Session → Except Fault (Bool × Decoder × Session)
  | 0, _, _ => .error .outOfFuel
  | fuel + 1, d, s =>
    if d.toRead ≠ 0 then .ok (true, d, s)
    else
      match d.act malloc s with
      | .error e => .error e
      | .ok (false, d, s) => .ok (false, d, s)
      | .ok (true, d, s) => settle malloc fuel d s

def settleFuel : Nat := 3

def fill (d : Decoder) (bytes : List UInt8) : Decoder :=
  { d with filled := d.filled ++ bytes, toRead := d.toRead - bytes.length }

def processed (d : Decoder) (pos : Nat) : Option Nat := if d.next = none then none else some pos

def copyLoop (malloc : Nat → Bool) : Nat → Decoder → Session → List UInt8 → Nat →
    Except Fault (Option Nat × Decoder × Session)
  | 0, _, _, _, _ => .error .outOfFuel
  | fuel + 1, d, s, data, pos =>
    match d.settle malloc settleFuel s with
    | .error e => .error e
    | .ok (false, d, s) => .ok (d.processed pos, d, s)
    | .ok (true, d, s) =>
      if data = [] then .ok (some pos, d, s)
      else
        let toCopy := min d.toRead data.length
        copyLoop malloc fuel (d.fill (data.take toCopy)) s (data.drop toCopy) (pos + toCopy)

def processBuffer (malloc : Nat → Bool) (d : Decoder) (s : Session) (direct : Bool)
    (data : List UInt8) : Except Fault (Option Nat × Decoder × Session) :=
  if d.next = none then .ok (none, d, s)
  else if direct then
    if d.toRead < data.length then .error .badIndex
    else
      match (d.fill data).settle malloc settleFuel s with
      | .error e => .error e
      | .ok (false, d, s) => .ok (d.processed data.length, d, s)
      | .ok (true, d, s) => .ok (some data.length, d, s)
  else d.copyLoop malloc (data.length + 1) s data 0

def getBuffer (d : Decoder) : Bool × Nat :=
  if d.bufsize ≤ d.toRead then (true, d.toRead) else (false, d.bufsize)

end Decoder

/-! ## A decoder fed from a stream -/

structure Feed where
  decoder : Decoder
  session : Session
  consumed : List UInt8
  rest : List UInt8
  insize : Nat
  returned : List (Option Nat)

inductive FeedOp where
  | inEvent (ready : Nat)
  | push (size : Nat)
deriving DecidableEq, Repr

namespace Feed

def init (bufsize maxmsgsize : Nat) (answers : List Answer) (stream : List UInt8) : Feed where
  decoder := .init bufsize maxmsgsize
  session := ⟨answers, []⟩
  consumed := []
  rest := stream
  insize := 0
  returned := []

def handIn (malloc : Nat → Bool) (f : Feed) (direct : Bool) (size : Nat) : Except Fault Feed :=
  match f.decoder.processBuffer malloc f.session direct (f.rest.take size) with
  | .error e => .error e
  | .ok (none, d, s) =>
    .ok { f with decoder := d, session := s, returned := f.returned ++ [none] }
  | .ok (some k, d, s) =>
    .ok { decoder := d, session := s, consumed := f.consumed ++ f.rest.take k,
          rest := f.rest.drop k, insize := size - k, returned := f.returned ++ [some k] }

def step (malloc : Nat → Bool) (f : Feed) : FeedOp → Except Fault Feed
  | .inEvent ready =>
    if f.insize = 0 then
      let (direct, room) := f.decoder.getBuffer
      f.handIn malloc direct (min (min ready room) f.rest.length)
    else f.handIn malloc false f.insize
  | .push size => f.handIn malloc false (min size f.rest.length)

end Feed

end Libxs
