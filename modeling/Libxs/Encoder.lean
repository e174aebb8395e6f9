import Libxs.Wire
import Libxs.Foundation.Run

/-! # `encoder_t`: from messages to bytes -/

namespace Libxs

abbrev Source : Type := List (Option Msg)

inductive EncoderStep where
  | sizeReady
  | messageReady
deriving DecidableEq, Repr

structure Encoder where
  writePos : List UInt8
  next : EncoderStep
  beginning : Bool
  bufsize : Nat
  inProgress : Msg
deriving DecidableEq, Repr

structure Batch where
  data : List UInt8
  more : Bool
  offset : Option Nat
deriving DecidableEq, Repr

namespace Encoder

def init (bufsize : Nat) : Encoder where
  writePos := []
  next := .messageReady
  beginning := true
  bufsize := bufsize
  inProgress := .init

def toWrite (e : Encoder) : Nat := e.writePos.length

def nextStep (e : Encoder) (writePos : List UInt8) (next : EncoderStep) (beginning : Bool) : Encoder :=
  { e with writePos := writePos, next := next, beginning := beginning }

def sizeReady (e : Encoder) : Encoder :=
  e.nextStep e.inProgress.data .messageReady (!e.inProgress.more)

def header (msg : Msg) : List UInt8 :=
  let size := (msg.size + 1) % 2 ^ 64
  let flags := msg.flags &&& ~~~ Msg.sharedFlag
  if size < 255 then [UInt8.ofNat size, flags]
  else 0xff :: putUint64 (UInt64.ofNat size) ++ [flags]

def messageReady (e : Encoder) : Source → Bool × Encoder × Source
  | [] => (false, { e with inProgress := .init }, [])
  | none :: source => (false, { e with inProgress := .init }, source)
  | some msg :: source =>
    (true, { e with inProgress := msg }.nextStep (header msg) .sizeReady false, source)

def act (e : Encoder) (source : Source) : Bool × Encoder × Source :=
  match e.next with
  | .sizeReady => (true, e.sizeReady, source)
  | .messageReady => e.messageReady source

def emit (e : Encoder) (own : Bool) (buffersize : Nat) (buffer : List UInt8) :
    Bool × List UInt8 × Encoder :=
  if buffer = [] ∧ own ∧ buffersize ≤ e.toWrite then (true, e.writePos, { e with writePos := [] })
  else
    let toCopy := min e.toWrite (buffersize - buffer.length)
    let buffer := buffer ++ e.writePos.take toCopy
    (buffer.length == buffersize, buffer, { e with writePos := e.writePos.drop toCopy })

def getDataLoop (own : Bool) (buffersize : Nat) : Nat → Encoder → Source → List UInt8 → Option Nat →
    Except Fault (Batch × Encoder × Source)
  | 0, _, _, _, _ => .error .outOfFuel
  | fuel + 1, e, source, buffer, offset =>
    let offset :=
      if e.toWrite = 0 ∧ e.beginning ∧ offset = none then some buffer.length else offset
    match if e.toWrite = 0 then e.act source else (true, e, source) with
    | (false, e, source) => .ok (⟨buffer, false, offset⟩, e, source)
    | (true, e, source) =>
      match e.emit own buffersize buffer with
      | (true, data, e) => .ok (⟨data, true, offset⟩, e, source)
      | (false, buffer, e) => getDataLoop own buffersize fuel e source buffer offset

def getData (e : Encoder) (source : Source) (supplied : Option Nat) :
    Except Fault (Batch × Encoder × Source) :=
  match supplied with
  | some size => getDataLoop false size (2 * source.length + 3) e source [] none
  | none => getDataLoop true e.bufsize (2 * source.length + 3) e source [] none

end Encoder

/-! ## An encoder that is emptied batch by batch -/

structure Sender where
  encoder : Encoder
  source : Source
  out : List UInt8

namespace Sender

def init (bufsize : Nat) (source : Source) : Sender := ⟨.init bufsize, source, []⟩

def step (s : Sender) (supplied : Option Nat) : Except Fault Sender :=
  match s.encoder.getData s.source supplied with
  | .error e => .error e
  | .ok (batch, e, source) => .ok ⟨e, source, s.out ++ batch.data⟩

end Sender

end Libxs
