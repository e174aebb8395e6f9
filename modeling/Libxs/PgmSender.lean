import Libxs.Encoder

/-! # `pgm_sender_t`: messages into datagrams

`src/pgm_sender.cpp`. -/

namespace Libxs

structure DatagramFormat where
  header : List UInt8
  outBufferSize : Nat
  room : header.length + 2 < outBufferSize
  fits : outBufferSize < 2 ^ 16

def DatagramFormat.encodeBufferSize (format : DatagramFormat) : Nat :=
  format.outBufferSize - format.header.length - 2

structure PgmSender where
  format : DatagramFormat
  encoder : Encoder
  source : Source
  outBuffer : List UInt8
  sent : List (List UInt8)

namespace PgmSender

def init (format : DatagramFormat) (source : Source) : PgmSender := ⟨format, .init 0, source, [], []⟩

def offsetField : Option Nat → UInt16
  | none => 0xffff
  | some offset => UInt16.ofNat offset

def pack (header : List UInt8) (batch : Batch) : List UInt8 :=
  header ++ (putUint16 (offsetField batch.offset) ++ batch.data)

def send (s : PgmSender) (taken : Bool) : PgmSender :=
  if taken then { s with outBuffer := [], sent := s.sent ++ [s.outBuffer] } else s

def outEvent (s : PgmSender) (taken : Bool) : Except Fault PgmSender :=
  if s.outBuffer = [] then
    match s.encoder.getData s.source (some s.format.encodeBufferSize) with
    | .error err => .error err
    | .ok (batch, encoder, source) =>
      let s := { s with encoder := encoder, source := source }
      if batch.data = [] then .ok s
      else .ok (({ s with outBuffer := pack s.format.header batch } : PgmSender).send taken)
  else .ok (s.send taken)

end PgmSender

end Libxs
