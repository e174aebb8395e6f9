import Libxs.Decoder

/-! # `pgm_receiver_t`: messages out of datagrams

`src/pgm_receiver.cpp`. -/

namespace Libxs

variable {τ : Type}

inductive Received (τ : Type) where
  | nothing
  | loss (tsi : τ)
  | datagram (tsi : τ) (data : List UInt8)
deriving DecidableEq

structure PeerInfo where
  joined : Bool
  decoder : Option Decoder
deriving DecidableEq

structure PgmReceiver (τ : Type) where
  header : List UInt8
  maxmsgsize : Nat
  peers : τ → Option PeerInfo
  mruDecoder : Option τ
  pendingBytes : Nat
  pendingPtr : List UInt8
  answers : List Answer
  incoming : List (Received τ)
  received : List (Received τ)
  delivered : List (τ × Msg)

inductive PgmOp where
  | round
  | activateIn
deriving DecidableEq

namespace PgmReceiver

def init (header : List UInt8) (maxmsgsize : Nat) (answers : List Answer)
    (incoming : List (Received τ)) : PgmReceiver τ :=
  ⟨header, maxmsgsize, fun _ => none, none, 0, [], answers, incoming, [], []⟩

def unpack (header data : List UInt8) : Option (UInt16 × List UInt8) :=
  if data.length < header.length then none
  else if data.take header.length ≠ header then none
  else
    let data := data.drop header.length
    if data.length < 2 then none else some (getUint16 data, data.drop 2)

variable [DecidableEq τ]

def processBuffer (malloc : Nat → Bool) (s : PgmReceiver τ) (tsi : τ) (decoder : Decoder)
    (data : List UInt8) : Except Fault (Option Nat × PgmReceiver τ) :=
  match decoder.processBuffer malloc ⟨s.answers, []⟩ false data with
  | .error err => .error err
  | .ok (n, decoder, session) =>
    .ok (n, { s with
      peers := Function.update s.peers tsi (some ⟨true, some decoder⟩)
      answers := session.answers
      delivered := s.delivered ++ session.accepted.map (tsi, ·) })

def push (malloc : Nat → Bool) (s : PgmReceiver τ) (tsi : τ) (decoder : Decoder)
    (data : List UInt8) : Except Fault (PgmReceiver τ) :=
  match ({ s with mruDecoder := some tsi } : PgmReceiver τ).processBuffer malloc tsi decoder data with
  | .error err => .error err
  | .ok (some processed, s) =>
    .ok (if processed < data.length then
      { s with pendingBytes := data.length - processed, pendingPtr := data.drop processed } else s)
  -- `processed` is -1, and the pointer, which nobody will follow, one byte before the data
  | .ok (none, s) => .ok { s with pendingBytes := data.length + 1, pendingPtr := data }

def join (malloc : Nat → Bool) (s : PgmReceiver τ) (tsi : τ) (decoder : Option Decoder)
    (offset : UInt16) (data : List UInt8) : Except Fault (PgmReceiver τ) :=
  let s := { s with peers := Function.update s.peers tsi (some ⟨false, decoder⟩) }
  if offset = 0xffff then .ok s
  -- xs_assert (offset <= received)
  else if data.length < offset.toNat then .error .assertFailed
  -- xs_assert (it->second.decoder == NULL)
  else if decoder.isSome then .error .assertFailed
  else s.push malloc tsi (.init 0 s.maxmsgsize) (data.drop offset.toNat)

def datagram (malloc : Nat → Bool) (s : PgmReceiver τ) (tsi : τ) (data : List UInt8) :
    Except Fault (PgmReceiver τ) :=
  match unpack s.header data with
  | none => .ok s
  | some (offset, data) =>
    match s.peers tsi with
    | none => s.join malloc tsi none offset data
    | some ⟨false, decoder⟩ => s.join malloc tsi decoder offset data
    | some ⟨true, none⟩ => .error .nullPointer
    | some ⟨true, some decoder⟩ => s.push malloc tsi decoder data

def loss (s : PgmReceiver τ) (tsi : τ) : PgmReceiver τ :=
  match s.peers tsi with
  | none => s
  | some _ =>
    { s with
      peers := Function.update s.peers tsi (some ⟨false, none⟩)
      mruDecoder := if s.mruDecoder = some tsi then none else s.mruDecoder }

def round (malloc : Nat → Bool) (s : PgmReceiver τ) : Except Fault (PgmReceiver τ) :=
  if 0 < s.pendingBytes then .ok s
  else
    match s.incoming with
    | [] => .ok s
    | r :: incoming =>
      let s := { s with incoming := incoming, received := s.received ++ [r] }
      match r with
      | .nothing => .ok s
      | .loss tsi => .ok (s.loss tsi)
      | .datagram tsi data => s.datagram malloc tsi data

def activateIn (malloc : Nat → Bool) (s : PgmReceiver τ) : Except Fault (PgmReceiver τ) :=
  match s.mruDecoder with
  -- xs_assert (mru_decoder != NULL)
  | none => if s.pendingBytes = 0 then .ok s else .error .assertFailed
  | some tsi =>
    match s.peers tsi with
    | some ⟨_, some decoder⟩ =>
      if s.pendingBytes = 0 then
        match s.processBuffer malloc tsi decoder [] with
        | .error err => .error err
        | .ok (_, s) => .ok s
      else
        match s.processBuffer malloc tsi decoder (s.pendingPtr.take s.pendingBytes) with
        | .error err => .error err
        | .ok (some n, s) => .ok { s with pendingBytes := s.pendingBytes - n }
        -- pending_bytes -= (size_t) -1
        | .ok (none, s) => .ok { s with pendingBytes := s.pendingBytes + 1 }
    | _ => .error .nullPointer

def step (malloc : Nat → Bool) (s : PgmReceiver τ) : PgmOp → Except Fault (PgmReceiver τ)
  | .round => s.round malloc
  | .activateIn => s.activateIn malloc

def deliveredBy (s : PgmReceiver τ) (tsi : τ) : List Msg :=
  (s.delivered.filter (·.1 = tsi)).map (·.2)

end PgmReceiver

end Libxs
