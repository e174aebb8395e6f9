import Libxs.YPipe
import Mathlib.Data.Finset.Card

/-! # `mailbox_t`: commands from many threads to one -/

namespace Libxs

variable {ι κ : Type}

structure SignalerKind where
  eventfd : Bool
  capacity : Nat
  two_le : 2 ≤ capacity

structure Signaler where
  kind : SignalerKind
  signals : Nat

inductive WaitResult where
  | signalled
  | timedOut
  | interrupted
deriving DecidableEq

namespace Signaler

def init (kind : SignalerKind) : Signaler := ⟨kind, 0⟩

def signalerSend (s : Signaler) : Except Fault Signaler :=
  -- errno_assert (sz == sizeof (inc))
  if s.signals < s.kind.capacity then .ok { s with signals := s.signals + 1 }
  else .error .assertFailed

def grab (s : Signaler) : Except Fault (Bool × Signaler) :=
  -- errno_assert (sz == sizeof (dummy))
  if s.signals = 0 then .error .assertFailed
  else if s.kind.eventfd then
    if s.signals = 2 then .ok (true, { s with signals := 0 })
    -- xs_assert (dummy == 1)
    else if s.signals = 1 then .ok (false, { s with signals := 0 })
    else .error .assertFailed
  else .ok (false, { s with signals := s.signals - 1 })

end Signaler

/-! ## The mailbox -/

inductive RecvStage where
  | outside
  | reading
  | draining
  | returning
  | waiting
  | woken
deriving DecidableEq

structure Mailbox (ι κ : Type) where
  cpipe : YPipe (ι × κ)
  signaler : Signaler
  active : Bool
  stage : RecvStage
  signalling : Finset ι
  sent : List (ι × κ)
  received : List (ι × κ)

inductive MailboxOp (ι κ : Type) where
  | send (sender : ι) (cmd : κ)
  | signal (sender : ι)
  | call
  | read
  | signalerRecv
  | writeBack
  | wait (r : WaitResult)

namespace Mailbox

variable [DecidableEq ι]

def send (s : Mailbox ι κ) (sender : ι) (cmd : κ) : Mailbox ι κ :=
  let sent := s.sent ++ [(sender, cmd)]
  match (s.cpipe.write (sender, cmd) false).flush with
  | (true, cpipe) => { s with cpipe := cpipe, sent := sent }
  | (false, cpipe) =>
    { s with cpipe := cpipe, sent := sent, signalling := insert sender s.signalling }

omit [DecidableEq ι] in
def return0 (s : Mailbox ι κ) (cmd : ι × κ) (cpipe : YPipe (ι × κ)) : Mailbox ι κ :=
  { s with cpipe := cpipe, stage := .outside, received := s.received ++ [cmd] }

def step (s : Mailbox ι κ) : MailboxOp ι κ → Except Fault (Mailbox ι κ)
  | .send sender cmd => .ok (if sender ∈ s.signalling then s else s.send sender cmd)
  | .signal sender =>
    if sender ∈ s.signalling then
      match s.signaler.signalerSend with
      | .error err => .error err
      | .ok signaler =>
        .ok { s with signaler := signaler, signalling := s.signalling.erase sender }
    else .ok s
  | .call =>
    if s.stage = .outside then
      .ok { s with stage := if s.active then .reading else .waiting }
    else .ok s
  | .read =>
    match s.stage with
    | .reading =>
      match s.cpipe.read with
      | (some cmd, cpipe) => .ok (s.return0 cmd cpipe)
      | (none, cpipe) => .ok { s with cpipe := cpipe, active := false, stage := .draining }
    | .woken =>
      match s.cpipe.read with
      | (some cmd, cpipe) => .ok (s.return0 cmd cpipe)
      -- xs_assert (ok)
      | (none, _) => .error .assertFailed
    | _ => .ok s
  | .signalerRecv =>
    if s.stage = .draining then
      match s.signaler.grab with
      | .error err => .error err
      | .ok (true, signaler) => .ok { s with signaler := signaler, stage := .returning }
      | .ok (false, signaler) => .ok { s with signaler := signaler, stage := .waiting }
    else .ok s
  | .writeBack =>
    if s.stage = .returning then
      match s.signaler.signalerSend with
      | .error err => .error err
      | .ok signaler => .ok { s with signaler := signaler, stage := .waiting }
    else .ok s
  | .wait r =>
    if s.stage = .waiting then
      match r with
      | .signalled =>
        -- without a signal there is nothing to wake up for
        if s.signaler.signals = 0 then .ok s else .ok { s with active := true, stage := .woken }
      | _ => .ok { s with stage := .outside }
    else .ok s

def Passive (s : Mailbox ι κ) : Prop := s.active = false ∧ s.stage ≠ .returning

end Mailbox

end Libxs
