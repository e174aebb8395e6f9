import Libxs.Msg

/-! # `ctx_t` and `reaper_t`: the end of a context -/

namespace Libxs

inductive ReaperCommand (σ : Type) where
  | stop
  | reap (socket : σ)
  | reaped
deriving DecidableEq, Repr

structure Reaper where
  sockets : Int
  terminating : Bool
deriving DecidableEq, Repr

inductive TermCall where
  | idle
  | between
  | waiting
  | returned
deriving DecidableEq, Repr

structure CtxSystem (σ : Type) where
  starting : Bool
  terminating : Bool
  sockets : List σ
  call : TermCall
  termMailbox : Nat
  reaper : Reaper
  mailbox : List (ReaperCommand σ)
  running : Bool
  reaping : List σ
  leaving : Bool
  created : List σ
  closed : List σ
  stops : Nat
  dones : Nat
  unregistered : Nat

inductive CtxOp (σ : Type) where
  | createSocket (socket : σ)
  | close (socket : σ)
  | terminate
  | stopSockets
  | interrupt
  | receiveDone
  | nextCommand
  | destroySocket (socket : σ)
  | sendReaped

namespace CtxSystem

variable {σ : Type} [DecidableEq σ]

def init : CtxSystem σ where
  starting := true
  terminating := false
  sockets := []
  call := .idle
  termMailbox := 0
  reaper := ⟨0, false⟩
  mailbox := []
  running := true
  reaping := []
  leaving := false
  created := []
  closed := []
  stops := 0
  dones := 0
  unregistered := 0

/-- `reaper->stop ()`. -/
def stopReaper (s : CtxSystem σ) : CtxSystem σ :=
  { s with mailbox := s.mailbox ++ [.stop], stops := s.stops + 1 }

def createSocket (s : CtxSystem σ) (socket : σ) : CtxSystem σ :=
  let s := { s with starting := false }
  -- `ETERM`: once `terminate` was called, we can't create new sockets
  if s.terminating then s
  else { s with sockets := s.sockets ++ [socket], created := s.created ++ [socket] }

def terminate (s : CtxSystem σ) : CtxSystem σ :=
  if s.starting then { s with call := .returned }
  -- termination was already underway, but interrupted and now restarted
  else if s.terminating then { s with call := .waiting }
  else { s with terminating := true, call := .between }

def stopSockets (s : CtxSystem σ) : CtxSystem σ :=
  let s := { s with call := .waiting }
  if s.sockets.isEmpty then s.stopReaper else s

def receiveDone (s : CtxSystem σ) : Except Fault (CtxSystem σ) :=
  -- xs_assert (sockets.empty ())
  if !s.sockets.isEmpty then .error .assertFailed
  else .ok { s with termMailbox := s.termMailbox - 1, call := .returned }

def destroySocket (s : CtxSystem σ) (socket : σ) : CtxSystem σ :=
  let s := { s with
    sockets := s.sockets.erase socket, reaping := s.reaping.erase socket, leaving := true }
  if s.terminating && s.sockets.isEmpty then s.stopReaper else s

def finish (s : CtxSystem σ) : CtxSystem σ :=
  { s with
    termMailbox := s.termMailbox + 1, dones := s.dones + 1, unregistered := s.unregistered + 1 }

def processStop (s : CtxSystem σ) : CtxSystem σ :=
  let s := { s with reaper := { s.reaper with terminating := true } }
  if s.reaper.sockets = 0 then s.finish else s

def processReap (s : CtxSystem σ) (socket : σ) : CtxSystem σ :=
  { s with
    reaping := s.reaping ++ [socket]
    reaper := { s.reaper with sockets := s.reaper.sockets + 1 } }

def processReaped (s : CtxSystem σ) : CtxSystem σ :=
  let s := { s with reaper := { s.reaper with sockets := s.reaper.sockets - 1 } }
  if s.reaper.sockets = 0 && s.reaper.terminating then s.finish else s

def processCommand (s : CtxSystem σ) : ReaperCommand σ → CtxSystem σ
  | .stop => s.processStop
  | .reap socket => s.processReap socket
  | .reaped => s.processReaped

def nextCommand (s : CtxSystem σ) : CtxSystem σ :=
  match s.mailbox with
  | [] => if s.unregistered = 0 then s else { s with running := false }
  | cmd :: mailbox => { s with mailbox := mailbox }.processCommand cmd

def step (s : CtxSystem σ) : CtxOp σ → Except Fault (CtxSystem σ)
  | .createSocket socket =>
    if s.call ≠ .returned ∧ socket ∉ s.created then .ok (s.createSocket socket) else .ok s
  | .close socket =>
    if socket ∈ s.sockets ∧ socket ∉ s.closed then
      .ok { s with mailbox := s.mailbox ++ [.reap socket], closed := s.closed ++ [socket] }
    else .ok s
  | .terminate => if s.call = .idle then .ok s.terminate else .ok s
  | .stopSockets => if s.call = .between then .ok s.stopSockets else .ok s
  | .interrupt => if s.call = .waiting then .ok { s with call := .idle } else .ok s
  | .receiveDone => if s.call = .waiting ∧ 0 < s.termMailbox then s.receiveDone else .ok s
  | .nextCommand => if s.running = true ∧ s.leaving = false then .ok s.nextCommand else .ok s
  | .destroySocket socket =>
    if s.leaving = false ∧ socket ∈ s.reaping then .ok (s.destroySocket socket) else .ok s
  | .sendReaped =>
    if s.leaving then .ok { s with leaving := false, mailbox := s.mailbox ++ [.reaped] } else .ok s

end CtxSystem

end Libxs
