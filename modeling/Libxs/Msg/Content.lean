import Mathlib.Data.Fintype.Card
import Libxs.Foundation.Run
import Libxs.Msg

/-! # Messages as handles -/

namespace Libxs

inductive MsgData where
  | own (bytes : List UInt8)
  | trailer (content : Nat)
  | user (addr : Nat)
deriving DecidableEq, Repr

structure FreeCall where
  ffn : Nat
  data : MsgData
  hint : Nat
deriving DecidableEq, Repr

structure Content where
  data : MsgData
  size : UInt64
  ffn : Option Nat
  hint : Nat
  refcnt : UInt32
  released : Nat
  freeCalls : List FreeCall
deriving DecidableEq, Repr

inductive Handle where
  | invalid
  | vsm (flags : UInt8) (size : UInt64) (data : List UInt8)
  | lmsg (flags : UInt8) (content : Option Nat)
  | delimiter (flags : UInt8)
deriving DecidableEq, Repr

namespace Handle

def check : Handle → Bool
  | .invalid => false
  | _ => true

def shared : Handle → Bool
  | .lmsg flags _ => flags &&& Msg.sharedFlag != 0
  | _ => false

def content : Handle → Option Nat
  | .lmsg _ content => content
  | _ => none

@[simp] theorem content_invalid : invalid.content = none := rfl

@[simp] theorem content_vsm (flags : UInt8) (size : UInt64) (data : List UInt8) :
    (vsm flags size data).content = none := rfl

@[simp] theorem content_lmsg (flags : UInt8) (content : Option Nat) :
    (lmsg flags content).content = content := rfl

@[simp] theorem content_delimiter (flags : UInt8) : (delimiter flags).content = none := rfl

def initialised : Handle → Bool
  | .invalid => false
  | .lmsg _ content => content.isSome
  | _ => true

end Handle

namespace Content

def freeCall (x : Content) : List FreeCall :=
  (x.ffn.map fun ffn => ⟨ffn, x.data, x.hint⟩).toList

def release (x : Content) : Content :=
  { x with released := x.released + 1, freeCalls := x.freeCalls ++ x.freeCall }

def create (data : MsgData) (size : UInt64) (ffn : Option Nat) (hint : Nat) : Content :=
  ⟨data, size, ffn, hint, 0, 0, []⟩

end Content

structure MsgHeap (ι : Type) where
  handles : ι → Handle
  contents : Nat → Option Content
  fresh : Nat

namespace MsgHeap

variable {ι : Type} [DecidableEq ι]

def setHandle (s : MsgHeap ι) (h : ι) (v : Handle) : MsgHeap ι :=
  { s with handles := Function.update s.handles h v }

def store (s : MsgHeap ι) (c : Nat) (x : Content) : MsgHeap ι :=
  { s with contents := Function.update s.contents c (some x) }

@[simp] theorem handles_setHandle (s : MsgHeap ι) (h : ι) (v : Handle) :
    (s.setHandle h v).handles = Function.update s.handles h v := rfl

omit [DecidableEq ι] in
@[simp] theorem handles_store (s : MsgHeap ι) (c : Nat) (x : Content) : (s.store c x).handles = s.handles :=
  rfl

def allocate (s : MsgHeap ι) (x : Nat → Content) : MsgHeap ι :=
  { s with
    contents := Function.update s.contents s.fresh (some (x s.fresh))
    fresh := s.fresh + 1 }

def deref (s : MsgHeap ι) : Option Nat → Except Fault (Nat × Content)
  | none => .error .nullPointer
  | some c =>
    match s.contents c with
    | none => .error .useAfterFree
    | some x => if x.released = 0 then .ok (c, x) else .error .useAfterFree

def init (s : MsgHeap ι) (h : ι) : MsgHeap ι := s.setHandle h (.vsm 0 0 [])

def initDelimiter (s : MsgHeap ι) (h : ι) : MsgHeap ι := s.setHandle h (.delimiter 0)

def initSize (s : MsgHeap ι) (h : ι) (size : UInt64) (left : List UInt8) (granted : Bool) :
    Except Fault (Except Errno Unit × MsgHeap ι) :=
  if size.toNat ≤ Msg.maxVsmSize then .ok (.ok (), s.setHandle h (.vsm 0 size left))
  else
    match Msg.initSize (fun _ => granted) size.toNat with
    | .error e => .error e
    | .ok false => .ok (.error .enomem, s.setHandle h (.lmsg 0 none))
    | .ok true =>
      .ok (.ok (), (s.setHandle h (.lmsg 0 (some s.fresh))).allocate
        fun c => .create (.trailer c) size none 0)

def initData (s : MsgHeap ι) (h : ι) (data : Nat) (size : UInt64) (ffn : Option Nat) (hint : Nat)
    (granted : Bool) : Except Errno Unit × MsgHeap ι :=
  if !granted then (.error .enomem, s.setHandle h (.lmsg 0 none))
  else
    (.ok (), (s.setHandle h (.lmsg 0 (some s.fresh))).allocate
      fun _ => .create (.user data) size ffn hint)

def dropRef (s : MsgHeap ι) (flags : UInt8) (content : Option Nat) : Except Fault (MsgHeap ι) :=
  match s.deref content with
  | .error e => .error e
  | .ok (c, x) =>
    if flags &&& Msg.sharedFlag = 0 then .ok (s.store c x.release)
    else
      -- refcnt.sub (1) returns false if the counter drops to zero
      let x := { x with refcnt := x.refcnt - 1 }
      if x.refcnt = 0 then .ok (s.store c x.release) else .ok (s.store c x)

def close (s : MsgHeap ι) (h : ι) : Except Fault (Except Errno Unit × MsgHeap ι) :=
  match s.handles h with
  | .invalid => .ok (.error .efault, s)
  | .lmsg flags content =>
    match s.dropRef flags content with
    | .error e => .error e
    | .ok s => .ok (.ok (), s.setHandle h .invalid)
  | _ => .ok (.ok (), s.setHandle h .invalid)

def moveFrom (s : MsgHeap ι) (h src : ι) : MsgHeap ι := (s.setHandle h (s.handles src)).init src

def move (s : MsgHeap ι) (h src : ι) : Except Fault (Except Errno Unit × MsgHeap ι) :=
  if !(s.handles src).check then .ok (.error .efault, s)
  else
    match s.close h with
    | .error e => .error e
    | .ok (.error e, s) => .ok (.error e, s)
    | .ok (.ok (), s) => .ok (.ok (), s.moveFrom h src)

def addRef (s : MsgHeap ι) (src : ι) (flags : UInt8) (content : Option Nat) :
    Except Fault (MsgHeap ι) :=
  match s.deref content with
  | .error e => .error e
  | .ok (c, x) =>
    if flags &&& Msg.sharedFlag = 0 then
      .ok ((s.setHandle src (.lmsg (flags ||| Msg.sharedFlag) content)).store c { x with refcnt := 2 })
    else .ok (s.store c { x with refcnt := x.refcnt + 1 })

def copyFrom (s : MsgHeap ι) (h src : ι) : Except Fault (MsgHeap ι) :=
  match s.handles src with
  | .lmsg flags content =>
    match s.addRef src flags content with
    | .error e => .error e
    | .ok s => .ok (s.setHandle h (s.handles src))
  | v => .ok (s.setHandle h v)

def copy (s : MsgHeap ι) (h src : ι) : Except Fault (Except Errno Unit × MsgHeap ι) :=
  if !(s.handles src).check then .ok (.error .efault, s)
  else
    match s.close h with
    | .error e => .error e
    | .ok (.error e, s) => .ok (.error e, s)
    | .ok (.ok (), s) =>
      match s.copyFrom h src with
      | .error e => .error e
      | .ok s => .ok (.ok (), s)

def addRefs (s : MsgHeap ι) (h : ι) (refs : Int) : Except Fault (MsgHeap ι) :=
  if refs < 0 then .error .assertFailed
  else if refs = 0 then .ok s
  else
    match s.handles h with
    | .lmsg flags content =>
      match s.deref content with
      | .error e => .error e
      | .ok (c, x) =>
        if flags &&& Msg.sharedFlag = 0 then
          .ok ((s.store c { x with refcnt := .ofNat (refs.toNat + 1) }).setHandle h
            (.lmsg (flags ||| Msg.sharedFlag) content))
        else .ok (s.store c { x with refcnt := x.refcnt + .ofNat refs.toNat })
    | _ => .ok s

def rmRefs (s : MsgHeap ι) (h : ι) (refs : Int) : Except Fault (Bool × MsgHeap ι) :=
  if refs < 0 then .error .assertFailed
  else if refs = 0 then .ok (true, s)
  else
    match s.handles h with
    | .lmsg flags content =>
      if flags &&& Msg.sharedFlag = 0 then (s.close h).map fun r => (false, r.2)
      else
        match s.deref content with
        | .error e => .error e
        | .ok (c, x) =>
          let x := { x with refcnt := x.refcnt - .ofNat refs.toNat }
          -- close takes one more reference
          if x.refcnt = 0 then ((s.store c x).close h).map fun r => (false, r.2)
          else .ok (true, s.store c x)
    | _ => (s.close h).map fun r => (false, r.2)

def data (s : MsgHeap ι) (h : ι) : Except Fault MsgData :=
  match s.handles h with
  | .vsm _ _ data => .ok (.own data)
  | .lmsg _ content =>
    match s.deref content with
    | .error e => .error e
    | .ok (_, x) => .ok x.data
  -- xs_assert (check ()) and xs_assert (false)
  | _ => .error .assertFailed

def size (s : MsgHeap ι) (h : ι) : Except Fault UInt64 :=
  match s.handles h with
  | .vsm _ size _ => .ok size
  | .lmsg _ content =>
    match s.deref content with
    | .error e => .error e
    | .ok (_, x) => .ok x.size
  | _ => .error .assertFailed

end MsgHeap

inductive MsgOp (ι : Type) where
  | init (h : ι)
  | initSize (h : ι) (size : UInt64) (left : List UInt8) (granted : Bool)
  | initData (h : ι) (data : Nat) (size : UInt64) (ffn : Option Nat) (hint : Nat) (granted : Bool)
  | initDelimiter (h : ι)
  | close (h : ι)
  | move (h src : ι)
  | copy (h src : ι)

def MsgOp.targets {ι : Type} : MsgOp ι → List ι
  | .init h | .initSize h _ _ _ | .initData h _ _ _ _ _ | .initDelimiter h | .close h | .copy h _ => [h]
  | .move h src => [h, src]

namespace MsgHeap

variable {ι : Type} [DecidableEq ι]

def step (s : MsgHeap ι) : MsgOp ι → Except Fault (MsgHeap ι)
  | .init h => .ok (s.init h)
  | .initSize h size left granted => (s.initSize h size left granted).map Prod.snd
  | .initData h data size ffn hint granted => .ok (s.initData h data size ffn hint granted).2
  | .initDelimiter h => .ok (s.initDelimiter h)
  | .close h => (s.close h).map Prod.snd
  | .move h src => (s.move h src).map Prod.snd
  | .copy h src => (s.copy h src).map Prod.snd

def empty : MsgHeap ι := ⟨fun _ => .invalid, fun _ => none, 0⟩

def Legal (s : MsgHeap ι) : MsgOp ι → Prop
  | .init h | .initSize h _ _ _ | .initData h _ _ _ _ _ | .initDelimiter h =>
    (s.handles h).initialised = false
  | .close h => (s.handles h).initialised = true
  | .move h src | .copy h src =>
    h ≠ src ∧ (s.handles h).initialised = true ∧ (s.handles src).initialised = true

instance (s : MsgHeap ι) (op : MsgOp ι) : Decidable (s.Legal op) := by
  cases op <;> unfold Legal <;> infer_instance

/-! ## What the counters and flags are for -/

variable [Fintype ι]

def refs (s : MsgHeap ι) (c : Nat) : Nat :=
  (Finset.univ.filter fun h => (s.handles h).content = some c).card

structure Accounted (s : MsgHeap ι) : Prop where
  counted : ∀ h c, (s.handles h).content = some c → ∃ x, s.contents c = some x ∧
    s.refs c = if (s.handles h).shared then x.refcnt.toNat else 1
  released : ∀ c x, s.contents c = some x →
    (s.refs c = 0 → x.released = 1 ∧ x.freeCalls = x.freeCall) ∧
    (s.refs c ≠ 0 → x.released = 0 ∧ x.freeCalls = [])

end MsgHeap

end Libxs
