import Mathlib.Algebra.Group.Int.Defs
import Mathlib.Algebra.GroupWithZero.Nat
import Mathlib.Data.List.Basic

/-! # Messages and faults -/

namespace Libxs

inductive Fault where
  | assertFailed
  | badIndex
  | nullPointer
  | useAfterFree
  | doubleFree
  | deadObject
  | wrongMember
  | signedOverflow
  | divisionByZero
  | blockTooSmall
  | outOfFuel
deriving DecidableEq, Repr

inductive Errno where
  | eagain
  | einval
  | efault
  | enotsup
  | efsm
  | etimedout
  | eintr
  | eterm
  | enomem
  | emfile
deriving DecidableEq, Repr

structure Msg where
  isDelimiter : Bool
  flags : UInt8
  data : List UInt8
deriving DecidableEq, Repr

namespace Msg

/-- `msg_t::more`. -/
def moreFlag : UInt8 := 1

/-- `msg_t::identity`. -/
def identityFlag : UInt8 := 64

/-- `msg_t::shared`. -/
def sharedFlag : UInt8 := 128

def init : Msg := ⟨false, 0, []⟩

def initDelimiter : Msg := ⟨true, 0, []⟩

def maxVsmSize : Nat := 29

def contentSize : Nat := 40

def initSize (malloc : Nat → Bool) (size : Nat) : Except Fault Bool :=
  if size ≤ maxVsmSize then .ok true
  else
    let block := (contentSize + size) % 2 ^ 64
    if !malloc block then .ok false
    else if block < contentSize then .error .blockTooSmall
    else .ok true

def Allocates (malloc : Nat → Bool) (size : Nat) : Prop :=
  size ≤ maxVsmSize ∨ contentSize + size < 2 ^ 64 ∧ malloc (contentSize + size) = true

theorem Allocates.initSize {malloc : Nat → Bool} {size : Nat} (h : Allocates malloc size) :
    initSize malloc size = .ok true := by
  unfold Msg.initSize
  rcases h with hshort | ⟨hfits, hmalloc⟩
  · rw [if_pos hshort]
  · have hnot : ¬ contentSize + size < contentSize := by omega
    simp only [Nat.mod_eq_of_lt hfits, hmalloc, Bool.not_true, Bool.false_eq_true, if_false, hnot,
      ite_self]

theorem initSize_of_not_allocates {malloc : Nat → Bool} {size : Nat} (hsize : size < 2 ^ 64)
    (h : ¬ Allocates malloc size) :
    initSize malloc size = .ok false ∨ initSize malloc size = .error .blockTooSmall := by
  obtain ⟨hlong, hno⟩ := not_or.1 h
  unfold initSize
  rw [if_neg hlong]
  by_cases hmalloc : malloc ((contentSize + size) % 2 ^ 64) = true
  · right
    have hwraps : ¬ contentSize + size < 2 ^ 64 := by grind
    have hsmall : (contentSize + size) % 2 ^ 64 < contentSize := by
      unfold contentSize at hwraps ⊢
      omega
    simp only [hmalloc, Bool.not_true, Bool.false_eq_true, if_false, hsmall, if_true]
  · grind

def size (m : Msg) : Nat := m.data.length

def more (m : Msg) : Bool := m.flags &&& moreFlag != 0

def isIdentity (m : Msg) : Bool := m.flags &&& identityFlag != 0

end Msg

end Libxs
