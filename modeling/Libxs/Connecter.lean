import Libxs.Foundation.Run
import Libxs.Msg
import Mathlib.Data.UInt

/-! # The interval between two attempts to connect -/

namespace Libxs

structure ReconnectOptions where
  reconnectIvl : Nat
  reconnectIvlMax : Nat
  ivl_lt : reconnectIvl < 2 ^ 31
  max_lt : reconnectIvlMax < 2 ^ 31

def intOfUnsigned (n : Nat) : Int :=
  if n % 2 ^ 32 < 2 ^ 31 then (n % 2 ^ 32 : Nat) else (n % 2 ^ 32 : Nat) - 2 ^ 32

namespace ReconnectOptions

variable {o : ReconnectOptions} {current n : Nat} {random : UInt32}

def getNewReconnectIvl (o : ReconnectOptions) (current : Nat) (random : UInt32) :
    Except Fault (Int × Nat) :=
  if o.reconnectIvl = 0 then .error .divisionByZero
  else
    let thisInterval := intOfUnsigned (current + random.toNat % o.reconnectIvl)
    if 0 < o.reconnectIvlMax ∧ o.reconnectIvl < o.reconnectIvlMax then
      if 2 ^ 31 ≤ current * 2 then .error .signedOverflow
      else if o.reconnectIvlMax ≤ current * 2 then .ok (thisInterval, o.reconnectIvlMax)
      else .ok (thisInterval, current * 2)
    else .ok (thisInterval, current)

def attempt (o : ReconnectOptions) (current : Nat) (random : UInt32) : Except Fault Nat :=
  (o.getNewReconnectIvl current random).map Prod.snd

def base (o : ReconnectOptions) (attempts : Nat) : Nat :=
  if o.reconnectIvl < o.reconnectIvlMax then min (2 ^ attempts * o.reconnectIvl) o.reconnectIvlMax
  else o.reconnectIvl

def BacksOff (o : ReconnectOptions) : Prop :=
  ∀ (randoms : List UInt32) (random : UInt32),
    run o.attempt o.reconnectIvl randoms = .ok (o.base randoms.length) ∧
      ∃ interval next, o.getNewReconnectIvl (o.base randoms.length) random = .ok (interval, next) ∧
        (o.reconnectIvl : Int) ≤ interval

def InRange (o : ReconnectOptions) : Prop :=
  0 < o.reconnectIvl ∧
    if o.reconnectIvl < o.reconnectIvlMax then o.reconnectIvlMax < 2 ^ 30 else o.reconnectIvl ≤ 2 ^ 30

theorem reconnectIvl_le_base (o : ReconnectOptions) (n : Nat) : o.reconnectIvl ≤ o.base n := by
  unfold base
  have := Nat.le_mul_of_pos_left o.reconnectIvl (Nat.two_pow_pos n)
  split <;> omega

theorem InRange.step (h : o.InRange) (n : Nat) (random : UInt32) : ∃ interval,
    o.getNewReconnectIvl (o.base n) random = .ok (interval, o.base (n + 1)) ∧
      (o.reconnectIvl : Int) ≤ interval := by
  obtain ⟨hpos, hrange⟩ := h
  have hrandom := Nat.mod_lt random.toNat hpos
  have hle := o.reconnectIvl_le_base n
  have hsum : o.base n + random.toNat % o.reconnectIvl < 2 ^ 31 := by
    unfold base at hle ⊢
    split at hrange <;> simp only [*, if_true, if_false] at hle ⊢ <;> omega
  refine ⟨intOfUnsigned (o.base n + random.toNat % o.reconnectIvl), ?_, ?_⟩
  swap
  · unfold intOfUnsigned
    split <;> omega
  unfold getNewReconnectIvl
  rw [if_neg (by omega)]
  by_cases hmax : o.reconnectIvl < o.reconnectIvlMax
  · simp only [hmax, if_true] at hrange
    have hb : o.base n ≤ o.reconnectIvlMax := by
      rw [base, if_pos hmax]
      exact Nat.min_le_right ..
    have hnext : o.base (n + 1) = min (o.base n * 2) o.reconnectIvlMax := by
      simp only [base, hmax, if_true, Nat.pow_succ]
      rw [Nat.mul_right_comm]
      omega
    rw [if_pos ⟨by omega, hmax⟩, if_neg (by omega)]
    split <;> rw [hnext] <;> congr <;> omega
  · rw [if_neg (by omega)]
    simp [base, hmax]

theorem InRange.run (h : o.InRange) : ∀ (randoms : List UInt32) (n : Nat),
    run o.attempt (o.base n) randoms = .ok (o.base (n + randoms.length)) := by
  intro randoms
  induction randoms with
  | nil => intro n; rfl
  | cons r randoms ih =>
    intro n
    obtain ⟨interval, hstep, -⟩ := h.step n r
    have hattempt : o.attempt (o.base n) r = .ok (o.base (n + 1)) := by
      rw [attempt, hstep]
      rfl
    rw [run_cons_ok hattempt, ih, List.length_cons]
    congr 2
    omega

theorem base_zero (o : ReconnectOptions) : o.base 0 = o.reconnectIvl := by
  unfold base
  split <;> omega

/-- **The back-off works exactly if the values are in range.** -/
theorem backsOff_iff (o : ReconnectOptions) : o.BacksOff ↔ o.InRange := by
  constructor
  · intro h
    have hpos : 0 < o.reconnectIvl := by
      obtain ⟨-, interval, next, hnew, -⟩ := h [] 0
      by_contra h0
      simp [getNewReconnectIvl, show o.reconnectIvl = 0 by omega] at hnew
    refine ⟨hpos, ?_⟩
    split
    · rename_i hmax
      -- after thirty attempts the interval is the maximum, or cannot be doubled
      obtain ⟨-, interval, next, hnew, -⟩ := h (List.replicate 30 0) 0
      have hbase : o.base 30 = min (2 ^ 30 * o.reconnectIvl) o.reconnectIvlMax := by simp [base, hmax]
      rw [List.length_replicate, getNewReconnectIvl, if_neg (by omega),
        if_pos ⟨by omega, hmax⟩] at hnew
      by_contra hlarge
      rw [if_pos (by omega)] at hnew
      cases hnew
    · rename_i hmax
      -- the largest random part
      obtain ⟨-, interval, next, hnew, hle⟩ := h [] (UInt32.ofNat (o.reconnectIvl - 1))
      have hlt := o.ivl_lt
      have hrandom : (UInt32.ofNat (o.reconnectIvl - 1)).toNat % o.reconnectIvl =
          o.reconnectIvl - 1 := by
        rw [UInt32.toNat_ofNat_of_lt' (by simp [UInt32.size]; omega), Nat.mod_eq_of_lt (by omega)]
      rw [List.length_nil, base_zero, getNewReconnectIvl, if_neg (by omega), if_neg (by omega),
        hrandom] at hnew
      simp only [Except.ok.injEq, Prod.mk.injEq] at hnew
      rw [← hnew.1, intOfUnsigned] at hle
      split at hle <;> omega
  · intro h randoms random
    obtain ⟨interval, hnew, hle⟩ := h.step randoms.length random
    refine ⟨?_, interval, _, hnew, hle⟩
    have hrun := h.run randoms 0
    rwa [base_zero, Nat.zero_add] at hrun

theorem backOff_out_of_range :
    getNewReconnectIvl ⟨0, 0, by decide, by decide⟩ 0 7 = .error .divisionByZero ∧
      run (attempt ⟨2 ^ 29, 2 ^ 30, by decide, by decide⟩) (2 ^ 29) [0, 0] = .error .signedOverflow ∧
      getNewReconnectIvl ⟨2 ^ 31 - 1, 0, by decide, by decide⟩ (2 ^ 31 - 1) (2 ^ 31 - 2) =
        .ok (-3, 2 ^ 31 - 1) :=
  ⟨rfl, rfl, rfl⟩

end ReconnectOptions

end Libxs
