import Libxs.Own

/-! # The sequence numbers of `own_t` -/

namespace Libxs

namespace Own

variable {α : Type} {o : Own α} {n k : Nat}

structure Counts (o : Own α) (n k : Nat) : Prop where
  sent : o.sentSeqnum = .ofNat n
  processed : o.processedSeqnum = .ofNat k

theorem counts_init (linger : Int) : Counts (init linger : Own α) 0 0 := ⟨rfl, rfl⟩

theorem Counts.incSeqnum (h : o.Counts n k) : o.incSeqnum.Counts (n + 1) k :=
  ⟨by simp [Own.incSeqnum, h.sent], h.processed⟩

theorem Counts.countProcessed (h : o.Counts n k) : o.countProcessed.Counts n (k + 1) :=
  ⟨h.sent, by simp [Own.countProcessed, h.processed]⟩

theorem Counts.caughtUp_iff (h : o.Counts n k) : o.caughtUp = true ↔ k % 2 ^ 64 = n % 2 ^ 32 := by
  unfold caughtUp
  rw [beq_iff_eq, ← UInt64.toNat_inj, h.sent, h.processed, UInt32.toNat_toUInt64]
  rfl

theorem Counts.caughtUp_iff_of_lt (h : o.Counts n k) (hk : k ≤ n) (hn : n < 2 ^ 32) :
    o.caughtUp = true ↔ k = n := by
  rw [h.caughtUp_iff, Nat.mod_eq_of_lt hn, Nat.mod_eq_of_lt (by omega)]

def shuttingDown (owner : Option α) (linger : Int) : Own α := ⟨true, 0, 0, owner, [], 0, linger⟩

def afterCommands (n k : Nat) (o : Own α) : Own α := countProcessed^[k] (incSeqnum^[n] o)

theorem counts_afterCommands (h : o.Counts 0 0) (n k : Nat) : (o.afterCommands n k).Counts n k := by
  have hsent : ∀ n, (incSeqnum^[n] o).Counts n 0 := fun n => by
    induction n with
    | zero => exact h
    | succ n ih =>
      rw [Function.iterate_succ_apply']
      exact ih.incSeqnum
  unfold afterCommands
  induction k with
  | zero => exact hsent n
  | succ k ih =>
    rw [Function.iterate_succ_apply']
    exact ih.countProcessed

theorem afterCommands_eq (n k : Nat) (o : Own α) :
    o.afterCommands n k = { o with
      sentSeqnum := (o.afterCommands n k).sentSeqnum,
      processedSeqnum := (o.afterCommands n k).processedSeqnum } := by
  have hsent : ∀ n, incSeqnum^[n] o = { o with sentSeqnum := (incSeqnum^[n] o).sentSeqnum } :=
    fun n => by
      induction n with
      | zero => rfl
      | succ n ih =>
        rw [Function.iterate_succ_apply', ih]
        rfl
  unfold afterCommands
  induction k with
  | zero =>
    rw [Function.iterate_zero_apply, hsent n]
  | succ k ih =>
    rw [Function.iterate_succ_apply', ih]
    rfl

def Destroys (self : α) (o : Own α) : Prop := ∃ r, o.checkTermAcks self = .ok r ∧ r.destroyed = true

theorem destroys_iff (self : α) (owner : Option α) (linger : Int) (n k : Nat) :
    Destroys self ((shuttingDown owner linger).afterCommands n k) ↔ k % 2 ^ 64 = n % 2 ^ 32 := by
  have hcounts := counts_afterCommands (o := shuttingDown owner linger) ⟨rfl, rfl⟩ n k
  rw [← hcounts.caughtUp_iff]
  unfold Destroys checkTermAcks
  rw [afterCommands_eq n k]
  simp only [shuttingDown, Bool.true_and, beq_self_eq_true, Bool.and_true, List.isEmpty_nil,
    Bool.not_true, Bool.false_eq_true, if_false]
  split
  next h => exact ⟨fun _ => h, fun _ => ⟨_, rfl, rfl⟩⟩
  next h => exact ⟨fun ⟨r, hr, hd⟩ => absurd hd (by simp [← Except.ok.inj hr]), fun hc => absurd hc h⟩

/-- **Shutdown completes** exactly if fewer than `2^32` commands were sent to the object. -/
theorem shutdown_completes_iff (self : α) (owner : Option α) (linger : Int) (n : Nat) :
    (∀ k ≤ n, Destroys self ((shuttingDown owner linger).afterCommands n k) ↔ k = n) ↔ n < 2 ^ 32 := by
  simp only [destroys_iff]
  constructor
  · -- otherwise the object is destroyed when `n % 2^32` commands were processed
    intro h
    by_contra hn
    have hlt : n % 2 ^ 32 < 2 ^ 32 := Nat.mod_lt _ (by decide)
    have := (h (n % 2 ^ 32) (by omega)).1 (Nat.mod_eq_of_lt (by omega))
    omega
  · grind

theorem shutdown_hangs : ¬ Destroys 0 ((shuttingDown none 0).afterCommands (2 ^ 32) (2 ^ 32)) := by
  rw [destroys_iff]
  decide

end Own

end Libxs
