import Mathlib.Data.List.Pairwise
import Mathlib.Order.Basic

/-! # Flow control by acknowledgements -/

namespace Libxs

structure Credit (window : Nat) (due : Nat → Prop) where
  written : Nat
  read : Nat
  acked : Nat
  inFlight : List Nat
  blocked : Bool
  read_le : read ≤ written
  within : written ≤ acked + window
  ordered : List.Pairwise (· ≤ ·) (acked :: (inFlight ++ [read]))
  full : blocked = true → written = acked + window
  settled : ∀ j, inFlight.getLastD acked < j → j ≤ read → ¬ due j

namespace Credit

variable {window : Nat} {due : Nat → Prop} (c : Credit window due)

theorem acked_le_read : c.acked ≤ c.read :=
  (List.pairwise_cons.1 c.ordered).1 _ (by simp)

theorem outstanding_le : c.written ≤ c.read + window := by
  have h1 := c.within
  have h2 := c.acked_le_read
  omega

theorem open_of_idle {batch : Nat} (hdue : ∀ n, ∃ j, n < j ∧ j ≤ n + batch ∧ due j)
    (hbatch : batch ≤ window) (hidle : c.written = c.read) (hheard : c.inFlight = []) :
    c.written < c.acked + window ∧ c.blocked = false := by
  obtain ⟨j, h1, h2, hj⟩ := hdue c.acked
  have hread : c.read < j := by
    by_contra hge
    exact c.settled j (by rw [hheard]; exact h1) (by omega) hj
  have hlt : c.written < c.acked + window := by omega
  refine ⟨hlt, ?_⟩
  cases hb : c.blocked with
  | false => rfl
  | true =>
    have := c.full hb
    omega

/-! ## What happens -/

def start (window : Nat) (due : Nat → Prop) : Credit window due where
  written := 0
  read := 0
  acked := 0
  inFlight := []
  blocked := false
  read_le := Nat.le_refl _
  within := Nat.zero_le _
  ordered := by simp
  full := by simp
  settled := by
    intro j h1 h2
    simp at h1
    omega

def write (h : c.written ≠ c.acked + window) : Credit window due :=
  { c with
    written := c.written + 1
    read_le := Nat.le_succ_of_le c.read_le
    within := by
      have := c.within
      omega
    full := fun hb => absurd (c.full hb) h }

def block (h : c.written = c.acked + window) : Credit window due :=
  { c with
    blocked := true
    full := fun _ => h }

def reopen : Credit window due :=
  { c with
    blocked := false
    full := by simp }

def advance (h : c.read < c.written) (hdue : ¬ due (c.read + 1)) : Credit window due :=
  { c with
    read := c.read + 1
    read_le := h
    ordered := by
      have hold := c.ordered
      simp only [List.pairwise_cons, List.pairwise_append, List.mem_append, List.mem_singleton]
        at hold ⊢
      refine ⟨fun a ha => ?_, hold.2.1, by simp, fun a ha b hb => ?_⟩
      · rcases ha with ha | rfl
        · exact hold.1 a (Or.inl ha)
        · exact Nat.le_succ_of_le (hold.1 _ (Or.inr rfl))
      · rw [hb]
        exact Nat.le_succ_of_le (hold.2.2.2 a ha _ rfl)
    settled := by
      intro j h1 h2
      rcases Nat.lt_or_eq_of_le h2 with hlt | rfl
      · exact c.settled j h1 (by omega)
      · exact hdue }

def report (n : Nat) (h1 : c.read ≤ n) (h2 : n ≤ c.written) : Credit window due :=
  { c with
    read := n
    inFlight := c.inFlight ++ [n]
    read_le := h2
    ordered := by
      have hold := c.ordered
      simp only [List.pairwise_cons, List.pairwise_append, List.mem_append, List.mem_singleton]
        at hold ⊢
      refine ⟨fun a ha => ?_, ⟨hold.2.1, by simp, fun a ha b hb => ?_⟩, by simp,
        fun a ha b hb => ?_⟩
      · rcases ha with (ha | rfl) | rfl
        · exact hold.1 a (Or.inl ha)
        · exact Nat.le_trans (hold.1 _ (Or.inr rfl)) h1
        · exact Nat.le_trans (hold.1 _ (Or.inr rfl)) h1
      · rw [hb]
        exact Nat.le_trans (hold.2.2.2 a ha _ rfl) h1
      · rw [hb]
        rcases ha with ha | rfl
        · exact Nat.le_trans (hold.2.2.2 a ha _ rfl) h1
        · exact Nat.le_refl _
    settled := by
      intro j hj hj'
      simp at hj
      omega }

def hear {k : Nat} {rest : List Nat} (h : c.inFlight = k :: rest) : Credit window due :=
  { c with
    acked := k
    inFlight := rest
    blocked := false
    within := by
      have h1 := c.within
      have h2 : c.acked ≤ k := (List.pairwise_cons.1 c.ordered).1 k (by simp [h])
      omega
    ordered := by
      have hold := (List.pairwise_cons.1 c.ordered).2
      rwa [h] at hold
    full := by simp
    settled := by
      intro j h1 h2
      refine c.settled j ?_ h2
      rw [h, List.getLastD_cons]
      exact h1 }

end Credit

end Libxs
