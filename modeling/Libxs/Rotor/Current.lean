import Libxs.Rotor

/-! # Which pipe `current` refers to -/

namespace Libxs

variable {α : Type}

namespace Rotor

def Bounded (r : Rotor α) : Prop := r.Inv (fun p => r.pipes.index p < r.active)

theorem Inv.bounded {r : Rotor α} {A : α → Prop} (h : r.Inv A) : r.Bounded :=
  h.congr fun p hp => (h.part.mem_iff p hp).symm

theorem Bounded.setCurrent {r : Rotor α} (h : r.Bounded) {n : Nat} (hn : n < r.active) :
    ({ r with current := n } : Rotor α).Bounded :=
  ⟨h.part, Or.inr hn⟩

variable [DecidableEq α]

theorem Bounded.activated {r r' : Rotor α} (h : r.Bounded) {p : α} (hr : r.activated p = .ok r') :
    r'.Bounded ∧ r'.current = r.current ∧ r'.active = r.active + 1 ∧
      (∀ x, r'.attached x ↔ r.attached x) ∧
      (r.current < r.active → r.pipes.index p ≠ r.current →
        r'.pipes.get r.current = r.pipes.get r.current) := by
  unfold Rotor.activated at hr
  cases ha : r.pipes.swap (r.pipes.index p) r.active with
  | none => simp [ha] at hr
  | some a =>
    simp only [ha] at hr
    cases hr
    have hlt : r.active < r.pipes.size := by
      by_contra hge
      have hnone : r.pipes.items[r.active]? = none :=
        List.getElem?_eq_none (by simpa [ArrayT.size] using hge)
      simp [ArrayT.swap, hnone] at ha
    refine ⟨⟨⟨h.part.wf.swap ha, by rw [ArrayT.size_swap ha]; exact hlt, fun _ _ => Iff.rfl⟩, ?_⟩,
      rfl, rfl, fun x => ArrayT.mem_swap ha, ?_⟩
    · have := h.current_lt
      simp only
      omega
    · intro hc hne
      rw [ArrayT.get_swap ha, ArrayT.swapIndex, if_neg (Ne.symm hne), if_neg (by omega)]

def KeepsCurrent (r : Rotor α) (p : α) : Prop :=
  r.active ≤ r.pipes.index p ∨ r.pipes.index p = r.current ∨ r.current + 1 ≠ r.active ∨
    r.pipes.index p = 0 ∧ r.active = r.pipes.size
deriving Decidable

theorem Bounded.terminated {r r' : Rotor α} (h : r.Bounded) {p : α} (hp : r.attached p)
    (hr : r.terminated p = .ok r') :
    r'.Bounded ∧ (∀ x, r'.attached x → r.attached x) ∧
      (r.current < r.active → r.pipes.index p ≠ r.current → r.KeepsCurrent p →
        0 < r'.active ∧ r'.pipes.get r'.current = r.pipes.get r.current) := by
  obtain ⟨he, hact, hcur⟩ := terminated_ok hr
  have hlt := h.part.wf.index_lt hp
  have hle := h.part.le_size
  have hin := h.current_lt
  refine ⟨⟨⟨h.part.wf.eraseAt he, ?_, fun _ _ => Iff.rfl⟩, ?_⟩, ?_, ?_⟩
  · rw [ArrayT.size_eraseAt he, hact, ArrayT.eraseBoundary]
    split_ifs <;> omega
  · rw [hact, hcur, ArrayT.eraseBoundary]
    split_ifs <;> omega
  · exact fun x hx => ((ArrayT.mem_eraseAt h.part.wf he).1 hx).1
  · intro hc hne hk
    unfold KeepsCurrent at hk
    refine ⟨by rw [hact, ArrayT.eraseBoundary]; split_ifs <;> omega, ?_⟩
    rw [hcur, ArrayT.get_eraseAt he]
    by_cases hreset : r.pipes.index p < r.active ∧ r.current = r.active - 1
    · -- `current` was the last active position; the current pipe is moved to position 0
      obtain ⟨h0, hsize⟩ : r.pipes.index p = 0 ∧ r.active = r.pipes.size := by omega
      have hlast : r.current = r.pipes.size - 1 := by omega
      rw [if_pos hreset, if_pos (by omega), if_pos h0.symm, hlast]
    · grind

end Rotor

end Libxs
