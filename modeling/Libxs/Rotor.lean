import Libxs.ArrayT.Partition
import Libxs.Msg

/-! # Round-robin over the active region of an array -/

namespace Libxs

variable {α : Type}

structure Rotor (α : Type) where
  pipes : ArrayT α
  active : Nat
  current : Nat

namespace Rotor

def init : Rotor α := ⟨ArrayT.empty, 0, 0⟩

def attached (r : Rotor α) (pipe : α) : Prop := pipe ∈ r.pipes.items

section

variable [DecidableEq α]

instance (r : Rotor α) (pipe : α) : Decidable (r.attached pipe) := by
  unfold attached; infer_instance

def attach (r : Rotor α) (pipe : α) : Except Fault (Rotor α) :=
  let pipes := r.pipes.pushBack pipe
  match pipes.swap r.active (pipes.size - 1) with
  | none => .error .badIndex
  | some pipes => .ok { r with pipes := pipes, active := r.active + 1 }

def activated (r : Rotor α) (pipe : α) : Except Fault (Rotor α) :=
  match r.pipes.swap (r.pipes.index pipe) r.active with
  | none => .error .badIndex
  | some pipes => .ok { r with pipes := pipes, active := r.active + 1 }

def terminated (r : Rotor α) (pipe : α) : Except Fault (Rotor α) :=
  let r' :=
    if r.pipes.index pipe < r.active then
      { r with active := r.active - 1,
               current := if r.current = r.active - 1 then 0 else r.current }
    else r
  match r'.pipes.erase pipe with
  | none => .error .badIndex
  | some pipes => .ok { r' with pipes := pipes }

def deactivate (r : Rotor α) : Except Fault (Rotor α) :=
  match r.pipes.swap r.current (r.active - 1) with
  | none => .error .badIndex
  | some pipes =>
    .ok { r with pipes := pipes, active := r.active - 1,
                 current := if r.current = r.active - 1 then 0 else r.current }

end

variable {r : Rotor α} {A : α → Prop}

structure Inv (r : Rotor α) (A : α → Prop) : Prop where
  part : r.pipes.Partitioned r.active A
  current_lt : r.active = 0 ∧ r.current = 0 ∨ r.current < r.active

theorem inv_init (A : α → Prop) : (init : Rotor α).Inv A :=
  ⟨ArrayT.partitioned_empty A, Or.inl ⟨rfl, rfl⟩⟩

theorem Inv.congr {B : α → Prop} (h : r.Inv A)
    (hAB : ∀ p, r.attached p → (A p ↔ B p)) : r.Inv B :=
  ⟨h.part.congr hAB, h.current_lt⟩

theorem Inv.get_current (h : r.Inv A) (hpos : 0 < r.active) :
    ∃ p, r.pipes.get r.current = some p ∧ r.attached p ∧ A p := by
  have hlt : r.current < r.active := by grind [h.current_lt]
  obtain ⟨p, hp⟩ := ArrayT.get_of_lt (Nat.lt_of_lt_of_le hlt h.part.le_size)
  exact ⟨p, hp, ArrayT.mem_of_get hp, h.part.of_get hp hlt⟩

theorem Inv.current_lt_active (h : r.Inv A) (hpos : 0 < r.active) : r.current < r.active := by
  grind [h.current_lt]

theorem Inv.not_mem_of_active_eq_zero (h : r.Inv A)
    (h0 : r.active = 0) {p : α} (hp : r.attached p) : ¬ A p := by
  intro hA
  have := (h.part.mem_iff p hp).2 hA
  omega

theorem Inv.active_eq_size (h : r.Inv fun _ => True) : r.active = r.pipes.size := by
  have hle := h.part.le_size
  by_contra hne
  obtain ⟨x, hx⟩ := ArrayT.get_of_lt (Nat.lt_of_le_of_ne hle hne)
  have hlt := (h.part.mem_iff x (ArrayT.mem_of_get hx)).2 trivial
  rw [h.part.wf _ x hx] at hlt
  exact absurd hlt (Nat.lt_irrefl _)

variable [DecidableEq α]
variable {r : Rotor α} {p : α} {A : α → Prop}

theorem Inv.attach (h : r.Inv A) (hp : ¬ r.attached p) :
    ∃ r', r.attach p = .ok r' ∧ r'.Inv (fun x => x = p ∨ A x) ∧
      (∀ x, r'.attached x ↔ r.attached x ∨ x = p) ∧ r'.current = r.current ∧
      r'.active = r.active + 1 ∧
      (r.current < r.active → r'.pipes.get r.current = r.pipes.get r.current) := by
  obtain ⟨a', ha', hpart, hmem⟩ := h.part.pushBack_swap hp
  have hcur := h.current_lt
  have hle := h.part.le_size
  refine ⟨⟨a', r.active + 1, r.current⟩, by simp only [Rotor.attach, ha'], ⟨hpart, ?_⟩, hmem, rfl,
    rfl, ?_⟩
  · simp only
    omega
  · intro hlt
    rw [ArrayT.get_swap ha']
    have hidx : ArrayT.swapIndex r.active ((r.pipes.pushBack p).size - 1) r.current = r.current := by
      rw [ArrayT.size_pushBack, ArrayT.swapIndex, if_neg (by omega), if_neg (by omega)]
    rw [hidx]
    simp only [ArrayT.get, ArrayT.pushBack, ArrayT.size] at hle ⊢
    rw [List.getElem?_append_left (by omega)]

theorem Inv.activated (h : r.Inv A) (hp : r.attached p) (hA : ¬ A p) :
    ∃ r', r.activated p = .ok r' ∧ r'.Inv (fun x => x = p ∨ A x) ∧
      (∀ x, r'.attached x ↔ r.attached x) ∧ r'.current = r.current ∧ r'.active = r.active + 1 ∧
      (r.current < r.active → r'.pipes.get r.current = r.pipes.get r.current) := by
  obtain ⟨a', ha', hpart, hmem⟩ := h.part.swap_in hp hA
  have hcur := h.current_lt
  have hge : ¬ r.pipes.index p < r.active := fun hl => hA ((h.part.mem_iff p hp).1 hl)
  refine ⟨⟨a', r.active + 1, r.current⟩, by simp only [Rotor.activated, ha'], ⟨hpart, ?_⟩, hmem,
    rfl, rfl, ?_⟩
  · simp only
    omega
  · intro hlt
    rw [ArrayT.get_swap ha', ArrayT.swapIndex, if_neg (by omega), if_neg (by omega)]

theorem Inv.deactivate (h : r.Inv A) (hpos : 0 < r.active)
    (hget : r.pipes.get r.current = some p) :
    ∃ r', r.deactivate = .ok r' ∧ r'.Inv (fun x => x ≠ p ∧ A x) ∧
      (∀ x, r'.attached x ↔ r.attached x) ∧ r'.active = r.active - 1 := by
  have hlt := h.current_lt_active hpos
  obtain ⟨a', ha', hpart, hmem⟩ := h.part.swap_out hlt hget
  refine ⟨⟨a', r.active - 1, if r.current = r.active - 1 then 0 else r.current⟩,
    by simp only [Rotor.deactivate, ha'], ⟨hpart, ?_⟩, hmem, rfl⟩
  simp only
  split <;> omega

theorem terminated_ok {r' : Rotor α} (h : r.terminated p = .ok r') :
    r.pipes.erase p = some r'.pipes ∧
      r'.active = ArrayT.eraseBoundary r.active (r.pipes.index p) ∧
      r'.current = if r.pipes.index p < r.active ∧ r.current = r.active - 1 then 0 else r.current := by
  unfold terminated at h
  grind [ArrayT.eraseBoundary]

def TerminatedKeeps (r : Rotor α) (p : α) : Prop :=
  ArrayT.EraseKeeps r.pipes.size r.active (r.pipes.index p)
deriving Decidable

theorem Inv.terminated (h : r.Inv A) (hp : r.attached p) (hk : r.TerminatedKeeps p) :
    ∃ r', r.terminated p = .ok r' ∧ r'.Inv A ∧ (∀ x, r'.attached x ↔ r.attached x ∧ x ≠ p) := by
  obtain ⟨a', ha', hpart, hmem⟩ := h.part.erase hp hk
  have hcur := h.current_lt
  by_cases hlt : r.pipes.index p < r.active
  · refine ⟨⟨a', r.active - 1, if r.current = r.active - 1 then 0 else r.current⟩,
      by simp only [Rotor.terminated, hlt, if_true, ha'], ?_, hmem⟩
    simp only [ArrayT.eraseBoundary, hlt, if_true] at hpart
    refine ⟨hpart, ?_⟩
    simp only
    split <;> omega
  · refine ⟨{ r with pipes := a' }, by simp only [Rotor.terminated, hlt, if_false, ha'], ?_, hmem⟩
    simp only [ArrayT.eraseBoundary, hlt, if_false] at hpart
    exact ⟨hpart, hcur⟩

theorem Inv.terminated_loses {r' : Rotor α} (h : r.Inv A)
    (hk : ¬ r.TerminatedKeeps p) (hr : r.terminated p = .ok r') :
    ∃ x, r'.attached x ∧ A x ∧ ¬ r'.pipes.index x < r'.active := by
  have hlt : r.pipes.index p < r.active := by
    unfold TerminatedKeeps ArrayT.EraseKeeps at hk
    omega
  simp only [Rotor.terminated, hlt, if_true] at hr
  split at hr
  · cases hr
  next a' ha' =>
    cases hr
    obtain ⟨x, hx, hA, hout⟩ := h.part.erase_loses hk ha'
    simp only [ArrayT.eraseBoundary, hlt, if_true] at hout
    exact ⟨x, hx, hA, hout⟩

end Rotor

end Libxs
