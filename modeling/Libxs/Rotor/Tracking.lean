import Libxs.Foundation.Run
import Libxs.Rotor

/-! # The active region tracks the pipes that were not refused -/

namespace Libxs

variable {α ε : Type}

structure Watch (ε : Type) where
  refused : ε → Bool
  closed : ε → Prop
  asleep : ε → Prop

namespace Rotor

structure Tracks (r : Rotor α) (w : Watch ε) (ends : α → ε) : Prop where
  rotor : r.Inv (fun p => w.refused (ends p) = false)
  closed : ∀ p, r.attached p → w.refused (ends p) = true → w.closed (ends p)
  refused : ∀ p, r.attached p → w.asleep (ends p) → w.refused (ends p) = true

variable {r r' : Rotor α} {w : Watch ε} {ends : α → ε} {p : α} {e : ε}

theorem tracks_init (w : Watch ε) (ends : α → ε) : (init : Rotor α).Tracks w ends where
  rotor := inv_init _
  closed := fun _ hp => absurd hp (by simp [init, attached, ArrayT.empty])
  refused := fun _ hp => absurd hp (by simp [init, attached, ArrayT.empty])

theorem Tracks.closed_of_active_eq_zero (h : r.Tracks w ends) (h0 : r.active = 0)
    (hp : r.attached p) : w.closed (ends p) := by
  have href := h.rotor.not_mem_of_active_eq_zero h0 hp
  rw [Bool.not_eq_false] at href
  exact h.closed p hp href

theorem Tracks.setCurrent (h : r.Tracks w ends) {n : Nat} (hn : n < r.active) :
    ({ r with current := n } : Rotor α).Tracks w ends :=
  ⟨⟨h.rotor.part, Or.inr hn⟩, h.closed, h.refused⟩

variable [DecidableEq α]

theorem Tracks.update (h : r.Tracks w ends) {A : α → Prop} (hr : r'.Inv A)
    (hA : ∀ x, x ≠ p → (A x ↔ w.refused (ends x) = false)) (hAp : A p ↔ w.refused e = false)
    (hatt : ∀ x, x ≠ p → r'.attached x → r.attached x)
    (hclosed : r'.attached p → w.refused e = true → w.closed e)
    (hasleep : r'.attached p → w.asleep e → w.refused e = true) :
    r'.Tracks w (Function.update ends p e) where
  rotor := hr.congr fun x _ => by
    grind
  closed := by grind [h.closed]
  refused := by grind [h.refused]

theorem Tracks.setEnd (h : r.Tracks w ends) (href : w.refused e = w.refused (ends p))
    (hclosed : w.closed (ends p) → w.closed e) (hasleep : w.asleep e → w.asleep (ends p)) :
    r.Tracks w (Function.update ends p e) :=
  h.update h.rotor (fun _ _ => Iff.rfl) (by rw [href]) (fun _ _ hx => hx)
    (fun hp hr => hclosed (h.closed p hp (href ▸ hr)))
    (fun hp ha => by rw [href]; exact h.refused p hp (hasleep ha))

theorem Tracks.drop (h : r.Tracks w ends)
    (hr : r'.Inv (fun x => x ≠ p ∧ w.refused (ends x) = false))
    (hmem : ∀ x, r'.attached x ↔ r.attached x) (hclosed : w.closed e) (href : w.refused e = true) :
    r'.Tracks w (Function.update ends p e) :=
  h.update hr (fun x hx => by simp [hx]) (by simp [href]) (fun x _ hx => (hmem x).1 hx)
    (fun _ _ => hclosed) (fun _ _ => href)

theorem Tracks.deactivate (h : r.Tracks w ends) (hpos : 0 < r.active)
    (hget : r.pipes.get r.current = some p) (hclosed : w.closed e) (href : w.refused e = true) :
    ∃ r', r.deactivate = .ok r' ∧ r'.active = r.active - 1 ∧
      (∀ x, r'.attached x ↔ r.attached x) ∧ r'.Tracks w (Function.update ends p e) := by
  obtain ⟨r', hr, hinv, hmem, hact⟩ := h.rotor.deactivate hpos hget
  exact ⟨r', hr, hact, hmem, h.drop hinv hmem hclosed href⟩

theorem Tracks.attach (h : r.Tracks w ends) (hp : ¬ r.attached p) (href : w.refused e = false)
    (hasleep : ¬ w.asleep e) :
    ∃ r', r.attach p = .ok r' ∧ r'.active = r.active + 1 ∧
      r'.Tracks w (Function.update ends p e) := by
  obtain ⟨r', hr, hinv, hmem, -, hact, -⟩ := h.rotor.attach hp
  refine ⟨r', hr, hact, ?_⟩
  exact h.update hinv (fun x hx => by simp [hx]) (by simp [href])
    (fun x hxp hx => ((hmem x).1 hx).resolve_right hxp)
    (fun _ he => absurd he (by simp [href])) (fun _ ha => absurd ha hasleep)

theorem Tracks.activated (h : r.Tracks w ends) (hp : r.attached p) (hold : w.asleep (ends p))
    (href : w.refused e = false) (hasleep : ¬ w.asleep e) :
    ∃ r', r.activated p = .ok r' ∧ r'.active = r.active + 1 ∧
      r'.Tracks w (Function.update ends p e) := by
  have hA : ¬ w.refused (ends p) = false := by
    rw [h.refused p hp hold]
    simp
  obtain ⟨r', hr, hinv, hmem, -, hact, -⟩ := h.rotor.activated hp hA
  refine ⟨r', hr, hact, ?_⟩
  exact h.update hinv (fun x hx => by simp [hx]) (by simp [href]) (fun x _ hx => (hmem x).1 hx)
    (fun _ he => absurd he (by simp [href])) (fun _ ha => absurd ha hasleep)

theorem Tracks.terminated (h : r.Tracks w ends) (hp : r.attached p) (hk : r.TerminatedKeeps p) :
    ∃ r', r.terminated p = .ok r' ∧ r'.Tracks w ends := by
  obtain ⟨r', hr, hinv, hmem⟩ := h.rotor.terminated hp hk
  exact ⟨r', hr, hinv, fun x hx => h.closed x ((hmem x).1 hx).1,
    fun x hx => h.refused x ((hmem x).1 hx).1⟩

def Complete (r : Rotor α) (w : Watch ε) (ends : α → ε) : Prop :=
  ∀ p, r.attached p → w.refused (ends p) = false → r.pipes.index p < r.active

omit [DecidableEq α] in
theorem Tracks.complete (h : r.Tracks w ends) : r.Complete w ends :=
  fun p hp hr => (h.rotor.part.mem_iff p hp).2 hr

theorem Tracks.terminated_complete_iff (h : r.Tracks w ends) (hp : r.attached p)
    (hr : r.terminated p = .ok r') : r'.Complete w ends ↔ r.TerminatedKeeps p := by
  constructor
  · intro hc
    by_contra hk
    obtain ⟨x, hx, hA, hout⟩ := h.rotor.terminated_loses hk hr
    exact hout (hc x hx hA)
  · intro hk
    obtain ⟨r2, hr2, htr⟩ := h.terminated hp hk
    rw [hr] at hr2
    cases hr2
    exact htr.complete

end Rotor

end Libxs
