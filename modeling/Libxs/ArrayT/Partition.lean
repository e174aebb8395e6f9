import Libxs.ArrayT

/-! # Arrays partitioned into an active and a passive region -/

namespace Libxs.ArrayT

variable {α : Type}
variable {a : ArrayT α} {n : Nat} {A : α → Prop}

structure Partitioned (a : ArrayT α) (n : Nat) (A : α → Prop) : Prop where
  wf : a.WF
  le_size : n ≤ a.size
  mem_iff : ∀ x ∈ a.items, (a.index x < n ↔ A x)

theorem partitioned_empty (A : α → Prop) : Partitioned (empty : ArrayT α) 0 A :=
  ⟨wf_empty, Nat.zero_le _, fun _ hx => absurd hx (by simp [empty])⟩

theorem Partitioned.congr {B : α → Prop} (h : Partitioned a n A)
    (hAB : ∀ x ∈ a.items, (A x ↔ B x)) : Partitioned a n B :=
  ⟨h.wf, h.le_size, fun x hx => (h.mem_iff x hx).trans (hAB x hx)⟩

theorem Partitioned.of_get {i : Nat} (h : Partitioned a n A) {x : α}
    (hx : a.get i = some x) (hi : i < n) : A x :=
  (h.mem_iff x (mem_of_get hx)).1 (by rw [h.wf i x hx]; exact hi)

theorem Partitioned.extend (h : Partitioned a n A) {p : α}
    (hp : a.get n = some p) : Partitioned a (n + 1) (fun x => x = p ∨ A x) := by
  have hpn := h.wf n p hp
  refine ⟨h.wf, (List.getElem?_eq_some_iff.1 hp).1, fun x hx => ?_⟩
  rw [← h.mem_iff x hx]
  constructor
  · intro hlt
    by_cases hn : a.index x = n
    · exact Or.inl (h.wf.index_inj hx (mem_of_get hp) (hn.trans hpn.symm))
    · exact Or.inr (by omega)
  · rintro (rfl | hlt)
    · omega
    · omega

theorem Partitioned.reindex (h : Partitioned a n A)
    {f : α → Nat} (hf : ∀ x ∈ a.items, f x = a.index x) :
    Partitioned (⟨a.items, f⟩ : ArrayT α) n A := by
  refine ⟨fun i x hi => ?_, h.le_size, fun x hx => ?_⟩
  · exact (hf x (mem_of_get hi)).trans (h.wf i x hi)
  · rw [← h.mem_iff x hx, ← hf x hx]
    rfl

variable [DecidableEq α]
variable {a : ArrayT α} {n : Nat} {p : α} {A : α → Prop}

theorem Partitioned.swap_same {a' : ArrayT α} {i j : Nat}
    (h : Partitioned a n A) (hij : i < n ↔ j < n) (hs : a.swap i j = some a') :
    Partitioned a' n A := by
  refine ⟨h.wf.swap hs, by rw [size_swap hs]; exact h.le_size, fun x hx => ?_⟩
  have hxa := (mem_swap hs).1 hx
  rw [index_swap h.wf hs hxa, ← h.mem_iff x hxa, swapIndex]
  split_ifs <;> omega

theorem Partitioned.pushBack (h : Partitioned a n A)
    (hp : p ∉ a.items) : Partitioned (a.pushBack p) n (fun x => x ≠ p ∧ A x) := by
  have hle := h.le_size
  refine ⟨h.wf.pushBack hp, by rw [size_pushBack]; omega, fun x hx => ?_⟩
  by_cases hxp : x = p
  · rw [hxp, index_pushBack_self]
    simp [hle]
  · rw [index_pushBack_ne hxp, h.mem_iff x ((mem_pushBack.1 hx).resolve_right hxp)]
    simp [hxp]

theorem Partitioned.pushBack_swap (h : Partitioned a n A) (hp : p ∉ a.items) :
    ∃ a', (a.pushBack p).swap n ((a.pushBack p).size - 1) = some a' ∧
      Partitioned a' (n + 1) (fun x => x = p ∨ A x) ∧ (∀ x, x ∈ a'.items ↔ x ∈ a.items ∨ x = p) := by
  have hle := h.le_size
  have hwf := h.wf.pushBack hp
  obtain ⟨a', ha'⟩ := swap_of_lt (a := a.pushBack p) (i := n) (j := (a.pushBack p).size - 1)
    (by simp; omega) (by simp)
  have hmem : ∀ x, x ∈ a'.items ↔ x ∈ a.items ∨ x = p := fun x =>
    (mem_swap ha').trans mem_pushBack
  refine ⟨a', ha', ⟨hwf.swap ha', by rw [size_swap ha', size_pushBack]; omega, ?_⟩, hmem⟩
  intro x hx
  rw [index_swap hwf ha' ((mem_swap ha').1 hx), size_pushBack]
  by_cases hxp : x = p
  · -- the new item takes the first passive position
    subst hxp
    rw [index_pushBack_self]
    simp only [swapIndex, true_or, iff_true]
    split_ifs <;> omega
  · have hxa : x ∈ a.items := ((hmem x).1 hx).resolve_right hxp
    have hlt := h.wf.index_lt hxa
    have hiff := h.mem_iff x hxa
    rw [index_pushBack_ne hxp]
    simp only [swapIndex, hxp, false_or, ← hiff]
    split_ifs <;> omega

theorem Partitioned.swap_in (h : Partitioned a n A) (hp : p ∈ a.items) (hA : ¬ A p) :
    ∃ a', a.swap (a.index p) n = some a' ∧ Partitioned a' (n + 1) (fun x => x = p ∨ A x) ∧
      (∀ x, x ∈ a'.items ↔ x ∈ a.items) := by
  have hlt := h.wf.index_lt hp
  have hge : ¬ a.index p < n := fun hl => hA ((h.mem_iff p hp).1 hl)
  obtain ⟨a', ha'⟩ := swap_of_lt (a := a) (i := a.index p) (j := n) hlt (by omega)
  refine ⟨a', ha', ⟨h.wf.swap ha', by rw [size_swap ha']; omega, ?_⟩, fun x => mem_swap ha'⟩
  intro x hx
  have hxa := (mem_swap ha').1 hx
  rw [index_swap h.wf ha' hxa]
  by_cases hxp : x = p
  · subst hxp
    simp [swapIndex]
  · have hne : a.index x ≠ a.index p := fun he => hxp (h.wf.index_inj hxa hp he)
    have hiff := h.mem_iff x hxa
    simp only [swapIndex, hne, if_false, hxp, false_or, ← hiff]
    split_ifs <;> omega

theorem Partitioned.swap_out {i : Nat} (h : Partitioned a n A)
    (hi : i < n) (hp : a.get i = some p) :
    ∃ a', a.swap i (n - 1) = some a' ∧ Partitioned a' (n - 1) (fun x => x ≠ p ∧ A x) ∧
      (∀ x, x ∈ a'.items ↔ x ∈ a.items) := by
  have hle := h.le_size
  obtain ⟨a', ha'⟩ := swap_of_lt (a := a) (i := i) (j := n - 1) (by omega) (by omega)
  refine ⟨a', ha', ⟨h.wf.swap ha', by rw [size_swap ha']; omega, ?_⟩, fun x => mem_swap ha'⟩
  intro x hx
  have hxa := (mem_swap ha').1 hx
  have hpi := h.wf i p hp
  rw [index_swap h.wf ha' hxa]
  by_cases hxp : x = p
  · subst hxp
    simp [swapIndex, hpi]
  · have hne : a.index x ≠ i := fun he => hxp (h.wf.index_inj hxa (mem_of_get hp) (he.trans hpi.symm))
    have hiff := h.mem_iff x hxa
    simp only [swapIndex, hne, if_false, hxp, ne_eq, not_false_iff, true_and, ← hiff]
    split_ifs <;> omega

def EraseKeeps (size n i : Nat) : Prop := n ≤ i ∨ i + 1 = n ∨ n = size
deriving Decidable

def eraseBoundary (n i : Nat) : Nat := if i < n then n - 1 else n

theorem Partitioned.erase (h : Partitioned a n A)
    (hp : p ∈ a.items) (hk : EraseKeeps a.size n (a.index p)) :
    ∃ a', a.erase p = some a' ∧ Partitioned a' (eraseBoundary n (a.index p)) A ∧
      (∀ x, x ∈ a'.items ↔ x ∈ a.items ∧ x ≠ p) := by
  have hle := h.le_size
  have hlt := h.wf.index_lt hp
  obtain ⟨a', ha'⟩ := eraseAt_of_lt hlt
  have hmem : ∀ x, x ∈ a'.items ↔ x ∈ a.items ∧ x ≠ p := by
    intro x
    rw [mem_eraseAt h.wf ha']
    constructor
    · grind
    · rintro ⟨hx, hne⟩
      exact ⟨hx, fun he => hne (h.wf.index_inj hx hp he)⟩
  refine ⟨a', ha', ⟨h.wf.eraseAt ha', ?_, ?_⟩, hmem⟩
  · rw [size_eraseAt ha']
    unfold eraseBoundary
    split_ifs <;> omega
  · intro x hx
    obtain ⟨hxa, hxp⟩ := (hmem x).1 hx
    have hne : a.index x ≠ a.index p := fun he => hxp (h.wf.index_inj hxa hp he)
    have hxlt := h.wf.index_lt hxa
    rw [index_eraseAt h.wf ha' hxa, ← h.mem_iff x hxa]
    unfold eraseBoundary
    rcases hk with hk | hk | hk <;> split_ifs <;> omega

theorem Partitioned.erase_loses {a' : ArrayT α} (h : Partitioned a n A)
    (hk : ¬ EraseKeeps a.size n (a.index p)) (he : a.erase p = some a') :
    ∃ x, x ∈ a'.items ∧ A x ∧ ¬ a'.index x < eraseBoundary n (a.index p) := by
  have hle := h.le_size
  simp only [EraseKeeps, not_or] at hk
  obtain ⟨h1, h2, h3⟩ := hk
  obtain ⟨x, hx⟩ := get_of_lt (a := a) (i := n - 1) (by omega)
  have hxi := h.wf _ x hx
  refine ⟨x, (mem_eraseAt h.wf he).2 ⟨mem_of_get hx, by omega⟩, h.of_get hx (by omega), ?_⟩
  rw [index_eraseAt h.wf he (mem_of_get hx), hxi, eraseBoundary]
  split_ifs <;> omega

end Libxs.ArrayT
