import Libxs.Foundation.Run
import Mathlib.Data.List.Nodup

/-! # Heaps with one owner per object -/

namespace Libxs

variable {ι β : Type}

structure Owns (P : β → Prop) (own : ι → List Nat) (heap : Nat → Option β) (fresh : Nat) : Prop where
  nodup : ∀ i, (own i).Nodup
  disjoint : ∀ i j h, h ∈ own i → h ∈ own j → i = j
  live : ∀ h, heap h ≠ none ↔ ∃ i, h ∈ own i
  good : ∀ h b, heap h = some b → P b
  below : ∀ i h, h ∈ own i → h < fresh

namespace Owns

variable {P : β → Prop} {own : ι → List Nat} {heap : Nat → Option β} {fresh : Nat}

theorem get (H : Owns P own heap fresh) {i : ι} {h : Nat} (hmem : h ∈ own i) :
    ∃ b, heap h = some b ∧ P b := by
  obtain ⟨b, hb⟩ := Option.ne_none_iff_exists'.1 ((H.live h).2 ⟨i, hmem⟩)
  exact ⟨b, hb, H.good h b hb⟩

theorem store (H : Owns P own heap fresh) {h : Nat} {b b' : β} (hb : heap h = some b) (hP : P b') :
    Owns P own (Function.update heap h (some b')) fresh := by
  refine ⟨H.nodup, H.disjoint, fun h' => ?_, fun h' b'' hb' => ?_, H.below⟩
  · grind [H.live]
  · grind [H.good]

variable [DecidableEq ι]

theorem alloc (H : Owns P own heap fresh) (i : ι) {b : β} (hP : P b) :
    Owns P (Function.update own i (own i ++ [fresh])) (Function.update heap fresh (some b))
      (fresh + 1) := by
  have hmem : ∀ j h, h ∈ Function.update own i (own i ++ [fresh]) j ↔
      h ∈ own j ∨ (j = i ∧ h = fresh) := by
    intro j h
    grind
  refine ⟨fun j => ?_, fun j k h hj hk => ?_, fun h => ?_, fun h b' hb' => ?_, fun j h hj => ?_⟩
  · by_cases hj : j = i
    · subst hj
      rw [Function.update_self, List.nodup_append]
      refine ⟨H.nodup j, by simp, fun h hh h' hh' => ?_⟩
      have := H.below j h hh
      have := List.mem_singleton.1 hh'
      omega
    · rw [Function.update_of_ne hj]
      exact H.nodup j
  · rcases (hmem j h).1 hj with h1 | ⟨h1, h1'⟩ <;> rcases (hmem k h).1 hk with h2 | ⟨h2, h2'⟩
    · exact H.disjoint j k h h1 h2
    · have := H.below j h h1
      omega
    · have := H.below k h h2
      omega
    · rw [h1, h2]
  · simp only [hmem]
    by_cases he : h = fresh
    · grind
    · rw [Function.update_of_ne he, H.live h]
      simp [he]
  · by_cases he : h = fresh
    · grind
    · grind [H.good]
  · rcases (hmem j h).1 hj with h1 | ⟨-, h1⟩
    · exact Nat.lt_succ_of_lt (H.below j h h1)
    · omega

theorem free (H : Owns P own heap fresh) {i : ι} {h : Nat} {rest : List Nat}
    (hown : own i = h :: rest) :
    Owns P (Function.update own i rest) (Function.update heap h none) fresh := by
  have hnodup := H.nodup i
  rw [hown, List.nodup_cons] at hnodup
  have hmem : ∀ j h', h' ∈ Function.update own i rest j ↔ h' ∈ own j ∧ h' ≠ h := by
    intro j h'
    by_cases hj : j = i
    · grind
    · rw [Function.update_of_ne hj]
      refine ⟨fun hh => ⟨hh, fun he => hj ?_⟩, And.left⟩
      exact H.disjoint j i h (he ▸ hh) (by simp [hown])
  refine ⟨fun j => ?_, fun j k h' hj hk => ?_, fun h' => ?_, fun h' b hb => ?_, fun j h' hj => ?_⟩
  · grind [H.nodup]
  · grind [H.disjoint]
  · grind [H.live]
  · grind [H.good]
  · exact H.below j h' ((hmem j h').1 hj).1

end Owns

end Libxs
