import Libxs.Foundation.Run
import Mathlib.Data.Fintype.Card

/-! # Counters that count what is related to them -/

namespace Libxs

variable {ι β : Type} {R R' : ι → β → Prop} {count : ι → Int} {i : ι}

def Census (R : ι → β → Prop) (count : ι → Int) : Prop :=
  ∀ i, ∃ S : Finset β, (∀ b, b ∈ S ↔ R i b) ∧ count i = S.card

namespace Census

theorem empty (h : ∀ i b, ¬ R i b) (hcount : ∀ i, count i = 0) : Census R count := fun i =>
  ⟨∅, fun b => by simp [h i b], by simp [hcount i]⟩

theorem congr (h : Census R count) (hR : ∀ i b, R' i b ↔ R i b) : Census R' count := fun i => by
  obtain ⟨S, hS, hcard⟩ := h i
  exact ⟨S, fun b => (hS b).trans (hR i b).symm, hcard⟩

theorem nonneg (h : Census R count) (i : ι) : 0 ≤ count i := by
  obtain ⟨S, -, hcard⟩ := h i
  omega

theorem pos (h : Census R count) {b : β} (hb : R i b) : 0 < count i := by
  obtain ⟨S, hS, hcard⟩ := h i
  have := Finset.card_pos.2 ⟨b, (hS b).2 hb⟩
  omega

theorem exists_of_pos (h : Census R count) (hpos : 0 < count i) : ∃ b, R i b := by
  obtain ⟨S, hS, hcard⟩ := h i
  obtain ⟨b, hb⟩ := Finset.card_pos.1 (by omega : 0 < S.card)
  exact ⟨b, (hS b).1 hb⟩

theorem unique (h : Census R count) (hone : count i = 1) {b b' : β} (hb : R i b) (hb' : R i b') :
    b = b' := by
  obtain ⟨S, hS, hcard⟩ := h i
  obtain ⟨c, rfl⟩ := Finset.card_eq_one.1 (by omega : S.card = 1)
  have h1 := (hS b).2 hb
  have h2 := (hS b').2 hb'
  simp only [Finset.mem_singleton] at h1 h2
  rw [h1, h2]

theorem comp_equiv (h : Census R count) (e : Equiv.Perm β) : Census (fun i b => R i (e b)) count := fun i => by
  obtain ⟨S, hS, hcard⟩ := h i
  refine ⟨S.map e.symm.toEmbedding, fun b => ?_, by rw [Finset.card_map, hcard]⟩
  rw [Finset.mem_map_equiv, Equiv.symm_symm, hS]

theorem eq_card [Fintype β] [DecidableRel R] (h : Census R count) (i : ι) :
    count i = (Finset.univ.filter (R i)).card := by
  obtain ⟨S, hS, hcard⟩ := h i
  rw [hcard]
  congr 2
  ext b
  simp [hS b]

variable [DecidableEq ι] [DecidableEq β]

theorem add (h : Census R count) (R' : ι → β → Prop) (i : ι) (T : Finset β) (hnew : ∀ b ∈ T, ¬ R i b)
    (hR : ∀ j b, R' j b ↔ R j b ∨ (j = i ∧ b ∈ T)) :
    Census R' (Function.update count i (count i + T.card)) := fun j => by
  obtain ⟨S, hS, hcard⟩ := h j
  by_cases hj : j = i
  · subst hj
    refine ⟨S ∪ T, fun b => ?_, ?_⟩
    · rw [Finset.mem_union, hS, hR]
      simp
    · have hdisj : Disjoint S T :=
        Finset.disjoint_left.2 fun b hb hT => hnew b hT ((hS b).1 hb)
      rw [Function.update_self, Finset.card_union_of_disjoint hdisj, hcard]
      simp
  · grind

theorem insert (h : Census R count) (R' : ι → β → Prop) (i : ι) (b : β) (hnew : ¬ R i b)
    (hR : ∀ j c, R' j c ↔ R j c ∨ (j = i ∧ c = b)) :
    Census R' (Function.update count i (count i + 1)) := by
  have := h.add R' i {b} (by simpa using hnew) (by simpa using hR)
  simpa using this

theorem erase (h : Census R count) (R' : ι → β → Prop) (i : ι) (b : β) (hb : R i b)
    (hR : ∀ j c, R' j c ↔ R j c ∧ ¬ (j = i ∧ c = b)) :
    Census R' (Function.update count i (count i - 1)) := fun j => by
  obtain ⟨S, hS, hcard⟩ := h j
  by_cases hj : j = i
  · subst hj
    refine ⟨S.erase b, fun c => ?_, ?_⟩
    · rw [Finset.mem_erase, hS, hR]
      simp [and_comm]
    · have hmem := (hS b).2 hb
      have := Finset.card_pos.2 ⟨b, hmem⟩
      rw [Function.update_self, Finset.card_erase_of_mem hmem, hcard]
      omega
  · refine ⟨S, fun c => ?_, by rw [Function.update_of_ne hj, hcard]⟩
    rw [hS, hR]
    simp [hj]

end Census

end Libxs
