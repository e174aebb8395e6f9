import Mathlib.Data.List.Basic
import Mathlib.Data.Nat.Find

/-! # Dense windows of optional items -/

namespace Libxs.Window

variable {ν : Type}
variable {slots : List (Option ν)} {a b c i k min : Nat} {v : ν}

def look (min : Nat) (slots : List (Option ν)) (c : Nat) : Option ν :=
  if c < min then none else slots[c - min]?.join

def live (slots : List (Option ν)) : Nat := slots.countP Option.isSome

def Tight (slots : List (Option ν)) : Prop :=
  (∀ x, slots[0]? = some x → x.isSome = true) ∧
    ∀ x, slots[slots.length - 1]? = some x → x.isSome = true

theorem look_add (min : Nat) (slots : List (Option ν)) (i : Nat) :
    look min slots (min + i) = slots[i]?.join := by
  rw [look, if_neg (by omega), Nat.add_sub_cancel_left]

theorem look_eq_some (h : look min slots c = some v) :
    min ≤ c ∧ c < min + slots.length ∧ slots[c - min]? = some (some v) := by
  unfold look at h
  split at h
  · cases h
  next hc =>
    rw [Option.join_eq_some_iff] at h
    have hlt := (List.getElem?_eq_some_iff.1 h).1
    exact ⟨by omega, by omega, h⟩

theorem look_eq_none_of_ge (h : c < min ∨ min + slots.length ≤ c) : look min slots c = none := by
  cases hl : look min slots c with
  | none => rfl
  | some v =>
    obtain ⟨h1, h2, -⟩ := look_eq_some hl
    omega

/-! ## Growing -/

theorem look_prepend (hk : k ≤ min) (slots : List (Option ν)) :
    look (min - k) (List.replicate k none ++ slots) = look min slots := by
  funext c
  unfold look
  by_cases h1 : c < min - k
  · rw [if_pos h1, if_pos (by omega)]
  · rw [if_neg h1]
    by_cases h2 : c < min
    · grind
    · rw [if_neg h2, List.getElem?_append_right (by simp; omega)]
      congr 2
      simp only [List.length_replicate]
      omega

theorem look_append (min k : Nat) (slots : List (Option ν)) :
    look min (slots ++ List.replicate k none) = look min slots := by
  funext c
  unfold look
  grind

theorem live_append_replicate (k : Nat) (slots : List (Option ν)) :
    live (slots ++ List.replicate k none) = live slots := by
  simp [live, List.countP_append, List.countP_replicate]

theorem live_replicate_append (k : Nat) (slots : List (Option ν)) :
    live (List.replicate k none ++ slots) = live slots := by
  simp [live, List.countP_append, List.countP_replicate]

/-! ## Changing one slot -/

theorem look_set (hi : i < slots.length) (x : Option ν)
    (c : Nat) : look min (slots.set i x) c = if c = min + i then x else look min slots c := by
  unfold look
  grind

theorem live_set {x : Option ν} (h : slots[i]? = some x)
    (y : Option ν) : live (slots.set i y) + x.toList.length = live slots + y.toList.length := by
  obtain ⟨hi, hx⟩ := List.getElem?_eq_some_iff.1 h
  have hpos : x.isSome = true → 0 < slots.countP Option.isSome := fun hs =>
    List.countP_pos_iff.2 ⟨x, List.mem_of_getElem? h, hs⟩
  unfold live
  rw [List.countP_set hi, hx]
  cases x with
  | none => cases y <;> simp
  | some v =>
    have := hpos rfl
    cases y <;> simp <;> omega

/-! ## Cutting off empty slots -/

theorem look_drop
    (h : ∀ j : Nat, j < k → slots[j]?.join = none) : look (min + k) (slots.drop k) = look min slots := by
  funext c
  unfold look
  by_cases h1 : c < min
  · rw [if_pos h1, if_pos (by omega)]
  · rw [if_neg h1]
    by_cases h2 : c < min + k
    · rw [if_pos h2, h (c - min) (by omega)]
    · rw [if_neg h2, List.getElem?_drop]
      congr 2
      omega

theorem look_take
    (h : ∀ j : Nat, k ≤ j → slots[j]?.join = none) : look min (slots.take k) = look min slots := by
  funext c
  unfold look
  grind

theorem live_eq_zero_iff : live slots = 0 ↔ ∀ j : Nat, slots[j]?.join = none := by
  unfold live
  rw [List.countP_eq_zero]
  constructor
  · intro h j
    cases hj : slots[j]? with
    | none => rfl
    | some x =>
      have := h x (List.mem_of_getElem? hj)
      simpa using this
  · intro h x hx
    obtain ⟨j, hj⟩ := List.mem_iff_getElem?.1 hx
    have := h j
    rw [hj] at this
    simpa using this

theorem live_drop (h : ∀ j : Nat, j < k → slots[j]?.join = none) :
    live (slots.drop k) = live slots := by
  have hzero : live (slots.take k) = 0 := by
    rw [live_eq_zero_iff]
    intro j
    rw [List.getElem?_take]
    split
    · next hj => exact h j hj
    · rfl
  have hsplit : live (slots.take k) + live (slots.drop k) = live slots := by
    unfold live
    rw [← List.countP_append, List.take_append_drop]
  omega

theorem live_take (h : ∀ j : Nat, k ≤ j → slots[j]?.join = none) :
    live (slots.take k) = live slots := by
  have hzero : live (slots.drop k) = 0 := by
    rw [live_eq_zero_iff]
    intro j
    rw [List.getElem?_drop]
    exact h _ (by omega)
  have hsplit : live (slots.take k) + live (slots.drop k) = live slots := by
    unfold live
    rw [← List.countP_append, List.take_append_drop]
  omega

/-! ## The first and the last item -/

theorem exists_first (h : live slots ≠ 0) :
    ∃ i v, slots[i]? = some (some v) ∧ ∀ j : Nat, j < i → slots[j]?.join = none := by
  have hex : ∃ i : Nat, slots[i]?.join.isSome = true := by
    rw [Ne, live_eq_zero_iff, not_forall] at h
    obtain ⟨i, hi⟩ := h
    exact ⟨i, by simpa [Option.isSome_iff_ne_none] using hi⟩
  obtain ⟨v, hv⟩ := Option.isSome_iff_exists.1 (Nat.find_spec hex)
  exact ⟨Nat.find hex, v, Option.join_eq_some_iff.1 hv, fun j hj => by
    simpa using Nat.find_min hex hj⟩

theorem exists_last (h : live slots ≠ 0) :
    ∃ i v, slots[i]? = some (some v) ∧ ∀ j : Nat, i < j → slots[j]?.join = none := by
  obtain ⟨k, w, hk, -⟩ := exists_first h
  have hkl := (List.getElem?_eq_some_iff.1 hk).1
  have hspec : slots[Nat.findGreatest (fun i => slots[i]?.join.isSome = true) slots.length]?.join.isSome
      = true :=
    Nat.findGreatest_spec (P := fun i => slots[i]?.join.isSome = true) (Nat.le_of_lt hkl)
      (by simp [hk])
  obtain ⟨v, hv⟩ := Option.isSome_iff_exists.1 hspec
  refine ⟨_, v, Option.join_eq_some_iff.1 hv, fun j hj => ?_⟩
  by_cases hjl : j ≤ slots.length
  · simpa using Nat.findGreatest_is_greatest hj hjl
  · rw [List.getElem?_eq_none (by omega)]
    rfl

/-! ## Tight windows -/

theorem Tight.two_le_live (h : Tight slots) (h2 : 2 ≤ slots.length) : 2 ≤ live slots := by
  obtain ⟨hfirst, hlast⟩ := h
  match slots, h2 with
  | x :: y :: rest, _ =>
    have hx := hfirst x (by simp)
    have hl := hlast ((y :: rest).getLast (by simp)) (by simp [List.getLast_eq_getElem])
    have hpos : 0 < live (y :: rest) :=
      List.countP_pos_iff.2 ⟨_, List.getLast_mem (by simp), hl⟩
    unfold live at hpos ⊢
    rw [List.countP_cons, hx]
    simp only [if_true]
    omega

theorem tight_singleton (v : ν) : Tight [some v] := by
  constructor <;> (intro x hx; simp at hx; subst hx; rfl)

theorem tight_nil : Tight ([] : List (Option ν)) := by
  constructor <;> (intro x hx; simp at hx)

theorem Tight.set_some (hfirst : ∀ x, slots[0]? = some x → x.isSome = true ∨ i = 0)
    (hlast : ∀ x, slots[slots.length - 1]? = some x → x.isSome = true ∨ i = slots.length - 1) :
    Tight (slots.set i (some v)) := by
  constructor
  · intro x hx
    grind
  · intro x hx
    rw [List.length_set] at hx
    grind

/-! ## The part in use -/

structure Spans (slots : List (Option ν)) (a b : Nat) : Prop where
  first : ∃ v, slots[a]? = some (some v)
  last : ∃ v, slots[b]? = some (some v)
  before : ∀ j : Nat, j < a → slots[j]?.join = none
  after : ∀ j : Nat, b < j → slots[j]?.join = none

def cut (slots : List (Option ν)) (a b : Nat) : List (Option ν) := (slots.drop a).take (b + 1 - a)

theorem exists_spans (h : live slots ≠ 0) : ∃ a b, Spans slots a b := by
  obtain ⟨a, v, ha, hbefore⟩ := exists_first h
  obtain ⟨b, w, hb, hafter⟩ := exists_last h
  exact ⟨a, b, ⟨v, ha⟩, ⟨w, hb⟩, hbefore, hafter⟩

theorem Spans.le (h : Spans slots a b) : a ≤ b := by
  obtain ⟨v, hv⟩ := h.first
  by_contra hlt
  simpa [hv] using h.after a (by omega)

theorem Spans.lt_length (h : Spans slots a b) : b < slots.length := by
  obtain ⟨v, hv⟩ := h.last
  exact (List.getElem?_eq_some_iff.1 hv).1

theorem Spans.mem_range (h : Spans slots a b) (hk : slots[k]? = some (some v)) : a ≤ k ∧ k ≤ b := by
  have hbefore := h.before k
  have hafter := h.after k
  grind

theorem Spans.length_cut (h : Spans slots a b) : (cut slots a b).length = b + 1 - a := by
  have := h.lt_length
  simp only [cut, List.length_take, List.length_drop]
  omega

theorem Spans.look_cut (h : Spans slots a b) : look (min + a) (cut slots a b) = look min slots := by
  have hle := h.le
  rw [cut, look_take, look_drop h.before]
  grind [h.after]

theorem Spans.live_cut (h : Spans slots a b) : live (cut slots a b) = live slots := by
  have hle := h.le
  rw [cut, live_take, live_drop h.before]
  grind [h.after]

theorem Spans.tight_cut (h : Spans slots a b) : Tight (cut slots a b) := by
  have hle := h.le
  have hlen := h.length_cut
  unfold Tight
  rw [hlen]
  unfold cut
  grind [h.first, h.last]

theorem Spans.live_eq_one_iff (h : Spans slots a b) : live slots = 1 ↔ a = b := by
  have hle := h.le
  have hlen := h.length_cut
  refine ⟨fun hone => ?_, fun hab => ?_⟩
  · by_contra hne
    have := h.tight_cut.two_le_live (by omega)
    rw [h.live_cut] at this
    omega
  · have hcount : live (cut slots a b) ≤ (cut slots a b).length := List.countP_le_length
    obtain ⟨v, hv⟩ := h.first
    have : 0 < live slots := List.countP_pos_iff.2 ⟨_, List.mem_of_getElem? hv, rfl⟩
    rw [h.live_cut] at hcount
    omega

theorem Spans.find_first (h : Spans slots a b) {s n : Nat} (hs : s ≤ a) (hn : a < s + n) :
    (List.range' s n).find? (fun i => slots[i]?.join.isSome) = some a := by
  rw [List.find?_range'_eq_some]
  grind [h.first, h.before]

theorem Spans.find_last (h : Spans slots a b) {s n l : Nat} (hl : slots.length = l + 1)
    (hs : s ≤ l - b) (hn : l - b < s + n) :
    (List.range' s n).find? (fun i => slots[l - i]?.join.isSome) = some (l - b) := by
  rw [List.find?_range'_eq_some]
  have := h.lt_length
  grind [h.last, h.after]

theorem Tight.spans_set (h : Tight slots) (hsp : Spans (slots.set i none) a b) :
    (a = 0 ↔ i ≠ 0) ∧ (b = slots.length - 1 ↔ i ≠ slots.length - 1) := by
  have hlt := hsp.lt_length
  have hle := hsp.le
  rw [List.length_set] at hlt
  obtain ⟨v, hv⟩ := hsp.first
  obtain ⟨w, hw⟩ := hsp.last
  have hend : ∀ j, j < slots.length → (∀ x, slots[j]? = some x → x.isSome = true) → i ≠ j →
      (slots.set i none)[j]?.join ≠ none := fun j hj hx hi hnone => by
    rw [List.getElem?_set_ne hi, List.getElem?_eq_getElem hj] at hnone
    have := hx _ (List.getElem?_eq_getElem hj)
    simp_all
  refine ⟨⟨fun ha hi => ?_, fun hi => ?_⟩, ⟨fun hb hi => ?_, fun hi => ?_⟩⟩
  · grind
  · by_contra ha
    exact hend 0 (by omega) h.1 hi (hsp.before 0 (by omega))
  · grind
  · by_contra hb
    exact hend _ (by omega) h.2 hi (hsp.after _ (by omega))

end Libxs.Window
