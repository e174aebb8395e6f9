import Mathlib.Data.List.Basic

/-! # `array_t`: a vector of pointers whose items know their own position -/

namespace Libxs

variable {α : Type}

structure ArrayT (α : Type) where
  items : List α
  arrayIndex : α → Nat

namespace ArrayT

variable {a : ArrayT α} {i : Nat} {x : α}

def setArrayIndex [DecidableEq α] (f : α → Nat) (x : α) (i : Nat) : α → Nat :=
  fun y => if y = x then i else f y

def empty : ArrayT α := ⟨[], fun _ => 0⟩

def size (a : ArrayT α) : Nat := a.items.length

/-- `operator []`. -/
def get (a : ArrayT α) (i : Nat) : Option α := a.items[i]?

def index (a : ArrayT α) (x : α) : Nat := a.arrayIndex x

def pushBack [DecidableEq α] (a : ArrayT α) (x : α) : ArrayT α :=
  ⟨a.items ++ [x], setArrayIndex a.arrayIndex x a.items.length⟩

def eraseAt [DecidableEq α] (a : ArrayT α) (i : Nat) : Option (ArrayT α) :=
  match a.items.getLast? with
  | none => none
  | some back =>
    if i < a.items.length then
      some ⟨(a.items.set i back).dropLast, setArrayIndex a.arrayIndex back i⟩
    else none

/-- `erase (T *)`. -/
def erase [DecidableEq α] (a : ArrayT α) (x : α) : Option (ArrayT α) := a.eraseAt (a.index x)

def swap [DecidableEq α] (a : ArrayT α) (i j : Nat) : Option (ArrayT α) :=
  match a.items[i]?, a.items[j]? with
  | some x, some y =>
    some ⟨(a.items.set i y).set j x, setArrayIndex (setArrayIndex a.arrayIndex x j) y i⟩
  | _, _ => none

/-! ## The stored index is the position -/

def WF (a : ArrayT α) : Prop := ∀ (i : Nat) (x : α), a.items[i]? = some x → a.index x = i

theorem WF.index_lt (h : a.WF) (hx : x ∈ a.items) : a.index x < a.size := by
  obtain ⟨i, hi⟩ := List.mem_iff_getElem?.1 hx
  rw [h i x hi]
  exact (List.getElem?_eq_some_iff.1 hi).1

theorem WF.get_index (h : a.WF) (hx : x ∈ a.items) : a.get (a.index x) = some x := by
  obtain ⟨i, hi⟩ := List.mem_iff_getElem?.1 hx
  rw [h i x hi]
  exact hi

theorem mem_of_get (h : a.get i = some x) : x ∈ a.items :=
  List.mem_iff_getElem?.2 ⟨i, h⟩

theorem get_of_lt (h : i < a.size) : ∃ x, a.get i = some x :=
  ⟨_, List.getElem?_eq_getElem h⟩

theorem WF.index_inj (h : a.WF) {y : α} (hx : x ∈ a.items) (hy : y ∈ a.items)
    (he : a.index x = a.index y) : x = y := by
  have hgx := h.get_index hx
  rw [he, h.get_index hy] at hgx
  exact (Option.some.inj hgx).symm

theorem wf_empty : (empty : ArrayT α).WF := by
  intro i x hi
  simp [empty] at hi

variable [DecidableEq α]
variable {a a' : ArrayT α} {i j : Nat} {x : α}

/-! ## `push_back` -/

theorem mem_pushBack {y : α} : y ∈ (a.pushBack x).items ↔ y ∈ a.items ∨ y = x := by
  simp [pushBack]

@[simp] theorem size_pushBack (a : ArrayT α) (x : α) : (a.pushBack x).size = a.size + 1 := by
  simp [pushBack, size]

theorem index_pushBack_self (a : ArrayT α) (x : α) : (a.pushBack x).index x = a.size := by
  simp [pushBack, index, setArrayIndex, size]

theorem index_pushBack_ne {y : α} (h : y ≠ x) : (a.pushBack x).index y = a.index y := by
  simp [pushBack, index, setArrayIndex, h]

theorem WF.pushBack (h : a.WF) (hx : x ∉ a.items) : (a.pushBack x).WF := by
  intro i y hi
  simp only [ArrayT.pushBack, List.getElem?_append] at hi
  split at hi
  · have hyx : y ≠ x := fun he => hx (he ▸ List.mem_iff_getElem?.2 ⟨i, hi⟩)
    rw [index_pushBack_ne hyx]
    exact h i y hi
  next hlt =>
    have hlen : i - a.items.length < 1 := by
      simpa using (List.getElem?_eq_some_iff.1 hi).1
    have hi0 : i - a.items.length = 0 := by omega
    rw [hi0] at hi
    simp only [List.getElem?_cons_zero, Option.some.injEq] at hi
    subst hi
    rw [index_pushBack_self]
    simp only [size]
    omega

/-! ## `swap` -/

def swapIndex (i j k : Nat) : Nat := if k = i then j else if k = j then i else k

theorem swap_of_lt (hi : i < a.size) (hj : j < a.size) : ∃ a', a.swap i j = some a' := by
  obtain ⟨x, hx⟩ := get_of_lt hi
  obtain ⟨y, hy⟩ := get_of_lt hj
  simp only [get] at hx hy
  simp [swap, hx, hy]

theorem WF.swap_self (hwf : a.WF) (hx : a.get i = some x) : a.swap i i = some a := by
  have hi : a.items[i]? = some x := hx
  have hindex : a.arrayIndex x = i := hwf i x hi
  obtain ⟨hlt, hval⟩ := List.getElem?_eq_some_iff.1 hi
  have hitems : (a.items.set i x).set i x = a.items := by
    rw [List.set_set, ← hval, List.set_getElem_self]
  have hstored : setArrayIndex (setArrayIndex a.arrayIndex x i) x i = a.arrayIndex := by
    funext y
    unfold setArrayIndex
    split <;> simp_all
  simp only [swap, hi, hitems, hstored]

theorem get_swap (h : a.swap i j = some a') (k : Nat) : a'.get k = a.get (swapIndex i j k) := by
  simp only [swap] at h
  split at h
  next x y hx hy =>
    simp only [Option.some.injEq] at h
    subst h
    have hil := (List.getElem?_eq_some_iff.1 hx).1
    have hjl := (List.getElem?_eq_some_iff.1 hy).1
    simp only [get, swapIndex, List.getElem?_set, List.length_set]
    grind
  · cases h

theorem swapIndex_swapIndex (i j k : Nat) : swapIndex i j (swapIndex i j k) = k := by
  unfold swapIndex
  split_ifs <;> omega

theorem size_swap (h : a.swap i j = some a') : a'.size = a.size := by
  simp only [swap] at h
  grind [size]

theorem mem_swap (h : a.swap i j = some a') : x ∈ a'.items ↔ x ∈ a.items := by
  constructor
  · intro hx
    obtain ⟨k, hk⟩ := List.mem_iff_getElem?.1 hx
    exact mem_of_get ((get_swap h k).symm.trans hk)
  · intro hx
    obtain ⟨k, hk⟩ := List.mem_iff_getElem?.1 hx
    refine mem_of_get (i := swapIndex i j k) ?_
    rw [get_swap h, swapIndex_swapIndex]
    exact hk

theorem index_swap (hwf : a.WF) (h : a.swap i j = some a')
    (hx : x ∈ a.items) : a'.index x = swapIndex i j (a.index x) := by
  have hgx := hwf.get_index hx
  simp only [get] at hgx
  simp only [swap] at h
  split at h
  next u v hu hv =>
    simp only [Option.some.injEq] at h
    subst h
    have hui := hwf i u hu
    have hvj := hwf j v hv
    simp only [index, setArrayIndex, swapIndex] at *
    by_cases hxv : x = v
    · grind
    · by_cases hxu : x = u
      · subst hxu; simp [hxv, hui]
      · have hxi : a.arrayIndex x ≠ i := by
          intro he
          rw [he, hu] at hgx
          exact hxu (Option.some.inj hgx).symm
        have hxj : a.arrayIndex x ≠ j := by grind
        simp [hxv, hxu, hxi, hxj]
  · cases h

theorem WF.swap (hwf : a.WF) (h : a.swap i j = some a') : a'.WF := by
  intro k x hk
  have hk' : a.get (swapIndex i j k) = some x := (get_swap h k).symm.trans hk
  rw [index_swap hwf h (mem_of_get hk'), hwf _ x hk', swapIndex_swapIndex]

/-! ## `erase` -/

theorem eraseAt_of_lt (hi : i < a.size) : ∃ a', a.eraseAt i = some a' := by
  have hne : a.items ≠ [] := by
    intro he
    simp [size, he] at hi
  simp only [size] at hi
  simp [eraseAt, List.getLast?_eq_some_getLast hne, hi]

theorem get_eraseAt (h : a.eraseAt i = some a') (k : Nat) :
    a'.get k = if k + 1 < a.size then (if k = i then a.get (a.size - 1) else a.get k) else none := by
  simp only [eraseAt] at h
  split at h
  · cases h
  next back hb =>
    split_ifs at h with hi
    simp only [Option.some.injEq] at h
    subst h
    rw [List.getLast?_eq_getElem?] at hb
    simp only [get, size, List.getElem?_dropLast, List.length_set, List.getElem?_set]
    by_cases hk : k + 1 < a.items.length
    · have hk' : k < a.items.length - 1 := by omega
      grind
    · have hk' : ¬ k < a.items.length - 1 := by omega
      simp [hk, hk']

theorem size_eraseAt (h : a.eraseAt i = some a') : a'.size = a.size - 1 := by
  simp only [eraseAt] at h
  grind [size]

theorem mem_eraseAt (hwf : a.WF) (h : a.eraseAt i = some a') :
    x ∈ a'.items ↔ x ∈ a.items ∧ a.index x ≠ i := by
  constructor
  · intro hx
    obtain ⟨k, hk⟩ := List.mem_iff_getElem?.1 hx
    have hg := (get_eraseAt h k).symm.trans hk
    split_ifs at hg with h1 h2
    · refine ⟨mem_of_get hg, ?_⟩
      rw [hwf _ x hg]
      omega
    · refine ⟨mem_of_get hg, ?_⟩
      rw [hwf _ x hg]
      exact h2
  · rintro ⟨hx, hne⟩
    have hlt := hwf.index_lt hx
    have hgx := hwf.get_index hx
    by_cases hlast : a.index x = a.size - 1
    · -- the last item now sits in the hole
      have hi : i < a.size := by
        simp only [eraseAt] at h
        split at h
        · cases h
        · split_ifs at h with hi
          exact hi
      refine mem_of_get (i := i) ?_
      rw [get_eraseAt h i, if_pos (by omega), if_pos rfl, ← hlast]
      exact hgx
    · refine mem_of_get (i := a.index x) ?_
      rw [get_eraseAt h _, if_pos (by omega), if_neg hne]
      exact hgx

theorem index_eraseAt (hwf : a.WF) (h : a.eraseAt i = some a') (hx : x ∈ a.items) :
    a'.index x = if a.index x = a.size - 1 then i else a.index x := by
  simp only [eraseAt] at h
  split at h
  · cases h
  next back hb =>
    split_ifs at h with hi
    simp only [Option.some.injEq] at h
    subst h
    rw [List.getLast?_eq_getElem?] at hb
    have hback := hwf _ back hb
    simp only [index, setArrayIndex, size] at *
    by_cases hxb : x = back
    · subst hxb; simp [hback]
    · have hne : a.arrayIndex x ≠ a.items.length - 1 := by
        intro he
        have hgx := hwf.get_index hx
        simp only [get, index, he, hb, Option.some.injEq] at hgx
        exact hxb hgx.symm
      simp [hxb, hne]

theorem WF.eraseAt (hwf : a.WF) (h : a.eraseAt i = some a') : a'.WF := by
  intro k x hk
  have hg := (get_eraseAt h k).symm.trans hk
  split_ifs at hg with h1 h2
  · rw [index_eraseAt hwf h (mem_of_get hg), hwf _ x hg, if_pos rfl, h2]
  · rw [index_eraseAt hwf h (mem_of_get hg), hwf _ x hg, if_neg (by omega)]

end ArrayT

end Libxs
