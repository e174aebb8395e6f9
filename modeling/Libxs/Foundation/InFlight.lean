import Mathlib.Data.List.Basic

/-! # Messages in flight -/

namespace Libxs

variable {ε κ : Type} [DecidableEq κ] {route : ε → κ} {k : κ} {l l' : List ε} {e : ε}

def deliverNext (route : ε → κ) (k : κ) : List ε → Option (ε × List ε)
  | [] => none
  | e :: l => if route e = k then some (e, l) else (deliverNext route k l).map fun r => (r.1, e :: r.2)

theorem deliverNext_eq_some (h : deliverNext route k l = some (e, l')) :
    ∃ pre post, l = pre ++ e :: post ∧ l' = pre ++ post ∧ route e = k ∧ ∀ x ∈ pre, route x ≠ k := by
  induction l generalizing l' with
  | nil => exact absurd h (by simp [deliverNext])
  | cons x l ih =>
    simp only [deliverNext] at h
    split at h
    next hx =>
      simp only [Option.some.injEq, Prod.mk.injEq] at h
      obtain ⟨rfl, rfl⟩ := h
      exact ⟨[], l, rfl, rfl, hx, by simp⟩
    next hx =>
      obtain ⟨⟨e', l''⟩, hnext, heq⟩ := Option.map_eq_some_iff.1 h
      simp only [Prod.mk.injEq] at heq
      obtain ⟨rfl, rfl⟩ := heq
      obtain ⟨pre, post, rfl, rfl, hroute, hpre⟩ := ih hnext
      refine ⟨x :: pre, post, rfl, rfl, hroute, fun y hy => ?_⟩
      grind

theorem mem_of_deliverNext (h : deliverNext route k l = some (e, l')) : e ∈ l := by
  obtain ⟨pre, post, rfl, -, -, -⟩ := deliverNext_eq_some h
  simp

theorem countP_of_deliverNext (h : deliverNext route k l = some (e, l')) (f : ε → Bool) :
    l.countP f = l'.countP f + if f e then 1 else 0 := by
  obtain ⟨pre, post, rfl, rfl, -, -⟩ := deliverNext_eq_some h
  simp only [List.countP_append, List.countP_cons]
  omega

theorem filter_of_deliverNext (h : deliverNext route k l = some (e, l')) {f : ε → Bool}
    (hf : ∀ x ∈ l, f x = true → f e = true → route x = route e) :
    l.filter f = if f e then e :: l'.filter f else l'.filter f := by
  obtain ⟨pre, post, rfl, rfl, hroute, hpre⟩ := deliverNext_eq_some h
  cases he : f e with
  | false => simp [List.filter_append, he]
  | true =>
    have hnone : pre.filter f = [] := by grind [List.filter_eq_nil_iff]
    simp [List.filter_append, he, hnone]

end Libxs
