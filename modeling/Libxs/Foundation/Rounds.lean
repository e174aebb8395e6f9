import Mathlib.Computability.Language

/-! # Protocols that proceed in rounds -/

namespace Libxs

open scoped Computability

variable {α σ : Type}
variable {K : Language α} {w : List α} {a : α} {P : α → Prop}

/-! ## Languages -/

def letter (P : α → Prop) : Language α := {w | ∃ a, P a ∧ w = [a]}

def prefixes (L : Language α) : Language α := {u | ∃ v, u ++ v ∈ L}

theorem mem_letter : w ∈ letter P ↔ ∃ a, P a ∧ w = [a] := Iff.rfl

theorem mem_prefixes {L : Language α} {u : List α} : u ∈ prefixes L ↔ ∃ v, u ++ v ∈ L := Iff.rfl

theorem nil_not_mem_letter_mul (P : α → Prop) (K : Language α) : [] ∉ letter P * K := by
  rintro ⟨-, ⟨a, -, rfl⟩, y, -, hxy⟩
  cases hxy

theorem nil_not_mem_mul_letter (K : Language α) (P : α → Prop) : [] ∉ K * letter P := by
  rintro ⟨x, -, -, ⟨a, -, rfl⟩, hxy⟩
  exact absurd hxy (by simp)

theorem cons_mem_letter_mul : a :: w ∈ letter P * K ↔ P a ∧ w ∈ K := by
  constructor
  · rintro ⟨-, ⟨b, hb, rfl⟩, y, hy, hxy⟩
    simp only [List.cons_append, List.nil_append, List.cons.injEq] at hxy
    exact ⟨hxy.1 ▸ hb, hxy.2 ▸ hy⟩
  · rintro ⟨ha, hw⟩
    exact ⟨[a], ⟨a, ha, rfl⟩, w, hw, rfl⟩

theorem cons_mem_kstar_letter_mul :
    a :: w ∈ (letter P)∗ * K ↔ P a ∧ w ∈ (letter P)∗ * K ∨ a :: w ∈ K := by
  have hunfold : (letter P)∗ * K = K + letter P * ((letter P)∗ * K) := by
    conv_lhs => rw [← Language.one_add_self_mul_kstar_eq_kstar, add_mul, one_mul, mul_assoc]
  conv_lhs => rw [hunfold, Language.mem_add, cons_mem_letter_mul, or_comm]

theorem forall_prefixes_cons {P : List α → Prop} :
    (∀ u, u <+: a :: w → P u) ↔ P [] ∧ ∀ u, u <+: w → P (a :: u) := by
  constructor
  · grind
  · rintro ⟨hnil, hcons⟩ u hu
    cases u with
    | nil => exact hnil
    | cons b u => grind

theorem forall_prefixes_filterMap {β : Type} (f : α → Option β) (w : List α) :
    ∀ P : List β → Prop,
      (∀ v, v <+: w → P (v.filterMap f)) ↔ ∀ u, u <+: w.filterMap f → P u := by
  induction w with
  | nil => simp
  | cons a w ih =>
    intro P
    rw [forall_prefixes_cons]
    cases ha : f a with
    | none =>
      simp only [List.filterMap_cons_none ha, List.filterMap_nil]
      rw [ih P]
      exact ⟨fun h => h.2, fun h => ⟨h [] List.nil_prefix, h⟩⟩
    | some b =>
      simp only [List.filterMap_cons_some ha, List.filterMap_nil, forall_prefixes_cons]
      rw [ih fun u => P (b :: u)]

theorem prefixes_mul_self_kstar (L : Language α) {R : Language α} (hR : ∃ w, w ∈ R) :
    prefixes (L * (R * R∗)) = prefixes (L * R∗) := by
  ext u
  constructor
  · rintro ⟨v, hv⟩
    refine ⟨v, ?_⟩
    obtain ⟨x, hx, y, hy, hxy⟩ := hv
    refine ⟨x, hx, y, ?_, hxy⟩
    rw [← Language.one_add_self_mul_kstar_eq_kstar]
    exact Or.inr hy
  · rintro ⟨v, x, hx, y, hy, hxy⟩
    obtain ⟨z, hz⟩ := hR
    refine ⟨v ++ z, x, hx, y ++ z, ?_, ?_⟩
    · rw [← Language.mul_self_kstar_comm]
      exact ⟨y, hy, z, hz, rfl⟩
    · show x ++ (y ++ z) = u ++ (v ++ z)
      rw [← List.append_assoc, ← List.append_assoc, ← hxy]

/-! ## Machines -/

def remaining (rest : σ → Language α) : Option (Option σ) → Language α
  | none => 0
  | some none => 1
  | some (some s) => rest s

structure RoundMachine (α σ : Type) where
  next : σ → α → Option (Option σ)
  rest : σ → Language α
  nil_not_mem : ∀ s, [] ∉ rest s
  completes : ∀ s, ∃ w, w ∈ rest s
  cons_mem : ∀ s a w, a :: w ∈ rest s ↔ w ∈ remaining rest (next s a)

namespace RoundMachine

variable (m : RoundMachine α σ)

def accepts (r : σ) : σ → List α → Bool
  | _, [] => true
  | s, a :: w =>
    match m.next s a with
    | none => false
    | some s' => accepts r (s'.getD r) w

theorem nil_not_mem_rest_mul (s : σ) (K : Language α) : [] ∉ m.rest s * K := by
  rintro ⟨x, hx, y, -, hxy⟩
  exact m.nil_not_mem s ((List.append_eq_nil_iff.1 hxy).1 ▸ hx)

theorem cons_mem_rest_mul {s : σ} {a : α} {w : List α} {K : Language α} :
    a :: w ∈ m.rest s * K ↔ w ∈ remaining m.rest (m.next s a) * K := by
  constructor
  · rintro ⟨x, hx, y, hy, hxy⟩
    cases x with
    | nil => exact absurd hx (m.nil_not_mem s)
    | cons b x =>
      simp only [List.cons_append, List.cons.injEq] at hxy
      obtain ⟨rfl, rfl⟩ := hxy
      exact ⟨x, (m.cons_mem s b x).1 hx, y, hy, rfl⟩
  · rintro ⟨x, hx, y, hy, rfl⟩
    exact ⟨a :: x, (m.cons_mem s a x).2 hx, y, hy, rfl⟩

theorem accepts_iff (r : σ) (w : List α) :
    ∀ s, m.accepts r s w = true ↔ w ∈ prefixes (m.rest s * (m.rest r)∗) := by
  induction w with
  | nil =>
    intro s
    obtain ⟨v, hv⟩ := m.completes s
    exact ⟨fun _ => ⟨v, v, hv, [], Language.nil_mem_kstar _, by simp⟩, fun _ => rfl⟩
  | cons a w ih =>
    intro s
    have hcons : a :: w ∈ prefixes (m.rest s * (m.rest r)∗) ↔
        w ∈ prefixes (remaining m.rest (m.next s a) * (m.rest r)∗) :=
      exists_congr fun v => m.cons_mem_rest_mul
    rw [hcons, accepts]
    cases m.next s a with
    | none => simp [remaining, mem_prefixes]
    | some s' =>
      cases s' with
      | none =>
        have hround := prefixes_mul_self_kstar 1 (m.completes r)
        rw [one_mul] at hround
        simp only [remaining, Option.getD_none, ih, hround]
      | some s' => simp only [remaining, Option.getD_some, ih]

def Begins (r r' : σ) (a : α) : Prop := (m.next r a).isSome = true ∨ (m.next r' a).isSome = true

variable {m}
variable {a : α} {r : σ}

theorem accepts_singleton {s : σ} : m.accepts r s [a] = (m.next s a).isSome := by
  cases h : m.next s a <;> simp [accepts, h]

theorem accepts_cons_of_next_none {s : σ} (h : m.next s a = none) (w : List α) :
    m.accepts r s (a :: w) = false := by
  simp [accepts, h]

theorem accepts_agree_at_begin {r' : σ}
    (hdiff : ∀ a, (m.next r a).isSome = true → (m.next r' a).isSome = false) (w : List α) :
    (∀ u, u <+: w → m.accepts r r u = m.accepts r' r' u) ↔
      ∀ u, u <+: w → u ∉ letter (m.Begins r r') := by
  cases w with
  | nil => simp [accepts, mem_letter]
  | cons a w =>
    by_cases hb : m.Begins r r' a
    · have hdiffer : m.accepts r r [a] ≠ m.accepts r' r' [a] := by
        rw [accepts_singleton, accepts_singleton]
        rcases hb with hr | hr'
        · simp [hr, hdiff a hr]
        · grind
      have hpre : [a] <+: a :: w := by simp
      exact ⟨fun h => absurd (h _ hpre) hdiffer, fun h => absurd ⟨a, hb, rfl⟩ (h _ hpre)⟩
    · obtain ⟨hr, hr'⟩ : m.next r a = none ∧ m.next r' a = none := by
        simpa [Begins] using hb
      simp only [forall_prefixes_cons, accepts_cons_of_next_none hr, accepts_cons_of_next_none hr',
        mem_letter]
      simp [accepts, hb]

theorem accepts_agree_iff {r' : σ}
    (hdiff : ∀ a, (m.next r a).isSome = true → (m.next r' a).isSome = false) (w : List α) :
    ∀ s, (∀ u, u <+: w → m.accepts r s u = m.accepts r' s u) ↔
      ∀ u, u <+: w → u ∉ m.rest s * letter (m.Begins r r') := by
  induction w with
  | nil =>
    intro s
    simpa [accepts] using m.nil_not_mem_rest_mul s _
  | cons a w ih =>
    intro s
    rw [forall_prefixes_cons, forall_prefixes_cons]
    simp only [m.nil_not_mem_rest_mul, not_false_eq_true, true_and, m.cons_mem_rest_mul, accepts]
    cases m.next s a with
    | none => simp [remaining]
    | some s' =>
      cases s' with
      | some s' => simpa [remaining] using ih s'
      | none => simpa [remaining] using accepts_agree_at_begin hdiff w

end RoundMachine

end Libxs
