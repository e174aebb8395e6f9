import Mathlib.Algebra.GroupWithZero.Nat
import Mathlib.Data.List.Basic

/-! # Runs of a step function that may fail -/

namespace Libxs

-- the tables of a state are functions that a step updates at one key
attribute [grind =] Function.update_apply

variable {σ α ε : Type}
variable {as : List α} {a : α} {kind : α → Prop} {s : σ} {I : σ → Prop} {step : σ → α → Except ε σ}
variable {cost : σ → α → Nat} {cond cond' : σ → α → Prop}

def run (step : σ → α → Except ε σ) : σ → List α → Except ε σ
  | s, [] => .ok s
  | s, a :: as =>
    match step s a with
    | .ok s' => run step s' as
    | .error e => .error e

def RunMeets (step : σ → α → Except ε σ) (cond : σ → α → Prop) : σ → List α → Prop
  | _, [] => True
  | s, a :: as => cond s a ∧ ∀ s', step s a = .ok s' → RunMeets step cond s' as

def runCost (step : σ → α → Except ε σ) (cost : σ → α → Nat) : σ → List α → Nat
  | _, [] => 0
  | s, a :: as =>
    cost s a +
      match step s a with
      | .ok s' => runCost step cost s' as
      | .error _ => 0

instance RunMeets.decidable (step : σ → α → Except ε σ) (cond : σ → α → Prop)
    [hc : ∀ s a, Decidable (cond s a)] : ∀ (s : σ) (as : List α), Decidable (RunMeets step cond s as)
  | _, [] => .isTrue trivial
  | s, a :: as =>
    match hs : step s a with
    | .error _ =>
      decidable_of_iff (cond s a)
        ⟨fun h => ⟨h, fun s' h' => absurd (hs.symm.trans h') (by simp)⟩, fun h => h.1⟩
    | .ok s' =>
      have := RunMeets.decidable step cond s' as
      decidable_of_iff (cond s a ∧ RunMeets step cond s' as)
        ⟨fun h => ⟨h.1, fun s'' h' => by
            have he := hs.symm.trans h'
            cases he
            exact h.2⟩,
          fun h => ⟨h.1, h.2 s' hs⟩⟩

@[simp] theorem run_nil (step : σ → α → Except ε σ) (s : σ) : run step s [] = .ok s := rfl

theorem run_cons_ok {s' : σ} (h : step s a = .ok s') : run step s (a :: as) = run step s' as := by
  simp [run, h]

theorem run_cons_inv {t : σ}
    (h : run step s (a :: as) = .ok t) : ∃ s', step s a = .ok s' ∧ run step s' as = .ok t := by
  simp only [run] at h
  grind

theorem run_append {t : σ} {bs : List α} (h : run step s as = .ok t) :
    run step s (as ++ bs) = run step t bs := by
  induction as generalizing s with
  | nil =>
    rw [run_nil, Except.ok.injEq] at h
    rw [List.nil_append, h]
  | cons a as ih =>
    obtain ⟨s', hs, hrest⟩ := run_cons_inv h
    rw [List.cons_append, run_cons_ok hs, ih hrest]

theorem run_invariant (hstep : ∀ s a s', I s → cond s a → step s a = .ok s' → I s') :
    ∀ (as : List α) (s t : σ), I s → RunMeets step cond s as → run step s as = .ok t → I t := by
  intro as
  induction as with
  | nil => grind [run_nil]
  | cons a as ih =>
    intro s t hI hmeets hrun
    obtain ⟨s', hs, hrest⟩ := run_cons_inv hrun
    exact ih s' t (hstep s a s' hI hmeets.1 hs) (hmeets.2 s' hs) hrest

theorem run_invariant_counted {I : Nat → σ → Prop}
    (hstep : ∀ n s a s', I n s → cond s a → step s a = .ok s' → I (n + cost s a) s') :
    ∀ (as : List α) (n : Nat) (s t : σ), I n s → RunMeets step cond s as → run step s as = .ok t →
      I (n + runCost step cost s as) t := by
  intro as
  induction as with
  | nil =>
    intro n s t hI _ hrun
    simp only [run_nil] at hrun
    cases hrun
    exact hI
  | cons a as ih =>
    intro n s t hI hmeets hrun
    obtain ⟨s', hs, hrest⟩ := run_cons_inv hrun
    have h := ih (n + cost s a) s' t (hstep n s a s' hI hmeets.1 hs) (hmeets.2 s' hs) hrest
    rw [runCost, hs, ← Nat.add_assoc]
    exact h

theorem runCost_actions {cost : α → Nat} : ∀ {as : List α} {s t : σ}, run step s as = .ok t →
      runCost step (fun _ => cost) s as = (as.map cost).sum := by
  intro as
  induction as with
  | nil => exact fun _ => rfl
  | cons a as ih =>
    intro s t hrun
    obtain ⟨s', hs, hrest⟩ := run_cons_inv hrun
    rw [runCost, hs, List.map_cons, List.sum_cons]
    exact congrArg _ (ih hrest)

theorem runCost_eq_zero : ∀ {as : List α} {s : σ}, RunMeets step (fun s a => cost s a = 0) s as →
      runCost step cost s as = 0 := by
  intro as
  induction as with
  | nil => exact fun _ => rfl
  | cons a as ih =>
    rintro s ⟨hfree, hrest⟩
    rw [runCost, hfree]
    grind

theorem run_safe_meets (hstep : ∀ s a, I s → cond s a → ∃ s', step s a = .ok s' ∧ I s') :
    ∀ (as : List α) (s : σ), I s → RunMeets step cond s as → ∃ t, run step s as = .ok t ∧ I t := by
  intro as
  induction as with
  | nil => intro s hI _; exact ⟨s, rfl, hI⟩
  | cons a as ih =>
    intro s hI hmeets
    obtain ⟨s', hs, hI'⟩ := hstep s a hI hmeets.1
    obtain ⟨t, ht, hIt⟩ := ih s' hI' (hmeets.2 s' hs)
    exact ⟨t, by rw [run_cons_ok hs]; exact ht, hIt⟩

theorem runMeets_of_forall :
    ∀ (as : List α) (s : σ), (∀ s, ∀ a ∈ as, cond s a) → RunMeets step cond s as := by
  intro as
  induction as with
  | nil => intro s _; trivial
  | cons a as ih =>
    intro s h
    exact ⟨h s a (by simp), fun s' _ => ih s' fun s a ha => h s a (List.mem_cons_of_mem _ ha)⟩

theorem RunMeets.mono_of_invariant (hstep : ∀ s a s', I s → cond s a → step s a = .ok s' → I s')
    (hweaker : ∀ s a, I s → cond s a → cond' s a) :
    ∀ {as : List α} {s : σ}, I s → RunMeets step cond s as → RunMeets step cond' s as := by
  intro as
  induction as with
  | nil => exact fun _ _ => trivial
  | cons a as ih =>
    intro s hI hmeets
    refine ⟨hweaker s a hI hmeets.1, fun s' hs => ?_⟩
    exact ih (hstep s a s' hI hmeets.1 hs) (hmeets.2 s' hs)

theorem RunMeets.mono (hweaker : ∀ s a, cond s a → cond' s a) (hmeets : RunMeets step cond s as) :
    RunMeets step cond' s as :=
  RunMeets.mono_of_invariant (I := fun _ => True) (fun _ _ _ _ _ _ => trivial)
    (fun s a _ => hweaker s a) trivial hmeets

theorem forall_of_run_ok (hstep : ∀ s a s', step s a = .ok s' → kind a) :
    ∀ {as : List α} {s t : σ}, run step s as = .ok t → ∀ a ∈ as, kind a := by
  intro as
  induction as with
  | nil => exact fun _ => List.forall_mem_nil _
  | cons a as ih =>
    intro s t hrun
    obtain ⟨s', hs, hrest⟩ := run_cons_inv hrun
    exact List.forall_mem_cons.2 ⟨hstep s a s' hs, ih hrest⟩

theorem RunMeets.and_forall :
    ∀ {as : List α} {s : σ}, RunMeets step cond s as → (∀ a ∈ as, kind a) →
      RunMeets step (fun s a => kind a ∧ cond s a) s as := by
  intro as
  induction as with
  | nil => intro s _ _; trivial
  | cons a as ih =>
    intro s h hkind
    exact ⟨⟨hkind a (by simp), h.1⟩,
      fun s' hs => ih (h.2 s' hs) fun b hb => hkind b (List.mem_cons_of_mem _ hb)⟩

theorem run_safe_of
    (hstep : ∀ s a, I s → kind a → ∃ s', step s a = .ok s' ∧ I s') (as : List α) (s : σ) (hI : I s)
    (hkind : ∀ a ∈ as, kind a) : ∃ t, run step s as = .ok t ∧ I t :=
  run_safe_meets (fun s a hI (h : kind a) => hstep s a hI h) as s hI
    (runMeets_of_forall as s fun _ => hkind)

theorem run_safe
    (hstep : ∀ s a, I s → ∃ s', step s a = .ok s' ∧ I s') (as : List α) (s : σ) (hI : I s) :
    ∃ t, run step s as = .ok t ∧ I t :=
  run_safe_of (fun s a hI (_ : True) => hstep s a hI) as s hI fun _ _ => trivial

theorem run_safe_remaining {I : List α → σ → Prop}
    (hstep : ∀ a as s, I (a :: as) s → ∃ s', step s a = .ok s' ∧ I as s') :
    ∀ (as : List α) (s : σ), I as s → ∃ t, run step s as = .ok t ∧ I [] t := by
  intro as
  induction as with
  | nil => intro s hI; exact ⟨s, rfl, hI⟩
  | cons a as ih => grind [run_cons_ok]

theorem run_refines {τ : Type} {exec : τ → α → τ} {R : σ → τ → Prop} {fits : τ → Prop}
    (hstep : ∀ s t a, R s t → kind a → fits (exec t a) → ∃ s', step s a = .ok s' ∧ R s' (exec t a)) :
    ∀ (as : List α) (s : σ) (t : τ), R s t → (∀ a ∈ as, kind a) →
      (∀ pre, pre <+: as → fits (pre.foldl exec t)) →
      ∃ s', run step s as = .ok s' ∧ R s' (as.foldl exec t) := by
  intro as
  induction as with
  | nil => intro s t hR _ _; exact ⟨s, rfl, hR⟩
  | cons a as ih =>
    intro s t hR hkind hfits
    obtain ⟨s₁, hs, hR₁⟩ := hstep s t a hR (hkind a (by simp))
      (hfits [a] (List.cons_prefix_cons.2 ⟨rfl, List.nil_prefix⟩))
    obtain ⟨s', hrun, hR'⟩ := ih s₁ (exec t a) hR₁ (fun b hb => hkind b (by simp [hb]))
      fun pre hpre => hfits (a :: pre) (List.cons_prefix_cons.2 ⟨rfl, hpre⟩)
    exact ⟨s', by rw [run_cons_ok hs]; exact hrun, hR'⟩

theorem run_ok_iff (hok : ∀ s a, I s → ((∃ s', step s a = .ok s') ↔ cond s a))
    (hstep : ∀ s a s', I s → step s a = .ok s' → I s') :
    ∀ (as : List α) (s : σ), I s → ((∃ t, run step s as = .ok t) ↔ RunMeets step cond s as) := by
  intro as
  induction as with
  | nil => intro s _; exact ⟨fun _ => trivial, fun _ => ⟨s, rfl⟩⟩
  | cons a as ih =>
    intro s hI
    constructor
    · rintro ⟨t, hrun⟩
      obtain ⟨s₁, hs, hrest⟩ := run_cons_inv hrun
      refine ⟨(hok s a hI).1 ⟨s₁, hs⟩, fun s' hs' => ?_⟩
      obtain rfl : s₁ = s' := by simpa [hs] using hs'
      exact (ih s₁ (hstep s a s₁ hI hs)).1 ⟨t, hrest⟩
    · rintro ⟨hc, hrest⟩
      obtain ⟨s', hs⟩ := (hok s a hI).2 hc
      rw [run_cons_ok hs]
      exact (ih s' (hstep s a s' hI hs)).2 (hrest s' hs)

theorem run_dichotomy {J : σ → Prop} (hgood : ∀ s a s', I s → cond s a → step s a = .ok s' → I s')
    (hbad : ∀ s a s', I s → ¬ cond s a → step s a = .ok s' → J s')
    (hkeep : ∀ s a s', J s → step s a = .ok s' → J s') :
    ∀ (as : List α) (s t : σ), I s → run step s as = .ok t →
      (RunMeets step cond s as ∧ I t) ∨ (¬ RunMeets step cond s as ∧ J t) := by
  have hJ : ∀ (as : List α) (s t : σ), J s → run step s as = .ok t → J t := by
    intro as
    induction as with
    | nil => grind [run_nil]
    | cons a as ih =>
      intro s t hJ hrun
      obtain ⟨s', hs, hrest⟩ := run_cons_inv hrun
      exact ih s' t (hkeep s a s' hJ hs) hrest
  intro as
  induction as with
  | nil =>
    intro s t hI hrun
    simp only [run_nil, Except.ok.injEq] at hrun
    exact Or.inl ⟨trivial, hrun ▸ hI⟩
  | cons a as ih =>
    intro s t hI hrun
    obtain ⟨s', hs, hrest⟩ := run_cons_inv hrun
    by_cases hc : cond s a
    · refine (ih s' t (hgood s a s' hI hc hs) hrest).imp (fun h => ⟨⟨hc, fun s'' hs'' => ?_⟩, h.2⟩)
        fun h => ⟨fun hmeets => h.1 (hmeets.2 s' hs), h.2⟩
      obtain rfl := Except.ok.inj (hs.symm.trans hs'')
      exact h.1
    · exact Or.inr ⟨fun hmeets => hc hmeets.1, hJ as s' t (hbad s a s' hI hc hs) hrest⟩

theorem run_preserves
    (hstep : ∀ s a s', I s → step s a = .ok s' → I s') (as : List α) (s t : σ) (hI : I s)
    (hrun : run step s as = .ok t) : I t :=
  run_invariant (fun s a s' hI _ hs => hstep s a s' hI hs) as s t hI
    (runMeets_of_forall as s fun _ _ _ => trivial) hrun

theorem run_reaches {goal : σ → Prop} {eager : α → Prop} (μ : σ → Nat)
    (hstep : ∀ s a s', I s → step s a = .ok s' → I s')
    (hkeep : ∀ s a s', I s → goal s → step s a = .ok s' → goal s')
    (hless : ∀ s a s', I s → eager a → ¬ goal s → step s a = .ok s' → goal s' ∨ μ s' < μ s) :
    ∀ (as : List α) (s t : σ), I s → (∀ a ∈ as, eager a) → run step s as = .ok t →
      goal s ∨ μ s < as.length → goal t := by
  intro as
  induction as with
  | nil => grind [run_nil]
  | cons a as ih =>
    intro s t hI heager hrun h
    obtain ⟨s', hs, hrest⟩ := run_cons_inv hrun
    refine ih s' t (hstep s a s' hI hs) (fun b hb => heager b (List.mem_cons_of_mem a hb)) hrest ?_
    by_cases hg : goal s
    · exact Or.inl (hkeep s a s' hI hg hs)
    · have hlen := h.resolve_left hg
      rw [List.length_cons] at hlen
      exact (hless s a s' hI (heager a List.mem_cons_self) hg hs).imp id (fun hlt => by omega)

end Libxs
