import Libxs.Foundation.Run
import Mathlib.Data.List.Nodup

/-! # Logs of additions and removals -/

namespace Libxs

structure Change (κ : Type) where
  present : Bool
  key : κ
deriving DecidableEq, Repr

namespace Change

variable {κ : Type} [DecidableEq κ]
variable {present : Bool} {c : Change κ} {log : List (Change κ)} {keys : List κ} {set : κ → Bool}

def apply (c : Change κ) (set : κ → Bool) : κ → Bool := Function.update set c.key c.present

def replayFrom (set : κ → Bool) (log : List (Change κ)) : κ → Bool :=
  log.foldl (fun set c => c.apply set) set

def replay (log : List (Change κ)) : κ → Bool := replayFrom (fun _ => false) log

def CleanFrom : (κ → Bool) → List (Change κ) → Prop
  | _, [] => True
  | set, c :: log => set c.key ≠ c.present ∧ CleanFrom (c.apply set) log

def Clean (log : List (Change κ)) : Prop := CleanFrom (fun _ => false) log

instance cleanFromDecidable : ∀ (set : κ → Bool) (log : List (Change κ)),
    Decidable (CleanFrom set log)
  | _, [] => inferInstanceAs (Decidable True)
  | set, c :: log =>
    have := cleanFromDecidable (c.apply set) log
    inferInstanceAs (Decidable (_ ∧ _))

instance (log : List (Change κ)) : Decidable (Clean log) := by
  unfold Clean; infer_instance

@[simp] theorem replay_nil (k : κ) : replay [] k = false := rfl

theorem replayFrom_append (set : κ → Bool) (l₁ l₂ : List (Change κ)) :
    replayFrom set (l₁ ++ l₂) = replayFrom (replayFrom set l₁) l₂ :=
  List.foldl_append

theorem replay_concat (log : List (Change κ)) (c : Change κ) :
    replay (log ++ [c]) = c.apply (replay log) :=
  replayFrom_append _ _ _

theorem apply_self (c : Change κ) (set : κ → Bool) : c.apply set c.key = c.present := by
  simp [apply]

theorem apply_of_ne {k : κ} (h : k ≠ c.key) (set : κ → Bool) : c.apply set k = set k := by
  simp [apply, h]

theorem cleanFrom_append : ∀ {l₁ l₂ : List (Change κ)},
    CleanFrom set (l₁ ++ l₂) ↔ CleanFrom set l₁ ∧ CleanFrom (replayFrom set l₁) l₂ := by
  intro l₁
  induction l₁ generalizing set with
  | nil => intro l₂; simp [CleanFrom, replayFrom]
  | cons c l₁ ih =>
    intro l₂
    simp only [List.cons_append, CleanFrom, ih, and_assoc]
    rfl

theorem clean_concat : Clean (log ++ [c]) ↔ Clean log ∧ replay log c.key ≠ c.present := by
  simp [Clean, cleanFrom_append, CleanFrom, replay]

/-! ## Many keys at once -/

theorem replayFrom_map (present : Bool) (keys : List κ) (set : κ → Bool) (k : κ) :
    replayFrom set (keys.map (⟨present, ·⟩)) k = if k ∈ keys then present else set k := by
  induction keys generalizing set with
  | nil => simp [replayFrom]
  | cons k' keys ih =>
    have hcons : replayFrom set ((k' :: keys).map (⟨present, ·⟩)) =
        replayFrom (apply ⟨present, k'⟩ set) (keys.map (⟨present, ·⟩)) := rfl
    rw [hcons, ih]
    by_cases hk : k = k'
    · simp [hk, apply]
    · simp [hk, apply]

theorem cleanFrom_map (hnodup : keys.Nodup)
    (hset : ∀ k ∈ keys, set k ≠ present) : CleanFrom set (keys.map (⟨present, ·⟩)) := by
  induction keys generalizing set with
  | nil => trivial
  | cons k keys ih =>
    obtain ⟨hk, hnodup⟩ := List.nodup_cons.1 hnodup
    refine ⟨hset k (by simp), ih hnodup fun k' hk' => ?_⟩
    have hne : k' ≠ k := fun he => hk (he ▸ hk')
    rw [apply_of_ne (c := ⟨present, k⟩) hne]
    exact hset k' (by simp [hk'])

theorem replay_append_map (log : List (Change κ)) (present : Bool) (keys : List κ) (k : κ) :
    replay (log ++ keys.map (⟨present, ·⟩)) k = if k ∈ keys then present else replay log k := by
  rw [replay, replayFrom_append, replayFrom_map]
  rfl

theorem clean_append_map (h : Clean log)
    (hnodup : keys.Nodup) (hkeys : ∀ k ∈ keys, replay log k ≠ present) :
    Clean (log ++ keys.map (⟨present, ·⟩)) :=
  cleanFrom_append.2 ⟨h, cleanFrom_map hnodup hkeys⟩

def additions (keys : List κ) : List (Change κ) := keys.map (⟨true, ·⟩)

theorem replay_additions (keys : List κ) (k : κ) : replay (additions keys) k = decide (k ∈ keys) := by
  rw [replay, additions, replayFrom_map]
  by_cases hk : k ∈ keys <;> simp [hk]

theorem clean_additions (hnodup : keys.Nodup) : Clean (additions keys) :=
  cleanFrom_map hnodup fun _ _ => by simp

end Change

end Libxs
