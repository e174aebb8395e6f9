import Libxs.SessionBase.Reconnect

/-! # Dropping the subscriptions -/

namespace Libxs

namespace SessionBase

variable {s s' : SessionBase}

def dropSubscriptions : Nat → SessionBase → Except Fault SessionBase
  | 0, _ => .error .outOfFuel
  | fuel + 1, s =>
    match s.read .init with
    | .error e => .error e
    | .ok (none, s) => dropSubscriptions fuel s
    | .ok (some _, s) => .ok s

def Drained (s : SessionBase) : Prop :=
  ∀ e ∈ s.pipe, ∀ m ∈ e.inq.ready, m.more = true ∨ m.isDelimiter = true

def DropsAll (s : SessionBase) : Prop := ∃ fuel s', dropSubscriptions fuel s = .ok s' ∧ s'.Drained

def Idle (s : SessionBase) : Prop :=
  (s.options.sendIdentity && !s.identitySent) = false ∧ ∀ e ∈ s.pipe, e.canRead = false

theorem read_none (hr : s.read .init = .ok (none, s')) : s'.Idle := by
  unfold SessionBase.read at hr
  split at hr
  · grind
  · rename_i hsent
    cases hpipe : s.pipe with
    | none => grind [Idle]
    | some e =>
      rcases e.read_cases with ⟨msg, e', he, -⟩ | ⟨e', he, hidle, -⟩
      · grind
      · simp only [hpipe, he, Except.ok.injEq, Prod.mk.injEq, true_and] at hr
        subst hr
        exact ⟨Bool.not_eq_true _ ▸ hsent, by simpa using hidle⟩

theorem Idle.read (h : s.Idle) : ∃ s', s.read .init = .ok (none, s') ∧ s'.Idle := by
  suffices hr : ∃ s', s.read .init = .ok (none, s') by
    obtain ⟨s', hr⟩ := hr
    exact ⟨s', hr, read_none hr⟩
  rw [SessionBase.read, h.1]
  cases hpipe : s.pipe with
  | none => exact ⟨s, rfl⟩
  | some e =>
    rcases e.read_cases with ⟨msg, e', -, hcan, -⟩ | ⟨e', he, -⟩
    · rw [h.2 e hpipe] at hcan
      cases hcan
    · simp [he]

theorem Idle.dropSubscriptions : ∀ (fuel : Nat) {s : SessionBase}, s.Idle →
    dropSubscriptions fuel s = .error .outOfFuel := by
  intro fuel
  induction fuel with
  | zero => intros; rfl
  | succ fuel ih =>
    intro s h
    obtain ⟨s', hr, h'⟩ := h.read
    rw [SessionBase.dropSubscriptions, hr]
    exact ih h'

theorem DropsAll.read (h : s.DropsAll) : ∃ msg s', s.read .init = .ok (some msg, s') ∧ s'.Drained := by
  obtain ⟨fuel, s', hdrop, hdrained⟩ := h
  cases fuel with
  | zero => cases hdrop
  | succ fuel =>
    rw [dropSubscriptions] at hdrop
    split at hdrop
    · cases hdrop
    · rename_i s₁ hr
      rw [(read_none hr).dropSubscriptions] at hdrop
      cases hdrop
    · rename_i msg s₁ hr
      cases hdrop
      exact ⟨msg, s', hr, hdrained⟩

end SessionBase

end Libxs
