import Libxs.Sub.Proofs

/-! # Requests to subscribe that cannot be granted -/

namespace Libxs

namespace SubSystem

variable {α : Type} [DecidableEq α]

def Valid (s : SubSystem α) (data : List UInt8) : Bool → Prop
  | true => Filter.BuiltIn s.sub.filter
  | false => s.tally.unsubscribes (s.sub.filter, data) < s.tally.subscribes (s.sub.filter, data)

instance (s : SubSystem α) (data : List UInt8) (subscribe : Bool) :
    Decidable (s.Valid data subscribe) := by
  cases subscribe <;> unfold Valid <;> infer_instance

def returned (s : SubSystem α) (data : List UInt8) (subscribe : Bool) : Option (Int × Sub α × Ends α) :=
  match s.sub.xsetsockopt s.ends subscribe data with
  | .error _ => none
  | .ok (sub, ends) => some (0, sub, ends)

def Obeys (s : SubSystem α) (data : List UInt8) (subscribe : Bool) : Prop :=
  ∃ rc sub ends, s.returned data subscribe = some (rc, sub, ends) ∧
    (rc ≠ 0 ↔ ¬ s.Valid data subscribe) ∧ (rc ≠ 0 → sub = s.sub ∧ ends = s.ends)

theorem Inv.returned {s : SubSystem α} (h : s.Inv) {data : List UInt8} {subscribe : Bool}
    (hk : s.StepOk (.option subscribe data)) : ∃ sub ends, s.returned data subscribe = some (0, sub, ends) := by
  obtain ⟨s', hs, -⟩ := h.step _ hk
  unfold SubSystem.returned
  simp only [SubSystem.step] at hs
  cases hr : s.sub.xsetsockopt s.ends subscribe data with
  | error err => simp [hr] at hs
  | ok r => exact ⟨r.1, r.2, rfl⟩

theorem options_obeyed_iff (ops : List (SubOption α)) (hops : RunMeets step StepOk init ops) :
    ∃ s, run step init ops = .ok s ∧ ∀ data subscribe,
      s.tally.subscribes (s.sub.filter, data) + 1 < 2 ^ 31 →
        (s.Obeys data subscribe ↔ s.Valid data subscribe) := by
  obtain ⟨s, hrun, h⟩ := run_safe_meets (fun s op hI hk => hI.step op hk) ops init inv_init hops
  refine ⟨s, hrun, fun data subscribe hfew => ⟨fun ⟨rc, sub, ends, hr, hrc, _⟩ => ?_, fun hvalid => ?_⟩⟩
  · by_contra hinvalid
    refine hrc.2 hinvalid ?_
    unfold returned at hr
    split at hr
    · cases hr
    · simpa using congrArg (Option.map Prod.fst) hr.symm
  · have hk : s.StepOk (.option subscribe data) := by
      cases subscribe with
      | true => exact ⟨hvalid, Nat.lt_add_left _ hfew⟩
      | false => exact hvalid
    obtain ⟨sub, ends, hr⟩ := h.returned hk
    exact ⟨0, sub, ends, hr, by simpa using hvalid, by simp⟩

theorem options_obeyed_iff_taken_back : ∃ s : SubSystem Nat,
    run step init [.option true [97], .option true [98], .option false [97]] = .ok s ∧
      (s.Obeys [98] false ↔ s.Valid [98] false) := by
  obtain ⟨s, hrun, h⟩ := options_obeyed_iff (α := Nat)
    [.option true [97], .option true [98], .option false [97]] (by decide)
  obtain rfl := Except.ok.inj (hrun.symm.trans rfl)
  exact ⟨_, rfl, h [98] false (by decide)⟩

theorem options_abort :
    run step (init : SubSystem Nat) [.option false [97]] = .error .assertFailed ∧
      run step (init : SubSystem Nat) [.filter 7, .option true [97]] = .error .assertFailed ∧
      run step (init : SubSystem Nat) [.filter 2, .option true [97], .option false [98]] =
        .error .assertFailed ∧
      ∃ s : SubSystem Nat, run step init [.option true [97]] = .ok s ∧ ¬ s.Valid [98] false ∧
        (s.returned [98] false).map Prod.fst = some 0 :=
  ⟨rfl, rfl, rfl, _, rfl, by decide, rfl⟩

end SubSystem

end Libxs
