import Libxs.Filter

/-! # First and last subscriptions -/

namespace Libxs

namespace PfxNode

variable {σ : Type} [LinearOrder σ]
variable {r : Bool} {p : List UInt8} {n t : PfxNode σ} {s : σ}

/-! ## Nodes without subscribers -/

theorem Shape.exists_child (h : n.Shape) (hlive : n.liveNodes ≠ 0) :
    ∃ (c : UInt8) (m : PfxNode σ), n.child c.toNat = some m := by
  rw [h.live] at hlive
  obtain ⟨i, m, hi, -⟩ := Window.exists_first hlive
  have hlt : i < n.slots.length := (List.getElem?_eq_some_iff.1 hi).1
  have hrange := h.range
  rw [h.count_eq] at hrange
  refine ⟨UInt8.ofNat (n.min + i), m, ?_⟩
  rw [UInt8.toNat_ofNat_of_lt' (by simp [UInt8.size]; omega), child, Window.look_add, hi]
  rfl

theorem WF.exists_subscription (h : n.WF) (hred : n.pfxIsRedundant = false) :
    ∃ p s, 0 < n.countAt p s := by
  induction h with
  | @intro n shape wf needed ih =>
    cases hsubs : n.subscribers.isSome with
    | true =>
      obtain ⟨s, hs⟩ := shape.subscribers.isSome_iff.1 hsubs
      exact ⟨[], s, hs⟩
    | false =>
      have hlive : n.liveNodes ≠ 0 := by
        intro hzero
        rw [Option.isSome_eq_false_iff] at hsubs
        simp [pfxIsRedundant, hsubs, hzero] at hred
      obtain ⟨c, m, hm⟩ := shape.exists_child hlive
      obtain ⟨p, s, hp⟩ := ih c.toNat m hm (needed _ m hm)
      exact ⟨c :: p, s, by simpa [countAt, hm] using hp⟩

theorem WF.hasNode_iff : ∀ (p : List UInt8) {n : PfxNode σ}, n.WF →
    (n.hasNode p = true ↔ p = [] ∨ ∃ q s, p <+: q ∧ 0 < n.countAt q s) := by
  intro p
  induction p with
  | nil =>
    intro n _
    simp [hasNode]
  | cons c p ih =>
    intro n h
    cases hc : n.child c.toNat with
    | none =>
      simp only [hasNode, hc, Bool.false_eq_true, reduceCtorEq, false_or, false_iff]
      rintro ⟨q, s, ⟨rest, rfl⟩, hq⟩
      simp [countAt, hc] at hq
    | some m =>
      have hm := ih (h.child hc)
      simp only [hasNode, hc, reduceCtorEq, false_or]
      rw [hm]
      constructor
      · rintro (rfl | ⟨q, s, hpre, hq⟩)
        · obtain ⟨q, s, hq⟩ := (h.child hc).exists_subscription (h.needed hc)
          exact ⟨c :: q, s, by simp, by simpa [countAt, hc] using hq⟩
        · exact ⟨c :: q, s, List.cons_prefix_cons.2 ⟨rfl, hpre⟩, by simpa [countAt, hc] using hq⟩
      · rintro ⟨q, s, ⟨rest, rfl⟩, hq⟩
        exact Or.inr ⟨p ++ rest, s, List.prefix_append _ _, by simpa [countAt, hc] using hq⟩

/-! ## What the results say -/

def HasSubscriber (t : PfxNode σ) (p : List UInt8) : Prop := ∃ s, 0 < t.countAt p s

def Unique (t : PfxNode σ) (p : List UInt8) : Prop :=
  t.HasSubscriber p ∨ p ≠ [] ∧ ∀ q, p <+: q → ¬ t.HasSubscriber q

theorem not_hasSubscriber_iff : ¬ t.HasSubscriber p ↔ ∀ s, t.countAt p s = 0 := by
  simp [HasSubscriber]

theorem WF.pfxRm_result {t' : PfxNode σ} (h : t.WF) (hrm : t.pfxRm p s = .ok (r, t')) :
    (r = true ↔ t.hasNode p = true ∧ ¬ t'.HasSubscriber p) ∧
      (¬ t.HasSubscriber p → ¬ t'.HasSubscriber p) := by
  obtain ⟨r', t'', hrm', -, hcount, hresult⟩ := pfxRm_spec s p t h
  rw [hrm, Except.ok.injEq, Prod.mk.injEq] at hrm'
  obtain ⟨rfl, rfl⟩ := hrm'
  rw [not_hasSubscriber_iff, not_hasSubscriber_iff]
  refine ⟨hresult, fun hnone u => ?_⟩
  rw [hcount, hnone]
  split <;> rfl

theorem WF.pfxRm_exact_iff {t' : PfxNode σ} (h : t.WF) (hrm : t.pfxRm p s = .ok (r, t')) :
    (r = true ↔ t.HasSubscriber p ∧ ¬ t'.HasSubscriber p) ↔ t.Unique p := by
  obtain ⟨hresult, hkept⟩ := h.pfxRm_result hrm
  rw [hresult]
  by_cases hsub : t.HasSubscriber p
  · have hnode : t.hasNode p = true := by
      obtain ⟨u, hu⟩ := hsub
      exact hasNode_of_countAt hu
    simp [hnode, hsub, Unique]
  · have hnode := h.hasNode_iff p
    have hgone := hkept hsub
    have hunique : t.Unique p ↔ ¬ t.hasNode p = true := by
      rw [hnode, not_or, Unique, or_iff_right hsub]
      refine and_congr_right fun _ => ?_
      constructor
      · rintro hnone ⟨q, u, hpre, hq⟩
        exact hnone q hpre ⟨u, hq⟩
      · rintro hnone q hpre ⟨u, hq⟩
        exact hnone ⟨q, u, hpre, hq⟩
    rw [hunique]
    simp [hsub, hgone]

/-- **The results are exact for first subscriptions, and for last ones exactly if the prefix is
    `Unique`**, in every trie that subscriptions and unsubscriptions lead to. -/
theorem uniqueness_exact_iff (ops : List (PfOp σ)) (t : PfxNode σ)
    (hrun : run execPf pfxInit ops = .ok t) (p : List UInt8) (s : σ) :
    (t.countAt p s + 1 < 2 ^ 31 →
      ∃ r t', t.pfxAdd p s = .ok (r, t') ∧ (r = true ↔ ¬ t.HasSubscriber p)) ∧
    (∃ r t', t.pfxRm p s = .ok (r, t') ∧
      (Filter.pfx t).pfUnsubscribe s p = .ok (.value (if r then 1 else 0), .pfx t') ∧
      ((r = true ↔ t.HasSubscriber p ∧ ¬ t'.HasSubscriber p) ↔ t.Unique p)) ∧
    ∀ (calls : List (PfOp Unit)) (u : PfxNode Unit), run execPf pfxInit calls = .ok u →
      ∃ ret u', (Filter.pfx u).sfUnsubscribe p = .ok (ret, .pfx u') ∧
        ((ret = .unsubscribed ↔ u.HasSubscriber p ∧ ¬ u'.HasSubscriber p) ↔ u.Unique p) := by
  have hwf : t.WF := run_preserves (fun _ _ _ hI hs => hI.execPf hs) ops pfxInit t wf_pfxInit hrun
  refine ⟨fun hbound => ?_, ?_, fun calls u hu => ?_⟩
  · grind [pfxAdd_spec, not_hasSubscriber_iff]
  · obtain ⟨r, t', hrm, -⟩ := pfxRm_spec s p t hwf
    exact ⟨r, t', hrm, by simp only [Filter.pfUnsubscribe, hrm], hwf.pfxRm_exact_iff hrm⟩
  · have hwfu : u.WF := run_preserves (fun _ _ _ hI hs => hI.execPf hs) calls pfxInit u wf_pfxInit hu
    obtain ⟨r, u', hrm, -⟩ := pfxRm_spec () p u hwfu
    refine ⟨if r then .unsubscribed else .value 0, u', by simp only [Filter.sfUnsubscribe, hrm], ?_⟩
    have hret : (if r then Filter.Return.unsubscribed else .value 0) = .unsubscribed ↔ r = true := by
      cases r <;> simp
    rw [hret]
    exact hwfu.pfxRm_exact_iff hrm

theorem uniqueness_of_last_subscription :
    ∃ t, run execPf pfxInit [.call (.subscribe [97] (1 : Nat))] = .ok t ∧ t.Unique [97] ∧
      ∃ r t', t.pfxRm [97] 1 = .ok (r, t') ∧
        (r = true ↔ t.HasSubscriber [97] ∧ ¬ t'.HasSubscriber [97]) := by
  obtain ⟨t, ht, hone⟩ : ∃ t, run execPf pfxInit [.call (.subscribe [97] (1 : Nat))] = .ok t ∧
      t.countAt [97] 1 = 1 := ⟨_, rfl, rfl⟩
  have hunique : t.Unique [97] := Or.inl ⟨1, by rw [hone]; decide⟩
  obtain ⟨-, ⟨r, t', hrm, -, hiff⟩, -⟩ := uniqueness_exact_iff _ t ht [97] 1
  exact ⟨t, ht, hunique, r, t', hrm, hiff.2 hunique⟩

set_option maxRecDepth 4096 in
theorem inner_node_reported :
    (∃ t, run execPf pfxInit [.call (.subscribe [97, 98] (1 : Nat))] = .ok t ∧
      (∀ s, t.countAt [97] s = 0) ∧ ∃ t', t.pfxRm [97] 1 = .ok (true, t') ∧
        (Filter.pfx t).pfUnsubscribe 1 [97] = .ok (.value 1, .pfx t')) ∧
    ∃ u, run execPf pfxInit [.call (.subscribe [97, 98] ())] = .ok u ∧
      u.countAt [97] () = 0 ∧ ∃ u', (Filter.pfx u).sfUnsubscribe [97] = .ok (.unsubscribed, .pfx u') :=
  ⟨⟨_, rfl, fun _ => rfl, _, rfl, rfl⟩, _, rfl, rfl, _, rfl⟩

end PfxNode

end Libxs
