import Libxs.PrefixFilter.UnsubscribeAll
import Libxs.TopicFilter

/-! # The multiset of subscriptions of a topic filter -/

namespace Libxs

variable {σ : Type} [LinearOrder σ]

def Counts.execAll (f : Counts σ) : PfOp σ → Counts σ
  | .call op => f.exec op
  | .unsubscribeAll s => fun p t => if t = s then 0 else f p t

namespace TopicFilter

variable {t : TopicFilter σ}

def eraseLoop (s : σ) : Nat → Nat → List σ → List σ
  | 0, _, subscribers => subscribers
  | fuel + 1, i, subscribers =>
    match subscribers[i]? with
    | none => subscribers
    | some u =>
      if u = s then eraseLoop s fuel i (subscribers.eraseIdx i) else eraseLoop s fuel (i + 1) subscribers

def pfMatch (t : TopicFilter σ) (data : List UInt8) : List σ :=
  t.keys.flatMap fun topic => if topicMatch topic data then t.subscribers topic else []

def exec (t : TopicFilter σ) : PfOp σ → TopicFilter σ
  | .call (.subscribe data s) => t.pfSubscribe s data
  | .call (.unsubscribe data s) => (t.pfUnsubscribe s data).getD t
  | .unsubscribeAll s => t.pfUnsubscribeAll s

theorem eraseLoop_eq (s : σ) : ∀ (fuel i : Nat) (l : List σ), l.length ≤ i + fuel →
    eraseLoop s fuel i l = l.take i ++ (l.drop i).filter (· ≠ s) := by
  intro fuel
  induction fuel with
  | zero =>
    intro i l (hl : l.length ≤ i)
    rw [List.drop_eq_nil_of_le hl, List.take_of_length_le hl]
    exact (List.append_nil l).symm
  | succ fuel ih =>
    intro i l hl
    rw [eraseLoop]
    cases hi : l[i]? with
    | none =>
      have hle := List.getElem?_eq_none_iff.1 hi
      rw [List.drop_eq_nil_of_le hle, List.take_of_length_le hle]
      exact (List.append_nil l).symm
    | some u =>
      obtain ⟨hlt, rfl⟩ := List.getElem?_eq_some_iff.1 hi
      have hdrop := List.drop_eq_getElem_cons hlt
      by_cases hu : l[i] = s
      · have htake : (l.eraseIdx i).take i = l.take i := by
          rw [List.eraseIdx_eq_take_drop_succ, List.take_left' (by simp; omega)]
        have hrest : (l.eraseIdx i).drop i = l.drop (i + 1) := by
          rw [List.eraseIdx_eq_take_drop_succ, List.drop_left' (by simp; omega)]
        simp only [hu, if_true]
        rw [ih i _ (by rw [List.length_eraseIdx_of_lt hlt]; omega), htake, hrest, hdrop,
          List.filter_cons_of_neg (by simp [hu])]
      · simp only [hu, if_false]
        rw [ih (i + 1) l (by omega), hdrop, List.take_succ_eq_append_getElem hlt,
          List.filter_cons_of_pos (by simp [hu]), List.append_assoc, List.singleton_append]

theorem WF.exec (h : t.WF) (op : PfOp σ) : (t.exec op).WF ∧
    ∀ d u, (t.exec op).countAt d u = Counts.execAll t.countAt op d u := by
  cases op with
  | call op =>
    cases op with
    | subscribe data s => exact ⟨h.pfSubscribe s data, fun d u => countAt_pfSubscribe t s u data d⟩
    | unsubscribe data s =>
      simp only [TopicFilter.exec, Counts.execAll, Counts.exec]
      rcases pfUnsubscribe_spec h s data with ⟨hzero, hnone⟩ | ⟨-, t', hsome, hwf, hcount⟩
      · rw [hnone]
        exact ⟨h, fun d u => by simp only [Option.getD_none]; split <;> grind⟩
      · rw [hsome]
        exact ⟨hwf, hcount⟩
  | unsubscribeAll s => exact pfUnsubscribeAll_spec h s

def after (ops : List (PfOp σ)) : TopicFilter σ := ops.foldl exec ∅

theorem after_spec (ops : List (PfOp σ)) : (after ops).WF ∧
    ∀ d u, (after ops).countAt d u = ops.foldl Counts.execAll (fun _ _ => 0) d u := by
  suffices h : ∀ (ops : List (PfOp σ)) (t : TopicFilter σ), t.WF → (ops.foldl exec t).WF ∧
      ∀ d u, (ops.foldl exec t).countAt d u = ops.foldl Counts.execAll t.countAt d u by
    obtain ⟨hwf, hcount⟩ := h ops ∅ wf_empty
    have hempty : (∅ : TopicFilter σ).countAt = fun _ _ => 0 := by
      funext d u
      simp [countAt, subscribers]
    exact ⟨hwf, hempty ▸ hcount⟩
  intro ops
  induction ops with
  | nil => exact fun t h => ⟨h, fun _ _ => rfl⟩
  | cons op ops ih =>
    intro t h
    obtain ⟨hwf, hcount⟩ := h.exec op
    obtain ⟨hwf', hcount'⟩ := ih _ hwf
    have heq : (t.exec op).countAt = Counts.execAll t.countAt op := by
      funext d u
      exact hcount d u
    exact ⟨hwf', fun d u => by rw [List.foldl_cons, hcount', heq, List.foldl_cons]⟩

theorem count_pfMatch (t : TopicFilter σ) (data : List UInt8) (s : σ) : (t.pfMatch data).count s =
    ((t.keys.filter fun topic => topicMatch topic data).map fun topic => t.countAt topic s).sum := by
  unfold pfMatch
  induction t.keys with
  | nil => rfl
  | cons topic keys ih =>
    rw [List.flatMap_cons, List.count_append, ih]
    by_cases h : topicMatch topic data = true
    · simp [h, countAt]
    · simp [h]

/-- **The topic filter is an exact multiset of subscriptions.** -/
theorem topics_exact (ops : List (PfOp σ)) :
    (∀ d u, (after ops).countAt d u = ops.foldl Counts.execAll (fun _ _ => 0) d u) ∧
      (∀ d, (after ops).lookup d ≠ some []) ∧
      (∀ d s, (after ops).pfUnsubscribe s d = none ↔ (after ops).countAt d s = 0) ∧
      (∀ s, (∀ d u, ((after ops).pfUnsubscribeAll s).countAt d u =
          if u = s then 0 else (after ops).countAt d u) ∧
        ∀ d, eraseLoop s ((after ops).subscribers d).length 0 ((after ops).subscribers d) =
          ((after ops).subscribers d).filter (· ≠ s)) ∧
      ∀ data, (after ops).keys.Nodup ∧ (∀ d, d ∈ (after ops).keys ↔ ∃ s, 0 < (after ops).countAt d s) ∧
        ∀ s, ((after ops).pfMatch data).count s =
          (((after ops).keys.filter fun topic => topicMatch topic data).map
            fun topic => (after ops).countAt topic s).sum := by
  obtain ⟨hwf, hcount⟩ := after_spec ops
  refine ⟨hcount, hwf, fun d s => ?_, fun s => ⟨(pfUnsubscribeAll_spec hwf s).2, fun d => ?_⟩,
    fun data => ⟨(after ops).nodupKeys, fun d => ?_, count_pfMatch _ data⟩⟩
  · rcases pfUnsubscribe_spec hwf s d with ⟨hzero, hnone⟩ | ⟨hpos, t', hsome, -⟩
    · simp [hzero, hnone]
    · simp [hsome, Nat.ne_of_gt hpos]
  · simpa using eraseLoop_eq s _ 0 ((after ops).subscribers d) (by simp)
  · have hnil := hwf d
    rw [← AList.mem_keys, ← AList.lookup_isSome]
    simp only [countAt, List.count_pos_iff, subscribers]
    cases hl : (after ops).lookup d with
    | none => simp
    | some l => cases l <;> simp_all

end TopicFilter

end Libxs
