import Libxs.Msg
import Mathlib.Data.List.AList

/-! # The topic filter: a map from topics to subscribers -/

namespace Libxs

/-- `topic_t`. -/
abbrev TopicFilter (σ : Type) : Type := AList fun _ : List UInt8 => List σ

namespace TopicFilter

variable {σ : Type}
variable {t : TopicFilter σ}

def subscribers (t : TopicFilter σ) (data : List UInt8) : List σ := (t.lookup data).getD []

def store (t : TopicFilter σ) (data : List UInt8) (subscribers : List σ) : TopicFilter σ :=
  if subscribers = [] then t.erase data else t.insert data subscribers

def pfSubscribe (t : TopicFilter σ) (s : σ) (data : List UInt8) : TopicFilter σ :=
  t.insert data (t.subscribers data ++ [s])

def WF (t : TopicFilter σ) : Prop := ∀ data, t.lookup data ≠ some []

theorem wf_empty : WF (∅ : TopicFilter σ) := fun _ => by simp

theorem subscribers_insert (t : TopicFilter σ) (data d : List UInt8) (l : List σ) :
    subscribers (t.insert data l) d = if d = data then l else t.subscribers d := by
  unfold subscribers
  by_cases hd : d = data
  · subst hd
    simp
  · simp [hd]

theorem subscribers_store (t : TopicFilter σ) (data d : List UInt8) (l : List σ) :
    (t.store data l).subscribers d = if d = data then l else t.subscribers d := by
  unfold store
  split
  next hl =>
    unfold subscribers
    by_cases hd : d = data
    · subst hd
      simp [hl]
    · simp [hd]
  next => exact subscribers_insert t data d l

theorem WF.insert (h : t.WF) (data : List UInt8) {l : List σ} (hl : l ≠ []) :
    WF (t.insert data l) := by
  intro d
  by_cases hd : d = data
  · subst hd
    simpa using hl
  · simpa [hd] using h d

theorem WF.store (h : t.WF) (data : List UInt8) (l : List σ) : (t.store data l).WF := by
  unfold TopicFilter.store
  split
  next hl =>
    intro d
    by_cases hd : d = data
    · subst hd
      simp
    · simpa [hd] using h d
  next hl => exact h.insert data hl

theorem WF.pfSubscribe (h : t.WF) (s : σ) (data : List UInt8) : (t.pfSubscribe s data).WF :=
  h.insert data (by simp)

variable [DecidableEq σ]
variable {t : TopicFilter σ}

def pfUnsubscribe (t : TopicFilter σ) (s : σ) (data : List UInt8) : Option (TopicFilter σ) :=
  match t.lookup data with
  | none => none
  | some subscribers =>
    if s ∈ subscribers then some (t.store data (subscribers.erase s)) else none

def pfUnsubscribeAll (t : TopicFilter σ) (s : σ) : TopicFilter σ :=
  t.keys.foldl (fun t data => t.store data ((t.subscribers data).filter (· ≠ s))) t

def sameChar (c d : UInt8) : Bool := c == d && c.toNat < 128

def matchLoop : Bool → List UInt8 → List UInt8 → Bool
  | _, [], _ => true
  | begins, c :: topic, data =>
    if begins && c == 42 then
      -- a wildcard element; what follows it is a dot, or the topic is malformed
      match topic, data.dropWhile fun d => d != 0 && d != 46 with
      | [], _ => true
      | c :: topic, d :: data => c == 46 && d == 46 && matchLoop true topic data
      | _ :: _, [] => false
    else
      match data with
      | [] => false
      | d :: data =>
        if c == 46 then d == 46 && matchLoop true topic data
        else sameChar c d && matchLoop false topic data

def topicMatch (topic data : List UInt8) : Bool := matchLoop true (topic.takeWhile (· != 0)) data

def sfMatch (t : TopicFilter σ) (data : List UInt8) : Bool := t.keys.any fun topic => topicMatch topic data

/-! ## The multiset of subscriptions -/

def countAt (t : TopicFilter σ) (data : List UInt8) (s : σ) : Nat := (t.subscribers data).count s

theorem countAt_pfSubscribe (t : TopicFilter σ) (s u : σ) (data d : List UInt8) :
    (t.pfSubscribe s data).countAt d u =
      if d = data ∧ u = s then t.countAt d u + 1 else t.countAt d u := by
  unfold countAt pfSubscribe
  rw [subscribers_insert]
  grind

theorem pfUnsubscribe_spec (h : t.WF) (s : σ) (data : List UInt8) :
    (t.countAt data s = 0 ∧ t.pfUnsubscribe s data = none) ∨
      (0 < t.countAt data s ∧ ∃ t', t.pfUnsubscribe s data = some t' ∧ t'.WF ∧
        ∀ d u, t'.countAt d u = if d = data ∧ u = s then t.countAt d u - 1 else t.countAt d u) := by
  unfold pfUnsubscribe countAt
  cases hl : t.lookup data with
  | none => exact Or.inl ⟨by simp [subscribers, hl], rfl⟩
  | some l =>
    have hsubs : t.subscribers data = l := by simp [subscribers, hl]
    by_cases hs : s ∈ l
    · refine Or.inr ⟨by rw [hsubs]; exact List.count_pos_iff.2 hs, _, if_pos hs, h.store data _,
        fun d u => ?_⟩
      rw [subscribers_store]
      grind
    · grind

theorem sweep_spec (s : σ) (keys : List (List UInt8)) : ∀ {t : TopicFilter σ}, t.WF →
    WF (keys.foldl (fun t data => t.store data ((t.subscribers data).filter (· ≠ s))) t) ∧
    ∀ d, subscribers
        (keys.foldl (fun t data => t.store data ((t.subscribers data).filter (· ≠ s))) t) d =
      if d ∈ keys then (t.subscribers d).filter (· ≠ s) else t.subscribers d := by
  induction keys with
  | nil => exact fun h => ⟨h, fun d => by simp⟩
  | cons key keys ih =>
    intro t h
    obtain ⟨hwf, hsubs⟩ := ih (h.store key ((t.subscribers key).filter (· ≠ s)))
    refine ⟨hwf, fun d => ?_⟩
    rw [List.foldl_cons, hsubs d, subscribers_store]
    by_cases hd : d = key
    · simp [hd, List.filter_filter]
    · simp [hd]

theorem pfUnsubscribeAll_spec (h : t.WF) (s : σ) : (t.pfUnsubscribeAll s).WF ∧
      ∀ d u, (t.pfUnsubscribeAll s).countAt d u = if u = s then 0 else t.countAt d u := by
  obtain ⟨hwf, hsubs⟩ := sweep_spec s t.keys h
  refine ⟨hwf, fun d u => ?_⟩
  unfold countAt pfUnsubscribeAll
  rw [hsubs d]
  by_cases hd : d ∈ t.keys
  · grind [List.count_eq_zero, List.count_filter]
  · have hnone : t.subscribers d = [] := by
      simp [subscribers, AList.lookup_eq_none.2 hd]
    simp [hnone]

theorem sfMatch_eq_true {t : TopicFilter Unit} (h : t.WF) (data : List UInt8) :
    t.sfMatch data = true ↔ ∃ topic, 0 < t.countAt topic () ∧ topicMatch topic data = true := by
  simp only [sfMatch, List.any_eq_true]
  refine exists_congr fun topic => and_congr_left fun _ => ?_
  unfold countAt subscribers
  rw [← AList.mem_keys, ← AList.lookup_isSome]
  cases hl : t.lookup topic with
  | none => simp
  | some l =>
    have hne : l ≠ [] := fun hnil => h topic (hnil ▸ hl)
    obtain ⟨u, rest, rfl⟩ := List.exists_cons_of_ne_nil hne
    simp

end TopicFilter

end Libxs
