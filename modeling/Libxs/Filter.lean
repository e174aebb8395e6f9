import Libxs.PrefixFilter.UnsubscribeAll
import Libxs.PubSub
import Libxs.TopicFilter

/-! # Filters behind one interface -/

namespace Libxs

inductive Filter (σ : Type) [LinearOrder σ] where
  | pfx (trie : PfxNode σ)
  | topic (topics : TopicFilter σ)

namespace Filter

inductive Return where
  | value (rc : Int)
  | subscribed
  | unsubscribed
deriving DecidableEq, Repr

variable {σ : Type} [LinearOrder σ]
variable {f : Filter σ} {filters : List (Filter σ)} {data : List UInt8} {s : σ}

def id : Filter σ → Nat
  | .pfx _ => PubSub.filterPrefixId
  | .topic _ => PubSub.filterTopicId

def BuiltIn (id : Nat) : Prop := id = PubSub.filterPrefixId ∨ id = PubSub.filterTopicId
deriving Decidable

theorem builtIn_id (f : Filter σ) : BuiltIn f.id := by
  cases f
  · exact Or.inl rfl
  · exact Or.inr rfl

theorem BuiltIn.lt {id : Nat} (h : BuiltIn id) : id < 2 ^ 16 := by
  rcases h with h | h <;> simp [h, PubSub.filterPrefixId, PubSub.filterTopicId]

def create (id : Nat) : Option (Filter σ) :=
  if id = PubSub.filterPrefixId then some (.pfx PfxNode.pfxInit)
  else if id = PubSub.filterTopicId then some (.topic ∅)
  else none

/-! ## The publisher side -/

def pfSubscribe (f : Filter σ) (s : σ) (data : List UInt8) : Except Fault (Return × Filter σ) :=
  match f with
  | .pfx t =>
    match t.pfxAdd data s with
    | .error err => .error err
    | .ok (added, t) => .ok (.value (if added then 1 else 0), .pfx t)
  | .topic t => .ok (.subscribed, .topic (t.pfSubscribe s data))

def pfUnsubscribe (f : Filter σ) (s : σ) (data : List UInt8) : Except Fault (Return × Filter σ) :=
  match f with
  | .pfx t =>
    match t.pfxRm data s with
    | .error err => .error err
    | .ok (removed, t) => .ok (.value (if removed then 1 else 0), .pfx t)
  | .topic t =>
    match t.pfUnsubscribe s data with
    | none => .ok (.value (-1), .topic t)
    | some t => .ok (.value 0, .topic t)

def pfUnsubscribeAll (f : Filter σ) (s : σ) : Except Fault (Filter σ × List (List UInt8)) :=
  match f with
  | .pfx t =>
    match Libxs.pfUnsubscribeAll t s with
    | .error err => .error err
    | .ok (t, calls) => .ok (.pfx t, calls)
  | .topic t => .ok (.topic (t.pfUnsubscribeAll s), [])

/-! ## The subscriber side, where the only subscriber is `NULL` -/

def sfSubscribe (f : Filter Unit) (data : List UInt8) : Except Fault (Return × Filter Unit) :=
  match f with
  | .pfx t =>
    match t.pfxAdd data () with
    | .error err => .error err
    | .ok (added, t) => .ok (if added then .subscribed else .value 0, .pfx t)
  | .topic _ => f.pfSubscribe () data

def sfUnsubscribe (f : Filter Unit) (data : List UInt8) : Except Fault (Return × Filter Unit) :=
  match f with
  | .pfx t =>
    match t.pfxRm data () with
    | .error err => .error err
    | .ok (removed, t) => .ok (if removed then .unsubscribed else .value 0, .pfx t)
  | .topic _ => f.pfUnsubscribe () data

def sfMatch (f : Filter Unit) (data : List UInt8) : Except Fault Bool :=
  match f with
  | .pfx t => t.sfMatch data
  | .topic t => .ok (t.sfMatch data)

/-! ## The filters of a socket -/

def find : List (Filter σ) → Nat → Option (Filter σ)
  | [], _ => none
  | f :: filters, id => if f.id = id then some f else find filters id

def store : List (Filter σ) → Filter σ → List (Filter σ)
  | [], f => [f]
  | g :: filters, f => if g.id = f.id then f :: filters else g :: store filters f

theorem find_id {id : Nat} (h : find filters id = some f) : f.id = id := by
  induction filters with
  | nil => simp [find] at h
  | cons g filters ih => grind [find]

theorem find_store (filters : List (Filter σ)) (f : Filter σ) (id : Nat) :
    find (store filters f) id = if id = f.id then some f else find filters id := by
  induction filters with
  | nil => grind [store, find]
  | cons g filters ih =>
    by_cases hg : g.id = f.id
    · grind [store, find]
    · have hcons : store (g :: filters) f = g :: store filters f := by simp [store, hg]
      rw [hcons, find, ih, find]
      grind

theorem create_isSome_iff (id : Nat) : (∃ f : Filter σ, create id = some f) ↔ BuiltIn id := by
  unfold create BuiltIn
  split_ifs with h1 h2 <;> simp [*]

theorem find_mem {id : Nat} (h : find filters id = some f) : f ∈ filters := by
  induction filters with
  | nil => simp [find] at h
  | cons g filters ih => grind [find]

theorem find_eq_none_iff {id : Nat} : find filters id = none ↔ id ∉ filters.map Filter.id := by
  induction filters with
  | nil => simp [find]
  | cons g filters ih => grind [find]

theorem mem_store {g : Filter σ} (h : g ∈ store filters f) : g = f ∨ g ∈ filters := by
  induction filters with
  | nil => simpa [store] using h
  | cons g' filters ih => grind [store]

theorem map_id_store (filters : List (Filter σ)) (f : Filter σ) :
    (store filters f).map id =
      if f.id ∈ filters.map id then filters.map id
      else filters.map id ++ [f.id] := by
  induction filters with
  | nil => simp [store]
  | cons g filters ih => grind [store]

theorem nodup_store (h : (filters.map id).Nodup) (f : Filter σ) :
    ((store filters f).map id).Nodup := by
  rw [map_id_store]
  grind

theorem create_id {id : Nat} (h : create id = some f) : f.id = id := by
  unfold create at h
  split at h
  next hid =>
    rw [Option.some.injEq] at h
    exact h ▸ hid.symm
  · split at h
    next hid =>
      rw [Option.some.injEq] at h
      exact h ▸ hid.symm
    · cases h

/-! ## The subscriptions in a filter -/

def countAt : Filter σ → List UInt8 → σ → Nat
  | .pfx t => t.countAt
  | .topic t => t.countAt

def WF : Filter σ → Prop
  | .pfx t => t.WF
  | .topic t => t.WF

def countIn (filters : List (Filter σ)) (key : Subscription) (s : σ) : Nat :=
  match find filters key.1 with
  | none => 0
  | some f => f.countAt key.2 s

theorem create_spec {id : Nat} (h : create id = some f) :
    f.WF ∧ ∀ data s, f.countAt data s = 0 := by
  unfold create at h
  split at h
  · rw [Option.some.injEq] at h
    exact h ▸ ⟨PfxNode.wf_pfxInit, PfxNode.countAt_pfxInit⟩
  · split at h
    · rw [Option.some.injEq] at h
      exact h ▸ ⟨TopicFilter.wf_empty, fun _ _ => rfl⟩
    · cases h

theorem countIn_cons (f : Filter σ) (filters : List (Filter σ)) (key : Subscription) (s : σ) :
    countIn (f :: filters) key s =
      if f.id = key.1 then f.countAt key.2 s else countIn filters key s := by
  unfold countIn
  rw [find]
  grind

theorem countIn_of_none {key : Subscription}
    (h : find filters key.1 = none) (s : σ) : countIn filters key s = 0 := by
  rw [countIn, h]

theorem countIn_store (filters : List (Filter σ)) (f : Filter σ) (key : Subscription) (s : σ) :
    countIn (store filters f) key s =
      if key.1 = f.id then f.countAt key.2 s else countIn filters key s := by
  unfold countIn
  rw [find_store]
  grind

theorem countIn_update (g : Nat → Nat) {f' : Filter σ}
    (hf : ∀ d u, f.countAt d u = countIn filters (f.id, d) u)
    (hid : f'.id = f.id)
    (hcount : ∀ d u, f'.countAt d u =
      if d = data ∧ u = s then g (f.countAt d u) else f.countAt d u) (key : Subscription) (u : σ) :
    countIn (store filters f') key u =
      if key = (f.id, data) ∧ u = s then g (countIn filters key u) else countIn filters key u := by
  obtain ⟨id, topic⟩ := key
  simp only [countIn_store, hid, hcount, hf, Prod.mk.injEq]
  grind

theorem wf_store (h : ∀ id g, find filters id = some g → g.WF) (hf : f.WF) :
    ∀ id g, find (store filters f) id = some g → g.WF := by
  intro id g hg
  rw [find_store] at hg
  grind

theorem pfSubscribe_spec (h : f.WF) (s : σ) (data : List UInt8)
    (hb : f.id = PubSub.filterPrefixId → f.countAt data s + 1 < 2 ^ 31) :
    ∃ ret f', f.pfSubscribe s data = .ok (ret, f') ∧ f'.WF ∧ f'.id = f.id ∧
      (∀ d u, f'.countAt d u = if d = data ∧ u = s then f.countAt d u + 1 else f.countAt d u) ∧
      ((f.id = PubSub.filterTopicId ∧ ret = .subscribed) ∨
        (f.id = PubSub.filterPrefixId ∧ ∃ added : Bool, ret = .value (if added then 1 else 0) ∧
          (added = true ↔ ∀ u, f.countAt data u = 0))) := by
  cases f with
  | pfx t =>
    obtain ⟨added, t', hadd, hwf, -, hcount, hnew⟩ := PfxNode.pfxAdd_spec s data t h (hb rfl)
    exact ⟨_, .pfx t', by simp only [pfSubscribe, hadd], hwf, rfl, hcount,
      Or.inr ⟨rfl, added, rfl, hnew⟩⟩
  | topic t =>
    exact ⟨_, _, rfl, TopicFilter.WF.pfSubscribe h s data, rfl,
      fun d u => t.countAt_pfSubscribe s u data d, Or.inl ⟨rfl, rfl⟩⟩

theorem pfSubscribe_ok_iff (h : f.WF) (s : σ) (data : List UInt8) :
    (∃ r, f.pfSubscribe s data = .ok r) ↔
      (f.id = PubSub.filterPrefixId → f.countAt data s + 1 < 2 ^ 31) := by
  constructor
  · rintro ⟨r, hr⟩ hid
    by_contra hb
    cases f with
    | pfx t =>
      obtain ⟨err, he⟩ := PfxNode.pfxAdd_overflow s data t h hb
      simp only [pfSubscribe, he] at hr
      cases hr
    | topic t => exact absurd hid (by simp [id, PubSub.filterPrefixId, PubSub.filterTopicId])
  · intro hb
    obtain ⟨ret, f', hok, -⟩ := pfSubscribe_spec h s data hb
    exact ⟨_, hok⟩

def hasNode : Filter σ → List UInt8 → Bool
  | .pfx t, data => t.hasNode data
  | .topic _, _ => false

theorem pfUnsubscribe_spec (h : f.WF) (s : σ) (data : List UInt8) :
    ∃ ret f', f.pfUnsubscribe s data = .ok (ret, f') ∧ f'.WF ∧ f'.id = f.id ∧
      (∀ d u, f'.countAt d u = if d = data ∧ u = s then f.countAt d u - 1 else f.countAt d u) ∧
      ((f.id = PubSub.filterTopicId ∧ ret = .value (if f.countAt data s = 0 then -1 else 0)) ∨
        (f.id = PubSub.filterPrefixId ∧ ∃ removed : Bool, ret = .value (if removed then 1 else 0) ∧
          (removed = true ↔ f.hasNode data = true ∧ ∀ u, f'.countAt data u = 0))) := by
  cases f with
  | pfx t =>
    obtain ⟨removed, t', hrm, hwf, hcount, hgone⟩ := PfxNode.pfxRm_spec s data t h
    exact ⟨_, .pfx t', by simp only [pfUnsubscribe, hrm], hwf, rfl, hcount,
      Or.inr ⟨rfl, removed, rfl, hgone⟩⟩
  | topic t =>
    rcases TopicFilter.pfUnsubscribe_spec h s data with ⟨hzero, hnone⟩ | ⟨hpos, t', hsome, hwf, hcount⟩
    · refine ⟨.value (-1), .topic t, by simp only [pfUnsubscribe, hnone], h, rfl, fun d u => ?_,
        Or.inl ⟨rfl, by simp [countAt, hzero]⟩⟩
      split
      next hdu =>
        obtain ⟨rfl, rfl⟩ := hdu
        simp [countAt, hzero]
      · rfl
    · exact ⟨.value 0, .topic t', by simp only [pfUnsubscribe, hsome], hwf, rfl, hcount,
        Or.inl ⟨rfl, by simp [countAt, Nat.ne_of_gt hpos]⟩⟩

theorem hasNode_of_countAt {t : PfxNode σ}
    (h : 0 < (Filter.pfx t).countAt data s) : (Filter.pfx t).hasNode data = true :=
  PfxNode.hasNode_of_countAt h

theorem pfUnsubscribeAll_spec (h : f.WF) (s : σ) :
    ∃ f' calls, f.pfUnsubscribeAll s = .ok (f', calls) ∧ f'.WF ∧ f'.id = f.id ∧
      (∀ d u, f'.countAt d u =
        if u = s then (if f.id = PubSub.filterPrefixId then f.countAt d u - 1 else 0)
        else f.countAt d u) ∧
      calls.Nodup ∧ ∀ d, d ∈ calls ↔ f.id = PubSub.filterPrefixId ∧ (∃ u, 0 < f.countAt d u) ∧
        ∀ u, f'.countAt d u = 0 := by
  cases f with
  | pfx t =>
    obtain ⟨t', calls, hall, hwf, hlow, hcalls⟩ := PfxNode.WF.pfUnsubscribeAll_spec h s
    obtain ⟨hnodup, hmem⟩ := hlow.announcesEmptied hcalls
    exact ⟨.pfx t', calls, by simp only [pfUnsubscribeAll, hall], hwf, rfl,
      fun d u => by simp [countAt, hlow d u, id], hnodup, fun d => by simp [hmem, countAt, id]⟩
  | topic t =>
    obtain ⟨hwf, hcount⟩ := TopicFilter.pfUnsubscribeAll_spec h s
    exact ⟨_, _, rfl, hwf, rfl,
      fun d u => by simp [countAt, hcount, id, PubSub.filterPrefixId, PubSub.filterTopicId],
      List.nodup_nil, fun d => by simp [id, PubSub.filterPrefixId, PubSub.filterTopicId]⟩

/-! ## The subscriber side -/

theorem sfSubscribe_spec {f : Filter Unit} (h : f.WF) (data : List UInt8)
    (hb : f.countAt data () + 1 < 2 ^ 31) :
    ∃ ret f', f.sfSubscribe data = .ok (ret, f') ∧ f'.WF ∧ f'.id = f.id ∧
      (∀ d, f'.countAt d () = if d = data then f.countAt d () + 1 else f.countAt d ()) ∧
      (ret = if f.id = PubSub.filterTopicId ∨ f.countAt data () = 0 then .subscribed
        else .value 0) := by
  cases f with
  | pfx t =>
    obtain ⟨added, t', hadd, hwf, -, hcount, hnew⟩ := PfxNode.pfxAdd_spec () data t h hb
    refine ⟨if added then .subscribed else .value 0, .pfx t', by simp only [sfSubscribe, hadd], hwf,
      rfl, fun d => by simp [countAt, hcount], ?_⟩
    have hnew' : added = true ↔ t.countAt data () = 0 := hnew.trans ⟨fun h => h (), fun h _ => h⟩
    simp [id, PubSub.filterPrefixId, PubSub.filterTopicId, countAt, hnew']
  | topic t =>
    exact ⟨_, _, rfl, TopicFilter.WF.pfSubscribe h () data, rfl,
      fun d => by simp [countAt, TopicFilter.countAt_pfSubscribe], by simp [id]⟩

theorem sfUnsubscribe_spec {f : Filter Unit} (h : f.WF) (data : List UInt8)
    (hpos : 0 < f.countAt data ()) :
    ∃ ret f', f.sfUnsubscribe data = .ok (ret, f') ∧ f'.WF ∧ f'.id = f.id ∧
      (∀ d, f'.countAt d () = if d = data then f.countAt d () - 1 else f.countAt d ()) ∧
      (ret = if f.id = PubSub.filterPrefixId ∧ f.countAt data () = 1 then .unsubscribed
        else .value 0) := by
  cases f with
  | pfx t =>
    obtain ⟨removed, t', hrm, hwf, hcount, hgone⟩ := PfxNode.pfxRm_spec () data t h
    refine ⟨if removed then .unsubscribed else .value 0, .pfx t',
      by simp only [sfUnsubscribe, hrm], hwf, rfl, fun d => by simp [countAt, hcount], ?_⟩
    have hnode : t.hasNode data = true := PfxNode.hasNode_of_countAt hpos
    have hgone' : removed = true ↔ t.countAt data () = 1 := by
      have hpos' : 0 < t.countAt data () := hpos
      simp only [hgone, hcount, hnode, true_and, and_true, if_true]
      exact ⟨fun h => by have := h (); omega, fun h _ => Nat.sub_eq_zero_of_le (Nat.le_of_eq h)⟩
    simp [id, countAt, hgone']
  | topic t =>
    obtain ⟨ret, f', hun, hwf, hid, hcount, hret⟩ := pfUnsubscribe_spec h () data
    refine ⟨ret, f', hun, hwf, hid, fun d => by simp [hcount], ?_⟩
    rcases hret with ⟨-, hret⟩ | ⟨hpfx, -⟩
    · simp [hret, Nat.ne_of_gt hpos, id, PubSub.filterPrefixId, PubSub.filterTopicId]
    · exact absurd hpfx (by simp [id, PubSub.filterPrefixId, PubSub.filterTopicId])

end Filter

end Libxs
