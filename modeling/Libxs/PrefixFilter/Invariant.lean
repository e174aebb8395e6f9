import Libxs.PrefixFilter
import Libxs.Foundation.Window

/-! # What a node of the prefix trie stands for -/

namespace Libxs

variable {σ : Type} [LinearOrder σ]
variable {subscribers : Option (Subscribers σ)}

/-! ## Subscriber maps -/

def refCount (subscribers : Option (Subscribers σ)) (s : σ) : Nat :=
  match subscribers with
  | none => 0
  | some m => m[s]?.getD 0

structure SubscribersOk (subscribers : Option (Subscribers σ)) : Prop where
  inhabited : ∀ m, subscribers = some m → m.isEmpty = false
  positive : ∀ (m : Subscribers σ) (s : σ) (n : Nat),
    subscribers = some m → m[s]? = some n → 0 < n

theorem subscribersOk_none : SubscribersOk (none : Option (Subscribers σ)) :=
  ⟨fun _ h => absurd h (by simp), fun _ _ _ h => absurd h (by simp)⟩

theorem SubscribersOk.isSome_iff (h : SubscribersOk subscribers) :
    subscribers.isSome = true ↔ ∃ s, 0 < refCount subscribers s := by
  cases subscribers with
  | none => simp [refCount]
  | some m =>
    obtain ⟨s, hs⟩ := Std.TreeMap.isEmpty_eq_false_iff_exists_mem.1 (h.inhabited m rfl)
    rw [Std.TreeMap.mem_iff_isSome_getElem?, Option.isSome_iff_exists] at hs
    obtain ⟨n, hn⟩ := hs
    have hpos := h.positive m s n rfl hn
    simp only [Option.isSome_some, true_iff]
    exact ⟨s, by simpa [refCount, hn] using hpos⟩

theorem SubscribersOk.isNone_iff (h : SubscribersOk subscribers) :
    subscribers.isNone = true ↔ ∀ s, refCount subscribers s = 0 := by
  have hsome := h.isSome_iff
  cases subscribers with
  | none => simp [refCount]
  | some m => grind

theorem SubscribersOk.insert (h : SubscribersOk subscribers) (s : σ) (n : Nat) (hn : 0 < n) :
    SubscribersOk (some ((subscribers.getD ∅).insert s n)) := by
  constructor
  · grind
  · intro m t k hm hk
    simp only [Option.some.injEq] at hm
    subst hm
    rw [Std.TreeMap.getElem?_insert] at hk
    split at hk
    · grind
    · cases subscribers with
      | none => simp at hk
      | some m => exact h.positive m t k rfl hk

theorem refCount_insert (subscribers : Option (Subscribers σ)) (s t : σ) (n : Nat) :
    refCount (some ((subscribers.getD ∅).insert s n)) t =
      if t = s then n else refCount subscribers t := by
  simp only [refCount, Std.TreeMap.getElem?_insert, Std.LawfulEqOrd.compare_eq_iff_eq, eq_comm (a := s)]
  split
  · rfl
  · cases subscribers <;> simp

theorem PfxNode.dropSubscriber_spec (h : SubscribersOk subscribers) (s : σ) :
    ∃ subscribers' emptied, PfxNode.dropSubscriber subscribers s = .ok (subscribers', emptied) ∧
      SubscribersOk subscribers' ∧
      (∀ t, refCount subscribers' t =
        if t = s then refCount subscribers t - 1 else refCount subscribers t) ∧
      (emptied = true ↔ subscribers.isSome = true ∧ subscribers'.isNone = true) := by
  unfold PfxNode.dropSubscriber
  cases subscribers with
  | none => exact ⟨none, false, rfl, h, fun t => by simp [refCount], by simp⟩
  | some m =>
    simp only
    split
    next hs => grind [refCount]
    · next hs => exact absurd (h.positive m s 0 rfl hs) (by simp)
    next hs =>
      have hcount : ∀ t, refCount (some (m.erase s)) t =
          if t = s then refCount (some m) t - 1 else refCount (some m) t := by
        intro t
        simp only [refCount, Std.TreeMap.getElem?_erase, Std.LawfulEqOrd.compare_eq_iff_eq,
          eq_comm (a := s)]
        split
        · next ht => subst ht; simp [hs]
        · rfl
      have hpos : ∀ (t : σ) (n : Nat), (m.erase s)[t]? = some n → 0 < n := by
        intro t n ht
        rw [Std.TreeMap.getElem?_erase] at ht
        split at ht
        · cases ht
        · exact h.positive m t n rfl ht
      split
      next he =>
        refine ⟨none, true, rfl, subscribersOk_none, fun t => ?_, by simp⟩
        rw [← hcount t]
        have hnone : (m.erase s)[t]? = none := by
          have := Std.TreeMap.isEmpty_iff_forall_not_mem.1 he t
          rw [Std.TreeMap.mem_iff_isSome_getElem?] at this
          simpa using this
        simp [refCount, hnone]
      next he =>
        refine ⟨some (m.erase s), false, rfl, ⟨?_, ?_⟩, hcount, by simp⟩
        · grind
        · grind
    next refs hne hs =>
      have hrefs : 0 < refs := by grind
      refine ⟨_, false, rfl, h.insert s refs hrefs, fun t => ?_, by simp⟩
      rw [show m.insert s refs = ((some m).getD ∅).insert s refs from rfl, refCount_insert]
      split
      · next ht => subst ht; simp [refCount, hs]
      · rfl

namespace PfxNode

variable {t : List (Option (PfxNode σ))} {c : Nat} {m : Option (PfxNode σ)} {n n' : PfxNode σ}

/-! ## Slots and subnodes -/

def slots (n : PfxNode σ) : List (Option (PfxNode σ)) :=
  if n.count = 0 then []
  else
    match n.next with
    | .unset => []
    | .node m => [m]
    | .table t => t

def child (n : PfxNode σ) (c : Nat) : Option (PfxNode σ) := Window.look n.min n.slots c

structure Fits (n : PfxNode σ) : Prop where
  count_eq : n.count = n.slots.length
  single : n.count = 1 → ∃ m, n.next = .node m
  table : 2 ≤ n.count → ∃ t, n.next = .table t
  range : n.min + n.count ≤ 256
  live : n.liveNodes = Window.live n.slots

structure Shape (n : PfxNode σ) : Prop extends Fits n where
  tight : Window.Tight n.slots
  subscribers : SubscribersOk n.subscribers

theorem slots_single (hc : n.count = 1) (hn : n.next = .node m) : n.slots = [m] := by
  simp [slots, hc, hn]

theorem slots_table (hc : 2 ≤ n.count) (hn : n.next = .table t) : n.slots = t := by
  have : n.count ≠ 0 := by omega
  simp [slots, this, hn]

theorem fits_single (hc : n.count = 1)
    (hn : n.next = .node m) (hr : n.min < 256) (hl : n.liveNodes = Window.live [m]) : n.Fits where
  count_eq := by rw [slots_single hc hn, hc]; rfl
  single := fun _ => ⟨m, hn⟩
  table := fun h => by omega
  range := by omega
  live := by rw [slots_single hc hn, hl]

theorem fits_table (hn : n.next = .table t)
    (h2 : 2 ≤ t.length) (hc : n.count = t.length) (hr : n.min + t.length ≤ 256)
    (hl : n.liveNodes = Window.live t) : n.Fits where
  count_eq := by rw [slots_table (by omega) hn, hc]
  single := fun h => by omega
  table := fun _ => ⟨t, hn⟩
  range := by omega
  live := by rw [slots_table (by omega) hn, hl]

theorem Fits.child_of_out (h : n.Fits)
    (hc : c < n.min ∨ n.min + n.count ≤ c) : n.child c = none :=
  Window.look_eq_none_of_ge (by rw [← h.count_eq]; exact hc)

theorem Fits.slot_eq (h : n.Fits) (h1 : n.min ≤ c) (h2 : c < n.min + n.count) :
    n.slot c = .ok (n.child c) ∧ n.slots[c - n.min]? = some (n.child c) := by
  have hlt : c - n.min < n.slots.length := by
    rw [← h.count_eq]
    omega
  have hget : n.slots[c - n.min]? = some (n.child c) := by grind [child, Window.look]
  refine ⟨?_, hget⟩
  by_cases hone : n.count = 1
  · obtain ⟨m, hm⟩ := h.single hone
    have hc : c - n.min = 0 := by omega
    rw [slots_single hone hm, hc] at hget
    simp only [List.getElem?_cons_zero, Option.some.injEq] at hget
    simp [slot, hone, hm, hget]
  · obtain ⟨t, ht⟩ := h.table (by omega)
    rw [slots_table (by omega) ht] at hget
    simp [slot, hone, ht, hget]

theorem setSlot_fields (n : PfxNode σ) (c : Nat) (m : Option (PfxNode σ)) :
    (n.setSlot c m).subscribers = n.subscribers ∧ (n.setSlot c m).min = n.min ∧
      (n.setSlot c m).count = n.count ∧ (n.setSlot c m).liveNodes = n.liveNodes := by
  unfold setSlot
  split
  · simp
  · split <;> simp

theorem Fits.slots_setSlot (h : n.Fits) (h1 : n.min ≤ c)
    (h2 : c < n.min + n.count) (m : Option (PfxNode σ)) :
    (n.setSlot c m).slots = n.slots.set (c - n.min) m := by
  by_cases hone : n.count = 1
  · obtain ⟨m0, hm0⟩ := h.single hone
    have hc : c - n.min = 0 := by omega
    rw [slots_single hone hm0, hc]
    simp [setSlot, hone, slots]
  · obtain ⟨t, ht⟩ := h.table (by omega)
    have hne : n.count ≠ 0 := by omega
    simp [setSlot, hone, ht, slots, hne]

theorem Fits.setSlot_some (h : n.Fits) (h1 : n.min ≤ c)
    (h2 : c < n.min + n.count) (m : PfxNode σ) {live : Nat}
    (hl : live + (n.child c).toList.length = n.liveNodes + 1) :
    ({ (n.setSlot c (some m)) with liveNodes := live } : PfxNode σ).Fits ∧
      ∀ d, ({ (n.setSlot c (some m)) with liveNodes := live } : PfxNode σ).child d =
        if d = c then some m else n.child d := by
  obtain ⟨-, hmin, hcount, -⟩ := n.setSlot_fields c (some m)
  have hslots := h.slots_setSlot h1 h2 (some m)
  have hlt : c - n.min < n.slots.length := by
    rw [← h.count_eq]
    omega
  have hlive := Window.live_set (h.slot_eq h1 h2).2 (some m)
  have hrange := h.range
  refine ⟨?_, fun d => ?_⟩
  · have hlive' : live = Window.live (n.slots.set (c - n.min) (some m)) := by
      rw [← h.live] at hlive
      simp only [Option.toList_some, List.length_singleton] at hlive
      omega
    by_cases hone : n.count = 1
    · refine fits_single (m := some m) (hcount.trans hone) (by simp [setSlot, hone])
        (by simp only [hmin]; omega) ?_
      obtain ⟨m0, hm0⟩ := h.single hone
      have hc : c - n.min = 0 := by omega
      simpa [slots_single hone hm0, hc] using hlive'
    · obtain ⟨t, ht⟩ := h.table (by omega)
      have ht' := slots_table (by omega) ht
      have hlen := h.count_eq
      rw [ht'] at hlen hlive'
      refine fits_table (t := t.set (c - n.min) (some m)) (by simp [setSlot, hone, ht]) ?_ ?_ ?_ hlive'
      · rw [List.length_set]; omega
      · rw [List.length_set]; simp only [hcount]; omega
      · rw [List.length_set]; simp only [hmin]; omega
  · have hch : ({ (n.setSlot c (some m)) with liveNodes := live } : PfxNode σ).child d =
        Window.look n.min (n.slots.set (c - n.min) (some m)) d := by
      rw [← hslots]
      simp [child, slots, hmin]
    rw [hch, Window.look_set hlt, child]
    have hiff : d = n.min + (c - n.min) ↔ d = c := by omega
    simp only [hiff]

/-! ## Extending a window -/

structure Reaches (n n' : PfxNode σ) (c : Nat) : Prop where
  fits : n'.Fits
  lower : n'.min ≤ c
  upper : c < n'.min + n'.count
  subscribers : n'.subscribers = n.subscribers
  child : ∀ d, n'.child d = n.child d
  first : ∀ x, n'.slots[0]? = some x → x.isSome = true ∨ c - n'.min = 0
  last : ∀ x, n'.slots[n'.slots.length - 1]? = some x →
    x.isSome = true ∨ c - n'.min = n'.slots.length - 1

theorem Shape.reaches_self (h : n.Shape) (h1 : n.min ≤ c)
    (h2 : c < n.min + n.count) : n.Reaches n c :=
  ⟨h.toFits, h1, h2, rfl, fun _ => rfl, fun x hx => Or.inl (h.tight.1 x hx),
    fun x hx => Or.inl (h.tight.2 x hx)⟩

theorem Shape.reaches_append (h : n.Shape) {k : Nat} (hpos : 0 < n.count)
    (hk : 0 < k) (hc : c + 1 = n.min + n.count + k) (hc' : c < 256) (hmin : n'.min = n.min)
    (hcount : n'.count = n.count + k) (hsubs : n'.subscribers = n.subscribers)
    (hlive : n'.liveNodes = n.liveNodes)
    (hnext : n'.next = .table (n.slots ++ List.replicate k none)) : n.Reaches n' c := by
  have hlen := h.count_eq
  have hsl : n'.slots = n.slots ++ List.replicate k none := slots_table (by omega) hnext
  refine ⟨fits_table hnext (by simp; omega) (by simp; omega) (by simp; omega) ?_, by omega, by omega,
    hsubs, fun d => ?_, ?_, ?_⟩
  · rw [Window.live_append_replicate, hlive, h.live]
  · rw [child, child, hsl, hmin, Window.look_append]
  · intro x hx
    rw [hsl, List.getElem?_append_left (by omega)] at hx
    exact Or.inl (h.tight.1 x hx)
  · grind

theorem Shape.reaches_prepend (h : n.Shape) {k : Nat} (hpos : 0 < n.count)
    (hk : 0 < k) (hc : c + k = n.min) (hmin : n'.min = c) (hcount : n'.count = k + n.count)
    (hsubs : n'.subscribers = n.subscribers) (hlive : n'.liveNodes = n.liveNodes)
    (hnext : n'.next = .table (List.replicate k none ++ n.slots)) : n.Reaches n' c := by
  have hlen := h.count_eq
  have hrange := h.range
  have hsl : n'.slots = List.replicate k none ++ n.slots := slots_table (by omega) hnext
  refine ⟨fits_table hnext (by simp; omega) (by simp; omega) (by simp; omega) ?_, by omega, by omega,
    hsubs, fun d => ?_, ?_, ?_⟩
  · rw [Window.live_replicate_append, hlive, h.live]
  · have hmk : n'.min = n.min - k := by omega
    rw [child, child, hsl, hmk, Window.look_prepend (by omega)]
  · intro x _
    exact Or.inr (by omega)
  · intro x hx
    rw [hsl, List.getElem?_append_right (by simp; omega)] at hx
    refine Or.inl (h.tight.2 x ?_)
    rw [← hx]
    congr 1
    simp
    omega

theorem Shape.reaches_extend (h : n.Shape) (hc : c < 256)
    (hout : c < n.min ∨ n.min + n.count ≤ c) : n.Reaches (n.extend c) c := by
  have hrange := h.range
  have hlen := h.count_eq
  unfold extend
  split
  next h0 =>
    have hnil : n.slots = [] := by simp [slots, h0]
    refine ⟨fits_single (m := none) rfl rfl hc ?_, Nat.le_refl _, by simp, rfl, fun d => ?_, ?_, ?_⟩
    · have := h.live
      rw [hnil] at this
      simpa [Window.live] using this
    · rw [child, child, hnil]
      have : ({ n with min := c, count := 1, next := PfxNext.node none } : PfxNode σ).slots = [none] :=
        slots_single rfl rfl
      rw [this]
      simp only [Window.look]
      split
      · simp
      · cases d - c <;> simp
    · intro x _; exact Or.inr (by simp)
    · intro x _; exact Or.inr (by simp [slots])
  next h0 =>
    split
    next h1 =>
      obtain ⟨m, hm⟩ := h.single h1
      have hsl := slots_single h1 hm
      by_cases hlt : n.min < c
      · -- the table starts at the old character
        have hcnt : ((c - n.min) + 1) % 2 ^ 16 = (c - n.min) + 1 := Nat.mod_eq_of_lt (by omega)
        have hmin : Nat.min n.min c = n.min := Nat.min_eq_left (by omega)
        refine h.reaches_append (k := c - n.min) (by omega) (by omega) (by omega) hc ?_ ?_ rfl rfl ?_
        · simp [hmin]
        · simp only [hlt, if_true, hcnt]
          omega
        · simp only [hlt, if_true, hcnt, hmin, hm, hsl, Nat.sub_self]
          rfl
      · -- the table starts at the new character
        have hcnt : ((n.min - c) + 1) % 2 ^ 16 = (n.min - c) + 1 := Nat.mod_eq_of_lt (by omega)
        have hmin : Nat.min n.min c = c := Nat.min_eq_right (by omega)
        refine h.reaches_prepend (k := n.min - c) (by omega) (by omega) (by omega) ?_ ?_ rfl rfl ?_
        · simp [hmin]
        · simp only [hlt, if_false, hcnt]
          omega
        · simp only [hlt, if_false, hcnt, hmin, hm, hsl]
          simp [List.replicate_succ']
    next h1 =>
      obtain ⟨t, ht⟩ := h.table (by omega)
      have hsl := slots_table (by omega) ht
      simp only [ht]
      split
      next hlt =>
        have hcnt : (c - n.min + 1) % 2 ^ 16 = c - n.min + 1 := Nat.mod_eq_of_lt (by omega)
        refine h.reaches_append (k := c - n.min + 1 - n.count) (by omega) (by omega) (by omega)
          hc rfl ?_ rfl rfl ?_
        · simp only [hcnt]
          omega
        · simp only [hcnt, hsl]
      next hlt =>
        have hcnt : (n.min + n.count - c) % 2 ^ 16 = n.min + n.count - c :=
          Nat.mod_eq_of_lt (by omega)
        refine h.reaches_prepend (k := n.min - c) (by omega) (by omega) (by omega) rfl ?_ rfl rfl ?_
        · simp only [hcnt]
          omega
        · simp only [hsl]

/-! ## Pruning a subnode -/

def Pruned (n n' : PfxNode σ) (c : Nat) : Prop :=
  n'.Shape ∧ n'.subscribers = n.subscribers ∧
    ∀ d, n'.child d = if d = c then none else n.child d

theorem fits_of_spans {min a b : Nat} (h : Window.Spans t a b) (hrange : min + t.length ≤ 256)
    (hmin : n.min = min + a) (hcount : n.count = b + 1 - a) (hlive : n.liveNodes = Window.live t)
    (hnext : n.next = if a = b then .node t[a]?.join else .table (Window.cut t a b)) :
    n.Fits ∧ Window.Tight n.slots ∧ ∀ d, n.child d = Window.look min t d := by
  have hle := h.le
  have hlt := h.lt_length
  have hlen := h.length_cut
  have hslots : n.slots = Window.cut t a b := by
    by_cases hab : a = b
    · obtain ⟨v, hv⟩ := h.first
      rw [if_pos hab] at hnext
      subst hab
      rw [slots_single (by omega) hnext, Window.cut, Nat.add_sub_cancel_left,
        List.drop_eq_getElem_cons hlt, hv]
      simp [(List.getElem?_eq_some_iff.1 hv).2]
    · rw [if_neg hab] at hnext
      exact slots_table (by omega) hnext
  refine ⟨⟨by rw [hslots, hlen, hcount], fun h1 => ?_, fun h2 => ?_, by omega, by rw [hslots, h.live_cut, hlive]⟩,
    hslots ▸ h.tight_cut, fun d => by rw [child, hslots, hmin, h.look_cut]⟩
  · exact ⟨_, hnext.trans (if_pos (by omega))⟩
  · exact ⟨_, hnext.trans (if_neg (by omega))⟩

theorem Shape.pruneSlot_spec (h : n.Shape) {m : PfxNode σ}
    (hm : n.child c = some m) : ∃ n', n.pruneSlot c = .ok n' ∧ n.Pruned n' c := by
  obtain ⟨h1, h2, hget⟩ := Window.look_eq_some hm
  have hrange := h.range
  have hlen := h.count_eq
  have hlive := h.live
  have hlook := @Window.look_set _ n.slots (c - n.min) n.min (by omega) none
  rw [show n.min + (c - n.min) = c by omega] at hlook
  have hset := Window.live_set hget none
  simp only [Option.toList_some, List.length_singleton, Option.toList_none, List.length_nil] at hset
  unfold pruneSlot
  rw [if_neg (by omega)]
  split
  next hone =>
    -- the only subnode goes away
    have hzero : Window.live (n.slots.set (c - n.min) none) = 0 := by
      have : Window.live n.slots ≤ n.slots.length := List.countP_le_length
      omega
    rw [if_pos (by omega)]
    refine ⟨_, rfl, ⟨⟨rfl, nofun, nofun, ?_, rfl⟩, Window.tight_nil, h.subscribers⟩, rfl, fun d => ?_⟩
    · simp only
      omega
    · rw [child, child, ← hlook d]
      change Window.look n.min [] d = _
      simp only [Window.look, Window.live_eq_zero_iff.1 hzero]
      split <;> rfl
  next hone =>
    obtain ⟨t, ht⟩ := h.table (by omega)
    have hsl := slots_table (by omega) ht
    rw [hsl] at h2 hget hlen hlive hset hlook
    have htight := h.tight
    rw [hsl] at htight
    have h2live := htight.two_le_live (by omega)
    -- the table with the slot cleared, and the part of it that is in use
    generalize ht' : t.set (c - n.min) none = t' at hset hlook
    have hlen' : t'.length = t.length := by rw [← ht', List.length_set]
    obtain ⟨a, b, hsp⟩ := Window.exists_spans (show Window.live t' ≠ 0 by omega)
    have hle := hsp.le
    have hlt := hsp.lt_length
    have hdone : ∀ n' : PfxNode σ, n'.subscribers = n.subscribers → n'.min = n.min + a →
        n'.count = b + 1 - a → n'.liveNodes = Window.live t' →
        (n'.next = if a = b then .node t'[a]?.join else .table (Window.cut t' a b)) → n.Pruned n' c := by
      intro n' hsubs hmin hcount hl hnext
      obtain ⟨hfits, htight', hchild⟩ := fits_of_spans hsp (by omega) hmin hcount hl hnext
      refine ⟨⟨hfits, htight', hsubs ▸ h.subscribers⟩, hsubs, fun d => ?_⟩
      rw [hchild, hlook, child, hsl]
    obtain ⟨hfirst, hlast⟩ := htight.spans_set (ht' ▸ hsp)
    simp only [ht, ht']
    rw [if_neg (by omega)]
    have hone' := hsp.live_eq_one_iff
    split
    next hl1 =>
      -- a single live node is left
      have hab := hone'.1 (by omega)
      rw [List.range_eq_range', hsp.find_first (Nat.zero_le a) (by omega)]
      refine ⟨_, rfl, hdone _ rfl (Nat.mod_eq_of_lt (by omega)) (by simp only; omega) (by simp only; omega) ?_⟩
      rw [if_pos hab]
    next hl1 =>
      have hab : a ≠ b := fun hab => hl1 (by have := hone'.2 hab; omega)
      split
      next hcm =>
        -- compact from the left
        have hb := hlast.2 (by omega)
        rw [hsp.find_first (by omega) (by omega)]
        have hmod : (a + n.min) % 2 ^ 8 = n.min + a := by omega
        simp only [hmod]
        rw [if_pos (by omega)]
        refine ⟨_, rfl, hdone _ rfl rfl (by simp only; omega) (by simp only; omega) ?_⟩
        have hcut : n.count - (n.min + a - n.min) = b + 1 - a := by omega
        rw [if_neg hab, Window.cut, hcut, Nat.add_sub_cancel_left]
      next hcm =>
        have ha := hfirst.2 (by omega)
        split
        next hcr =>
          -- compact from the right
          rw [hsp.find_last (by omega) (by omega) (by omega)]
          refine ⟨_, rfl, hdone _ rfl (by simp [ha]) (by simp only; omega) (by simp only; omega) ?_⟩
          have hcut : n.count - (n.count - 1 - b) = b + 1 := by omega
          rw [if_neg hab, Window.cut, ha, List.drop_zero, hcut, Nat.sub_zero]
        next hcr =>
          -- both ends stay in use
          have hb := hlast.2 (by omega)
          refine ⟨_, rfl, hdone _ rfl (by simp [ha]) (by simp only; omega) (by simp only; omega) ?_⟩
          rw [if_neg hab, Window.cut, ha, List.drop_zero, List.take_of_length_le (by omega)]

end PfxNode

end Libxs
