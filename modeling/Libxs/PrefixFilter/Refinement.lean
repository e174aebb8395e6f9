import Libxs.PrefixFilter.Invariant
import Libxs.Foundation.Run
import Mathlib.Data.List.Infix

/-! # The prefix trie is a reference-counted set of subscriptions -/

namespace Libxs

variable {σ : Type} [LinearOrder σ]

namespace PfxNode

variable {c : Nat} {x : Option (PfxNode σ)} {m n : PfxNode σ}

/-! ## Whole tries -/

inductive WF : PfxNode σ → Prop
  | intro {n : PfxNode σ} (shape : n.Shape) (wf : ∀ c m, n.child c = some m → WF m)
      (needed : ∀ c m, n.child c = some m → m.pfxIsRedundant = false) : WF n

theorem WF.shape (h : n.WF) : n.Shape := by
  cases h with
  | intro shape _ _ => exact shape

theorem WF.child (h : n.WF) (hm : n.child c = some m) : m.WF := by
  cases h with
  | intro _ wf _ => exact wf c m hm

theorem WF.needed (h : n.WF) (hm : n.child c = some m) : m.pfxIsRedundant = false := by
  cases h with
  | intro _ _ needed => exact needed c m hm

def countAt : PfxNode σ → List UInt8 → σ → Nat
  | n, [], s => refCount n.subscribers s
  | n, c :: p, s =>
    match n.child c.toNat with
    | none => 0
    | some m => countAt m p s

theorem slots_pfxInit : (pfxInit : PfxNode σ).slots = [] := rfl

theorem wf_pfxInit : (pfxInit : PfxNode σ).WF := by
  refine .intro ⟨⟨rfl, ?_, ?_, ?_, rfl⟩, Window.tight_nil, subscribersOk_none⟩ ?_ ?_
  · exact fun h => absurd h (by simp [pfxInit])
  · exact fun h => absurd h (by simp [pfxInit])
  · simp [pfxInit]
  · exact fun c m hm => absurd hm (by simp [child, slots_pfxInit, Window.look])
  · exact fun c m hm => absurd hm (by simp [child, slots_pfxInit, Window.look])

theorem countAt_pfxInit (p : List UInt8) (s : σ) : (pfxInit : PfxNode σ).countAt p s = 0 := by
  cases p with
  | nil => rfl
  | cons c p => simp [countAt, child, slots_pfxInit, Window.look]

theorem Shape.of_redundant (h : n.Shape) (hr : n.pfxIsRedundant = true) :
    n.subscribers = none ∧ n.count = 0 := by
  simp only [pfxIsRedundant, Bool.and_eq_true, Option.isNone_iff_eq_none, beq_iff_eq] at hr
  refine ⟨hr.1, ?_⟩
  have hlive := h.live
  rw [hr.2] at hlive
  by_contra hc
  have hlen := h.count_eq
  have hget := List.getElem?_eq_getElem (l := n.slots) (i := 0) (by omega)
  have hsome := h.tight.1 _ hget
  have hnone := Window.live_eq_zero_iff.1 hlive.symm 0
  rw [hget] at hnone
  rw [show n.slots[0] = none from hnone] at hsome
  cases hsome

theorem Shape.child_of_count_zero (h : n.Shape) (h0 : n.count = 0) (c : Nat) : n.child c = none :=
  h.child_of_out (by omega)

theorem Shape.countAt_of_redundant (h : n.Shape) (hr : n.pfxIsRedundant = true)
    (p : List UInt8) (s : σ) : n.countAt p s = 0 := by
  obtain ⟨hs, h0⟩ := h.of_redundant hr
  cases p with
  | nil => simp [countAt, hs, refCount]
  | cons c p => simp [countAt, h.child_of_count_zero h0]

theorem Shape.pfxClose_of_redundant (h : n.Shape) (hr : n.pfxIsRedundant = true) :
    n.pfxClose = .ok () := by
  obtain ⟨-, h0⟩ := h.of_redundant hr
  obtain ⟨subscribers, min, count, live, next⟩ := n
  unfold pfxClose
  rw [if_pos h0]

/-! ## Replacing one subnode -/

theorem WF.replace {n' : PfxNode σ} (h : n.WF) (hshape : n'.Shape)
    (hchild : ∀ d, n'.child d = if d = c then x else n.child d)
    (hx : ∀ m, x = some m → m.WF ∧ m.pfxIsRedundant = false) : n'.WF := by
  refine .intro hshape (fun d m hm => ?_) (fun d m hm => ?_)
  · grind [h.child]
  · grind [h.needed]

theorem countAt_replace {n' : PfxNode σ} {c : UInt8} (hsubs : n'.subscribers = n.subscribers)
    (hchild : ∀ d, n'.child d = if d = c.toNat then x else n.child d) (q : List UInt8) (t : σ) :
    n'.countAt q t =
      match q with
      | [] => n.countAt [] t
      | d :: q => if d = c then x.elim 0 (fun m => m.countAt q t) else n.countAt (d :: q) t := by
  grind [countAt, UInt8.toNat_inj]

theorem WF.setSubscribers (h : n.WF) {subs : Option (Subscribers σ)}
    (hok : SubscribersOk subs) : ({ n with subscribers := subs } : PfxNode σ).WF :=
  .intro ⟨⟨h.shape.count_eq, h.shape.single, h.shape.table, h.shape.range, h.shape.live⟩,
    h.shape.tight, hok⟩ (fun _ _ hm => h.child hm) (fun _ _ hm => h.needed hm)

theorem countAt_setSubscribers (n : PfxNode σ) (subs : Option (Subscribers σ)) (q : List UInt8)
    (t : σ) : ({ n with subscribers := subs } : PfxNode σ).countAt q t =
      if q = [] then refCount subs t else n.countAt q t := by
  cases q <;> simp [countAt, child, slots]

theorem setSlot_withLiveNodes (n : PfxNode σ) (c : Nat) (m : Option (PfxNode σ)) :
    { (n.setSlot c m) with liveNodes := n.liveNodes } = n.setSlot c m := by
  cases n
  unfold setSlot
  split
  · rfl
  · split <;> rfl

theorem Reaches.shape_setSlot {n1 : PfxNode σ} (h : n.Shape) (hr : n.Reaches n1 c)
    (m : PfxNode σ) (live : Nat) (hl : live + (n.child c).toList.length = n1.liveNodes + 1) :
    ({ (n1.setSlot c (some m)) with liveNodes := live } : PfxNode σ).Shape ∧
      ({ (n1.setSlot c (some m)) with liveNodes := live } : PfxNode σ).subscribers = n.subscribers ∧
      ∀ d, ({ (n1.setSlot c (some m)) with liveNodes := live } : PfxNode σ).child d =
        if d = c then some m else n.child d := by
  rw [← hr.child c] at hl
  obtain ⟨hfits, hchild⟩ := hr.fits.setSlot_some hr.lower hr.upper m hl
  have hsubs : ({ (n1.setSlot c (some m)) with liveNodes := live } : PfxNode σ).subscribers =
      n.subscribers := (setSlot_fields _ _ _).1.trans hr.subscribers
  refine ⟨⟨hfits, ?_, by rw [hsubs]; exact h.subscribers⟩, hsubs, fun d => ?_⟩
  · have hsl : ({ (n1.setSlot c (some m)) with liveNodes := live } : PfxNode σ).slots =
        n1.slots.set (c - n1.min) (some m) := by
      rw [← hr.fits.slots_setSlot hr.lower hr.upper]
      rfl
    rw [hsl]
    exact Window.Tight.set_some hr.first hr.last
  · rw [hchild, hr.child]

theorem Fits.live_le (h : n.Fits) : n.liveNodes ≤ 256 := by
  have hle : Window.live n.slots ≤ n.slots.length := List.countP_le_length
  have := h.range
  have := h.count_eq
  rw [h.live]
  omega

theorem Shape.not_redundant_of_child (h : n.Shape)
    (hm : n.child c = some m) : n.pfxIsRedundant = false := by
  by_contra hr
  rw [Bool.not_eq_false] at hr
  rw [h.child_of_count_zero (h.of_redundant hr).2] at hm
  cases hm

/-! ## `pfx_add` -/

theorem Shape.exists_reaches (h : n.Shape) (c : UInt8) :
    ∃ n1, (if c.toNat < n.min ∨ n.min + n.count ≤ c.toNat then n.extend c.toNat else n) = n1 ∧
      n.Reaches n1 c.toNat := by
  by_cases hout : c.toNat < n.min ∨ n.min + n.count ≤ c.toNat
  · exact ⟨_, if_pos hout, h.reaches_extend c.toNat_lt hout⟩
  · exact ⟨n, if_neg hout, h.reaches_self (by omega) (by omega)⟩

theorem pfxAdd_spec (s : σ) : ∀ (p : List UInt8) (n : PfxNode σ), n.WF →
    n.countAt p s + 1 < 2 ^ 31 →
    ∃ r n', n.pfxAdd p s = .ok (r, n') ∧ n'.WF ∧ n'.pfxIsRedundant = false ∧
      (∀ q t, n'.countAt q t = if q = p ∧ t = s then n.countAt q t + 1 else n.countAt q t) ∧
      (r = true ↔ ∀ t, n.countAt p t = 0) := by
  intro p
  induction p with
  | nil =>
    intro n h hb
    have hrefs : (n.subscribers.getD ∅)[s]?.getD 0 = refCount n.subscribers s := by
      cases hs : n.subscribers <;> simp [refCount]
    simp only [countAt] at hb
    refine ⟨n.subscribers.isNone, _, by simp only [pfxAdd, hrefs, hb, if_true]; rfl,
      h.setSubscribers (h.shape.subscribers.insert s _ (Nat.succ_pos _)), ?_, ?_,
      h.shape.subscribers.isNone_iff⟩
    · simp [pfxIsRedundant]
    · grind [countAt_setSubscribers, refCount_insert, countAt]
  | cons c p ih =>
    intro n h hb
    obtain ⟨n1, hn1, hr⟩ := h.shape.exists_reaches c
    have hslot : n1.slot c.toNat = .ok (n.child c.toNat) := by
      rw [(hr.fits.slot_eq hr.lower hr.upper).1, hr.child]
    have hle := hr.fits.live_le
    cases hchild : n.child c.toNat with
    | none =>
      obtain ⟨r, m, hadd, hwf, hred, hcount, hnew⟩ := ih pfxInit wf_pfxInit
        (by rw [countAt_pfxInit]; decide)
      obtain ⟨hshape, hsubs, hch⟩ := hr.shape_setSlot h.shape m (n1.liveNodes + 1)
        (by simp [hchild])
      have hmod : (n1.liveNodes + 1) % 2 ^ 16 = n1.liveNodes + 1 := Nat.mod_eq_of_lt (by omega)
      refine ⟨r, _, by simp only [pfxAdd, hn1, hslot, hchild, hadd, hmod],
        h.replace hshape hch (fun m' hm' => ?_), ?_, ?_,
        by simp [hnew, countAt, hchild, countAt_pfxInit]⟩
      · grind
      · exact hshape.not_redundant_of_child (c := c.toNat) (by rw [hch, if_pos rfl])
      · intro q t
        rw [countAt_replace hsubs hch]
        cases q with
        | nil => simp
        | cons d q => grind [countAt_pfxInit, countAt]
    | some m0 =>
      have hb0 : m0.countAt p s + 1 < 2 ^ 31 := by simpa [countAt, hchild] using hb
      obtain ⟨r, m, hadd, hwf, hred, hcount, hnew⟩ := ih m0 (h.child hchild) hb0
      obtain ⟨hshape, hsubs, hch⟩ := hr.shape_setSlot h.shape m n1.liveNodes
        (by simp [hchild])
      rw [setSlot_withLiveNodes] at hshape hsubs
      simp only [setSlot_withLiveNodes] at hch
      refine ⟨r, _, by simp only [pfxAdd, hn1, hslot, hchild, hadd],
        h.replace hshape hch (fun m' hm' => ?_), ?_, ?_, by simp [hnew, countAt, hchild]⟩
      · grind
      · exact hshape.not_redundant_of_child (c := c.toNat) (by rw [hch, if_pos rfl])
      · intro q t
        rw [countAt_replace hsubs hch]
        cases q with
        | nil => simp
        | cons d q =>
          by_cases hd : d = c
          · subst hd
            simp [hcount, countAt, hchild]
          · simp [hd]

theorem pfxAdd_overflow (s : σ) : ∀ (p : List UInt8) (n : PfxNode σ), n.WF →
    ¬ n.countAt p s + 1 < 2 ^ 31 → ∃ e, n.pfxAdd p s = .error e := by
  intro p
  induction p with
  | nil =>
    intro n _ hb
    have hrefs : (n.subscribers.getD ∅)[s]?.getD 0 = refCount n.subscribers s := by
      cases hs : n.subscribers <;> simp [refCount]
    simp only [countAt] at hb
    exact ⟨.signedOverflow, by simp only [pfxAdd, hrefs, hb, if_false]⟩
  | cons c p ih =>
    intro n h hb
    cases hchild : n.child c.toNat with
    | none => simp [countAt, hchild] at hb
    | some m =>
      obtain ⟨n1, hn1, hr⟩ := h.shape.exists_reaches c
      have hslot : n1.slot c.toNat = .ok (some m) := by
        rw [(hr.fits.slot_eq hr.lower hr.upper).1, hr.child, hchild]
      obtain ⟨e, he⟩ := ih m (h.child hchild) (by simpa [countAt, hchild] using hb)
      exact ⟨e, by simp only [pfxAdd, hn1, hslot, he]⟩

/-! ## `pfx_rm` -/

def hasNode : PfxNode σ → List UInt8 → Bool
  | _, [] => true
  | n, c :: p =>
    match n.child c.toNat with
    | none => false
    | some m => hasNode m p

theorem hasNode_of_countAt {s : σ} : ∀ {p : List UInt8} {n : PfxNode σ}, 0 < n.countAt p s →
    n.hasNode p = true := by
  intro p
  induction p with
  | nil => intros; rfl
  | cons c p ih => grind [countAt, hasNode]

theorem pfxRm_spec (s : σ) : ∀ (p : List UInt8) (n : PfxNode σ), n.WF →
    ∃ r n', n.pfxRm p s = .ok (r, n') ∧ n'.WF ∧
      (∀ q t, n'.countAt q t = if q = p ∧ t = s then n.countAt q t - 1 else n.countAt q t) ∧
      (r = true ↔ n.hasNode p = true ∧ ∀ t, n'.countAt p t = 0) := by
  intro p
  induction p with
  | nil =>
    intro n h
    obtain ⟨subs', emptied, hdrop, hok, hcount, -⟩ := dropSubscriber_spec h.shape.subscribers s
    refine ⟨subs'.isNone, _, by simp only [pfxRm, hdrop], h.setSubscribers hok, fun q t => ?_,
      by simpa [hasNode, countAt] using hok.isNone_iff⟩
    rw [countAt_setSubscribers, hcount]
    cases q with
    | nil => simp [countAt]
    | cons d q => simp
  | cons c p ih =>
    intro n h
    -- nothing to do where there is no subnode for the character
    have habsent : n.child c.toNat = none → ∀ q t,
        n.countAt q t = if q = c :: p ∧ t = s then n.countAt q t - 1 else n.countAt q t := by
      intro hnone q t
      split
      next hq =>
        rw [hq.1]
        simp [countAt, hnone]
      · rfl
    by_cases hout : n.count = 0 ∨ c.toNat < n.min ∨ n.min + n.count ≤ c.toNat
    · have hnone := h.shape.child_of_out (c := c.toNat) (by omega)
      exact ⟨false, n, by simp only [pfxRm, hout, if_true], h, habsent hnone,
        by simp [hasNode, hnone]⟩
    · have hslot := (h.shape.slot_eq (c := c.toNat) (by omega) (by omega)).1
      cases hchild : n.child c.toNat with
      | none => grind [pfxRm, hasNode]
      | some m0 =>
        rw [hchild] at hslot
        obtain ⟨r, m, hrm, hwf, hcount, hgone⟩ := ih m0 (h.child hchild)
        cases hred : m.pfxIsRedundant with
        | true =>
          -- the subnode is pruned; it holds no references any more
          have hclose := hwf.shape.pfxClose_of_redundant hred
          obtain ⟨n', hprune, hshape, hsubs, hch⟩ := h.shape.pruneSlot_spec hchild
          have hgone' : r = true ↔ n.hasNode (c :: p) = true ∧ ∀ t, n'.countAt (c :: p) t = 0 := by
            simp [hgone, hasNode, hchild, countAt_replace hsubs hch,
              hwf.shape.countAt_of_redundant hred]
          refine ⟨r, n', ?_, h.replace hshape hch (fun m' hm' => absurd hm' (by simp)), ?_, hgone'⟩
          · grind [pfxRm]
          · intro q t
            rw [countAt_replace hsubs hch]
            cases q with
            | nil => simp
            | cons d q =>
              by_cases hd : d = c
              · subst hd
                have := hcount q t
                rw [hwf.shape.countAt_of_redundant hred] at this
                simpa [countAt, hchild] using this
              · simp [hd]
        | false =>
          have hr := h.shape.reaches_self (c := c.toNat) (by omega) (by omega)
          obtain ⟨hshape, hsubs, hch⟩ := hr.shape_setSlot h.shape m n.liveNodes
            (by simp [hchild])
          rw [setSlot_withLiveNodes] at hshape hsubs
          simp only [setSlot_withLiveNodes] at hch
          refine ⟨r, _, by simp only [pfxRm, hout, if_false, hslot, hrm, hred,
            Bool.false_eq_true], h.replace hshape hch (fun m' hm' => ?_), ?_,
            by simp [hgone, hasNode, hchild, countAt_replace hsubs hch]⟩
          · grind
          · intro q t
            rw [countAt_replace hsubs hch]
            cases q with
            | nil => simp
            | cons d q =>
              by_cases hd : d = c
              · subst hd
                simp [hcount, countAt, hchild]
              · simp [hd]

/-! ## The match loops -/

def signalsAt : PfxNode σ → List UInt8 → List σ
  | n, [] => n.signals
  | n, c :: p =>
    match n.child c.toNat with
    | none => []
    | some m => signalsAt m p

theorem Shape.mem_signals (h : n.Shape) (s : σ) :
    s ∈ n.signals ↔ 0 < refCount n.subscribers s := by
  have hok := h.subscribers
  unfold signals refCount
  cases hs : n.subscribers with
  | none => simp
  | some m =>
    simp only [Std.TreeMap.mem_keys, Std.TreeMap.mem_iff_isSome_getElem?]
    cases hm : m[s]? with
    | none => simp
    | some k => simpa using hok.positive m s k hs hm

theorem nodup_signals (n : PfxNode σ) : n.signals.Nodup := by
  unfold signals
  split
  · exact List.nodup_nil
  · exact Std.TreeMap.nodup_keys

theorem nodup_signalsAt : ∀ (p : List UInt8) (n : PfxNode σ), (n.signalsAt p).Nodup := by
  intro p
  induction p with
  | nil => exact fun n => n.nodup_signals
  | cons c p ih => grind [signalsAt]

theorem WF.mem_signalsAt : ∀ (p : List UInt8) (n : PfxNode σ), n.WF → ∀ s,
    (s ∈ n.signalsAt p ↔ 0 < n.countAt p s) := by
  intro p
  induction p with
  | nil => exact fun n h s => h.shape.mem_signals s
  | cons c p ih =>
    intro n h s
    simp only [signalsAt, countAt]
    grind [h.child]

theorem Shape.pfMatch_cons (h : n.Shape) (c : UInt8) (d : List UInt8) : n.pfMatch (c :: d) =
      match n.child c.toNat with
      | none => .ok n.signals
      | some m =>
        match m.pfMatch d with
        | .error e => .error e
        | .ok rest => .ok (n.signals ++ rest) := by
  by_cases h0 : n.count = 0
  · simp [pfMatch, h0, h.child_of_count_zero h0]
  · by_cases h1 : n.count = 1
    · obtain ⟨x, hx⟩ := h.single h1
      by_cases hc : c.toNat = n.min
      · -- the single subnode exists, since the window is tight
        have hget := (h.slot_eq (c := c.toNat) (by omega) (by omega)).2
        rw [slots_single h1 hx, hc, Nat.sub_self] at hget
        simp only [List.getElem?_cons_zero, Option.some.injEq] at hget
        have hsome : x.isSome = true := h.tight.1 x (by rw [slots_single h1 hx]; rfl)
        obtain ⟨m, rfl⟩ := Option.isSome_iff_exists.1 hsome
        simp only [pfMatch, h1, hc, hx, ← hget, if_true, if_false, ne_eq, not_true_eq_false]
        rfl
      · have hout := h.child_of_out (c := c.toNat) (by omega)
        simp [pfMatch, h1, hc, hout]
    · obtain ⟨t, ht⟩ := h.table (by omega)
      by_cases hout : c.toNat < n.min ∨ n.min + n.count ≤ c.toNat
      · simp [pfMatch, h0, h1, hout, h.child_of_out hout]
      · have hget := (h.slot_eq (c := c.toNat) (by omega) (by omega)).2
        rw [slots_table (by omega) ht] at hget
        simp only [pfMatch, h0, h1, hout, if_false, ht, hget]
        cases n.child c.toNat <;> rfl

theorem WF.pfMatch_eq : ∀ (d : List UInt8) (n : PfxNode σ), n.WF →
    n.pfMatch d = .ok (d.inits.flatMap n.signalsAt) := by
  intro d
  induction d with
  | nil => intro n h; simp [pfMatch, signalsAt]
  | cons c d ih =>
    intro n h
    rw [h.shape.pfMatch_cons, List.inits_cons, List.flatMap_cons, List.flatMap_map]
    cases hc : n.child c.toNat with
    | none => simp [signalsAt, hc]
    | some m =>
      simp only [ih m (h.child hc), signalsAt, hc]

theorem Shape.sfMatch_cons (h : n.Shape) (c : UInt8) (d : List UInt8) : n.sfMatch (c :: d) =
      if n.subscribers.isSome then .ok true
      else
        match n.child c.toNat with
        | none => .ok false
        | some m => m.sfMatch d := by
  by_cases hs : n.subscribers.isSome = true
  · simp [sfMatch, hs]
  · by_cases hout : c.toNat < n.min ∨ n.min + n.count ≤ c.toNat
    · simp [sfMatch, hs, hout, h.child_of_out hout]
    · have hget := (h.slot_eq (c := c.toNat) (by omega) (by omega)).2
      by_cases h1 : n.count = 1
      · obtain ⟨x, hx⟩ := h.single h1
        have hc : c.toNat - n.min = 0 := by omega
        rw [slots_single h1 hx, hc] at hget
        simp only [List.getElem?_cons_zero, Option.some.injEq] at hget
        have hsome : x.isSome = true := h.tight.1 x (by rw [slots_single h1 hx]; rfl)
        obtain ⟨m, rfl⟩ := Option.isSome_iff_exists.1 hsome
        rw [sfMatch, if_neg hs, if_neg hs, if_neg hout, if_pos h1, hx, ← hget]
      · obtain ⟨t, ht⟩ := h.table (by omega)
        rw [slots_table (by omega) ht] at hget
        simp only [sfMatch, hs, hout, h1, if_false, ht, hget]
        cases n.child c.toNat <;> rfl

theorem WF.sfMatch_eq : ∀ (d : List UInt8) (n : PfxNode σ), n.WF →
    ∃ b, n.sfMatch d = .ok b ∧ (b = true ↔ ∃ p, p <+: d ∧ ∃ s, 0 < n.countAt p s) := by
  intro d
  induction d with
  | nil =>
    intro n h
    refine ⟨_, rfl, ?_⟩
    rw [h.shape.subscribers.isSome_iff]
    simp [countAt]
  | cons c d ih =>
    intro n h
    rw [h.shape.sfMatch_cons]
    by_cases hs : n.subscribers.isSome = true
    · rw [if_pos hs]
      refine ⟨true, rfl, ?_⟩
      simp only [true_iff]
      exact ⟨[], List.nil_prefix, h.shape.subscribers.isSome_iff.1 hs⟩
    · rw [if_neg hs]
      have hroot : ¬ ∃ s, 0 < n.countAt [] s := fun he =>
        hs (h.shape.subscribers.isSome_iff.2 he)
      -- a prefix with a subscriber has to go through the subnode
      have hiff : (∃ p, p <+: c :: d ∧ ∃ s, 0 < n.countAt p s) ↔
          ∃ p, p <+: d ∧ ∃ s, 0 < n.countAt (c :: p) s := by
        constructor
        · rintro ⟨p, hp, hsp⟩
          cases p with
          | nil => exact absurd hsp hroot
          | cons a p => grind
        · grind
      rw [hiff]
      cases hc : n.child c.toNat with
      | none => exact ⟨false, rfl, by simp [countAt, hc]⟩
      | some m =>
        obtain ⟨b, hb, hiffb⟩ := ih m (h.child hc)
        exact ⟨b, hb, by simpa [countAt, hc] using hiffb⟩

end PfxNode

/-! ## The reference-counted set -/

abbrev Counts (σ : Type) : Type := List UInt8 → σ → Nat

namespace Counts

def exec (f : Counts σ) : SubOp σ → Counts σ
  | .subscribe data s => fun p t => if p = data ∧ t = s then f p t + 1 else f p t
  | .unsubscribe data s => fun p t => if p = data ∧ t = s then f p t - 1 else f p t

def Fits (f : Counts σ) : Prop := ∀ p s, f p s < 2 ^ 31

def after (ops : List (SubOp σ)) : Counts σ := ops.foldl exec (fun _ _ => 0)

end Counts

def PfxNode.Refines (t : PfxNode σ) (f : Counts σ) : Prop :=
  t.WF ∧ ∀ p s, t.countAt p s = f p s

theorem PfxNode.Refines.exec {t : PfxNode σ} {f : Counts σ} (h : t.Refines f) (op : SubOp σ)
    (hb : ∀ p s, f.exec op p s < 2 ^ 31) : ∃ t', t.exec op = .ok t' ∧ t'.Refines (f.exec op) := by
  obtain ⟨hwf, hcount⟩ := h
  cases op with
  | subscribe data s =>
    have hbound : t.countAt data s + 1 < 2 ^ 31 := by
      have := hb data s
      simpa [Counts.exec, hcount] using this
    obtain ⟨r, t', hadd, hwf', -, hcount', -⟩ := PfxNode.pfxAdd_spec s data t hwf hbound
    refine ⟨t', by simp only [PfxNode.exec, hadd], hwf', fun p u => ?_⟩
    rw [hcount', hcount, Counts.exec]
  | unsubscribe data s =>
    obtain ⟨r, t', hrm, hwf', hcount', -⟩ := PfxNode.pfxRm_spec s data t hwf
    refine ⟨t', by simp only [PfxNode.exec, hrm], hwf', fun p u => ?_⟩
    rw [hcount', hcount, Counts.exec]

theorem PfxNode.refines_after {ops : List (SubOp σ)}
    (hb : ∀ pre, pre <+: ops → ∀ p s, Counts.after pre p s < 2 ^ 31) :
    ∃ t, run PfxNode.exec PfxNode.pfxInit ops = .ok t ∧ t.Refines (Counts.after ops) :=
  run_refines (fun _ f op h (_ : True) (hf : (f.exec op).Fits) => h.exec op hf) ops _ _
    ⟨PfxNode.wf_pfxInit, PfxNode.countAt_pfxInit⟩ (fun _ _ => trivial) hb

/-! ## Publisher and subscriber side -/

namespace SubOp

def subscriber : SubOp σ → σ
  | .subscribe _ s => s
  | .unsubscribe _ s => s

def withSubscriber (null : σ) : SubOp σ → SubOp σ
  | .subscribe data _ => .subscribe data null
  | .unsubscribe data _ => .unsubscribe data null

def ownSide (s null : σ) (ops : List (SubOp σ)) : List (SubOp σ) :=
  ops.filterMap fun op => if op.subscriber = s then some (op.withSubscriber null) else none

end SubOp

theorem Counts.foldl_ownSide (s null : σ) : ∀ (ops : List (SubOp σ)) (f g : Counts σ),
    (∀ p u, g p u = if u = null then f p s else 0) → ∀ p u,
    (SubOp.ownSide s null ops).foldl Counts.exec g p u =
      if u = null then ops.foldl Counts.exec f p s else 0 := by
  intro ops
  induction ops with
  | nil => exact fun f g hg => hg
  | cons op ops ih =>
    intro f g hg
    unfold SubOp.ownSide
    rw [List.filterMap_cons]
    by_cases hop : op.subscriber = s
    · rw [if_pos hop]
      refine ih (f.exec op) (g.exec (op.withSubscriber null)) fun p u => ?_
      cases op with
      | subscribe data s' => grind [SubOp.subscriber, Counts.exec, SubOp.withSubscriber]
      | unsubscribe data s' => grind [SubOp.subscriber, Counts.exec, SubOp.withSubscriber]
    · rw [if_neg hop]
      refine ih (f.exec op) g fun p u => ?_
      rw [hg]
      cases op with
      | subscribe data s' =>
        have hne : ¬ s = s' := fun he => hop he.symm
        simp [Counts.exec, hne]
      | unsubscribe data s' =>
        have hne : ¬ s = s' := fun he => hop he.symm
        simp [Counts.exec, hne]

theorem Counts.after_ownSide (s null : σ) (ops : List (SubOp σ)) (p : List UInt8) (u : σ) :
    Counts.after (SubOp.ownSide s null ops) p u = if u = null then Counts.after ops p s else 0 :=
  Counts.foldl_ownSide s null ops _ _ (fun _ _ => by simp) p u

theorem Counts.foldl_of_subscriber {null : σ} : ∀ (ops : List (SubOp σ)) (f : Counts σ),
    (∀ op ∈ ops, op.subscriber = null) → (∀ p u, u ≠ null → f p u = 0) →
    ∀ p u, u ≠ null → ops.foldl Counts.exec f p u = 0 := by
  intro ops
  induction ops with
  | nil => exact fun f _ hf => hf
  | cons op ops ih =>
    intro f hops hf
    refine ih (f.exec op) (fun o ho => hops o (List.mem_cons_of_mem _ ho)) fun p u hu => ?_
    have hop := hops op (List.mem_cons_self ..)
    cases op with
    | subscribe data s =>
      simp only [SubOp.subscriber] at hop
      subst hop
      simp [Counts.exec, hu, hf p u hu]
    | unsubscribe data s =>
      simp only [SubOp.subscriber] at hop
      subst hop
      simp [Counts.exec, hu, hf p u hu]

theorem Counts.foldl_le : ∀ (ops : List (SubOp σ)) (f : Counts σ) (k : Nat), (∀ p s, f p s ≤ k) →
    ∀ p s, ops.foldl Counts.exec f p s ≤ k + ops.length := by
  intro ops
  induction ops with
  | nil => exact fun f k hf => hf
  | cons op ops ih =>
    intro f k hf p s
    have hstep : ∀ q u, f.exec op q u ≤ k + 1 := by
      intro q u
      have := hf q u
      cases op <;> simp only [Counts.exec] <;> split <;> omega
    have := ih (f.exec op) (k + 1) hstep p s
    simp only [List.foldl_cons, List.length_cons]
    omega

theorem prefix_trie_refines_counts (ops : List (SubOp σ))
    (hbound : ∀ pre, pre <+: ops → ∀ p s, Counts.after pre p s < 2 ^ 31) :
    ∃ t, run PfxNode.exec PfxNode.pfxInit ops = .ok t ∧
      (∃ f : List UInt8 → List σ,
        (∀ p, (f p).Nodup ∧ ∀ s, s ∈ f p ↔ 0 < Counts.after ops p s) ∧
        ∀ d, t.pfMatch d = .ok (d.inits.flatMap f)) ∧
      (∀ null, (∀ op ∈ ops, op.subscriber = null) → ∀ d, ∃ b, t.sfMatch d = .ok b ∧
        (b = true ↔ ∃ p, p <+: d ∧ 0 < Counts.after ops p null)) ∧
      ∀ s null, ∃ u, run PfxNode.exec PfxNode.pfxInit (SubOp.ownSide s null ops) = .ok u ∧
        ∀ d, ∃ signalled b, t.pfMatch d = .ok signalled ∧ u.sfMatch d = .ok b ∧
          (b = true ↔ s ∈ signalled) := by
  obtain ⟨t, hrun, hwf, hcount⟩ := PfxNode.refines_after hbound
  refine ⟨t, hrun, ⟨t.signalsAt, fun p => ⟨t.nodup_signalsAt p, fun s => ?_⟩,
    fun d => hwf.pfMatch_eq d t⟩, ?_, ?_⟩
  · rw [hwf.mem_signalsAt p t s, hcount]
  · intro null hnull d
    obtain ⟨b, hb, hiff⟩ := hwf.sfMatch_eq d t
    refine ⟨b, hb, hiff.trans ?_⟩
    constructor
    · rintro ⟨p, hp, s, hs⟩
      rw [hcount] at hs
      by_cases hsn : s = null
      · exact ⟨p, hp, hsn ▸ hs⟩
      · rw [Counts.after, Counts.foldl_of_subscriber ops _ hnull (fun _ _ _ => rfl) p s hsn] at hs
        cases hs
    · grind
  · intro s null
    have hown : ∀ pre, pre <+: SubOp.ownSide s null ops → ∀ p v,
        Counts.after pre p v < 2 ^ 31 := by
      intro pre hpre p v
      obtain ⟨pre', hpre', rfl⟩ := List.prefix_filterMap_iff.1 hpre
      have := hbound pre' hpre' p s
      have hown := Counts.after_ownSide s null pre' p v
      rw [SubOp.ownSide] at hown
      rw [hown]
      split <;> omega
    obtain ⟨u, hrunu, hwfu, hcountu⟩ := PfxNode.refines_after hown
    refine ⟨u, hrunu, fun d => ?_⟩
    obtain ⟨b, hb, hiff⟩ := hwfu.sfMatch_eq d u
    refine ⟨_, b, hwf.pfMatch_eq d t, hb, hiff.trans ?_⟩
    simp only [List.mem_flatMap, List.mem_inits]
    constructor
    · grind [Counts.after_ownSide, hwf.mem_signalsAt]
    · rintro ⟨p, hp, hs⟩
      rw [hwf.mem_signalsAt p t s, hcount] at hs
      exact ⟨p, hp, null, by rw [hcountu, Counts.after_ownSide, if_pos rfl]; exact hs⟩

def twoSubscribers : List (SubOp Nat) :=
  [.subscribe [97] 1, .subscribe [97, 98] 2, .subscribe [99] 2, .unsubscribe [99] 2,
    .subscribe [] 2]

theorem twoSubscribers_refines :
    ∃ t, run PfxNode.exec PfxNode.pfxInit twoSubscribers = .ok t ∧
      ∃ f : List UInt8 → List Nat, ∀ d, t.pfMatch d = .ok (d.inits.flatMap f) := by
  have hbound : ∀ pre, pre <+: twoSubscribers → ∀ p s, Counts.after pre p s < 2 ^ 31 := by
    intro pre hpre p s
    have h := Counts.foldl_le pre (fun _ _ => 0) 0 (fun _ _ => Nat.le_refl 0) p s
    have hpl := hpre.length_le
    simp only [twoSubscribers, List.length_cons, List.length_nil] at hpl
    have hafter : Counts.after pre p s ≤ 0 + pre.length := h
    omega
  obtain ⟨t, hrun, ⟨f, -, hmatch⟩, -⟩ := prefix_trie_refines_counts twoSubscribers hbound
  exact ⟨t, hrun, f, hmatch⟩

end Libxs
