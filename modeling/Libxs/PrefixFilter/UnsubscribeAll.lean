import Libxs.PrefixFilter.Refinement

/-! # Removing a subscriber everywhere -/

namespace Libxs

variable {σ : Type} [LinearOrder σ]

namespace PfxNode

variable {calls : List (List UInt8)} {table : List (Option (PfxNode σ))} {buff p : List UInt8}
variable {X : List UInt8 → Prop} {m max' min' newMax newMin start : Nat} {n : PfxNode σ} {c : UInt8}
variable {s : σ}

/-! ## The buffer -/

structure Holds (buff : List UInt8) (p : List UInt8) (maxbuffsize : Nat) : Prop where
  length_le : p.length ≤ buff.length
  take_eq : buff.take p.length = p
  max_le : maxbuffsize ≤ buff.length

theorem Holds.mono {m' : Nat} (h : Holds buff p m) (hm : m' ≤ m) : Holds buff p m' :=
  ⟨h.length_le, h.take_eq, Nat.le_trans hm h.max_le⟩

theorem Holds.of_concat (h : Holds buff (p ++ [c]) m) : Holds buff p m := by
  obtain ⟨hle, htake, hmax⟩ := h
  simp only [List.length_append, List.length_singleton] at hle htake
  refine ⟨by omega, ?_, hmax⟩
  have := congrArg (List.take p.length) htake
  simpa [List.take_take] using this

theorem Holds.grow (h : Holds buff p m) : let grow := decide (m ≤ p.length)
    let buff' := if grow then realloc buff (p.length + 256) else buff
    let m' := if grow then p.length + 256 else m
    Holds buff' p m' ∧ p.length < m' ∧ m ≤ m' := by
  obtain ⟨hle, htake, hmax⟩ := h
  by_cases hg : m ≤ p.length
  · simp only [hg, decide_true, if_true]
    refine ⟨⟨?_, ?_, ?_⟩, by omega, by omega⟩
    · simp [realloc]
      omega
    · grind [realloc]
    · simp [realloc]
      omega
  · simp only [hg, decide_false, Bool.false_eq_true, if_false]
    exact ⟨⟨hle, htake, hmax⟩, by omega, Nat.le_refl _⟩

theorem Holds.setByte (h : Holds buff p m) (hm : p.length < m) (b : Nat) :
    ∃ buff', setByte buff p.length b = .ok buff' ∧ Holds buff' (p ++ [UInt8.ofNat b]) m := by
  obtain ⟨hle, htake, hmax⟩ := h
  refine ⟨buff.set p.length (UInt8.ofNat b), if_pos (by omega), ⟨?_, ?_, ?_⟩⟩
  · simp
    omega
  · rw [List.length_append, List.length_singleton, List.take_add_one,
      List.getElem?_set_self (by omega)]
    congr 1
    rw [List.take_set_of_le (Nat.le_refl _), htake]
  · simpa using hmax

/-! ## The calls of `xs_filter_unsubscribed` -/

structure CallsFor (p : List UInt8) (X : List UInt8 → Prop) (calls : List (List UInt8)) : Prop where
  nodup : calls.Nodup
  mem_iff : ∀ x, x ∈ calls ↔ ∃ q, x = p ++ q ∧ X q

theorem CallsFor.congr {Y : List UInt8 → Prop}
    (h : CallsFor p X calls) (hXY : ∀ q, X q ↔ Y q) : CallsFor p Y calls :=
  ⟨h.nodup, fun x => by simp only [h.mem_iff, hXY]⟩

theorem callsFor_nil (h : ∀ q, ¬ X q) : CallsFor p X [] :=
  ⟨List.nodup_nil, fun x => by simp [h]⟩

theorem CallsFor.append {Y : List UInt8 → Prop} {a b : List (List UInt8)}
    (ha : CallsFor p X a) (hb : CallsFor p Y b) (hdisj : ∀ q, X q → ¬ Y q) :
    CallsFor p (fun q => X q ∨ Y q) (a ++ b) := by
  refine ⟨List.nodup_append.2 ⟨ha.nodup, hb.nodup, ?_⟩, fun x => ?_⟩
  · grind [ha.mem_iff, hb.mem_iff, List.append_cancel_left]
  · grind [ha.mem_iff, hb.mem_iff]

theorem CallsFor.of_concat (h : CallsFor (p ++ [c]) X calls) :
    CallsFor p (fun q => ∃ q', q = c :: q' ∧ X q') calls := by
  refine ⟨h.nodup, fun x => ?_⟩
  rw [h.mem_iff]
  grind

/-! ## What the walk should do -/

def Lowered (s : σ) (n n' : PfxNode σ) : Prop :=
  ∀ q t, n'.countAt q t = if t = s then n.countAt q t - 1 else n.countAt q t

def Loses (s : σ) (n : PfxNode σ) (q : List UInt8) : Prop :=
  (∃ t, 0 < n.countAt q t) ∧
    ∀ t, (if t = s then n.countAt q t - 1 else n.countAt q t) = 0

def Swept (s : σ) (x y : Option (PfxNode σ)) : Prop :=
  (x = none ∧ y = none) ∨
    ∃ m m', x = some m ∧ m'.WF ∧ Lowered s m m' ∧ y = if m'.pfxIsRedundant then none else some m'

def RmAllSpec (s : σ) (n : PfxNode σ) : Prop :=
  ∀ p buff maxbuffsize, Holds buff p maxbuffsize →
    ∃ n' buff' calls, n.pfxRmAll s buff p.length maxbuffsize = .ok (n', buff', calls) ∧
      n'.WF ∧ Lowered s n n' ∧ Holds buff' p maxbuffsize ∧ CallsFor p (Loses s n) calls

theorem loses_cons_iff (s : σ) (n : PfxNode σ) (c : UInt8) (q : List UInt8) :
    Loses s n (c :: q) ↔ ∃ m, n.child c.toNat = some m ∧ Loses s m q := by
  unfold Loses
  simp only [countAt]
  cases n.child c.toNat <;> simp

theorem WF.swept {n' : PfxNode σ} (hshape : n'.Shape) (hsubs : ∀ t, refCount n'.subscribers t =
      if t = s then refCount n.subscribers t - 1 else refCount n.subscribers t)
    (hchild : ∀ d, Swept s (n.child d) (n'.child d)) : n'.WF ∧ Lowered s n n' := by
  refine ⟨.intro hshape (fun d m hm => ?_) (fun d m hm => ?_), fun q t => ?_⟩
  · rcases hchild d with ⟨-, hnone⟩ | ⟨m0, m', -, hwf, -, hy⟩
    · rw [hnone] at hm
      cases hm
    · grind
  · rcases hchild d with ⟨-, hnone⟩ | ⟨m0, m', -, -, -, hy⟩
    · rw [hnone] at hm
      cases hm
    · grind
  · cases q with
    | nil => exact hsubs t
    | cons d q =>
      simp only [countAt]
      rcases hchild d.toNat with ⟨hx, hy⟩ | ⟨m0, m', hx, hwf, hlow, hy⟩
      · simp [hx, hy]
      · rw [hx, hy]
        cases hred : m'.pfxIsRedundant with
        | true =>
          -- a pruned subnode held nothing any more
          have := hlow q t
          rw [hwf.shape.countAt_of_redundant hred] at this
          simpa using this
        | false => simpa using hlow q t

/-! ## The loop over a table -/

structure Marks (table : List (Option (PfxNode σ))) (start newMin newMax min' max' : Nat) : Prop where
  min_le : min' ≤ newMin
  min_le_live : ∀ i m, table[i]? = some (some m) → min' ≤ start + i
  min_mem : min' = newMin ∨ ∃ i m, table[i]? = some (some m) ∧ min' = start + i
  max_ge : newMax ≤ max'
  max_ge_live : ∀ i m, table[i]? = some (some m) → start + i ≤ max'
  max_mem : max' = newMax ∨ ∃ i m, table[i]? = some (some m) ∧ max' = start + i

theorem marks_nil (start newMin newMax : Nat) :
    Marks ([] : List (Option (PfxNode σ))) start newMin newMax newMin newMax :=
  ⟨Nat.le_refl _, fun i m h => absurd h (by simp), Or.inl rfl, Nat.le_refl _,
    fun i m h => absurd h (by simp), Or.inl rfl⟩

theorem Marks.cons_none (h : Marks table (start + 1) newMin newMax min' max') :
    Marks (none :: table) start newMin newMax min' max' := by
  obtain ⟨h1, h2, h3, h4, h5, h6⟩ := h
  refine ⟨h1, fun i m hi => ?_, h3.imp_right fun ⟨i, m, hi, he⟩ => ⟨i + 1, m, hi, by omega⟩, h4,
    fun i m hi => ?_, h6.imp_right fun ⟨i, m, hi, he⟩ => ⟨i + 1, m, hi, by omega⟩⟩
  · cases i with
    | zero => simp at hi
    | succ i =>
      have := h2 i m (by simpa using hi)
      omega
  · cases i with
    | zero => simp at hi
    | succ i =>
      have := h5 i m (by simpa using hi)
      omega

theorem Marks.cons_some (h : Marks table (start + 1) (if start < newMin then start else newMin)
      (if start > newMax then start else newMax) min' max') (m0 : PfxNode σ) :
    Marks (some m0 :: table) start newMin newMax min' max' := by
  obtain ⟨h1, h2, h3, h4, h5, h6⟩ := h
  refine ⟨by split at h1 <;> omega, fun i m hi => ?_, ?_, by split at h4 <;> omega, fun i m hi => ?_, ?_⟩
  · cases i with
    | zero => split at h1 <;> omega
    | succ i =>
      have := h2 i m (by simpa using hi)
      omega
  · rcases h3 with h3 | ⟨i, m, hi, he⟩
    · split at h3
      · exact Or.inr ⟨0, m0, rfl, by omega⟩
      · exact Or.inl h3
    · grind
  · cases i with
    | zero => split at h4 <;> omega
    | succ i =>
      have := h5 i m (by simpa using hi)
      omega
  · rcases h6 with h6 | ⟨i, m, hi, he⟩
    · split at h6
      · exact Or.inr ⟨0, m0, rfl, by omega⟩
      · exact Or.inl h6
    · exact Or.inr ⟨i + 1, m, by simpa using hi, by omega⟩

def LosesBelow (s : σ) (slots : List (Option (PfxNode σ))) (start : Nat) (q : List UInt8) : Prop :=
  ∃ i m q', slots[i]? = some (some m) ∧ q = UInt8.ofNat (start + i) :: q' ∧ Loses s m q'

theorem losesBelow_cons_iff (s : σ) (x : Option (PfxNode σ)) (slots : List (Option (PfxNode σ)))
    (start : Nat) (q : List UInt8) :
    LosesBelow s (x :: slots) start q ↔
      (∃ m q', x = some m ∧ q = UInt8.ofNat start :: q' ∧ Loses s m q') ∨
        LosesBelow s slots (start + 1) q := by
  constructor
  · rintro ⟨i, m, q', hi, hq, hl⟩
    cases i with
    | zero => grind
    | succ i =>
      refine Or.inr ⟨i, m, q', by simpa using hi, ?_, hl⟩
      rw [hq, Nat.add_right_comm, Nat.add_assoc]
  · rintro (⟨m, q', hx, hq, hl⟩ | ⟨i, m, q', hi, hq, hl⟩)
    · exact ⟨0, m, q', by simp [hx], by simpa using hq, hl⟩
    · refine ⟨i + 1, m, q', by simpa using hi, ?_, hl⟩
      rw [hq, Nat.add_right_comm, Nat.add_assoc]

theorem ofNat_ne {a b : Nat} (ha : a < 256) (hb : b < 256) (hab : a ≠ b) :
    UInt8.ofNat a ≠ UInt8.ofNat b := by
  intro h
  have := congrArg UInt8.toNat h
  rw [UInt8.toNat_ofNat', UInt8.toNat_ofNat', Nat.mod_eq_of_lt ha, Nat.mod_eq_of_lt hb] at this
  exact hab this

theorem rmAllTable_spec (s : σ) (p : List UInt8) (min maxbuffsize : Nat)
    (hmax : p.length < maxbuffsize) : ∀ (slots : List (Option (PfxNode σ))) (c : Nat),
    (∀ m, some m ∈ slots → RmAllSpec s m) → min + c + slots.length ≤ 256 →
    ∀ (buff : List UInt8) (live newMin newMax : Nat), Holds buff p maxbuffsize →
    Window.live slots ≤ live → newMin < 256 → newMax < 256 →
    ∃ w, pfxRmAllTable slots s min c buff p.length maxbuffsize live newMin newMax = .ok w ∧
      w.table.length = slots.length ∧
      (∀ (i : Nat) x, slots[i]? = some x → ∃ y, w.table[i]? = some y ∧ Swept s x y) ∧
      w.liveNodes + Window.live slots = live + Window.live w.table ∧
      Marks w.table (min + c) newMin newMax w.newMin w.newMax ∧
      Holds w.buff p maxbuffsize ∧ CallsFor p (LosesBelow s slots (min + c)) w.calls := by
  intro slots
  induction slots with
  | nil =>
    intro c _ _ buff live newMin newMax hb _ _ _
    refine ⟨_, rfl, rfl, fun i x hi => absurd hi (by simp), rfl, marks_nil _ _ _, hb,
      callsFor_nil fun q => ?_⟩
    rintro ⟨i, m, q', hi, -⟩
    cases hi
  | cons x slots ih =>
    intro c hspec hrange buff live newMin newMax hb hlive hmin hmax'
    simp only [List.length_cons] at hrange
    obtain ⟨buff1, hset, hb1⟩ := hb.setByte hmax (min + c)
    cases x with
    | none =>
      obtain ⟨w, hw, hlen, hsw, hl, hmarks, hbw, hcalls⟩ := ih (c + 1)
        (fun m hm => hspec m (List.mem_cons_of_mem _ hm)) (by omega) buff1 live newMin newMax
        hb1.of_concat (by simpa [Window.live] using hlive) hmin hmax'
      refine ⟨{ w with table := none :: w.table }, by simp only [pfxRmAllTable, hset, hw],
        by simp [hlen], ?_, ?_, hmarks.cons_none, hbw, hcalls.congr fun q => ?_⟩
      · intro i x hi
        cases i with
        | zero =>
          simp only [List.getElem?_cons_zero, Option.some.injEq] at hi
          exact ⟨none, rfl, Or.inl ⟨hi.symm, rfl⟩⟩
        | succ i => exact hsw i x (by simpa using hi)
      · simpa [Window.live] using hl
      · rw [losesBelow_cons_iff]
        simp [Nat.add_assoc]
    | some m =>
      obtain ⟨m', buff2, calls, hrm, hwf, hlow, hb2, hcallsm⟩ :=
        hspec m (List.mem_cons_self ..) (p ++ [UInt8.ofNat (min + c)]) buff1 maxbuffsize hb1
      simp only [List.length_append, List.length_singleton] at hrm
      have hlive' : Window.live slots + 1 ≤ live := by
        simpa [Window.live, List.countP_cons] using hlive
      -- the calls below this slot and the calls below the later ones
      have hsplit : ∀ {rest : List (List UInt8)},
          CallsFor p (LosesBelow s slots (min + (c + 1))) rest →
          CallsFor p (LosesBelow s (some m :: slots) (min + c)) (calls ++ rest) := by
        intro rest hrest
        refine (hcallsm.of_concat.append hrest ?_).congr fun q => ?_
        · rintro q ⟨q', rfl, -⟩ ⟨i, m2, q2, hi, hq, -⟩
          simp only [List.cons.injEq] at hq
          have hil := (List.getElem?_eq_some_iff.1 hi).1
          exact ofNat_ne (by omega) (by omega) (by omega) hq.1
        · rw [losesBelow_cons_iff]
          simp [Nat.add_assoc]
      cases hred : m'.pfxIsRedundant with
      | true =>
        have hclose := hwf.shape.pfxClose_of_redundant hred
        obtain ⟨w, hw, hlen, hsw, hl, hmarks, hbw, hcalls⟩ := ih (c + 1)
          (fun m hm => hspec m (List.mem_cons_of_mem _ hm)) (by omega) buff2 (live - 1) newMin
          newMax hb2.of_concat (by omega) hmin hmax'
        have hpos : 0 < live := by omega
        refine ⟨{ w with table := none :: w.table, calls := calls ++ w.calls },
          by simp only [pfxRmAllTable, hset, hrm, hred, if_true, hclose, hpos, hw],
          by simp [hlen], ?_, ?_, hmarks.cons_none, hbw, hsplit hcalls⟩
        · intro i x hi
          cases i with
          | zero =>
            simp only [List.getElem?_cons_zero, Option.some.injEq] at hi
            exact ⟨none, rfl, Or.inr ⟨m, m', hi.symm, hwf, hlow, by simp [hred]⟩⟩
          | succ i => exact hsw i x (by simpa using hi)
        · grind [Window.live]
      | false =>
        have hmod : (c + min) % 2 ^ 8 = c + min := Nat.mod_eq_of_lt (by omega)
        obtain ⟨w, hw, hlen, hsw, hl, hmarks, hbw, hcalls⟩ := ih (c + 1)
          (fun m hm => hspec m (List.mem_cons_of_mem _ hm)) (by omega) buff2 live
          (if c + min < newMin then c + min else newMin)
          (if c + min > newMax then c + min else newMax) hb2.of_concat (by omega)
          (by split <;> omega) (by split <;> omega)
        refine ⟨{ w with table := some m' :: w.table, calls := calls ++ w.calls },
          by simp only [pfxRmAllTable, hset, hrm, hred, Bool.false_eq_true, if_false, hmod, hw],
          by simp [hlen], ?_, ?_, ?_, hbw, hsplit hcalls⟩
        · intro i x hi
          cases i with
          | zero =>
            simp only [List.getElem?_cons_zero, Option.some.injEq] at hi
            exact ⟨some m', rfl, Or.inr ⟨m, m', hi.symm, hwf, hlow, by simp [hred]⟩⟩
          | succ i => exact hsw i x (by simpa using hi)
        · grind [Window.live]
        · rw [Nat.add_comm c min] at hmarks
          exact hmarks.cons_some m'

/-! ## Compacting the table -/

theorem Marks.ends {min a b : Nat} (h : Marks table min (min + table.length - 1) min min' max')
    (hsp : Window.Spans table a b) : min' = min + a ∧ max' = min + b := by
  have hle := hsp.le
  have hlt := hsp.lt_length
  obtain ⟨v, hv⟩ := hsp.first
  obtain ⟨u, hu⟩ := hsp.last
  have h1 := h.min_le_live a v hv
  have h2 := h.max_ge_live b u hu
  constructor
  · rcases h.min_mem with hm | ⟨k, m, hk, hm⟩
    · omega
    · have := hsp.mem_range hk
      omega
  · rcases h.max_mem with hm | ⟨k, m, hk, hm⟩
    · omega
    · have := hsp.mem_range hk
      omega

theorem compact_spec {w : TableSweep σ} (h2 : 2 ≤ n.count)
    (hrange : n.min + n.count ≤ 256) (hlen : w.table.length = n.count)
    (hlive : w.liveNodes = Window.live w.table)
    (hmarks : Marks w.table n.min (n.min + n.count - 1) n.min w.newMin w.newMax) :
    ∃ n', n.compact w = .ok n' ∧ n'.Fits ∧ Window.Tight n'.slots ∧
      n'.subscribers = n.subscribers ∧ ∀ d, n'.child d = Window.look n.min w.table d := by
  unfold compact
  split
  next h0 =>
    -- no subnode is left
    refine ⟨_, rfl, ⟨rfl, nofun, nofun, ?_, rfl⟩, Window.tight_nil, rfl, fun d => ?_⟩
    · simp only
      omega
    · have hnone := Window.live_eq_zero_iff.1 (hlive.symm.trans h0)
      change Window.look n.min [] d = _
      simp only [Window.look, hnone]
      split <;> rfl
  next h0 =>
    obtain ⟨a, b, hsp⟩ := Window.exists_spans (show Window.live w.table ≠ 0 by omega)
    have hle := hsp.le
    have hlt := hsp.lt_length
    have hone := hsp.live_eq_one_iff
    rw [← hlen] at hmarks
    obtain ⟨hmin, hmax⟩ := hmarks.ends hsp
    have hnode : ∀ n' : PfxNode σ, n'.subscribers = n.subscribers → n'.min = n.min + a →
        n'.count = b + 1 - a → n'.liveNodes = Window.live w.table →
        (n'.next = if a = b then .node w.table[a]?.join else .table (Window.cut w.table a b)) →
        n'.Fits ∧ Window.Tight n'.slots ∧ n'.subscribers = n.subscribers ∧
          ∀ d, n'.child d = Window.look n.min w.table d := fun n' hsubs hm hc hl hn => by
      obtain ⟨hfits, htight, hchild⟩ := fits_of_spans hsp (by omega) hm hc hl hn
      exact ⟨hfits, htight, hsubs, hchild⟩
    split
    next h1 =>
      -- only one live node
      obtain ⟨v, hv⟩ := hsp.first
      rw [if_pos (by omega), hmin, Nat.add_sub_cancel_left, hv]
      refine ⟨_, rfl, hnode _ rfl rfl (by simp only; omega) (by simp only; omega) ?_⟩
      rw [if_pos (by omega), hv]
      rfl
    next h1 =>
      have hab : a ≠ b := by omega
      split
      next hends =>
        have hcnt : (n.min + b - (n.min + a) + 1) % 2 ^ 16 = b + 1 - a := by omega
        rw [if_pos (by omega), hmin, hmax, Nat.add_sub_cancel_left]
        simp only [hcnt]
        exact ⟨_, rfl, hnode _ rfl rfl rfl hlive (if_neg hab).symm⟩
      next hends =>
        -- both ends of the table are live
        refine ⟨_, rfl, hnode _ rfl (by simp only; omega) (by simp only; omega) hlive ?_⟩
        obtain rfl : a = 0 := by omega
        rw [if_neg hab, Window.cut, List.drop_zero, List.take_of_length_le (by omega)]

/-! ## The walk -/

theorem Shape.callsFor_self (h : n.Shape) {subs' : Option (Subscribers σ)}
    {emptied : Bool} (hok : SubscribersOk subs')
    (hcount : ∀ t, refCount subs' t =
      if t = s then refCount n.subscribers t - 1 else refCount n.subscribers t)
    (hemptied : emptied = true ↔ n.subscribers.isSome = true ∧ subs'.isNone = true)
    (hb : Holds buff p m) :
    ∃ calls, unsubscribed emptied buff p.length = .ok calls ∧
      CallsFor p (fun q => q = [] ∧ Loses s n []) calls := by
  have hiff : emptied = true ↔ Loses s n [] := by
    rw [hemptied, h.subscribers.isSome_iff]
    refine and_congr Iff.rfl ?_
    have hnone : subs'.isNone = true ↔ ¬ ∃ t, 0 < refCount subs' t := by
      rw [← hok.isSome_iff]
      cases subs' <;> simp
    rw [hnone]
    simp only [not_exists, Nat.not_lt, Nat.le_zero, hcount, countAt]
  unfold unsubscribed
  by_cases he : emptied = true
  · rw [if_pos he, if_pos hb.length_le, hb.take_eq]
    refine ⟨[p], rfl, by simp, fun x => ?_⟩
    simp [hiff.1 he]
  · rw [if_neg he]
    exact ⟨[], rfl, callsFor_nil fun q hq => he (hiff.2 hq.2)⟩

theorem Fits.callsFor_node (h : n.Fits)
    {calls' : List (List UInt8)} (h0 : CallsFor p (fun q => q = [] ∧ Loses s n []) calls)
    (h1 : CallsFor p (LosesBelow s n.slots n.min) calls') :
    CallsFor p (Loses s n) (calls ++ calls') := by
  refine (h0.append h1 ?_).congr fun q => ?_
  · rintro q ⟨rfl, -⟩ ⟨i, m, q', -, hq, -⟩
    cases hq
  · cases q with
    | nil =>
      simp only [true_and]
      refine ⟨fun hq => hq.elim id ?_, Or.inl⟩
      rintro ⟨i, m, q', -, hq, -⟩
      cases hq
    | cons c q =>
      rw [loses_cons_iff]
      constructor
      · rintro (⟨hq, -⟩ | ⟨i, m, q', hi, hq, hl⟩)
        · cases hq
        · simp only [List.cons.injEq] at hq
          obtain ⟨rfl, rfl⟩ := hq
          have hil := (List.getElem?_eq_some_iff.1 hi).1
          have hrange := h.range
          have hlen := h.count_eq
          refine ⟨m, ?_, hl⟩
          rw [UInt8.toNat_ofNat', Nat.mod_eq_of_lt (by omega), child, Window.look_add, hi]
          rfl
      · rintro ⟨m, hm, hl⟩
        obtain ⟨hle, -, hget⟩ := Window.look_eq_some hm
        refine Or.inr ⟨c.toNat - n.min, m, q, hget, ?_, hl⟩
        rw [Nat.add_sub_cancel' hle, UInt8.ofNat_toNat]

theorem Shape.rmAllSpec_leaf (shape : n.Shape) (s : σ) (h0 : n.count = 0) : RmAllSpec s n := by
  intro p buff maxbuffsize hb
  obtain ⟨subs', emptied, hdrop, hok, hcount, hemptied⟩ := dropSubscriber_spec shape.subscribers s
  obtain ⟨calls, hcalls, hself⟩ := shape.callsFor_self hok hcount hemptied hb
  obtain ⟨hb1, hroom, hle⟩ := hb.grow
  have hnil : n.slots = [] := by simp [slots, h0]
  have hnode : CallsFor p (Loses s n) (calls ++ []) :=
    shape.callsFor_node hself (callsFor_nil fun q => by
      rw [hnil]
      rintro ⟨i, m, q', hi, -⟩
      exact absurd hi (by simp))
  rw [List.append_nil] at hnode
  obtain ⟨subscribers, min, count, liveNodes, next⟩ := n
  simp only at h0 hdrop hcount
  subst h0
  unfold pfxRmAll
  simp only [hdrop, hcalls, if_true]
  obtain ⟨hwf, hlow⟩ : (⟨subs', min, 0, liveNodes, next⟩ : PfxNode σ).WF ∧
      Lowered s (⟨subscribers, min, 0, liveNodes, next⟩ : PfxNode σ) ⟨subs', min, 0, liveNodes, next⟩ :=
    WF.swept ⟨⟨shape.count_eq, shape.single, shape.table, shape.range, shape.live⟩, shape.tight, hok⟩
      hcount (fun d => Or.inl (by simp [child, slots, Window.look]))
  exact ⟨_, _, _, rfl, hwf, hlow, hb1.mono hle, hnode⟩

theorem Shape.rmAllSpec_single (shape : n.Shape) (s : σ) (h1 : n.count = 1)
    (ih : ∀ c m, n.child c = some m → RmAllSpec s m) : RmAllSpec s n := by
  intro p buff maxbuffsize hb
  obtain ⟨subs', emptied, hdrop, hok, hcount, hemptied⟩ := dropSubscriber_spec shape.subscribers s
  obtain ⟨calls, hcalls, hself⟩ := shape.callsFor_self hok hcount hemptied hb
  obtain ⟨hb1, hroom, hle⟩ := hb.grow
  have hrange := shape.range
  have hlive := shape.live
  obtain ⟨x, hx⟩ := shape.single h1
  have hsl := slots_single h1 hx
  -- the subnode exists, since the window is tight
  obtain ⟨m, rfl⟩ := Option.isSome_iff_exists.1 (shape.tight.1 x (by rw [hsl]; rfl))
  have hchild : n.child n.min = some m := by
    rw [child, hsl]
    simp [Window.look]
  have hother : ∀ d, d ≠ n.min → n.child d = none := fun d hd => shape.child_of_out (by omega)
  obtain ⟨buff2, hset, hb2⟩ := hb1.setByte hroom n.min
  obtain ⟨m', buff3, calls', hrm, hwfm, hlow, hb3, hcallsm⟩ :=
    ih n.min m hchild (p ++ [UInt8.ofNat n.min]) buff2 _ hb2
  simp only [List.length_append, List.length_singleton] at hrm
  have hnode : CallsFor p (Loses s n) (calls ++ calls') :=
    shape.callsFor_node hself (hcallsm.of_concat.congr fun q => by
      rw [hsl, losesBelow_cons_iff]
      simp [LosesBelow])
  have hl1 : n.liveNodes = 1 := by simpa [hsl, Window.live] using hlive
  obtain ⟨subscribers, min, count, liveNodes, next⟩ := n
  simp only at h1 hx hl1 hdrop hcount hset hrange hother hchild
  subst h1 hx hl1
  unfold pfxRmAll
  simp only [hdrop, hcalls, Nat.one_ne_zero, if_true, if_false, hset, hrm]
  cases hred : m'.pfxIsRedundant with
  | true =>
    simp only [if_true, hwfm.shape.pfxClose_of_redundant hred]
    have hnone : ∀ d, (⟨subs', min, 0, 0, .node none⟩ : PfxNode σ).child d = none := fun d => by
      simp [child, slots, Window.look]
    obtain ⟨hwf, hlow'⟩ : (⟨subs', min, 0, 0, .node none⟩ : PfxNode σ).WF ∧
        Lowered s (⟨subscribers, min, 1, 1, .node (some m)⟩ : PfxNode σ)
          ⟨subs', min, 0, 0, .node none⟩ := by
      refine WF.swept ⟨⟨rfl, fun h => absurd h (by simp), fun h => absurd h (by simp),
        show min + 0 ≤ 256 by omega, rfl⟩, Window.tight_nil, hok⟩ hcount fun d => ?_
      rw [hnone]
      by_cases hd : d = min
      · rw [hd, hchild]
        exact Or.inr ⟨m, m', rfl, hwfm, hlow, by simp [hred]⟩
      · exact Or.inl ⟨hother d hd, rfl⟩
    exact ⟨_, _, _, rfl, hwf, hlow', hb3.of_concat.mono hle, hnode⟩
  | false =>
    simp only [Bool.false_eq_true, if_false]
    have hfits : (⟨subs', min, 1, 1, .node (some m')⟩ : PfxNode σ).Fits :=
      fits_single rfl rfl (show min < 256 by omega) rfl
    have hnew : (⟨subs', min, 1, 1, .node (some m')⟩ : PfxNode σ).child min = some m' := by
      simp [child, slots, Window.look]
    obtain ⟨hwf, hlow'⟩ : (⟨subs', min, 1, 1, .node (some m')⟩ : PfxNode σ).WF ∧
        Lowered s (⟨subscribers, min, 1, 1, .node (some m)⟩ : PfxNode σ)
          ⟨subs', min, 1, 1, .node (some m')⟩ := by
      refine WF.swept ⟨hfits, Window.tight_singleton m', hok⟩ hcount fun d => ?_
      by_cases hd : d = min
      · rw [hd, hchild, hnew]
        exact Or.inr ⟨m, m', rfl, hwfm, hlow, by simp [hred]⟩
      · exact Or.inl ⟨hother d hd, hfits.child_of_out (show d < min ∨ min + 1 ≤ d by omega)⟩
    exact ⟨_, _, _, rfl, hwf, hlow', hb3.of_concat.mono hle, hnode⟩

theorem Shape.rmAllSpec_table (shape : n.Shape) (s : σ) (h2 : 2 ≤ n.count)
    (ih : ∀ c m, n.child c = some m → RmAllSpec s m) : RmAllSpec s n := by
  intro p buff maxbuffsize hb
  obtain ⟨subs', emptied, hdrop, hok, hcount, hemptied⟩ := dropSubscriber_spec shape.subscribers s
  obtain ⟨calls, hcalls, hself⟩ := shape.callsFor_self hok hcount hemptied hb
  obtain ⟨hb1, hroom, hle⟩ := hb.grow
  have hrange := shape.range
  have hlen := shape.count_eq
  have hlive := shape.live
  obtain ⟨t, ht⟩ := shape.table h2
  have hsl := slots_table h2 ht
  rw [hsl] at hlen hlive
  have hih : ∀ m, some m ∈ t → RmAllSpec s m := by
    intro m hm
    obtain ⟨i, hi⟩ := List.mem_iff_getElem?.1 hm
    refine ih (n.min + i) m ?_
    rw [child, hsl, Window.look_add, hi]
    rfl
  obtain ⟨w, hw, hwlen, hsw, hwlive, hmarks, hbw, hcallsw⟩ :=
    rmAllTable_spec s p n.min _ hroom t 0 hih (by omega) _ n.liveNodes (n.min + n.count - 1) n.min hb1
      (by omega) (by omega) (by omega)
  rw [Nat.add_zero] at hmarks hcallsw
  have hnode : CallsFor p (Loses s n) (calls ++ w.calls) :=
    shape.callsFor_node hself (by rw [hsl]; exact hcallsw)
  have hmod : (n.min + n.count - 1) % 2 ^ 8 = n.min + n.count - 1 := Nat.mod_eq_of_lt (by omega)
  have h0 : ¬ n.count = 0 := by omega
  have h1 : ¬ n.count = 1 := by omega
  obtain ⟨subscribers, min, count, liveNodes, next⟩ := n
  simp only at h0 h1 h2 ht hdrop hcount hrange hlen hlive hmod hw hmarks hwlive
  subst ht
  obtain ⟨n', hcomp, hfits, htight, hsubs, hchild⟩ := compact_spec
    (n := ⟨subs', min, count, liveNodes, .table t⟩) (w := w) h2 hrange (hwlen.trans hlen.symm)
    (by omega) hmarks
  unfold pfxRmAll
  simp only [hdrop, hcalls, h0, h1, if_false, hmod, hw, hcomp]
  simp only at hsubs
  obtain ⟨hwf, hlow⟩ : n'.WF ∧
      Lowered s (⟨subscribers, min, count, liveNodes, .table t⟩ : PfxNode σ) n' := by
    refine WF.swept ⟨hfits, htight, hsubs ▸ hok⟩ (by rw [hsubs]; exact hcount) fun d => ?_
    -- subnode by subnode, the swept table is the old one
    rw [hchild, child, hsl]
    simp only [Window.look]
    split
    · exact Or.inl ⟨rfl, rfl⟩
    · cases hd : t[d - min]? with
      | none =>
        have hout := List.getElem?_eq_none_iff.1 hd
        rw [List.getElem?_eq_none (by omega)]
        exact Or.inl ⟨rfl, rfl⟩
      | some x => grind
  exact ⟨n', w.buff, _, rfl, hwf, hlow, hbw.mono hle, hnode⟩

theorem WF.rmAllSpec (h : n.WF) (s : σ) : RmAllSpec s n := by
  induction h with
  | @intro n shape wf needed ih =>
    by_cases h0 : n.count = 0
    · exact shape.rmAllSpec_leaf s h0
    · by_cases h1 : n.count = 1
      · exact shape.rmAllSpec_single s h1 ih
      · exact shape.rmAllSpec_table s (by omega) ih

theorem WF.pfUnsubscribeAll_spec {t : PfxNode σ} (h : t.WF) (s : σ) :
    ∃ t' calls, pfUnsubscribeAll t s = .ok (t', calls) ∧ t'.WF ∧ Lowered s t t' ∧
      CallsFor [] (Loses s t) calls := by
  obtain ⟨t', buff, calls, hrm, hwf, hlow, -, hcalls⟩ :=
    h.rmAllSpec s [] [] 0 ⟨Nat.le_refl 0, rfl, Nat.le_refl 0⟩
  have hrm' : t.pfxRmAll s [] 0 0 = .ok (t', buff, calls) := hrm
  exact ⟨t', calls, by simp only [pfUnsubscribeAll, hrm'], hwf, hlow, hcalls⟩

end PfxNode

/-! ## A terminated subscriber -/

inductive PfOp (σ : Type) where
  | call (op : SubOp σ)
  | unsubscribeAll (subscriber : σ)

namespace PfxNode

variable {t t' : PfxNode σ} {s : σ}

def execPf (t : PfxNode σ) : PfOp σ → Except Fault (PfxNode σ)
  | .call op => t.exec op
  | .unsubscribeAll s =>
    match pfUnsubscribeAll t s with
    | .error e => .error e
    | .ok (t, _) => .ok t

theorem WF.execPf (h : t.WF) {op : PfOp σ} (hs : t.execPf op = .ok t') : t'.WF := by
  cases op with
  | call op =>
    cases op with
    | subscribe data s =>
      -- the call went through, so that the count did not overflow
      simp only [PfxNode.execPf, PfxNode.exec] at hs
      by_cases hb : t.countAt data s + 1 < 2 ^ 31
      · obtain ⟨r, u, hadd, hwf, -⟩ := pfxAdd_spec s data t h hb
        rw [hadd] at hs
        cases hs
        exact hwf
      · obtain ⟨e, he⟩ := pfxAdd_overflow s data t h hb
        rw [he] at hs
        cases hs
    | unsubscribe data s =>
      obtain ⟨r, u, hrm, hwf, -⟩ := pfxRm_spec s data t h
      simp only [PfxNode.execPf, PfxNode.exec, hrm] at hs
      cases hs
      exact hwf
  | unsubscribeAll s =>
    obtain ⟨u, calls, hall, hwf, -⟩ := h.pfUnsubscribeAll_spec s
    simp only [PfxNode.execPf, hall] at hs
    cases hs
    exact hwf

def Forgets (t : PfxNode σ) (s : σ) : Prop :=
  (∀ p, t.countAt p s = 0) ∧ ∀ d, ∃ signalled, t.pfMatch d = .ok signalled ∧ s ∉ signalled

def KeepsOthers (s : σ) (t t' : PfxNode σ) : Prop :=
  ∀ p u, u ≠ s → t'.countAt p u = t.countAt p u

def AnnouncesEmptied (t t' : PfxNode σ) (calls : List (List UInt8)) : Prop :=
  calls.Nodup ∧ ∀ p, p ∈ calls ↔ (∃ u, 0 < t.countAt p u) ∧ ∀ u, t'.countAt p u = 0

theorem Lowered.keepsOthers (h : Lowered s t t') : KeepsOthers s t t' :=
  fun p u hu => by rw [h p u, if_neg hu]

theorem Lowered.announcesEmptied (h : Lowered s t t')
    {calls : List (List UInt8)} (hcalls : CallsFor [] (Loses s t) calls) :
    AnnouncesEmptied t t' calls := by
  refine ⟨hcalls.nodup, fun p => ?_⟩
  rw [hcalls.mem_iff]
  have hloses : Loses s t p ↔ (∃ u, 0 < t.countAt p u) ∧ ∀ u, t'.countAt p u = 0 := by
    unfold Loses
    simp only [h p]
  rw [← hloses]
  simp

theorem Lowered.forgets_iff (h : Lowered s t t') (hwf : t'.WF) :
    Forgets t' s ↔ ∀ p, t.countAt p s ≤ 1 := by
  constructor
  · rintro ⟨hzero, -⟩ p
    have := hzero p
    rw [h p s, if_pos rfl] at this
    omega
  · intro hone
    have hzero : ∀ p, t'.countAt p s = 0 := fun p => by
      have := hone p
      rw [h p s, if_pos rfl]
      omega
    refine ⟨hzero, fun d => ⟨_, hwf.pfMatch_eq d t', fun hs => ?_⟩⟩
    obtain ⟨p, -, hp⟩ := List.mem_flatMap.1 hs
    rw [hwf.mem_signalsAt p t' s, hzero p] at hp
    cases hp

/-- **A terminated subscriber leaves the trie completely exactly if it held at most one reference of
    every prefix.** -/
theorem unsubscribeAll_complete_iff (ops : List (PfOp σ)) (t : PfxNode σ)
    (hrun : run execPf pfxInit ops = .ok t) (s : σ) :
    ∃ t' calls, pfUnsubscribeAll t s = .ok (t', calls) ∧
      KeepsOthers s t t' ∧ AnnouncesEmptied t t' calls ∧
      ((Forgets t' s ∧ KeepsOthers s t t' ∧ AnnouncesEmptied t t' calls) ↔
        ∀ p, t.countAt p s ≤ 1) := by
  have hwf : t.WF := run_preserves (fun _ _ _ hI hs => hI.execPf hs) ops pfxInit t wf_pfxInit hrun
  obtain ⟨t', calls, hall, hwf', hlow, hcalls⟩ := hwf.pfUnsubscribeAll_spec s
  have hann := hlow.announcesEmptied hcalls
  refine ⟨t', calls, hall, hlow.keepsOthers, hann, ?_⟩
  rw [← hlow.forgets_iff hwf']
  exact ⟨fun h => h.1, fun h => ⟨h, hlow.keepsOthers, hann⟩⟩

theorem unsubscribeAll_complete_once :
    ∃ t, run execPf pfxInit [.call (.subscribe [97] 1), .call (.subscribe [97, 98] (1 : Nat))] = .ok t ∧
      ∃ t' calls, pfUnsubscribeAll t 1 = .ok (t', calls) ∧
        (Forgets t' 1 ↔ ∀ p, t.countAt p 1 ≤ 1) := by
  obtain ⟨t, ht⟩ : ∃ t, run execPf pfxInit
      [.call (.subscribe [97] 1), .call (.subscribe [97, 98] (1 : Nat))] = .ok t := ⟨_, rfl⟩
  obtain ⟨t', calls, hall, hkeep, hann, hiff⟩ := unsubscribeAll_complete_iff _ t ht 1
  exact ⟨t, ht, t', calls, hall, fun h => hiff.1 ⟨h, hkeep, hann⟩, fun h => (hiff.2 h).1⟩

set_option maxRecDepth 4096 in
theorem unsubscribeAll_leaves_duplicate :
    ∃ t, run execPf pfxInit [.call (.subscribe [97] 1), .call (.subscribe [97] (1 : Nat))] = .ok t ∧
      ∃ t' calls, pfUnsubscribeAll t 1 = .ok (t', calls) ∧ t'.countAt [97] 1 = 1 ∧
        t'.pfMatch [97] = .ok [1] ∧ ¬ Forgets t' 1 := by
  refine ⟨_, rfl, _, _, rfl, rfl, rfl, ?_⟩
  rintro ⟨hzero, -⟩
  have hone : (1 : Nat) = 0 := hzero [97]
  exact absurd hone (by decide)

end PfxNode

end Libxs
