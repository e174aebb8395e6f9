import Libxs.Dist

/-! # The law of distribution -/

namespace Libxs

variable {α : Type}

/-! ## The slot of a removed pipe -/

namespace Slots

structure Holds (s : Slots α) (a : ArrayT α) (i : Nat) (p : α) : Prop where
  hole : a.get i = some p
  slot : s.items[i]? = some none ∨ s.items[i]? = some (some p)
  length : s.items.length = a.size
  items : ∀ k, k ≠ i → s.items[k]? = (a.get k).map some
  index : ∀ x ∈ a.items, x ≠ p → s.arrayIndex x = a.index x

theorem holds_ofArray {a : ArrayT α} {i : Nat} {p : α} (h : a.get i = some p) :
    Holds (ofArray a) a i p :=
  ⟨h, Or.inr (by simp only [ArrayT.get] at h; simp [ofArray, h]), by simp [ofArray, ArrayT.size], fun k _ => by simp [ofArray, ArrayT.get], fun _ _ _ => rfl⟩

theorem pointers_map_some (l : List α) : pointers (l.map some) = some l := by
  induction l with
  | nil => rfl
  | cons x l ih => simp [pointers, ih]

variable [DecidableEq α] {s : Slots α} {a : ArrayT α} {i : Nat} {p : α}

theorem Holds.shift (h : Holds s a i p) (hwf : a.WF) {n : Nat} (hi : i < n) (hn : n ≤ a.size) :
    ∃ s' a', s.shift i n = some s' ∧ a.swap i (n - 1) = some a' ∧ Holds s' a' (n - 1) p := by
  obtain ⟨y, hy⟩ := ArrayT.get_of_lt (a := a) (i := n - 1) (by omega)
  obtain ⟨old, hold⟩ : ∃ old, s.items[i]? = some old :=
    ⟨_, List.getElem?_eq_getElem (by rw [h.length]; omega)⟩
  obtain ⟨last, hlast⟩ : ∃ last, s.items[n - 1]? = some last :=
    ⟨_, List.getElem?_eq_getElem (by rw [h.length]; omega)⟩
  obtain ⟨a', ha'⟩ := ArrayT.swap_of_lt (a := a) (i := i) (j := n - 1) (by omega) (by omega)
  have hli : i < s.items.length := by rw [h.length]; omega
  have hget := ArrayT.get_swap ha'
  have hshift : s.shift i n = some ⟨(s.items.set i last).set (n - 1) none,
      setArrayIndex s.arrayIndex (((s.items.set i last).set (n - 1) none)[i]?.getD none) i⟩ := by
    simp only [Slots.shift, hold, hlast]
  refine ⟨_, a', hshift, ha', ?_, Or.inl ?_, ?_, fun k hk => ?_, fun x hx hxp => ?_⟩
  · grind [ArrayT.swapIndex, h.hole]
  · grind
  · simp only [List.length_set]
    rw [h.length, ArrayT.size_swap ha']
  · grind [ArrayT.swapIndex, h.items]
  · have hxa := (ArrayT.mem_swap ha').1 hx
    have hpi := hwf i p h.hole
    have hyi := hwf _ y hy
    have hxi : a.index x ≠ i := fun he =>
      hxp (hwf.index_inj hxa (ArrayT.mem_of_get h.hole) (he.trans hpi.symm))
    have hsx := h.index x hxa hxp
    rw [ArrayT.index_swap hwf ha' hxa, ArrayT.swapIndex, if_neg hxi]
    simp only
    by_cases hni : n - 1 = i
    · -- the slot stays where it is
      have hnone : ((s.items.set i last).set (n - 1) none)[i]? = some none := by grind
      rw [hnone, if_neg (by omega)]
      exact hsx
    · have hsome : ((s.items.set i last).set (n - 1) none)[i]? = some (some y) := by
        rw [List.getElem?_set_ne hni, List.getElem?_set_self hli, ← hlast, h.items _ hni, hy]
        rfl
      rw [hsome]
      simp only [Option.getD_some, setArrayIndex, ArrayT.setArrayIndex]
      by_cases hxy : x = y
      · rw [if_pos hxy, hxy, if_pos hyi]
      · have hxn : a.index x ≠ n - 1 := fun he =>
          hxy (hwf.index_inj hxa (ArrayT.mem_of_get hy) (he.trans hyi.symm))
        rw [if_neg hxy, if_neg hxn]
        exact hsx

theorem Holds.eraseAt (h : Holds s a i p) (hwf : a.WF) :
    ∃ s' a', s.eraseAt i = some s' ∧ a.eraseAt i = some a' ∧ pointers s'.items = some a'.items ∧
      ∀ x ∈ a'.items, s'.arrayIndex x = a'.index x := by
  have hi : i < a.size := (List.getElem?_eq_some_iff.1 h.hole).1
  have hlen := h.length
  obtain ⟨a', ha'⟩ := ArrayT.eraseAt_of_lt hi
  obtain ⟨back, hback⟩ : ∃ back, s.items.getLast? = some back := by
    refine ⟨_, List.getLast?_eq_some_getLast ?_⟩
    intro he
    rw [he] at hlen
    simp only [List.length_nil] at hlen
    omega
  have herase : s.eraseAt i = some ⟨(s.items.set i back).dropLast,
      setArrayIndex s.arrayIndex back i⟩ := by
    simp only [Slots.eraseAt, hback]
    rw [if_pos (by omega)]
  have hget := ArrayT.get_eraseAt ha'
  have hsize := ArrayT.size_eraseAt ha'
  rw [List.getLast?_eq_getElem?, hlen] at hback
  have hitems : (s.items.set i back).dropLast = a'.items.map some := by
    refine List.ext_getElem? fun k => ?_
    have hk := hget k
    simp only [ArrayT.get] at hk
    rw [List.getElem?_map, hk, List.getElem?_dropLast, List.length_set, hlen]
    by_cases hlt : k + 1 < a.size
    · rw [if_pos (by omega), if_pos hlt]
      by_cases hki : k = i
      · subst hki
        rw [List.getElem?_set_self (by omega), if_pos rfl, ← hback]
        exact h.items _ (by omega)
      · rw [List.getElem?_set_ne (Ne.symm hki), if_neg hki]
        exact h.items k hki
    · rw [if_neg (by omega), if_neg hlt]
      rfl
  refine ⟨_, a', herase, ha', by rw [hitems, pointers_map_some], fun x hx => ?_⟩
  obtain ⟨hxa, hne⟩ := (ArrayT.mem_eraseAt hwf ha').1 hx
  have hpi := hwf i p h.hole
  have hxp : x ≠ p := fun he => hne (by rw [he, hpi])
  have hxlt := hwf.index_lt hxa
  rw [ArrayT.index_eraseAt hwf ha' hxa]
  simp only
  by_cases hil : a.size - 1 = i
  · -- the slot is the last one, and only `p` may be left in it
    rw [if_neg (by omega)]
    cases back with
    | none => exact h.index x hxa hxp
    | some y =>
      have hyp : y = p := by
        have hslot := h.slot
        rw [← hil, hback] at hslot
        simpa using hslot
      simp only [setArrayIndex, ArrayT.setArrayIndex]
      rw [if_neg (by rw [hyp]; exact hxp)]
      exact h.index x hxa hxp
  · have hy := h.items _ hil
    rw [hback] at hy
    obtain ⟨y, hgy, rfl⟩ := Option.map_eq_some_iff.1 hy.symm
    have hyi := hwf _ y hgy
    simp only [setArrayIndex, ArrayT.setArrayIndex]
    by_cases hxy : x = y
    · rw [if_pos hxy, hxy, if_pos hyi]
    · have hxn : a.index x ≠ a.size - 1 := fun he =>
        hxy (hwf.index_inj hxa (ArrayT.mem_of_get hgy) (he.trans hyi.symm))
      rw [if_neg hxy, if_neg hxn]
      exact h.index x hxa hxp

end Slots

/-! ## One part on one pipe -/

namespace Endpoint

variable {e : Endpoint}

def sent (e : Endpoint) (msg : Msg) : Endpoint :=
  match e.write msg with
  | .error _ => e
  | .ok (false, e') => e'
  | .ok (true, e') => if msg.more then e' else e'.flush

theorem Sound.sent_eq (h : e.Sound) (msg : Msg) :
    ∃ e', e.write msg = .ok (e.accepts, e') ∧ e'.Sound ∧ (e.sent msg).pipe = e'.pipe ∧
      (e.sent msg).outq.queue = e'.outq.queue := by
  obtain ⟨e', he, hs⟩ := h.write msg
  refine ⟨e', he, hs, ?_⟩
  unfold sent
  rw [he]
  cases e.accepts with
  | false => exact ⟨rfl, rfl⟩
  | true =>
    simp only
    split
    · exact ⟨rfl, rfl⟩
    · exact ⟨flush_pipe e', flush_queue e'⟩

theorem Sound.sent (h : e.Sound) (msg : Msg) : (e.sent msg).Sound := by
  obtain ⟨e', -, hs, hpipe, -⟩ := h.sent_eq msg
  rw [Sound, hpipe]
  exact hs

theorem Sound.sent_ok (h : e.Sound) (msg : Msg) :
    (e.sent msg).pipe.state = e.pipe.state ∧ (e.sent msg).pipe.hwm = e.pipe.hwm ∧
      (e.pipe.state = .active → (e.sent msg).pipe.outActive = e.accepts) ∧
      (e.sent msg).outq.queue = e.outq.queue ++ (if e.accepts then [msg] else []) := by
  obtain ⟨e', he, -, hpipe, hqueue⟩ := h.sent_eq msg
  rw [hpipe, hqueue]
  exact (write_ok he).2

end Endpoint

/-! ## The three regions -/

namespace Dist

structure Layered (d : Dist α) (M A E : α → Prop) : Prop where
  matching : d.pipes.Partitioned d.matching M
  active : d.pipes.Partitioned d.active A
  eligible : d.pipes.Partitioned d.eligible E
  matching_le : d.matching ≤ d.active
  active_le : d.active ≤ d.eligible
  idle : d.more = false → d.active = d.eligible

variable {d d' : Dist α} {M A E : α → Prop} {p : α}

theorem layered_init (M A E : α → Prop) : (init : Dist α).Layered M A E :=
  ⟨ArrayT.partitioned_empty M, ArrayT.partitioned_empty A, ArrayT.partitioned_empty E,
    Nat.le_refl _, Nat.le_refl _, fun _ => rfl⟩

namespace Layered

variable {x : α}

theorem congr (h : d.Layered M A E) {M' A' E' : α → Prop}
    (hM : ∀ x, d.attached x → (M x ↔ M' x)) (hA : ∀ x, d.attached x → (A x ↔ A' x))
    (hE : ∀ x, d.attached x → (E x ↔ E' x)) : d.Layered M' A' E' :=
  ⟨h.matching.congr hM, h.active.congr hA, h.eligible.congr hE, h.matching_le, h.active_le, h.idle⟩

theorem self (h : d.Layered M A E) :
    d.Layered (fun x => d.pipes.index x < d.matching) (fun x => d.pipes.index x < d.active)
      (fun x => d.pipes.index x < d.eligible) :=
  h.congr (fun x hx => (h.matching.mem_iff x hx).symm) (fun x hx => (h.active.mem_iff x hx).symm)
    (fun x hx => (h.eligible.mem_iff x hx).symm)

theorem wf (h : d.Layered M A E) : d.pipes.WF := h.matching.wf

theorem eligible_of_active (h : d.Layered M A E) (hx : d.attached x) (hA : A x) : E x := by
  have hlt := (h.active.mem_iff x hx).2 hA
  have hle := h.active_le
  exact (h.eligible.mem_iff x hx).1 (by omega)

theorem active_iff (h : d.Layered M A E) (hmore : d.more = false) (hx : d.attached x) :
    A x ↔ E x := by
  rw [← h.active.mem_iff x hx, ← h.eligible.mem_iff x hx, h.idle hmore]

theorem unmatch (h : d.Layered M A E) : d.unmatch.Layered (fun _ => False) A E :=
  ⟨⟨h.wf, Nat.zero_le _, fun x _ => by simp [Dist.unmatch]⟩, h.active, h.eligible, Nat.zero_le _,
    h.active_le, h.idle⟩

theorem matchAll (h : d.Layered M A E) : ({ d with matching := d.active } : Dist α).Layered A A E :=
  ⟨h.active, h.active, h.eligible, Nat.le_refl _, h.active_le, h.idle⟩

theorem finish (h : d.Layered M A E) {b : Bool} :
    ({ d with active := d.eligible, more := b } : Dist α).Layered M E E :=
  ⟨h.matching, h.eligible, h.eligible, Nat.le_trans h.matching_le h.active_le, Nat.le_refl _,
    fun _ => rfl⟩

theorem setMore (h : d.Layered M A E) : ({ d with more := true } : Dist α).Layered M A E :=
  ⟨h.matching, h.active, h.eligible, h.matching_le, h.active_le, fun hb => absurd hb (by simp)⟩

variable [DecidableEq α]
variable {a : ArrayT α} {ends : Ends α} {msg : Msg} {i : Nat}

theorem attach (h : d.Layered M A E) (hp : ¬ d.attached p) :
    ∃ d', d.attach p = .ok d' ∧
      d'.Layered (fun x => x ≠ p ∧ M x) (fun x => (x = p ∧ d.more = false) ∨ (x ≠ p ∧ A x))
        (fun x => x = p ∨ E x) ∧
      (∀ x, d'.attached x ↔ d.attached x ∨ x = p) ∧ d'.more = d.more := by
  have h1 := h.matching_le
  have h2 := h.active_le
  have h3 := h.eligible.le_size
  have hsize := ArrayT.size_pushBack d.pipes p
  obtain ⟨a, ha, hE, hmem⟩ := h.eligible.pushBack_swap hp
  unfold Dist.attach
  cases hmore : d.more with
  | true =>
    simp only [if_true, ha]
    refine ⟨_, rfl, ⟨?_, ?_, hE, h1, ?_, by simp⟩, hmem, rfl⟩
    · exact (h.matching.pushBack hp).swap_same (by omega) ha
    · refine ((h.active.pushBack hp).swap_same (by omega) ha).congr fun x _ => by simp
    · simp only
      omega
  | false =>
    have heq := h.idle hmore
    simp only [Bool.false_eq_true, if_false, heq, ha]
    refine ⟨_, rfl, ⟨?_, ?_, hE, by simp only; omega, Nat.le_refl _, fun _ => rfl⟩, hmem, rfl⟩
    · exact (h.matching.pushBack hp).swap_same (by omega) ha
    · refine hE.congr fun x hx => ?_
      by_cases hxp : x = p
      · simp [hxp]
      · have hxa := ((hmem x).1 hx).resolve_right hxp
        simp [hxp, h.active_iff hmore hxa]

theorem matchPipe (h : d.Layered M A E) (hp : d.attached p) (hmore : d.more = false) :
    ∃ d', d.matchPipe p = .ok d' ∧ d'.Layered (fun x => (x = p ∧ E x) ∨ M x) A E ∧
      (∀ x, d'.attached x ↔ d.attached x) ∧ d'.more = d.more := by
  have h1 := h.matching_le
  have heq := h.idle hmore
  unfold Dist.matchPipe
  by_cases hM : d.pipes.index p < d.matching
  · rw [if_pos hM]
    refine ⟨d, rfl, h.congr (fun x _ => ?_) (fun _ _ => Iff.rfl) (fun _ _ => Iff.rfl),
      fun _ => Iff.rfl, rfl⟩
    constructor
    · exact Or.inr
    · rintro (⟨rfl, -⟩ | hx)
      · exact (h.matching.mem_iff x hp).1 hM
      · exact hx
  · rw [if_neg hM]
    by_cases hE : d.pipes.index p < d.eligible
    · rw [if_neg (by omega)]
      obtain ⟨a, ha, hM', hmem⟩ :=
        h.matching.swap_in hp fun hc => hM ((h.matching.mem_iff p hp).2 hc)
      simp only [ha]
      refine ⟨_, rfl, ⟨?_, h.active.swap_same (by omega) ha, h.eligible.swap_same (by omega) ha,
        by simp only; omega, h.active_le, h.idle⟩, hmem, rfl⟩
      refine hM'.congr fun x _ => or_congr_left ⟨fun hx => ⟨hx, ?_⟩, fun hx => hx.1⟩
      rw [hx]
      exact (h.eligible.mem_iff p hp).1 hE
    · rw [if_pos (by omega)]
      refine ⟨d, rfl, h.congr (fun x _ => ?_) (fun _ _ => Iff.rfl) (fun _ _ => Iff.rfl),
        fun _ => Iff.rfl, rfl⟩
      constructor
      · exact Or.inr
      · rintro (⟨rfl, hx⟩ | hx)
        · exact absurd ((h.eligible.mem_iff x hp).2 hx) hE
        · exact hx

theorem activated (h : d.Layered M A E) (hp : d.attached p) (hE : ¬ E p) :
    ∃ d', d.activated p = .ok d' ∧
      d'.Layered M (fun x => (x = p ∧ d.more = false) ∨ A x) (fun x => x = p ∨ E x) ∧
      (∀ x, d'.attached x ↔ d.attached x) ∧ d'.more = d.more := by
  have h1 := h.matching_le
  have h2 := h.active_le
  have hge : ¬ d.pipes.index p < d.eligible := fun hlt => hE ((h.eligible.mem_iff p hp).1 hlt)
  obtain ⟨a, ha, hE', hmem⟩ := h.eligible.swap_in hp hE
  have hM' : a.Partitioned d.matching M := h.matching.swap_same (by omega) ha
  have hA' : a.Partitioned d.active A := h.active.swap_same (by omega) ha
  unfold Dist.activated
  simp only [ha]
  cases hmore : d.more with
  | true =>
    refine ⟨_, rfl, ⟨hM', hA'.congr fun x _ => by simp, hE', h1, by simp only; omega, by simp⟩,
      hmem, rfl⟩
  | false =>
    have heq := h.idle hmore
    simp only [Bool.false_eq_true, if_false, Nat.add_sub_cancel]
    have hidx : a.index p = d.eligible := by
      rw [ArrayT.index_swap h.wf ha hp, ArrayT.swapIndex, if_pos rfl]
    obtain ⟨b, hb, hA'', hmem'⟩ := hA'.swap_in ((hmem p).2 hp)
      fun hc => hE (h.eligible_of_active hp hc)
    rw [hidx] at hb
    simp only [hb]
    refine ⟨_, rfl, ⟨hM'.swap_same (by omega) hb, hA''.congr fun x _ => by simp,
      hE'.swap_same (by omega) hb, by simp only; omega, by simp only; omega, by simp [heq]⟩,
      fun x => (hmem' x).trans (hmem x), rfl⟩

/-! ## Removing a pipe -/

def slotAfter (n i : Nat) : Nat := if i < n then n - 1 else i

theorem leave_spec {s : Slots α} {n : Nat} {B : α → Prop}
    (hs : Slots.Holds s a i p) (hB : a.Partitioned n B) :
    ∃ s' a', leave s i n = .ok (s', ArrayT.eraseBoundary n i, slotAfter n i) ∧
      Slots.Holds s' a' (slotAfter n i) p ∧
      a'.Partitioned (ArrayT.eraseBoundary n i) (fun x => x ≠ p ∧ B x) ∧
      (∀ x, x ∈ a'.items ↔ x ∈ a.items) ∧
      ∀ m C, m ≤ i ∨ n ≤ m → a.Partitioned m C → a'.Partitioned m C := by
  unfold leave slotAfter ArrayT.eraseBoundary
  by_cases hi : i < n
  · obtain ⟨s', a', hshift, ha', hs'⟩ := hs.shift hB.wf hi hB.le_size
    obtain ⟨b, hb, hB', hmem⟩ := hB.swap_out hi hs.hole
    rw [ha', Option.some.injEq] at hb
    subst hb
    simp only [hi, if_true, hshift]
    exact ⟨s', a', rfl, hs', hB', hmem, fun m C hm hC => hC.swap_same (by omega) ha'⟩
  · simp only [hi, if_false]
    refine ⟨s, a, rfl, hs, hB.congr fun x hx => ?_, fun _ => Iff.rfl, fun _ _ _ hC => hC⟩
    constructor
    · intro hx'
      refine ⟨fun he => hi ?_, hx'⟩
      rw [← hB.wf i p hs.hole, ← he]
      exact (hB.mem_iff x hx).2 hx'
    · exact fun hx' => hx'.2

theorem terminated (h : d.Layered M A E) (hp : d.attached p) :
    ∃ d', d.terminated p = .ok d' ∧ d'.Layered M A E ∧
      (∀ x, d'.attached x ↔ d.attached x ∧ x ≠ p) ∧ d'.more = d.more := by
  have h1 := h.matching_le
  have h2 := h.active_le
  have hidle := h.idle
  have hs₀ := Slots.holds_ofArray (h.wf.get_index hp)
  obtain ⟨s₁, a₁, hl₁, hs₁, hM₁, hmem₁, hkeep₁⟩ := leave_spec hs₀ h.matching
  obtain ⟨s₂, a₂, hl₂, hs₂, hA₂, hmem₂, hkeep₂⟩ :=
    leave_spec hs₁ (hkeep₁ _ _ (Or.inr h1) h.active)
  obtain ⟨s₃, a₃, hl₃, hs₃, hE₃, hmem₃, hkeep₃⟩ :=
    leave_spec hs₂ (hkeep₂ _ _ (Or.inr h2) (hkeep₁ _ _ (Or.inr (Nat.le_trans h1 h2)) h.eligible))
  -- behind its slot, the pipe has left each region for good
  have hslot : ∀ n i, ArrayT.eraseBoundary n i ≤ slotAfter n i ∧ i ≤ slotAfter n i := by
    intro n i
    unfold ArrayT.eraseBoundary slotAfter
    split_ifs <;> omega
  have hM₂ := hkeep₂ _ _ (Or.inl (hslot _ _).1) hM₁
  have hM₃ := hkeep₃ _ _ (Or.inl (Nat.le_trans (hslot _ _).1 (hslot _ _).2)) hM₂
  have hA₃ := hkeep₃ _ _ (Or.inl (hslot _ _).1) hA₂
  obtain ⟨s₄, a₄, hs₄, ha₄, hitems, hindex⟩ := hs₃.eraseAt hE₃.wf
  have hmem : ∀ x, x ∈ a₃.items ↔ d.attached x := fun x =>
    (hmem₃ x).trans ((hmem₂ x).trans (hmem₁ x))
  have hidx := hE₃.wf _ p hs₃.hole
  have herase : ∀ n C, n ≤ slotAfter d.eligible (slotAfter d.active
      (slotAfter d.matching (d.pipes.index p))) → a₃.Partitioned n (fun x => x ≠ p ∧ C x) →
      (⟨a₄.items, s₄.arrayIndex⟩ : ArrayT α).Partitioned n C ∧
        ∀ x, x ∈ a₄.items ↔ d.attached x ∧ x ≠ p := by
    intro n C hn hC
    obtain ⟨b, hb, hC', hmem'⟩ := hC.erase ((hmem p).2 hp) (Or.inl (by rw [hidx]; exact hn))
    rw [ArrayT.erase, hidx, ha₄, Option.some.injEq] at hb
    subst hb
    rw [ArrayT.eraseBoundary, if_neg (by omega)] at hC'
    have hatt : ∀ x, x ∈ a₄.items ↔ d.attached x ∧ x ≠ p := fun x => by rw [hmem', hmem]
    refine ⟨(hC'.congr fun x hx => ?_).reindex hindex, hatt⟩
    simp [((hatt x).1 hx).2]
  have hle := hslot d.eligible (slotAfter d.active (slotAfter d.matching (d.pipes.index p)))
  have hle' := hslot d.active (slotAfter d.matching (d.pipes.index p))
  have hle'' := hslot d.matching (d.pipes.index p)
  obtain ⟨hE₄, hatt⟩ := herase _ E hle.1 hE₃
  obtain ⟨hA₄, -⟩ := herase _ A (Nat.le_trans hle'.1 hle.2) hA₃
  obtain ⟨hM₄, -⟩ := herase _ M (Nat.le_trans hle''.1 (Nat.le_trans hle'.2 hle.2)) hM₃
  unfold Dist.terminated
  simp only [hl₁, hl₂, hl₃, hs₄, hitems]
  refine ⟨_, rfl, ⟨hM₄, hA₄, hE₄, ?_, ?_, fun hmore => ?_⟩, hatt, rfl⟩
  · simp only [ArrayT.eraseBoundary, slotAfter]
    split_ifs <;> omega
  · simp only [ArrayT.eraseBoundary, slotAfter]
    split_ifs <;> omega
  · have := hidle hmore
    simp only [ArrayT.eraseBoundary, slotAfter]
    split_ifs <;> omega

/-! ## Sending a part -/

theorem swapLast_ok {a' : ArrayT α} {n : Nat} (hn : 0 < n) (h : a.swap i (n - 1) = some a') :
    swapLast a i n = .ok a' := by
  simp only [swapLast, if_neg (Nat.ne_of_gt hn), h]

theorem makePassive (h : d.Layered M A E) (hp : d.attached p) (hM : M p) :
    ∃ d', d.makePassive p = .ok d' ∧
      d'.Layered (fun x => x ≠ p ∧ M x) (fun x => x ≠ p ∧ A x) (fun x => x ≠ p ∧ E x) ∧
      (∀ x, d'.attached x ↔ d.attached x) ∧ d'.more = d.more ∧ d'.matching = d.matching - 1 ∧
      ∀ n C, n ≤ d.pipes.index p → d.pipes.Partitioned n C → d'.pipes.Partitioned n C := by
  have h1 := h.matching_le
  have h2 := h.active_le
  have hlt := (h.matching.mem_iff p hp).2 hM
  obtain ⟨a, ha, hM₁, hmem₁⟩ := h.matching.swap_out hlt (h.wf.get_index hp)
  have hA₁ : a.Partitioned d.active A := h.active.swap_same (by omega) ha
  have hE₁ : a.Partitioned d.eligible E := h.eligible.swap_same (by omega) ha
  have hidx₁ : a.index p = d.matching - 1 := by
    rw [ArrayT.index_swap h.wf ha hp, ArrayT.swapIndex, if_pos rfl]
  have hp₁ := (hmem₁ p).2 hp
  obtain ⟨b, hb, hA₂, hmem₂⟩ :=
    hA₁.swap_out (i := a.index p) (by omega) (hA₁.wf.get_index hp₁)
  have hM₂ : b.Partitioned (d.matching - 1) (fun x => x ≠ p ∧ M x) := hM₁.swap_same (by omega) hb
  have hE₂ : b.Partitioned d.eligible E := hE₁.swap_same (by omega) hb
  have hp₂ := (hmem₂ p).2 hp₁
  have hidx₂ : b.index p = d.active - 1 := by
    rw [ArrayT.index_swap hA₁.wf hb hp₁, ArrayT.swapIndex, if_pos rfl]
  have hget₂ : b.get (d.active - 1) = some p := by
    rw [← hidx₂]
    exact hA₂.wf.get_index hp₂
  obtain ⟨c, hc, hE₃, hmem₃⟩ := hE₂.swap_out (i := d.active - 1) (by omega) hget₂
  unfold Dist.makePassive
  simp only [swapLast_ok (by omega : 0 < d.matching) ha, swapLast_ok (by omega : 0 < d.active) hb,
    swapLast_ok (by omega : 0 < d.eligible) hc]
  refine ⟨_, rfl, ⟨hM₂.swap_same (by omega) hc, hA₂.swap_same (by omega) hc, hE₃, ?_, ?_, ?_⟩,
    fun x => (hmem₃ x).trans ((hmem₂ x).trans (hmem₁ x)), rfl, rfl, fun n C hn hC => ?_⟩
  · simp only
    omega
  · simp only
    omega
  · intro hmore
    simp only [h.idle hmore]
  · exact ((hC.swap_same (by omega) ha).swap_same (by omega) hb).swap_same (by omega) hc

theorem write_accepted (d : Dist α) (hs : (ends p).Sound) (hacc : (ends p).accepts = true) :
    d.write ends p msg = .ok (true, d, Function.update ends p ((ends p).sent msg)) := by
  obtain ⟨e', he, -⟩ := hs.write msg
  rw [hacc] at he
  simp only [Dist.write, Endpoint.sent, he]

theorem write_refused (hs : (ends p).Sound)
    (href : (ends p).accepts = false) (hd : d.makePassive p = .ok d') :
    d.write ends p msg = .ok (false, d', Function.update ends p ((ends p).sent msg)) := by
  obtain ⟨e', he, -⟩ := hs.write msg
  rw [href] at he
  simp only [Dist.write, Endpoint.sent, he, hd]

omit [DecidableEq α] in
theorem next (h : d.Layered M A E) {D : α → Prop} (hD : d.pipes.Partitioned i D)
    (hlt : i < d.matching) :
    ∃ p, d.pipes.get i = some p ∧ d.attached p ∧ d.pipes.index p = i ∧ M p ∧ ¬ D p := by
  have hsize := h.matching.le_size
  obtain ⟨p, hp⟩ := ArrayT.get_of_lt (a := d.pipes) (i := i) (by omega)
  have hatt : d.attached p := ArrayT.mem_of_get hp
  have hidx := h.wf i p hp
  refine ⟨p, hp, hatt, hidx, h.matching.of_get hp hlt, fun hc => ?_⟩
  have := (hD.mem_iff p hatt).2 hc
  omega

theorem sound_update_sent (hsound : ∀ x, d.attached x → (ends x).Sound) (p : α)
    (msg : Msg) (x : α) (hx : d.attached x) :
    (Function.update ends p ((ends p).sent msg) x).Sound := by
  by_cases hxp : x = p
  · subst hxp
    rw [Function.update_self]
    exact (hsound x hx).sent msg
  · rw [Function.update_of_ne hxp]
    exact hsound x hx

theorem distributeLoop_spec (msg : Msg) : ∀ (fuel i : Nat) (d : Dist α) (ends : Ends α)
    (M A E D : α → Prop), d.Layered M A E → d.pipes.Partitioned i D → d.matching = i + fuel →
    (∀ x, d.attached x → (ends x).Sound) →
    ∃ failed d' ends', distributeLoop fuel i d ends msg = .ok (failed, d', ends') ∧
      d'.Layered (fun x => M x ∧ (¬ D x → (ends x).accepts = true))
        (fun x => A x ∧ (M x → ¬ D x → (ends x).accepts = true))
        (fun x => E x ∧ (M x → ¬ D x → (ends x).accepts = true)) ∧
      (∀ x, d'.attached x ↔ d.attached x) ∧ d'.more = d.more ∧
      (∀ x, d.attached x → M x → ¬ D x → ends' x = (ends x).sent msg) ∧
      (∀ x, ¬ (d.attached x ∧ M x ∧ ¬ D x) → ends' x = ends x) := by
  intro fuel
  induction fuel with
  | zero =>
    intro i d ends M A E D h hD hfuel _
    have hMD : ∀ x, d.attached x → (M x ↔ D x) := fun x hx => by
      rw [← h.matching.mem_iff x hx, ← hD.mem_iff x hx, hfuel, Nat.add_zero]
    refine ⟨0, d, ends, ?_, h.congr ?_ ?_ ?_, fun _ => Iff.rfl, rfl, ?_, fun _ _ => rfl⟩
    · rw [distributeLoop, if_neg (by omega)]
    · intro x hx
      have := hMD x hx
      tauto
    · intro x hx
      have := hMD x hx
      tauto
    · intro x hx
      have := hMD x hx
      tauto
    · grind
  | succ fuel ih =>
    intro i d ends M A E D h hD hfuel hsound
    have hlt : i < d.matching := by omega
    obtain ⟨p, hp, hatt, hidx, hM, hnD⟩ := h.next hD hlt
    have hsound' := sound_update_sent hsound p msg
    have hsame : ∀ x, x ≠ p → Function.update ends p ((ends p).sent msg) x = ends x :=
      fun x hx => Function.update_of_ne hx ..
    rw [distributeLoop, if_pos hlt]
    simp only [hp]
    cases hacc : (ends p).accepts with
    | true =>
      rw [write_accepted d (hsound p hatt) hacc]
      simp only
      obtain ⟨failed, d', ends', hloop, hlay, hatt', hmore, hsent, hrest⟩ :=
        ih (i + 1) d _ M A E _ h (hD.extend hp) (by omega) hsound'
      have hiff : ∀ x, (¬ (x = p ∨ D x) →
          (Function.update ends p ((ends p).sent msg) x).accepts = true) ↔
            (¬ D x → (ends x).accepts = true) := by
        intro x
        grind
      refine ⟨failed, d', ends', hloop, ?_, hatt', hmore, fun x hx hMx hDx => ?_,
        fun x hx => ?_⟩
      · simpa only [hiff] using hlay
      · grind
      · grind
    | false =>
      obtain ⟨d₁, hd₁, hlay₁, hatt₁, hmore₁, hmatching, hkeep⟩ := h.makePassive hatt hM
      rw [write_refused (hsound p hatt) hacc hd₁]
      simp only
      obtain ⟨failed, d', ends', hloop, hlay, hatt', hmore, hsent, hrest⟩ :=
        ih i d₁ _ _ _ _ _ hlay₁ (hkeep i D (by omega) hD) (by omega)
          (fun x hx => hsound' x ((hatt₁ x).1 hx))
      simp only [hloop]
      have hiff : ∀ (B : α → Prop) (x : α), ((x ≠ p ∧ B x) ∧ (x ≠ p ∧ M x → ¬ D x →
          (Function.update ends p ((ends p).sent msg) x).accepts = true)) ↔
            (B x ∧ (M x → ¬ D x → (ends x).accepts = true)) := by
        intro B x
        grind
      refine ⟨failed + 1, d', ends', rfl, hlay.congr (fun x _ => ?_) (fun x _ => hiff A x)
        (fun x _ => hiff E x), fun x => (hatt' x).trans (hatt₁ x), hmore.trans hmore₁,
        fun x hx hMx hDx => ?_, fun x hx => ?_⟩
      · grind
      · grind
      · grind

theorem sendToMatching (h : d.Layered M A E)
    (hsound : ∀ x, d.attached x → (ends x).Sound) (msg : Msg) :
    ∃ d' ends', d.sendToMatching ends msg = .ok (d', ends') ∧
      d'.Layered (fun x => M x ∧ (ends x).accepts = true)
        (fun x => (if msg.more then A x else E x) ∧ (M x → (ends x).accepts = true))
        (fun x => E x ∧ (M x → (ends x).accepts = true)) ∧
      (∀ x, d'.attached x ↔ d.attached x) ∧ d'.more = msg.more ∧
      (∀ x, d.attached x → M x → ends' x = (ends x).sent msg) ∧
      (∀ x, ¬ (d.attached x ∧ M x) → ends' x = ends x) := by
  have hstart : d.pipes.Partitioned 0 (fun _ => False) :=
    ⟨h.wf, Nat.zero_le _, fun _ _ => by simp⟩
  obtain ⟨failed, d', ends', hloop, hlay, hatt, -, hsent, hrest⟩ :=
    distributeLoop_spec msg d.matching 0 d ends M A E _ h hstart (by omega) hsound
  simp only [not_false_eq_true, forall_const, and_true] at hlay hsent hrest
  unfold Dist.sendToMatching Dist.distribute
  simp only [hloop]
  cases hmore : msg.more with
  | true => exact ⟨_, ends', rfl, hlay.setMore, hatt, rfl, hsent, hrest⟩
  | false => exact ⟨_, ends', rfl, hlay.finish, hatt, rfl, hsent, hrest⟩

theorem sendToAll (h : d.Layered M A E)
    (hsound : ∀ x, d.attached x → (ends x).Sound) (msg : Msg) :
    ∃ d' ends', d.sendToAll ends msg = .ok (d', ends') ∧
      d'.Layered (fun x => A x ∧ (ends x).accepts = true)
        (fun x => (if msg.more then A x else E x) ∧ (A x → (ends x).accepts = true))
        (fun x => E x ∧ (A x → (ends x).accepts = true)) ∧
      (∀ x, d'.attached x ↔ d.attached x) ∧ d'.more = msg.more ∧
      (∀ x, d.attached x → A x → ends' x = (ends x).sent msg) ∧
      (∀ x, ¬ (d.attached x ∧ A x) → ends' x = ends x) :=
  h.matchAll.sendToMatching hsound msg

end Layered

end Dist

namespace DistSystem

structure Inv (s : DistSystem α) : Prop where
  layered : s.dist.Layered (fun x => s.dist.pipes.index x < s.dist.matching)
    (fun x => s.dist.pipes.index x < s.dist.active) (fun x => s.dist.pipes.index x < s.dist.eligible)
  sound : ∀ p, s.attached p → (s.ends p).Sound
  stalled : ∀ p, s.attached p → s.stalled p = true → ¬ s.dist.pipes.index p < s.dist.eligible
  late : ∀ p, s.attached p → s.late p = true →
    s.dist.more = true ∧ ¬ s.dist.pipes.index p < s.dist.active

variable {s : DistSystem α}

theorem Inv.of_layered {M A E : α → Prop} (h : s.dist.Layered M A E)
    (hsound : ∀ p, s.attached p → (s.ends p).Sound)
    (hstalled : ∀ p, s.attached p → s.stalled p = true → ¬ E p)
    (hlate : ∀ p, s.attached p → s.late p = true → s.dist.more = true ∧ ¬ A p) : s.Inv where
  layered := h.self
  sound := hsound
  stalled p hp hst hlt := hstalled p hp hst ((h.eligible.mem_iff p hp).1 hlt)
  late p hp hl :=
    ⟨(hlate p hp hl).1, fun hlt => (hlate p hp hl).2 ((h.active.mem_iff p hp).1 hlt)⟩

theorem inv_init [DecidableEq α] : (init : DistSystem α).Inv where
  layered := Dist.layered_init _ _ _
  sound p hp := absurd hp (by simp [attached, Dist.attached, init, Dist.init, ArrayT.empty])
  stalled _ _ hs := absurd hs (by simp [init])
  late _ _ hl := absurd hl (by simp [init])

def Allowed (s : DistSystem α) : DistOp α → Prop
  | .activated pipe => s.stalled pipe = true
  | .matchPipe _ => s.dist.more = false
  | _ => True

instance (s : DistSystem α) (op : DistOp α) : Decidable (s.Allowed op) := by
  cases op <;> unfold Allowed <;> infer_instance

theorem Inv.not_active (h : s.Inv) {p : α} (hp : s.attached p)
    (hout : s.late p = true ∨ s.stalled p = true) : ¬ s.dist.pipes.index p < s.dist.active := by
  rcases hout with hl | hst
  · exact (h.late p hp hl).2
  · have hle := h.layered.active_le
    have hge := h.stalled p hp hst
    omega

variable [DecidableEq α]
variable {p : α}

theorem Inv.noteSent (h : s.Inv) {M B : α → Prop} {bound : Nat} {msg : Msg} {d : Dist α}
    {ends : Ends α} (hB : ∀ x, s.attached x → (s.dist.pipes.index x < bound ↔ B x))
    (hlay : d.Layered M
      (fun x => (if msg.more then s.dist.pipes.index x < s.dist.active
        else s.dist.pipes.index x < s.dist.eligible) ∧ (B x → (s.ends x).accepts = true))
      (fun x => s.dist.pipes.index x < s.dist.eligible ∧ (B x → (s.ends x).accepts = true)))
    (hatt : ∀ x, d.attached x ↔ s.attached x) (hmore : d.more = msg.more)
    (hsent : ∀ x, s.attached x → B x → ends x = (s.ends x).sent msg)
    (hrest : ∀ x, ¬ (s.attached x ∧ B x) → ends x = s.ends x) :
    (s.noteSent bound msg d ends).Inv := by
  refine Inv.of_layered hlay (fun x hx => ?_) (fun x hx hst hE => ?_) fun x hx hl => ?_
  · have hx' := (hatt x).1 hx
    by_cases hBx : B x
    · have := (h.sound x hx').sent msg
      rw [← hsent x hx' hBx] at this
      exact this
    · have := h.sound x hx'
      rw [← hrest x fun hc => hBx hc.2] at this
      exact this
  · simp only [DistSystem.noteSent, Bool.or_eq_true, Bool.and_eq_true, decide_eq_true_eq,
      Bool.not_eq_true'] at hst
    rcases hst with hst | ⟨⟨hx', hlt⟩, hacc⟩
    · exact h.stalled x ((hatt x).1 hx) hst hE.1
    · have hyes := hE.2 ((hB x hx').1 hlt)
      rw [Endpoint.accepts, hacc] at hyes
      cases hyes
  · simp only [DistSystem.noteSent, Bool.and_eq_true] at hl
    refine ⟨hmore.trans hl.2, fun hA => ?_⟩
    rw [if_pos hl.2] at hA
    exact (h.late x ((hatt x).1 hx) hl.1).2 hA.1

theorem Inv.sendToMatching (h : s.Inv) (msg : Msg) :
    ∃ s', s.step (.sendToMatching msg) = .ok s' ∧ s'.Inv ∧
      (∀ x, s.attached x → s.dist.pipes.index x < s.dist.matching →
        s'.ends x = (s.ends x).sent msg) ∧
      ∀ x, ¬ (s.attached x ∧ s.dist.pipes.index x < s.dist.matching) → s'.ends x = s.ends x := by
  obtain ⟨d, ends, hsend, hlay, hatt, hmore, hsent, hrest⟩ := h.layered.sendToMatching h.sound msg
  simp only [step, hsend]
  exact ⟨_, rfl, h.noteSent (fun _ _ => Iff.rfl) hlay hatt hmore hsent hrest, hsent, hrest⟩

theorem Inv.sendToAll (h : s.Inv) (msg : Msg) :
    ∃ s', s.step (.sendToAll msg) = .ok s' ∧ s'.Inv ∧
      (∀ x, s.attached x → s.dist.pipes.index x < s.dist.active →
        s'.ends x = (s.ends x).sent msg) ∧
      ∀ x, ¬ (s.attached x ∧ s.dist.pipes.index x < s.dist.active) → s'.ends x = s.ends x := by
  obtain ⟨d, ends, hsend, hlay, hatt, hmore, hsent, hrest⟩ := h.layered.sendToAll h.sound msg
  simp only [step, hsend]
  exact ⟨_, rfl, h.noteSent (fun _ _ => Iff.rfl) hlay hatt hmore hsent hrest, hsent, hrest⟩

theorem Inv.attach (h : s.Inv) (p : α) (e : Endpoint) :
    ∃ s', s.step (.attach p e) = .ok s' ∧ s'.Inv := by
  simp only [step]
  split
  · exact ⟨s, rfl, h⟩
  next hno =>
    obtain ⟨hp, he⟩ := not_or.1 hno
    obtain ⟨d, hd, hlay, hatt, hmore⟩ := h.layered.attach hp
    simp only [hd]
    refine ⟨_, rfl, Inv.of_layered hlay (fun x hx => ?_) (fun x hx hst hE => ?_) fun x hx hl => ?_⟩
    · grind [h.sound]
    · by_cases hxp : x = p
      · subst hxp
        simp at hst
      · simp only [Function.update_of_ne hxp] at hst
        exact h.stalled x (((hatt x).1 hx).resolve_right hxp) hst (hE.resolve_left hxp)
    · by_cases hxp : x = p
      · grind
      · simp only [Function.update_of_ne hxp] at hl
        have hold := h.late x (((hatt x).1 hx).resolve_right hxp) hl
        exact ⟨hmore.trans hold.1, by simp [hxp, hold.2]⟩

theorem Inv.activated (h : s.Inv) (hst : s.stalled p = true) :
    ∃ s', s.step (.activated p) = .ok s' ∧ s'.Inv := by
  simp only [step]
  split
  next hp =>
    obtain ⟨d, hd, hlay, hatt, hmore⟩ := h.layered.activated hp (h.stalled p hp hst)
    simp only [hd]
    refine ⟨_, rfl, Inv.of_layered hlay (fun x hx => h.sound x ((hatt x).1 hx))
      (fun x hx hst hE => ?_) fun x hx hl => ?_⟩
    · by_cases hxp : x = p
      · subst hxp
        simp at hst
      · simp only [Function.update_of_ne hxp] at hst
        exact h.stalled x ((hatt x).1 hx) hst (hE.resolve_left hxp)
    · by_cases hxp : x = p
      · subst hxp
        simp only [Function.update_self] at hl
        refine ⟨hmore.trans hl, fun hA => ?_⟩
        rcases hA with hA | hA
        · exact absurd hA.2 (by simp [hl])
        · exact h.stalled x hp hst (h.layered.eligible_of_active hp hA)
      · simp only [Function.update_of_ne hxp] at hl
        have hold := h.late x ((hatt x).1 hx) hl
        exact ⟨hmore.trans hold.1, by simp [hxp, hold.2]⟩
  · exact ⟨s, rfl, h⟩

theorem Inv.matchPipe (h : s.Inv) (p : α) (hmore : s.dist.more = false) :
    ∃ s', s.step (.matchPipe p) = .ok s' ∧ s'.Inv := by
  simp only [step]
  split
  next hp =>
    obtain ⟨d, hd, hlay, hatt, hmore'⟩ := h.layered.matchPipe hp hmore
    simp only [hd]
    exact ⟨_, rfl, Inv.of_layered hlay (fun x hx => h.sound x ((hatt x).1 hx))
      (fun x hx => h.stalled x ((hatt x).1 hx))
      fun x hx hl => (h.late x ((hatt x).1 hx) hl).imp_left hmore'.trans⟩
  · exact ⟨s, rfl, h⟩

theorem Inv.terminated (h : s.Inv) (hp : s.attached p) :
    ∃ s', s.step (.terminated p) = .ok s' ∧ s'.Inv ∧ (∀ x, s'.attached x ↔ s.attached x ∧ x ≠ p) ∧
      ∀ x, s'.attached x → s'.dist.region x = s.dist.region x := by
  obtain ⟨d, hd, hlay, hatt, hmore⟩ := h.layered.terminated hp
  simp only [step, if_pos hp, hd]
  refine ⟨_, rfl, Inv.of_layered hlay (fun x hx => h.sound x ((hatt x).1 hx).1)
    (fun x hx => h.stalled x ((hatt x).1 hx).1)
    (fun x hx hl => (h.late x ((hatt x).1 hx).1 hl).imp_left hmore.trans), hatt, fun x hx => ?_⟩
  simp only [Dist.region, hlay.matching.mem_iff x hx, hlay.active.mem_iff x hx,
    hlay.eligible.mem_iff x hx]

theorem Inv.step (h : s.Inv) (op : DistOp α) (hop : s.Allowed op) :
    ∃ s', s.step op = .ok s' ∧ s'.Inv := by
  cases op with
  | attach p e => exact h.attach p e
  | activated p => exact h.activated hop
  | matchPipe p => exact h.matchPipe p hop
  | unmatch =>
    exact ⟨_, rfl, Inv.of_layered h.layered.unmatch h.sound h.stalled h.late⟩
  | terminated p => grind [h.terminated, DistSystem.step]
  | sendToAll msg =>
    obtain ⟨s', hs, hI, -⟩ := h.sendToAll msg
    exact ⟨s', hs, hI⟩
  | sendToMatching msg =>
    obtain ⟨s', hs, hI, -⟩ := h.sendToMatching msg
    exact ⟨s', hs, hI⟩
  | change p e =>
    simp only [DistSystem.step]
    split
    next he =>
      refine ⟨_, rfl, h.layered, fun x hx => ?_, h.stalled, h.late⟩
      grind [h.sound]
    · exact ⟨s, rfl, h⟩

theorem distribution_law {ops : List (DistOp α)} (hops : RunMeets step Allowed init ops) :
    ∃ s, run step init ops = .ok s ∧
      (s.dist.matching ≤ s.dist.active ∧ s.dist.active ≤ s.dist.eligible ∧
        s.dist.eligible ≤ s.dist.pipes.size ∧ s.dist.pipes.WF ∧
        (s.dist.more = false → s.dist.active = s.dist.eligible)) ∧
      (∀ msg, ∃ s', s.step (.sendToMatching msg) = .ok s' ∧
        (∀ x, s.attached x → s.dist.pipes.index x < s.dist.matching →
          s'.ends x = (s.ends x).sent msg) ∧
        (∀ x, ¬ (s.attached x ∧ s.dist.pipes.index x < s.dist.matching) → s'.ends x = s.ends x) ∧
        ∀ x, s.attached x → s.late x = true ∨ s.stalled x = true → s'.ends x = s.ends x) ∧
      (∀ msg, ∃ s', s.step (.sendToAll msg) = .ok s' ∧
        (∀ x, s.attached x → s.dist.pipes.index x < s.dist.active →
          s'.ends x = (s.ends x).sent msg) ∧
        (∀ x, ¬ (s.attached x ∧ s.dist.pipes.index x < s.dist.active) → s'.ends x = s.ends x) ∧
        ∀ x, s.attached x → s.late x = true ∨ s.stalled x = true → s'.ends x = s.ends x) ∧
      ∀ p, s.attached p → ∃ s', s.step (.terminated p) = .ok s' ∧
        (∀ x, s'.attached x ↔ s.attached x ∧ x ≠ p) ∧
        ∀ x, s'.attached x → s'.dist.region x = s.dist.region x := by
  obtain ⟨s, hrun, h⟩ := run_safe_meets (fun s op hI hop => hI.step op hop) ops _ inv_init hops
  have hle := h.layered.matching_le
  refine ⟨s, hrun, ⟨hle, h.layered.active_le, h.layered.eligible.le_size, h.layered.wf,
    h.layered.idle⟩, fun msg => ?_, fun msg => ?_, fun p hp => ?_⟩
  · obtain ⟨s', hs, -, hsent, hrest⟩ := h.sendToMatching msg
    refine ⟨s', hs, hsent, hrest, fun x hx hout => hrest x fun hc => h.not_active hx hout ?_⟩
    exact Nat.lt_of_lt_of_le hc.2 hle
  · obtain ⟨s', hs, -, hsent, hrest⟩ := h.sendToAll msg
    exact ⟨s', hs, hsent, hrest, fun x hx hout => hrest x fun hc => h.not_active hx hout hc.2⟩
  · grind [h.terminated]

def threeMessages : List (DistOp Nat) :=
  [.attach 0 (Endpoint.init 0 1 true), .attach 1 (Endpoint.init 0 0 true),
    .sendToAll ⟨false, Msg.moreFlag, [1]⟩, .attach 2 (Endpoint.init 0 0 true),
    .sendToAll ⟨false, 0, [2]⟩, .sendToAll ⟨false, 0, [3]⟩, .change 0 (Endpoint.init 0 1 true),
    .activated 0, .unmatch, .matchPipe 0, .sendToMatching ⟨false, 0, [4]⟩, .terminated 1]

theorem threeMessages_distributed :
    RunMeets step Allowed init threeMessages ∧
      ∃ s, run step init threeMessages = .ok s ∧
        s.dist.matching ≤ s.dist.active ∧ s.dist.active ≤ s.dist.eligible := by
  have hops : RunMeets step Allowed init threeMessages := by
    decide
  obtain ⟨s, hs, h, -⟩ := distribution_law hops
  exact ⟨hops, s, hs, h.1, h.2.1⟩

end DistSystem

end Libxs
