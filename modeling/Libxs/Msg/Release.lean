import Libxs.Foundation.Census
import Libxs.Msg.Content

/-! # Blocks are deallocated once -/

namespace Libxs

theorem Msg.sharedFlag_set (flags : UInt8) : (flags ||| sharedFlag) &&& sharedFlag ≠ 0 := by
  intro h
  have hbit := congrArg (fun n : UInt8 => n.toNat.testBit 7) h
  have hset : Nat.testBit 128 7 = true := by decide
  simp [sharedFlag, hset] at hbit

def Content.Counts (x : Content) (shared : Bool) (n : Int) : Prop :=
  n = if shared then (x.refcnt.toNat : Int) else 1

def Content.Settled (x : Content) (n : Int) : Prop :=
  (n = 0 → x.released = 1 ∧ x.freeCalls = x.freeCall) ∧ (n ≠ 0 → x.released = 0 ∧ x.freeCalls = [])

namespace MsgHeap

variable {ι : Type} {s t u : MsgHeap ι} {count : Nat → Int}
variable {targets : List ι} {c : Nat} {h : ι} {handles : ι → Handle}

structure Inv (s : MsgHeap ι) (count : Nat → Int) : Prop where
  census : Census (fun c h => (s.handles h).content = some c) count
  refer : ∀ h c, (s.handles h).content = some c → ∃ x, s.contents c = some x ∧
    x.Counts (s.handles h).shared (count c)
  settled : ∀ c x, s.contents c = some x → x.Settled (count c)
  unused : ∀ c, s.contents c = none ↔ s.fresh ≤ c

theorem inv_empty : Inv (empty : MsgHeap ι) fun _ => 0 where
  census := .empty (fun c h => by simp [empty, Handle.content]) fun _ => rfl
  refer h c hc := by simp [empty, Handle.content] at hc
  settled c x hx := by simp [empty] at hx
  unused c := by simp [empty]

theorem Inv.change (H : Inv s count) {x : Content} {n : Int} {fresh : Nat}
    (hcensus : Census (fun c h => (handles h).content = some c) (Function.update count c n))
    (hothers : ∀ h d, d ≠ c → (handles h).content = some d →
      ∃ h', (s.handles h').content = some d ∧ (s.handles h').shared = (handles h).shared)
    (hcounts : ∀ h, (handles h).content = some c → x.Counts (handles h).shared n)
    (hsettled : x.Settled n)
    (hfresh : ∀ d, d ≠ c → (fresh ≤ d ↔ s.fresh ≤ d)) (hc : c < fresh) :
    Inv ⟨handles, Function.update s.contents c (some x), fresh⟩ (Function.update count c n) := by
  refine ⟨hcensus, fun h d hd => ?_, fun d y hy => ?_, fun d => ?_⟩
  · grind [H.refer]
  · grind [H.settled]
  · grind [H.unused]

theorem Inv.reassign (H : Inv s count)
    (hcensus : Census (fun c h => (handles h).content = some c) count)
    (hothers : ∀ h d, (handles h).content = some d →
      ∃ h', (s.handles h').content = some d ∧ (s.handles h').shared = (handles h).shared) :
    Inv { s with handles := handles } count := by
  refine ⟨hcensus, fun h d hd => ?_, H.settled, H.unused⟩
  obtain ⟨h', hd', hflag⟩ := hothers h d hd
  obtain ⟨y, hy, hcount⟩ := H.refer h' d hd'
  exact ⟨y, hy, hflag ▸ hcount⟩

theorem Inv.deref (H : Inv s count) (hc : (s.handles h).content = some c) :
    ∃ x, s.contents c = some x ∧ s.deref (some c) = .ok (c, x) ∧ x.released = 0 ∧ x.freeCalls = [] ∧
      x.Counts (s.handles h).shared (count c) := by
  obtain ⟨x, hx, hcount⟩ := H.refer h c hc
  have hpos := H.census.pos (b := h) hc
  obtain ⟨hlive, hcalls⟩ := (H.settled c x hx).2 (by omega)
  exact ⟨x, hx, by simp [MsgHeap.deref, hx, hlive], hlive, hcalls, hcount⟩

theorem Inv.lt_fresh (H : Inv s count) (hc : (s.handles h).content = some c) : c < s.fresh := by
  obtain ⟨x, hx, -⟩ := H.refer h c hc
  by_contra hle
  rw [(H.unused c).2 (Nat.le_of_not_lt hle)] at hx
  cases hx

/-! ## What the other messages see -/

def bare : Handle → Handle
  | .invalid => .invalid
  | .vsm _ size data => .vsm 0 size data
  | .lmsg _ content => .lmsg 0 content
  | .delimiter _ => .delimiter 0

structure Frame (targets : List ι) (s t : MsgHeap ι) : Prop where
  handles : ∀ h, h ∉ targets → bare (t.handles h) = bare (s.handles h)
  contents : ∀ c x, s.contents c = some x → ∃ y, t.contents c = some y ∧ y.data = x.data ∧ y.size = x.size

theorem Frame.trans (hst : Frame targets s t) (htu : Frame targets t u) : Frame targets s u where
  handles h hh := (htu.handles h hh).trans (hst.handles h hh)
  contents c x hx := by grind [hst.contents, htu.contents]

theorem Frame.mono {targets' : List ι} (hst : Frame targets s t)
    (hsub : ∀ h ∈ targets, h ∈ targets') : Frame targets' s t :=
  ⟨fun h hh => hst.handles h fun hmem => hh (hsub h hmem), hst.contents⟩

theorem Frame.data_size {count' : Nat → Int} (hst : Frame targets s t) (H : Inv s count)
    (H' : Inv t count') (hh : h ∉ targets) : t.data h = s.data h ∧ t.size h = s.size h := by
  have hbare := hst.handles h hh
  unfold data size
  cases hs : s.handles h with
  | invalid => cases ht : t.handles h <;> simp_all [bare]
  | vsm => cases ht : t.handles h <;> simp_all [bare]
  | delimiter => cases ht : t.handles h <;> simp_all [bare]
  | lmsg flags content =>
    cases ht : t.handles h with
    | invalid => simp [hs, ht, bare] at hbare
    | vsm => simp [hs, ht, bare] at hbare
    | delimiter => simp [hs, ht, bare] at hbare
    | lmsg flags' content' =>
      obtain rfl : content' = content := by simpa [hs, ht, bare] using hbare
      cases content' with
      | none => simp [deref]
      | some c =>
        obtain ⟨x, hx, hderef, -⟩ := H.deref (h := h) (c := c) (by rw [hs]; rfl)
        obtain ⟨y, hy, hderef', -⟩ := H'.deref (h := h) (c := c) (by rw [ht]; rfl)
        obtain ⟨z, hz, hdata, hsize⟩ := hst.contents c x hx
        obtain rfl : z = y := Option.some.inj (hz.symm.trans hy)
        simp [hderef, hderef', hdata, hsize]

variable [DecidableEq ι]
variable {x y : Content} {v : Handle} {c : Nat} {h src : ι}

theorem frame_setHandle (s : MsgHeap ι) (h : ι) (v : Handle) : Frame [h] s (s.setHandle h v) where
  handles h' hh := by simp [setHandle, List.mem_singleton.not.1 hh]
  contents c x hx := ⟨x, hx, rfl, rfl⟩

theorem frame_setFlags {flags : UInt8} {content : Option Nat} (hs : s.handles h = .lmsg flags content)
    (flags' : UInt8) : Frame [] s (s.setHandle h (.lmsg flags' content)) where
  handles h' _ := by
    by_cases hh : h' = h
    · simp [hh, hs, bare]
    · simp [hh]
  contents c x hx := ⟨x, hx, rfl, rfl⟩

omit [DecidableEq ι] in
theorem frame_store (hx : s.contents c = some x) (hdata : y.data = x.data)
    (hsize : y.size = x.size) : Frame [] s (s.store c y) where
  handles h _ := rfl
  contents d z hz := by
    by_cases hd : d = c
    · subst hd
      obtain rfl := Option.some.inj (hx.symm.trans hz)
      exact ⟨y, by simp [store], hdata, hsize⟩
    · exact ⟨z, by simpa [store, hd] using hz, rfl, rfl⟩

omit [DecidableEq ι] in
theorem frame_allocate (hfresh : s.contents s.fresh = none) (x : Nat → Content) :
    Frame [] s (s.allocate x) where
  handles h _ := rfl
  contents c y hy := by
    have hne : c ≠ s.fresh := by grind
    exact ⟨y, by simpa [allocate, hne] using hy, rfl, rfl⟩

/-! ## The references after an assignment to a handle -/

theorem content_update (handles : ι → Handle) (h h' : ι) (v : Handle) (c : Nat) :
    (Function.update handles h v h').content = some c ↔
      (h' = h ∧ v.content = some c) ∨ (h' ≠ h ∧ (handles h').content = some c) := by
  grind

theorem Inv.setHandle (H : Inv s count) (hold : (s.handles h).content = none)
    (hnew : v.content = none) : Inv (s.setHandle h v) count := by
  have hcontent : ∀ h' c, (Function.update s.handles h v h').content = some c ↔
      (s.handles h').content = some c := by
    intro h' c
    rw [content_update]
    grind
  refine H.reassign (H.census.congr fun c h' => hcontent h' c) fun h' d hd => ?_
  have hne : h' ≠ h := by
    rintro rfl
    rw [hcontent, hold] at hd
    cases hd
  exact ⟨h', (hcontent h' d).1 hd, by rw [Function.update_of_ne hne]⟩

theorem others_update (hv : ∀ d, v.content = some d → d = c) (h' : ι) (d : Nat)
    (hd : d ≠ c) (hc : (Function.update s.handles h v h').content = some d) :
    ∃ h'', (s.handles h'').content = some d ∧
      (s.handles h'').shared = (Function.update s.handles h v h').shared := by
  grind

theorem Inv.allocate (H : Inv s count) (hold : (s.handles h).content = none) {x : Nat → Content}
    (hx : (x s.fresh).released = 0 ∧ (x s.fresh).freeCalls = []) :
    ∃ count', Inv ((s.setHandle h (.lmsg 0 (some s.fresh))).allocate x) count' := by
  have hnone : ∀ h', (s.handles h').content ≠ some s.fresh := fun h' hc =>
    Nat.lt_irrefl _ (H.lt_fresh hc)
  have hzero : count s.fresh = 0 := by
    by_contra hne
    obtain ⟨h', hc⟩ := H.census.exists_of_pos (lt_of_le_of_ne (H.census.nonneg _) (Ne.symm hne))
    exact hnone h' hc
  have hcensus : Census (fun c h' => (Function.update s.handles h (.lmsg 0 (some s.fresh)) h').content =
      some c) (Function.update count s.fresh (count s.fresh + 1)) := by
    refine H.census.insert _ s.fresh h (hnone h) fun c h' => ?_
    rw [content_update]
    by_cases hh : h' = h
    · subst hh
      simp only [true_and, ne_eq, not_true, false_and, or_false, hold, and_true, reduceCtorEq, false_or]
      exact ⟨fun hc => (Option.some.inj hc).symm, fun hc => congrArg some hc.symm⟩
    · simp [hh]
  rw [hzero] at hcensus
  have hcounts : ∀ h', (Function.update s.handles h (.lmsg 0 (some s.fresh)) h').content = some s.fresh →
      (x s.fresh).Counts (Function.update s.handles h (.lmsg 0 (some s.fresh)) h').shared (0 + 1) := by
    intro h' hc
    rcases (content_update ..).1 hc with ⟨rfl, -⟩ | ⟨-, hc⟩
    · simp [Content.Counts, Handle.shared]
    · exact absurd hc (hnone h')
  have hfresh : ∀ d, d ≠ s.fresh → (s.fresh + 1 ≤ d ↔ s.fresh ≤ d) := fun d hd => by omega
  exact ⟨_, H.change hcensus (others_update fun d hd => (Option.some.inj hd).symm) hcounts
    ⟨by simp, fun _ => hx⟩ hfresh (Nat.lt_succ_self s.fresh)⟩

theorem Inv.initLong (H : Inv s count) (hold : (s.handles h).content = none)
    (data : Nat → MsgData) (size : UInt64) (ffn : Option Nat) (hint : Nat) :
    let t := (s.setHandle h (.lmsg 0 (some s.fresh))).allocate fun c => .create (data c) size ffn hint
    (∃ count', Inv t count') ∧ Frame [h] s t := by
  refine ⟨H.allocate hold ⟨rfl, rfl⟩, ?_⟩
  have hfresh : s.contents s.fresh = none := (H.unused _).2 (Nat.le_refl _)
  have hset := frame_setHandle s h (.lmsg 0 (some s.fresh))
  exact hset.trans ((frame_allocate (s := s.setHandle h _) hfresh _).mono (by simp))

theorem Inv.drop (H : Inv s count) (hc : (s.handles h).content = some c)
    (hcounts : ∀ h', h' ≠ h → (s.handles h').content = some c →
      x.Counts (s.handles h').shared (count c - 1))
    (hsettled : x.Settled (count c - 1)) :
    Inv ((s.store c x).setHandle h .invalid) (Function.update count c (count c - 1)) := by
  have hcensus : Census (fun d h' => (Function.update s.handles h .invalid h').content = some d)
      (Function.update count c (count c - 1)) := by
    refine H.census.erase _ c h hc fun d h' => ?_
    rw [content_update]
    grind [Handle.content_invalid]
  refine H.change hcensus (others_update fun d hd => absurd hd (by simp)) (fun h' hc' => ?_)
    hsettled (fun _ _ => Iff.rfl) ?_
  · rcases (content_update ..).1 hc' with ⟨-, hc'⟩ | ⟨hh, hc'⟩
    · cases hc'
    · rw [Function.update_of_ne hh]
      exact hcounts h' hh hc'
  · exact H.lt_fresh hc

omit [DecidableEq ι] in
theorem Inv.shared_of_ne (H : Inv s count) {h' : ι} (hne : h' ≠ h)
    (hc : (s.handles h).content = some c) (hc' : (s.handles h').content = some c) :
    (s.handles h').shared = true := by
  obtain ⟨x, -, hcounts⟩ := H.refer h' c hc'
  by_contra hshared
  unfold Content.Counts at hcounts
  rw [if_neg hshared] at hcounts
  exact hne (H.census.unique hcounts hc' hc)

theorem Inv.share (H : Inv s count) {handles : ι → Handle}
    (hold : (s.handles h).content = none) (hc : (s.handles src).content = some c)
    (hnew : (handles h).content = some c ∧ (handles h).shared = true)
    (hsrc : (handles src).content = some c ∧ (handles src).shared = true)
    (hsame : ∀ h', h' ≠ h → h' ≠ src → handles h' = s.handles h')
    (hrefcnt : (y.refcnt.toNat : Int) = count c + 1) (hlive : y.released = 0 ∧ y.freeCalls = []) :
    Inv ⟨handles, Function.update s.contents c (some y), s.fresh⟩
      (Function.update count c (count c + 1)) := by
  have hcontent : ∀ h' d, (handles h').content = some d ↔
      (s.handles h').content = some d ∨ (d = c ∧ h' = h) := by
    intro h' d
    by_cases hh : h' = h
    · subst hh
      simp [hold, hnew.1, eq_comm]
    · by_cases hs : h' = src
      · subst hs
        simp [hc, hsrc.1, hh]
      · simp [hh, hsame h' hh hs]
  have hcensus := H.census.insert _ c h (by simp [hold]) fun d h' => hcontent h' d
  refine H.change hcensus (fun h' d hd hc' => ?_) (fun h' hc' => ?_) ⟨fun hzero => ?_, fun _ => hlive⟩
    (fun _ _ => Iff.rfl) ?_
  · have hother : ∀ {k : ι}, (handles k).content = some c → h' ≠ k := by
      rintro k hk rfl
      exact hd (Option.some.inj (hc'.symm.trans hk))
    rw [hsame h' (hother hnew.1) (hother hsrc.1)] at hc' ⊢
    exact ⟨h', hc', rfl⟩
  · have hset : (handles h').shared = true := by
      by_cases hh : h' = h
      · exact hh ▸ hnew.2
      · by_cases hs : h' = src
        · exact hs ▸ hsrc.2
        · rw [hsame h' hh hs] at hc' ⊢
          exact H.shared_of_ne hs hc hc'
    rw [Content.Counts, if_pos hset, hrefcnt]
  · have := H.census.nonneg c
    omega
  · exact H.lt_fresh hc

/-! ## The calls -/

theorem Inv.close (H : Inv s count) (hinit : (s.handles h).initialised = true) :
    ∃ t count', s.close h = .ok (.ok (), t) ∧ Inv t count' ∧ Frame [h] s t ∧
      t.handles = Function.update s.handles h .invalid := by
  unfold MsgHeap.close
  split
  next hs => rw [hs] at hinit; exact absurd hinit (by simp [Handle.initialised])
  next flags content hs =>
    obtain ⟨c, rfl⟩ : ∃ c, content = some c := by
      rw [hs] at hinit
      exact Option.isSome_iff_exists.1 hinit
    have hc : (s.handles h).content = some c := by rw [hs]; rfl
    obtain ⟨x, hx, hderef, hlive, hcalls, hcounts⟩ := H.deref hc
    have hshared : (s.handles h).shared = (flags &&& Msg.sharedFlag != 0) := by rw [hs]; rfl
    rw [hshared] at hcounts
    have hframe : ∀ {y : Content}, y.data = x.data → y.size = x.size →
        Frame [h] s ((s.store c y).setHandle h .invalid) := fun hdata hsize =>
      ((frame_store hx hdata hsize).mono (by simp)).trans (frame_setHandle ..)
    simp only [dropRef, hderef]
    by_cases hflag : flags &&& Msg.sharedFlag = 0
    · -- the only reference
      have hone : count c = 1 := by simpa [Content.Counts, hflag] using hcounts
      rw [if_pos hflag]
      refine ⟨_, _, rfl, H.drop hc (fun h' hne hc' => ?_) ?_, hframe rfl rfl, rfl⟩
      · exact absurd (H.census.unique hone hc' hc) hne
      · simp [Content.Settled, hone, Content.release, hlive, hcalls, Content.freeCall]
    · have hcount : count c = x.refcnt.toNat := by simpa [Content.Counts, hflag] using hcounts
      have hpos := H.census.pos (b := h) hc
      have hle : (1 : UInt32) ≤ x.refcnt := UInt32.le_iff_toNat_le.2 (by simp; omega)
      have hsub : ((x.refcnt - 1).toNat : Int) = count c - 1 := by
        rw [UInt32.toNat_sub_of_le _ _ hle, hcount]
        simp
        omega
      have hothers : ∀ {y : Content}, y.refcnt = x.refcnt - 1 → ∀ h', h' ≠ h →
          (s.handles h').content = some c → y.Counts (s.handles h').shared (count c - 1) := by
        intro y hy h' hne hc'
        rw [Content.Counts, if_pos (H.shared_of_ne hne hc hc'), hy, hsub]
      rw [if_neg hflag]
      by_cases hlast : x.refcnt - 1 = 0
      · have hzero : count c - 1 = 0 := by rw [← hsub, hlast]; rfl
        simp only [hlast, if_true]
        refine ⟨_, _, rfl, H.drop hc (hothers hlast.symm) ?_, hframe rfl rfl, rfl⟩
        simp [Content.Settled, hzero, Content.release, hlive, hcalls, Content.freeCall]
      · have hmore : count c - 1 ≠ 0 := by
          intro hzero
          rw [hzero] at hsub
          exact hlast (UInt32.toNat_inj.1 (by simpa using hsub))
        simp only [hlast, if_false]
        refine ⟨_, _, rfl, H.drop hc (hothers rfl) ?_, hframe rfl rfl, rfl⟩
        exact ⟨fun hzero => absurd hzero hmore, fun _ => ⟨hlive, hcalls⟩⟩
  next v hinvalid hlong =>
    have hold : (s.handles h).content = none := by
      cases hv : s.handles h with
      | lmsg flags content => exact absurd hv (hlong flags content)
      | _ => rfl
    exact ⟨_, _, rfl, H.setHandle hold rfl, frame_setHandle .., rfl⟩

theorem Inv.moveFrom (H : Inv s count) (hne : h ≠ src) (hold : (s.handles h).content = none) :
    Inv (s.moveFrom h src) count ∧ Frame [h, src] s (s.moveFrom h src) := by
  have hhandles : ∀ h', ((s.moveFrom h src).handles h').content =
      (s.handles (Equiv.swap h src h')).content := by
    intro h'
    by_cases hs : h' = src
    · simp [hs, MsgHeap.moveFrom, MsgHeap.init, hold]
    · by_cases hh : h' = h
      · simp [hh, hne, MsgHeap.moveFrom, MsgHeap.init]
      · simp [hh, hs, MsgHeap.moveFrom, MsgHeap.init, Equiv.swap_apply_of_ne_of_ne]
  refine ⟨H.reassign ((H.census.comp_equiv (Equiv.swap h src)).congr fun c h' => ?_) fun h' d hd => ?_, ?_⟩
  · exact Eq.congr_left (hhandles h')
  · refine ⟨Equiv.swap h src h', (hhandles h').symm.trans hd, ?_⟩
    by_cases hs : h' = src
    · simp [hs] at hd
    · by_cases hh : h' = h
      · simp [hh, hne]
      · simp [hh, hs, Equiv.swap_apply_of_ne_of_ne]
  · exact ((frame_setHandle ..).mono (by simp)).trans ((frame_setHandle ..).mono (by simp))

omit [DecidableEq ι] in
theorem Inv.refs_lt [Fintype ι] (hcard : Fintype.card ι < 2 ^ 32) (H : Inv s count)
    (hnot : (s.handles h).content ≠ some c) : count c + 1 < 2 ^ 32 := by
  have hlt : (Finset.univ.filter fun h' => (s.handles h').content = some c).card < Fintype.card ι :=
    Finset.card_lt_univ_of_notMem (x := h) (by simp [hnot])
  rw [H.census.eq_card c]
  omega

theorem Inv.copyFrom [Fintype ι] (hcard : Fintype.card ι < 2 ^ 32) (H : Inv s count)
    (hne : h ≠ src) (hold : (s.handles h).content = none) (hsrc : (s.handles src).initialised = true) :
    ∃ t count', s.copyFrom h src = .ok t ∧ Inv t count' ∧ Frame [h] s t := by
  unfold MsgHeap.copyFrom
  split
  next flags content hs =>
    obtain ⟨c, rfl⟩ : ∃ c, content = some c := by
      rw [hs] at hsrc
      exact Option.isSome_iff_exists.1 hsrc
    have hc : (s.handles src).content = some c := by rw [hs]; rfl
    obtain ⟨x, hx, hderef, hlive, hcalls, hcounts⟩ := H.deref hc
    have hshared : (s.handles src).shared = (flags &&& Msg.sharedFlag != 0) := by rw [hs]; rfl
    rw [hshared] at hcounts
    simp only [addRef, hderef]
    by_cases hflag : flags &&& Msg.sharedFlag = 0
    · have hone : count c = 1 := by simpa [Content.Counts, hflag] using hcounts
      have hset := Msg.sharedFlag_set flags
      rw [if_pos hflag]
      refine ⟨_, _, rfl, H.share hold hc ?_ ?_ (fun h' hh hs' => ?_) ?_ ⟨hlive, hcalls⟩, ?_⟩
      · simp [Handle.shared, hset]
      · simp [Handle.shared, hset, hne.symm]
      · simp [hh, hs']
      · simp [hone]
      · have hflags := frame_setFlags hs (flags ||| Msg.sharedFlag)
        have hstore : Frame [] (s.setHandle src (.lmsg (flags ||| Msg.sharedFlag) (some c)))
            ((s.setHandle src (.lmsg (flags ||| Msg.sharedFlag) (some c))).store c { x with refcnt := 2 }) :=
          frame_store hx rfl rfl
        exact ((hflags.trans hstore).mono (by simp)).trans (frame_setHandle ..)
    · have hcount : count c = x.refcnt.toNat := by simpa [Content.Counts, hflag] using hcounts
      have hlt := H.refs_lt hcard (h := h) (c := c) (by simp [hold])
      rw [if_neg hflag]
      refine ⟨_, _, rfl, H.share hold hc ?_ ?_ (fun h' hh hs' => ?_) ?_ ⟨hlive, hcalls⟩, ?_⟩
      · simp [Handle.shared, hflag, hs]
      · simp [Handle.shared, hflag, hs, hne.symm]
      · simp [hh]
      · rw [UInt32.toNat_add, hcount]
        simp
        omega
      · have hstore : Frame [] s (s.store c { x with refcnt := x.refcnt + 1 }) := frame_store hx rfl rfl
        exact (hstore.mono (by simp)).trans (frame_setHandle ..)
  next hlong =>
    have hsrc' : (s.handles src).content = none := by
      cases hv : s.handles src with
      | lmsg flags content => exact absurd hv (hlong flags content)
      | _ => rfl
    exact ⟨_, _, rfl, H.setHandle hold hsrc', frame_setHandle ..⟩

omit [DecidableEq ι] in
theorem content_of_not_initialised (hinit : (s.handles h).initialised = false) :
    (s.handles h).content = none := by
  cases hs : s.handles h with
  | lmsg flags content => simpa [hs, Handle.initialised] using hinit
  | _ => rfl

omit [DecidableEq ι] in
theorem check_of_initialised (hinit : (s.handles h).initialised = true) :
    (s.handles h).check = true := by
  cases hs : s.handles h with
  | invalid => simp [hs, Handle.initialised] at hinit
  | _ => rfl

end MsgHeap

def MsgOp.Fits {ι : Type} : MsgOp ι → Prop
  | .initSize _ size _ granted =>
    size.toNat ≤ Msg.maxVsmSize ∨ granted = false ∨ Msg.contentSize + size.toNat < 2 ^ 64
  | _ => True

instance {ι : Type} : ∀ op : MsgOp ι, Decidable op.Fits
  | .initSize _ _ _ _ => inferInstanceAs (Decidable (_ ∨ _ ∨ _))
  | .init _ | .initData _ _ _ _ _ _ | .initDelimiter _ | .close _ | .move _ _ | .copy _ _ =>
    inferInstanceAs (Decidable True)

namespace MsgHeap

variable {ι : Type} [DecidableEq ι] {s t : MsgHeap ι} {count : Nat → Int}
variable {op : MsgOp ι}

theorem initSize_of_fits {h : ι} {size : UInt64} {left : List UInt8} {granted : Bool}
    (hfits : (MsgOp.initSize h size left granted).Fits) :
    (s.initSize h size left granted = .ok (.ok (), s.setHandle h (.vsm 0 size left))) ∨
    (s.initSize h size left granted = .ok (.error .enomem, s.setHandle h (.lmsg 0 none))) ∨
    (s.initSize h size left granted = .ok (.ok (), (s.setHandle h (.lmsg 0 (some s.fresh))).allocate
      fun c => .create (.trailer c) size none 0)) := by
  unfold initSize
  by_cases hshort : size.toNat ≤ Msg.maxVsmSize
  · exact .inl (if_pos hshort)
  · right
    rw [if_neg hshort]
    cases granted with
    | false => exact .inl (by simp [Msg.initSize, hshort])
    | true =>
      have hsum : Msg.contentSize + size.toNat < 2 ^ 64 := by
        simpa [MsgOp.Fits, hshort] using hfits
      rw [Msg.Allocates.initSize (.inr ⟨hsum, rfl⟩)]
      exact .inr rfl

theorem not_ok_of_not_fits (hfits : ¬ op.Fits) : s.step op ≠ .ok t := by
  cases op with
  | initSize h size left granted =>
    simp only [MsgOp.Fits, not_or, Nat.not_lt, Bool.not_eq_false] at hfits
    obtain ⟨hlong, rfl, hwraps⟩ := hfits
    have hblock : (Msg.contentSize + size.toNat) % 2 ^ 64 < Msg.contentSize := by
      have := size.toNat_lt
      unfold Msg.contentSize at hwraps ⊢
      omega
    have hsize : Msg.initSize (fun _ => true) size.toNat = .error .blockTooSmall := by
      simp only [Msg.initSize, if_neg hlong, Bool.not_true, Bool.false_eq_true, if_false,
        if_pos hblock]
    simp [step, initSize, hlong, hsize, Except.map]
  | _ => exact absurd trivial hfits

theorem Inv.step [Fintype ι] (hcard : Fintype.card ι < 2 ^ 32) (H : Inv s count)
    (hfits : op.Fits) (hlegal : s.Legal op) :
    ∃ t count', s.step op = .ok t ∧ Inv t count' ∧ Frame op.targets s t := by
  cases op with
  | init h => exact ⟨_, _, rfl, H.setHandle (content_of_not_initialised hlegal) rfl, frame_setHandle ..⟩
  | initDelimiter h =>
    exact ⟨_, _, rfl, H.setHandle (content_of_not_initialised hlegal) rfl, frame_setHandle ..⟩
  | initSize h size left granted =>
    have hold := content_of_not_initialised hlegal
    rcases initSize_of_fits (s := s) hfits with hstep | hstep | hstep
    · exact ⟨_, _, by rw [step, hstep]; rfl, H.setHandle hold rfl, frame_setHandle ..⟩
    · exact ⟨_, _, by rw [step, hstep]; rfl, H.setHandle hold rfl, frame_setHandle ..⟩
    · obtain ⟨⟨count', hinv⟩, hframe⟩ := H.initLong hold .trailer size none 0
      exact ⟨_, count', by rw [step, hstep]; rfl, hinv, hframe⟩
  | initData h data size ffn hint granted =>
    have hold := content_of_not_initialised hlegal
    cases granted with
    | false => exact ⟨_, _, rfl, H.setHandle hold rfl, frame_setHandle ..⟩
    | true =>
      obtain ⟨⟨count', hinv⟩, hframe⟩ := H.initLong hold (fun _ => .user data) size ffn hint
      exact ⟨_, count', rfl, hinv, hframe⟩
  | close h =>
    obtain ⟨t, count', hclose, hinv, hframe, -⟩ := H.close hlegal
    exact ⟨t, count', by rw [step, hclose]; rfl, hinv, hframe⟩
  | move h src =>
    obtain ⟨hne, hinit, hsrc⟩ := hlegal
    obtain ⟨t, count', hclose, hinv, hframe, hhandles⟩ := H.close hinit
    have hold : (t.handles h).content = none := by simp [hhandles]
    obtain ⟨hmoved, hframe'⟩ := hinv.moveFrom hne hold
    refine ⟨_, count', ?_, hmoved, (hframe.mono (by simp [MsgOp.targets])).trans hframe'⟩
    simp [step, move, check_of_initialised hsrc, hclose, Except.map]
  | copy h src =>
    obtain ⟨hne, hinit, hsrc⟩ := hlegal
    obtain ⟨t, count', hclose, hinv, hframe, hhandles⟩ := H.close hinit
    have hold : (t.handles h).content = none := by simp [hhandles]
    have hsrc' : (t.handles src).initialised = true := by
      rw [hhandles, Function.update_of_ne hne.symm]
      exact hsrc
    obtain ⟨u, count'', hcopy, hshared, hframe'⟩ := hinv.copyFrom hcard hne hold hsrc'
    refine ⟨u, count'', ?_, hshared, hframe.trans hframe'⟩
    simp [step, copy, check_of_initialised hsrc, hclose, hcopy, Except.map]

variable [Fintype ι]

omit [DecidableEq ι] in
theorem Inv.refs_eq (H : Inv s count) (c : Nat) : (s.refs c : Int) = count c :=
  (H.census.eq_card c).symm

omit [DecidableEq ι] in
theorem Inv.accounted (H : Inv s count) : s.Accounted where
  counted h c hc := by
    obtain ⟨x, hx, hcounts⟩ := H.refer h c hc
    refine ⟨x, hx, ?_⟩
    rw [Content.Counts, ← H.refs_eq c] at hcounts
    grind
  released c x hx := by
    obtain ⟨hzero, hmore⟩ := H.settled c x hx
    rw [← H.refs_eq c] at hzero hmore
    exact ⟨fun h => hzero (by exact_mod_cast h), fun h => hmore (by exact_mod_cast h)⟩

def Undisturbed (s : MsgHeap ι) (op : MsgOp ι) : Prop :=
  ∀ t, s.step op = .ok t → ∀ h ∉ op.targets, t.data h = s.data h ∧ t.size h = s.size h

/-- **Blocks are deallocated once**, namely when the last message that refers to them is closed or
    overwritten, exactly if no call asks for a block whose size wraps around. -/
theorem releases_iff (hcard : Fintype.card ι < 2 ^ 32) (ops : List (MsgOp ι))
    (hlegal : RunMeets step Legal empty ops) :
    (∃ s : MsgHeap ι, run step empty ops = .ok s ∧ s.Accounted ∧ RunMeets step Undisturbed empty ops) ↔
      ∀ op ∈ ops, op.Fits := by
  constructor
  · rintro ⟨s, hrun, -⟩
    refine forall_of_run_ok (fun s op t hs => ?_) hrun
    by_contra hfits
    exact not_ok_of_not_fits hfits hs
  · intro hfits
    have hmeets := hlegal.and_forall hfits
    have hstep : ∀ (s : MsgHeap ι) op, (∃ count, Inv s count) → op.Fits ∧ s.Legal op →
        ∃ t, s.step op = .ok t ∧ ∃ count, Inv t count := by
      rintro s op ⟨count, H⟩ ⟨hfit, hleg⟩
      obtain ⟨t, count', hs, hinv, -⟩ := H.step hcard hfit hleg
      exact ⟨t, hs, count', hinv⟩
    obtain ⟨s, hrun, count, H⟩ := run_safe_meets hstep ops empty ⟨_, inv_empty⟩ hmeets
    refine ⟨s, hrun, H.accounted, ?_⟩
    refine RunMeets.mono_of_invariant (I := fun s => ∃ count, Inv s count) ?_ ?_ ⟨_, inv_empty⟩ hmeets
    · intro s op t hI hc hs
      obtain ⟨t', hs', hI'⟩ := hstep s op hI hc
      obtain rfl := Except.ok.inj (hs.symm.trans hs')
      exact hI'
    · rintro s op ⟨count, H⟩ ⟨hfit, hleg⟩ t hs h hh
      obtain ⟨t', count', hs', H', hframe⟩ := H.step hcard hfit hleg
      obtain rfl := Except.ok.inj (hs.symm.trans hs')
      exact hframe.data_size H H' hh

def copyMoveClose : List (MsgOp (Fin 3)) :=
  [.initData 0 1000 5 (some 7) 42 true, .init 1, .copy 1 0, .init 2, .move 2 0, .close 1, .close 2]

theorem copyMoveClose_releases : ∃ s : MsgHeap (Fin 3), run step empty copyMoveClose = .ok s ∧
    s.Accounted ∧ s.contents 0 = some ⟨.user 1000, 5, some 7, 42, 0, 1, [⟨7, .user 1000, 42⟩]⟩ := by
  obtain ⟨s, hrun, haccounted, -⟩ := (releases_iff (by decide) copyMoveClose (by decide)).2 (by decide)
  have hcontents : (run step empty copyMoveClose).map (fun s : MsgHeap (Fin 3) => s.contents 0) =
      .ok (some ⟨.user 1000, 5, some 7, 42, 0, 1, [⟨7, .user 1000, 42⟩]⟩) := by decide
  rw [hrun] at hcontents
  exact ⟨s, hrun, haccounted, Except.ok.inj hcontents⟩

def wrappingSize : MsgOp (Fin 1) := .initSize 0 18446744073709551576 [] true

theorem wrappingSize_faults : RunMeets step Legal empty [wrappingSize] ∧
    run step empty [wrappingSize] = .error .blockTooSmall := by
  have hsize : (18446744073709551576 : UInt64).toNat = 18446744073709551576 := by decide
  have hstep : step empty wrappingSize = .error .blockTooSmall := by
    simp [step, wrappingSize, initSize, Msg.initSize, hsize, Msg.maxVsmSize, Msg.contentSize, Except.map]
  exact ⟨⟨rfl, fun t ht => absurd (hstep.symm.trans ht) (by simp)⟩, by simp [run, hstep]⟩

end MsgHeap

end Libxs
