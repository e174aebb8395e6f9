import Libxs.Foundation.Polling
import Libxs.Router

/-! # Asking a router before receiving -/

namespace Libxs

variable {κ α : Type}

namespace Fq

variable [DecidableEq α] {fq fq' : Fq α} {ends ends' : Ends α}

theorem deactivate_active (h : fq.deactivate = .ok fq') : fq'.active = fq.active - 1 := by
  unfold deactivate withRotor Rotor.deactivate at h
  grind

theorem recvLoop_drained : ∀ (count : Nat) {fq : Fq α} {ends : Ends α}, fq.active = count →
    recvLoop count fq ends = .ok (none, fq', ends') → fq'.active = 0 := by
  intro count
  induction count with
  | zero => grind [recvLoop]
  | succ count ih =>
    intro fq ends hact hr
    simp only [recvLoop] at hr
    split at hr
    · cases hr
    · split at hr
      · cases hr
      · cases hr
      · split at hr
        · cases hr
        · split at hr
          · cases hr
          next hde =>
            have hone := deactivate_active hde
            exact ih (by omega) hr

theorem recvpipe_again (h : fq.recvpipe ends = .ok (none, fq', ends')) :
    fq'.active = 0 ∧ ∀ ends, fq'.recvpipe ends = .ok (none, fq', ends) := by
  have hact := recvLoop_drained fq.active rfl h
  refine ⟨hact, fun ends => ?_⟩
  unfold recvpipe
  rw [hact]
  rfl

end Fq

namespace Router

variable {s t : Router κ α} {ends ends' : Ends α}
variable {x y : Router κ α × Ends α}

structure Same (x y : Router κ α × Ends α) : Prop where
  ends : y.2 = x.2
  state : y.1 = { x.1 with prefetchedId := y.1.prefetchedId }
  ahead : x.1.prefetched = .idAndBody → y.1.prefetchedId = x.1.prefetchedId

theorem same_prefetched (h : Same x y) : y.1.prefetched = x.1.prefetched := by rw [h.state]

theorem same_moreIn (h : Same x y) : y.1.moreIn = x.1.moreIn := by
  rw [h.state]

theorem same_equivalence : Equivalence (Same : Router κ α × Ends α → Router κ α × Ends α → Prop) where
  refl _ := ⟨rfl, rfl, fun _ => rfl⟩
  symm {x y} h := by
    refine ⟨h.ends.symm, ?_, fun ha => (h.ahead (same_prefetched h ▸ ha)).symm⟩
    rw [h.state]
  trans {x y z} h h' := by
    refine ⟨h'.ends.trans h.ends, ?_, fun ha => ?_⟩
    · rw [h'.state, h.state]
    · rw [h'.ahead (same_prefetched h ▸ ha), h.ahead ha]

theorem same_withId (s : Router κ α) (ends : Ends α) (id : List UInt8)
    (h : s.prefetched ≠ .idAndBody) : Same (s, ends) ({ s with prefetchedId := id }, ends) :=
  ⟨rfl, rfl, fun ha => absurd ha h⟩

theorem Same.eq_of_ahead (h : Same x y) (ha : x.1.prefetched = .idAndBody) : y = x := by
  refine Prod.ext ?_ h.ends
  rw [h.state, h.ahead ha]

theorem takePrefetched_nothing (hp : s.prefetched = .nothing) : s.takePrefetched = none := by
  simp only [takePrefetched, hp]

theorem takePrefetched_idAndBody (hp : s.prefetched = .idAndBody) :
    s.takePrefetched = some (idPart s.prefetchedId, { s with prefetched := .body }) := by
  simp only [takePrefetched, hp]

theorem takePrefetched_body (hp : s.prefetched = .body) :
    s.takePrefetched = some (s.prefetchedMsg, { s with
      prefetchedMsg := Msg.init, moreIn := s.prefetchedMsg.more, prefetched := .nothing }) := by
  simp only [takePrefetched, hp]

variable {xrecv : Router κ α → Ends α → Except Fault (Option Msg × Router κ α × Ends α)}

def pollable (xrecv : Router κ α → Ends α → Except Fault (Option Msg × Router κ α × Ends α)) :
    Pollable Fault (Router κ α × Ends α) Msg where
  recv := fun x => xrecv x.1 x.2
  poll := fun x => xhasIn xrecv x.1 x.2

structure Fetches (xrecv : Router κ α → Ends α → Except Fault (Option Msg × Router κ α × Ends α)) :
    Prop where
  ahead : ∀ {s t : Router κ α} (ends : Ends α) {msg : Msg}, s.takePrefetched = some (msg, t) →
    xrecv s ends = .ok (some msg, t, ends)
  stale : ∀ {s : Router κ α} (ends : Ends α) (id : List UInt8), s.prefetched = .nothing →
    xrecv { s with prefetchedId := id } ends =
      (xrecv s ends).map fun x => (x.1, { x.2.1 with prefetchedId := id }, x.2.2)
  handedOut : ∀ {s t : Router κ α} {ends ends' : Ends α} {r : Option Msg},
    s.prefetched = .nothing → xrecv s ends = .ok (r, t, ends') → t.prefetched ≠ .idAndBody
  again : ∀ {s t : Router κ α} {ends ends' : Ends α}, s.prefetched = .nothing →
    xrecv s ends = .ok (none, t, ends') →
    t.prefetched = .nothing ∧ t.moreIn = s.moreIn ∧ xrecv t ends' = .ok (none, t, ends')
  first : ∀ {s t : Router κ α} {ends ends' : Ends α} {msg : Msg}, s.prefetched = .nothing →
    s.moreIn = false → xrecv s ends = .ok (some msg, t, ends') →
    msg = idPart msg.data ∧ t.prefetched = .body ∧ t.moreIn = false

inductive HasIn (xrecv : Router κ α → Ends α → Except Fault (Option Msg × Router κ α × Ends α))
    (s : Router κ α) (ends : Ends α) : Except Fault (Bool × Router κ α × Ends α) → Prop where
  | ready : s.moreIn = true ∨ s.prefetched ≠ .nothing → HasIn xrecv s ends (.ok (true, s, ends))
  | fails {err : Fault} : s.moreIn = false → s.prefetched = .nothing →
      xrecv s ends = .error err → HasIn xrecv s ends (.error err)
  | nothing {t : Router κ α} {ends' : Ends α} : s.moreIn = false → s.prefetched = .nothing →
      xrecv s ends = .ok (none, t, ends') → HasIn xrecv s ends (.ok (false, t, ends'))
  | fetched {msg : Msg} {t : Router κ α} {ends' : Ends α} : s.moreIn = false →
      s.prefetched = .nothing → xrecv s ends = .ok (some msg, t, ends') →
      HasIn xrecv s ends
        (.ok (true, { t with prefetchedId := msg.data, prefetched := .idAndBody }, ends'))

theorem hasIn_xhasIn
    (xrecv : Router κ α → Ends α → Except Fault (Option Msg × Router κ α × Ends α))
    (s : Router κ α) (ends : Ends α) : HasIn xrecv s ends (xhasIn xrecv s ends) := by
  unfold xhasIn
  split
  next hm => exact .ready (Or.inl hm)
  next hm =>
    rw [Bool.not_eq_true] at hm
    split
    next hp => exact .ready (Or.inr hp)
    next hp =>
      rw [not_not] at hp
      split
      next hr => exact .fails hm hp hr
      next hr => exact .nothing hm hp hr
      next hr => exact .fetched hm hp hr

theorem xhasIn_ready (h : s.moreIn = true ∨ s.prefetched ≠ .nothing) :
    xhasIn xrecv s ends = .ok (true, s, ends) := by
  unfold xhasIn
  grind

namespace Fetches

variable (h : Fetches xrecv)
variable {b : Bool} {x y : Router κ α × Ends α}

include h

theorem recv_same (hxy : Same x y) :
    Agree Same ((pollable xrecv).recv x) ((pollable xrecv).recv y) := by
  obtain ⟨s, ends⟩ := x
  obtain ⟨t, ends'⟩ := y
  cases hp : s.prefetched with
  | idAndBody =>
    rw [hxy.eq_of_ahead hp]
    exact .refl same_equivalence.refl _
  | body =>
    obtain ⟨rfl, ht, -⟩ := hxy
    simp only at ht
    rw [ht]
    simp only [pollable, h.ahead ends' (takePrefetched_body hp),
      h.ahead ends' (takePrefetched_body
        (show Router.prefetched { s with prefetchedId := t.prefetchedId } = .body from hp))]
    exact .ok _ (same_withId _ _ t.prefetchedId (by simp))
  | nothing =>
    obtain ⟨rfl, ht, -⟩ := hxy
    simp only at ht
    rw [ht]
    simp only [pollable, h.stale ends' t.prefetchedId hp]
    cases hr : xrecv s ends' with
    | error err => exact .error err
    | ok r => exact .ok r.1 (same_withId _ _ t.prefetchedId (h.handedOut hp hr))

theorem poll_same (hxy : Same x y) :
    Agree Same ((pollable xrecv).poll x) ((pollable xrecv).poll y) := by
  obtain ⟨s, ends⟩ := x
  obtain ⟨t, ends'⟩ := y
  have hm : t.moreIn = s.moreIn := same_moreIn hxy
  have hp : t.prefetched = s.prefetched := same_prefetched hxy
  have hrecv := h.recv_same hxy
  simp only [pollable] at hrecv ⊢
  have hs := hasIn_xhasIn xrecv s ends
  generalize xhasIn xrecv s ends = z at hs ⊢
  cases hs with
  | ready hready =>
    rw [xhasIn_ready (by rwa [hm, hp])]
    exact .ok true hxy
  | fails hsm hsp hr =>
    rw [hr] at hrecv
    simp only [xhasIn, hm, hp, hsm, hsp]
    generalize xrecv t ends' = w at hrecv
    cases hrecv with
    | error => exact .error _
  | nothing hsm hsp hr =>
    rw [hr] at hrecv
    simp only [xhasIn, hm, hp, hsm, hsp]
    generalize xrecv t ends' = w at hrecv
    cases hrecv with
    | ok _ hst => exact .ok false hst
  | fetched hsm hsp hr =>
    rw [hr] at hrecv
    simp only [xhasIn, hm, hp, hsm, hsp]
    generalize xrecv t ends' = w at hrecv
    cases hrecv with
    | ok _ hst => exact .ok true ⟨hst.ends, by rw [hst.state], fun _ => rfl⟩

theorem unnoticed (hp : (pollable xrecv).poll x = .ok (b, y)) :
    Agree Same ((pollable xrecv).recv y) ((pollable xrecv).recv x) := by
  have hs := hasIn_xhasIn xrecv x.1 x.2
  simp only [pollable] at hp ⊢
  rw [hp] at hs
  cases hs with
  | ready _ => exact .refl same_equivalence.refl _
  | nothing _ hsp hr =>
    rw [hr, (h.again hsp hr).2.2]
    exact .refl same_equivalence.refl _
  | @fetched msg t ends' hsm hsp hr =>
    obtain ⟨hid, hbody, -⟩ := h.first hsp hsm hr
    rw [hr, h.ahead ends' (takePrefetched_idAndBody rfl), ← hid]
    refine .ok (some msg) (same_equivalence.symm ?_)
    exact ⟨rfl, by rw [← hbody], fun ha => absurd (hbody.symm.trans ha) (by simp)⟩

theorem settles (hp : (pollable xrecv).poll x = .ok (b, y)) :
    (pollable xrecv).poll y = .ok (b, y) := by
  have hs := hasIn_xhasIn xrecv x.1 x.2
  simp only [pollable] at hp ⊢
  rw [hp] at hs
  cases hs with
  | ready hready => exact xhasIn_ready hready
  | nothing hsm hsp hr =>
    obtain ⟨hpre, hm, hagain⟩ := h.again hsp hr
    simp [xhasIn, hpre, hm, hsm, hagain]
  | fetched hsm hsp hr => exact xhasIn_ready (Or.inr (by simp))

theorem transparent : (pollable xrecv).Transparent Same where
  equiv := same_equivalence
  recv := h.recv_same
  poll := h.poll_same
  fails {x err} hp := by
    have hs := hasIn_xhasIn xrecv x.1 x.2
    simp only [pollable] at hp ⊢
    rw [hp] at hs
    cases hs with
    | fails _ _ hr => exact hr
  unnoticed := h.unnoticed
  settles := h.settles

theorem tells_iff (x : Router κ α × Ends α) : (pollable xrecv).Tells x ↔
    (x.1.moreIn = true → x.1.prefetched = .nothing →
      ∃ msg y, (pollable xrecv).recv x = .ok (some msg, y)) := by
  constructor
  · intro htells hm _
    exact (htells true x (xhasIn_ready (Or.inl hm))).1 rfl
  · intro hmid b y hp
    have hs := hasIn_xhasIn xrecv x.1 x.2
    simp only [pollable] at hp hmid ⊢
    rw [hp] at hs
    cases hs with
    | nothing _ _ hr => simp [hr]
    | fetched _ _ hr => simp [hr]
    | ready hready =>
      refine ⟨fun _ => ?_, fun _ => rfl⟩
      cases hpre : x.1.prefetched with
      | nothing => grind
      | body => exact ⟨_, _, h.ahead x.2 (takePrefetched_body hpre)⟩
      | idAndBody => exact ⟨_, _, h.ahead x.2 (takePrefetched_idAndBody hpre)⟩

end Fetches

theorem poll_table {x y : Router κ α × Ends α} {b : Bool} (hp : (pollable xrecv).poll x = .ok (b, y)) :
    y.1.outpipes = x.1.outpipes ∨
      ∃ r z, (pollable xrecv).recv x = .ok (r, z) ∧ y.1.outpipes = z.1.outpipes := by
  have hs := hasIn_xhasIn xrecv x.1 x.2
  simp only [pollable] at hp ⊢
  rw [hp] at hs
  cases hs with
  | ready _ => exact Or.inl rfl
  | nothing _ _ hr => exact Or.inr ⟨_, _, hr, rfl⟩
  | fetched _ _ hr => exact Or.inr ⟨_, _, hr, rfl⟩

theorem deliver_stale (s : Router κ α) (id : List UInt8) (p : α) (msg : Msg) :
    deliver { s with prefetchedId := id } p msg =
      ((s.deliver p msg).1, { (s.deliver p msg).2 with prefetchedId := id }) := by
  unfold deliver deliverFirst
  cases s.moreIn <;> rfl

theorem deliver_first (hm : s.moreIn = false) (p : α) (msg : Msg) :
    (s.deliver p msg).1 = idPart (s.deliver p msg).1.data ∧
      (s.deliver p msg).2.prefetched = .body ∧ (s.deliver p msg).2.moreIn = false := by
  simp [deliver, deliverFirst, hm, idPart]

theorem deliver_handedOut (hp : s.prefetched = .nothing) (p : α) (msg : Msg) :
    (s.deliver p msg).2.prefetched ≠ .idAndBody := by
  unfold deliver deliverFirst
  cases s.moreIn <;> simp [hp]

end Router

end Libxs
