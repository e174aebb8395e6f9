import Libxs.Lb.Proofs

/-! # The parts of a message stay together -/

namespace Libxs

variable {α : Type}

inductive Phase (α : Type) where
  | idle
  | inMessage (pipe : α)
  | dropping
deriving DecidableEq, Repr

def Phase.afterPart (phase : Phase α) : Bool → Phase α
  | true => phase
  | false => .idle

def Phase.next [DecidableEq α] : Phase α → LbEvent α → Option (Phase α)
  | .idle, .written p more => some ((Phase.inMessage p).afterPart more)
  | .idle, .gone _ => some .idle
  | .inMessage p, .written q more =>
    if q = p then some ((Phase.inMessage p).afterPart more) else none
  | .inMessage p, .gone q => some (if q = p then .dropping else .inMessage p)
  | .dropping, .dropped more => some (Phase.dropping.afterPart more)
  | .dropping, .gone _ => some .dropping
  | _, _ => none

def Phase.after [DecidableEq α] (trace : List (LbEvent α)) : Option (Phase α) :=
  trace.foldlM Phase.next .idle

theorem Phase.after_concat [DecidableEq α] {trace : List (LbEvent α)} {phase : Phase α}
    (h : Phase.after trace = some phase) (ev : LbEvent α) :
    Phase.after (trace ++ [ev]) = phase.next ev := by
  unfold Phase.after at h ⊢
  simp [h]

def Lb.phase (lb : Lb α) : Phase α :=
  if lb.more then
    if lb.dropping then .dropping
    else
      match lb.pipes.get lb.current with
      | some p => .inMessage p
      | none => .idle
  else .idle

namespace LbSystem

structure AtomicInv [DecidableEq α] (s : LbSystem α) : Prop where
  bounded : s.lb.Bounded
  dropping : s.lb.dropping = true → s.lb.more = true
  accepted : Phase.after s.trace = some s.lb.phase
  credit : ∀ p, s.attached p → (s.ends p).pipe.WithinHwm
  current : s.lb.more = true → s.lb.dropping = false →
    ∃ p, 0 < s.lb.active ∧ s.lb.pipes.get s.lb.current = some p ∧
      ((s.ends p).pipe.state = .active →
        (s.ends p).pipe.outActive = true ∧ (s.ends p).pipe.HasCredit)

variable [DecidableEq α]
variable {e : Endpoint} {ends' : Ends α} {lb' : Lb α} {s : LbSystem α} {msg : Msg} {p : α}

theorem atomicInv_init : (init : LbSystem α).AtomicInv where
  bounded := Rotor.inv_init _
  dropping := fun h => absurd h (by simp [init, Lb.init])
  accepted := rfl
  credit := fun _ hp =>
    absurd hp (by simp [init, Lb.init, Rotor.init, Rotor.attached, ArrayT.empty])
  current := fun h => absurd h (by simp [init, Lb.init])

theorem AtomicInv.setEnd (h : s.AtomicInv)
    (hcredit : (s.ends p).pipe.WithinHwm → e.pipe.WithinHwm)
    (hcur : ((s.ends p).pipe.state = .active →
        (s.ends p).pipe.outActive = true ∧ (s.ends p).pipe.HasCredit) →
      e.pipe.state = .active → e.pipe.outActive = true ∧ e.pipe.HasCredit) :
    (s.setEnd p e).AtomicInv where
  bounded := h.bounded
  dropping := h.dropping
  accepted := h.accepted
  credit := by
    intro x hx
    by_cases hxp : x = p
    · subst hxp
      simpa [LbSystem.setEnd] using hcredit (h.credit x hx)
    · simpa [LbSystem.setEnd, Function.update_of_ne hxp] using h.credit x hx
  current := by
    intro hm hd
    obtain ⟨q, hpos, hget, hq⟩ := h.current hm hd
    refine ⟨q, hpos, hget, ?_⟩
    by_cases hqp : q = p
    · subst hqp
      simpa [LbSystem.setEnd] using hcur hq
    · simpa [LbSystem.setEnd, Function.update_of_ne hqp] using hq

theorem AtomicInv.setEnd_of_kept (h : s.AtomicInv)
    (hkept : (s.ends p).pipe.OutboundKept e.pipe) : (s.setEnd p e).AtomicInv := by
  obtain ⟨hst, hhwm, hw, hp⟩ := hkept
  refine h.setEnd (fun hc => ?_) (fun hq ha => ?_)
  · unfold Pipe.WithinHwm at hc ⊢
    rwa [hhwm, hw, hp]
  · grind [Pipe.HasCredit]

/-! ## The loop of `send` -/

theorem withinHwm_update {r r' : Rotor α} {ends : Ends α}
    (h : ∀ x, r.attached x → (ends x).pipe.WithinHwm)
    (hmem : ∀ x, x ≠ p → r'.attached x → r.attached x) (he : e.pipe.WithinHwm) :
    ∀ x, r'.attached x → (Function.update ends p e x).pipe.WithinHwm := by
  intro x hx
  grind

theorem Skips.withinHwm {lb : Lb α} {ends : Ends α} {x : α} (h : Skips lb ends lb' ends')
    (hx : (ends x).pipe.WithinHwm) : (ends' x).pipe.WithinHwm := by
  induction h with
  | refl => exact hx
  | @skip _ _ _ _ _ p _ _ _ _ hchk _ _ _ ih =>
    refine ih ?_
    by_cases hxp : x = p
    · subst hxp
      unfold Pipe.WithinHwm at hx ⊢
      rw [Function.update_self, (Pipe.checkWrite_false hchk).2]
      exact hx
    · rwa [Function.update_of_ne hxp]

theorem sendLoop_current {lb : Lb α} {ends : Ends α} {r : Option α} (h : lb.Bounded)
    (hcr : ∀ x, lb.attached x → (ends x).pipe.WithinHwm)
    (hrun : Lb.sendLoop lb.active lb ends msg = .ok (r, lb', ends')) :
    lb'.Bounded ∧ lb'.dropping = lb.dropping ∧
      (∀ x, lb'.attached x → (ends' x).pipe.WithinHwm) ∧
      (r = none → lb'.more = lb.more) ∧
      (lb.more = true → 0 < lb.active → ∃ p, r = some p ∧ lb.pipes.get lb.current = some p) ∧
      (∀ p, r = some p → lb'.more = msg.more ∧ 0 < lb'.active ∧
        lb'.pipes.get lb'.current = some p ∧
        (msg.more = true → (ends' p).pipe.outActive = true ∧ (ends' p).pipe.HasCredit)) := by
  obtain ⟨lb₁, ends₁, hskips, hend⟩ := sendLoop_skips msg _ _ _ h rfl _ _ _ hrun
  obtain ⟨hmore, hdrop, hsame⟩ := hskips.flags
  obtain ⟨hb, hmem⟩ := hskips.bounded h
  have hcr₁ : ∀ x, lb₁.attached x → (ends₁ x).pipe.WithinHwm := fun x hx =>
    hskips.withinHwm (hcr x ((hmem x).1 hx))
  rcases hend with ⟨rfl, h0, rfl, rfl⟩ | ⟨p, e, rfl, hpos, hget, hw, rfl, rfl⟩
  · refine ⟨hb, hdrop, hcr₁, fun _ => hmore, fun hm hpos => ?_, nofun⟩
    rw [← (hsame hm).1, h0] at hpos
    exact absurd hpos (Nat.lt_irrefl 0)
  · obtain ⟨hchk, hpipe, -⟩ := Endpoint.write_true hw
    obtain ⟨-, hout, -, hfull⟩ := Pipe.checkWrite_true hchk
    have hatt := ArrayT.mem_of_get hget
    have hcredit := Pipe.hasCredit_of_not_full (hcr₁ p hatt) hfull
    refine ⟨hb, hdrop, withinHwm_update hcr₁ (fun _ _ hx => hx) ?_, nofun,
      fun hm _ => ⟨p, rfl, by rw [← (hsame hm).1]; exact hget⟩, ?_⟩
    · rw [hpipe]
      split
      · exact hcr₁ p hatt
      · exact hcredit.withinHwm_succ
    · rintro q ⟨rfl⟩
      refine ⟨rfl, hpos, hget, fun hm => ?_⟩
      rw [Function.update_self, hpipe, if_pos hm]
      exact ⟨hout, hcredit⟩

def PartsKeep (s : LbSystem α) : LbOp α → Prop
  | .terminated p =>
    s.attached p → s.lb.more = true → s.lb.dropping = false → s.lb.KeepsCurrent p
  | .send _ =>
    s.lb.more = true → s.lb.dropping = false →
      ∀ p, s.lb.pipes.get s.lb.current = some p → (s.ends p).pipe.state = .active
  | _ => True

instance PartsKeep.decidable (s : LbSystem α) : ∀ op, Decidable (s.PartsKeep op)
  | .terminated p => inferInstanceAs (Decidable
      (s.attached p → s.lb.more = true → s.lb.dropping = false → s.lb.KeepsCurrent p))
  | .send _ =>
    match hg : s.lb.pipes.get s.lb.current with
    | none => .isTrue fun _ _ p hp => absurd (hg.symm.trans hp) (by simp)
    | some q =>
      decidable_of_iff
        (s.lb.more = true → s.lb.dropping = false → (s.ends q).pipe.state = .active)
        ⟨fun h hm hd p hp => by
            obtain rfl : q = p := by
              have := hg.symm.trans hp
              simpa using this
            exact h hm hd,
          fun h hm hd => h hm hd q hg⟩
  | .attach _ _ => .isTrue trivial
  | .hasOut => .isTrue trivial
  | .processActivateWrite _ _ => .isTrue trivial
  | .processPipeTerm _ => .isTrue trivial
  | .terminate _ _ => .isTrue trivial
  | .read _ => .isTrue trivial
  | .processActivateRead _ => .isTrue trivial
  | .peerWrite _ _ => .isTrue trivial
  | .peerFlush _ => .isTrue trivial
  | .peerRead _ => .isTrue trivial

theorem AtomicInv.send (h : s.AtomicInv) {r : SendResult α}
    (hrun : s.lb.send s.ends msg = .ok (r, lb', ends')) :
    AtomicInv ⟨lb', ends', s.trace ++ sendEvents msg r⟩ := by
  unfold Lb.send at hrun
  split at hrun
  next hdrop =>
    cases hrun
    refine ⟨h.bounded, fun he => he, ?_, h.credit, fun hm hd => ?_⟩
    · have hphase : s.lb.phase = .dropping := by simp [Lb.phase, hdrop, h.dropping hdrop]
      simp only [sendEvents]
      rw [Phase.after_concat h.accepted, hphase]
      cases hm : msg.more <;> simp [Phase.next, Phase.afterPart, Lb.phase]
    · grind
  next hdrop =>
    rw [Bool.not_eq_true] at hdrop
    split at hrun
    · cases hrun
    next lb2 ends2 hloop =>
      obtain ⟨hb, hd, hcr, hnone, hcur, -⟩ :=
        sendLoop_current h.bounded h.credit hloop
      simp only [Except.ok.injEq, Prod.mk.injEq] at hrun
      obtain ⟨rfl, rfl, rfl⟩ := hrun
      have hmore : s.lb.more = false := by grind [h.current]
      have hmore2 : lb2.more = false := (hnone rfl).trans hmore
      refine ⟨hb, fun he => absurd he (by simp [hd, hdrop]), ?_, hcr,
        fun hm => absurd hm (by simp [hmore2])⟩
      simpa [sendEvents, Lb.phase, hmore, hmore2] using h.accepted
    next p lb2 ends2 hloop =>
      obtain ⟨hb, hd, hcr, -, hcur, hsome⟩ :=
        sendLoop_current h.bounded h.credit hloop
      obtain ⟨hmore2, hpos, hget, hnext⟩ := hsome p rfl
      have hd2 : lb2.dropping = false := hd.trans hdrop
      have htrace : Phase.after (s.trace ++ [.written p msg.more]) =
          some ((Phase.inMessage p).afterPart msg.more) := by
        rw [Phase.after_concat h.accepted]
        grind [Lb.phase, Phase.next, h.current]
      split at hrun
      next hm =>
        cases hrun
        refine ⟨hb, fun _ => hm, ?_, hcr, fun _ _ => ⟨p, hpos, hget, fun _ => ?_⟩⟩
        · grind [sendEvents, Lb.phase, Phase.afterPart]
        · exact hnext (hmore2 ▸ hm)
      next hm =>
        rw [Bool.not_eq_true] at hm
        cases hrun
        refine ⟨Rotor.Bounded.setCurrent hb (Nat.mod_lt _ hpos),
          fun he => absurd he (by simp [hd2]), ?_, ?_, fun hm' => absurd hm' (by simp [hm])⟩
        · simp only [sendEvents]
          rw [htrace, ← hmore2]
          simp [Lb.phase, hm, Phase.afterPart]
        · exact fun x hx => withinHwm_update hcr (fun _ _ hx => hx)
            (by rw [Endpoint.flush_pipe]; exact hcr p (ArrayT.mem_of_get hget)) x hx

theorem AtomicInv.hasOut (h : s.AtomicInv) {r : Bool}
    (hrun : s.lb.hasOut s.ends = .ok (r, lb', ends')) :
    AtomicInv { s with lb := lb', ends := ends' } := by
  unfold Lb.hasOut at hrun
  split at hrun
  · cases hrun
    exact h
  next hmore =>
    rw [Bool.not_eq_true] at hmore
    obtain ⟨ends₁, hskips, hend⟩ := hasOutLoop_skips _ _ _ h.bounded rfl hmore _ _ _ hrun
    obtain ⟨hm, hd, -⟩ := hskips.flags
    obtain ⟨hb, hmem⟩ := hskips.bounded h.bounded
    have hm' : lb'.more = false := hm.trans hmore
    have hcr : ∀ x, lb'.attached x → (ends₁ x).pipe.WithinHwm := fun x hx =>
      hskips.withinHwm (h.credit x ((hmem x).1 hx))
    refine ⟨hb, fun he => hm ▸ h.dropping (hd ▸ he), ?_, ?_, fun he => absurd he (by simp [hm'])⟩
    · simpa [Lb.phase, hmore, hm'] using h.accepted
    · rcases hend with ⟨-, -, rfl⟩ | ⟨p, e, -, -, hget, hw, rfl⟩
      · exact hcr
      · refine withinHwm_update hcr (fun _ _ hx => hx) ?_
        rw [(Endpoint.checkWrite_true hw).2.1]
        exact hcr p (ArrayT.mem_of_get hget)

theorem AtomicInv.attach (h : s.AtomicInv)
    (hp : ¬ s.attached p) (hc : e.pipe.WithinHwm) (hr : s.lb.attach p = .ok lb') :
    AtomicInv { (s.setEnd p e) with lb := lb' } := by
  obtain ⟨r, hr', hinv, hmem, hcur, hact, hget⟩ := h.bounded.attach hp
  simp only [Lb.attach, Lb.withRotor, hr'] at hr
  cases hr
  have hkeep : 0 < s.lb.active → r.pipes.get r.current = s.lb.pipes.get s.lb.current := by
    intro hpos
    rw [hcur]
    exact hget (h.bounded.current_lt_active hpos)
  refine ⟨hinv.bounded, h.dropping, ?_, ?_, ?_⟩
  · have hphase : ({ s.lb with toRotor := r } : Lb α).phase = s.lb.phase := by
      unfold Lb.phase
      grind [h.current]
    simp only [hphase]
    exact h.accepted
  · exact withinHwm_update h.credit (fun x hxp hx => ((hmem x).1 hx).resolve_right hxp) hc
  · intro hm hd
    obtain ⟨q, hpos, hgetq, hq⟩ := h.current hm hd
    have hqp : q ≠ p := fun he => hp (he ▸ ArrayT.mem_of_get hgetq)
    exact ⟨q, by simp [hact], (hkeep hpos).trans hgetq,
      by simpa [LbSystem.setEnd, Function.update_of_ne hqp] using hq⟩

theorem AtomicInv.activated (h : s.AtomicInv)
    (hold : (s.ends p).pipe.outActive = false ∧ (s.ends p).pipe.state = .active)
    (hatt : s.attached p) (hc : e.pipe.WithinHwm) (hr : s.lb.activated p = .ok lb') :
    AtomicInv { (s.setEnd p e) with lb := lb' } := by
  unfold Lb.activated Lb.withRotor at hr
  split at hr
  · cases hr
  next r hr' =>
    cases hr
    obtain ⟨hb, hcur, hact, hmem, hget⟩ := h.bounded.activated hr'
    have hne : ∀ q, s.lb.more = true → s.lb.dropping = false →
        s.lb.pipes.get s.lb.current = some q → q ≠ p := by
      intro q hm hd hgetq hqp
      subst hqp
      obtain ⟨q', -, hgetq', hq⟩ := h.current hm hd
      obtain rfl : q = q' := by
        rw [hgetq] at hgetq'
        simpa using hgetq'
      exact absurd (hq hold.2).1 (by simp [hold.1])
    have hkeep : s.lb.more = true → s.lb.dropping = false →
        r.pipes.get r.current = s.lb.pipes.get s.lb.current := by
      intro hm hd
      obtain ⟨q, hpos, hgetq, -⟩ := h.current hm hd
      rw [hcur]
      refine hget (h.bounded.current_lt_active hpos) fun hi => ?_
      -- the item at `current` stores that index
      have hgetp := h.bounded.part.wf.get_index hatt
      rw [hi] at hgetp
      exact hne p hm hd hgetp rfl
    refine ⟨hb, h.dropping, ?_, ?_, ?_⟩
    · have hphase : ({ s.lb with toRotor := r } : Lb α).phase = s.lb.phase := by
        unfold Lb.phase
        grind
      simp only [hphase]
      exact h.accepted
    · exact withinHwm_update h.credit (fun x _ hx => (hmem x).1 hx) hc
    · intro hm hd
      obtain ⟨q, hpos, hgetq, hq⟩ := h.current hm hd
      have hqp := hne q hm hd hgetq
      exact ⟨q, by simp [hact], (hkeep hm hd).trans hgetq,
        by simpa [LbSystem.setEnd, Function.update_of_ne hqp] using hq⟩

theorem AtomicInv.terminated (h : s.AtomicInv) (hatt : s.attached p)
    (hk : s.lb.more = true → s.lb.dropping = false → s.lb.KeepsCurrent p)
    (hr : s.lb.terminated p = .ok lb') :
    AtomicInv { s with lb := lb', trace := s.trace ++ [.gone p] } := by
  unfold Lb.terminated Lb.withRotor at hr
  simp only at hr
  split at hr
  · cases hr
  next r hr' =>
    cases hr
    obtain ⟨hb, hmem, hget⟩ := h.bounded.terminated hatt hr'
    have hcr : ∀ x, r.attached x → (s.ends x).pipe.WithinHwm := fun x hx => h.credit x (hmem x hx)
    cases hm : s.lb.more with
    | false =>
      have hd : s.lb.dropping = false := by grind [h.dropping]
      refine ⟨hb, ?_, ?_, hcr, ?_⟩
      · simp [hd]
      · rw [Phase.after_concat h.accepted]
        simp [Lb.phase, hm, Phase.next]
      · simp
    | true =>
      cases hd : s.lb.dropping with
      | true =>
        refine ⟨hb, fun _ => rfl, ?_, hcr, fun _ hf => absurd hf (by simp)⟩
        rw [Phase.after_concat h.accepted]
        simp [Lb.phase, hm, hd, Phase.next]
      | false =>
        obtain ⟨q, hpos, hgetq, hq⟩ := h.current hm hd
        have hphase : s.lb.phase = .inMessage q := by simp [Lb.phase, hm, hd, hgetq]
        have hqi := h.bounded.part.wf _ q hgetq
        by_cases hi : s.lb.pipes.index p = s.lb.current
        · obtain rfl : p = q :=
            h.bounded.part.wf.index_inj hatt (ArrayT.mem_of_get hgetq) (hi.trans hqi.symm)
          refine ⟨hb, fun _ => rfl, ?_, hcr, fun _ hf => absurd hf (by simp [hi])⟩
          rw [Phase.after_concat h.accepted, hphase]
          simp [Lb.phase, hi, Phase.next]
        · have hpq : p ≠ q := fun he => hi (by rw [he, hqi])
          obtain ⟨hpos', hget'⟩ := hget (h.bounded.current_lt_active hpos) hi (hk hm hd)
          refine ⟨hb, fun _ => rfl, ?_, hcr, fun _ _ => ⟨q, hpos', hget'.trans hgetq, hq⟩⟩
          rw [Phase.after_concat h.accepted, hphase]
          simp [Lb.phase, hi, Phase.next, hpq, hget', hgetq]

theorem AtomicInv.step {s' : LbSystem α} (h : s.AtomicInv) {op : LbOp α} (hk : s.PartsKeep op)
    (hs : s.step op = .ok s') : s'.AtomicInv := by
  cases step_moves hs with
  | same => exact h
  | attach hp _ hc hr => exact h.attach hp hc hr
  | send hr => exact h.send hr
  | hasOut hr => exact h.hasOut hr
  | terminated hp hr => exact h.terminated hp (hk hp) hr
  | reported _ hadv hact =>
    obtain ⟨-, hpipe⟩ := Endpoint.processActivateWrite_false hact
    refine h.setEnd (fun hc => ?_) (fun hq ha => ?_)
    · unfold Pipe.WithinHwm at hc ⊢
      rw [hpipe]
      exact hc.imp_right (Nat.le_trans hadv)
    · rw [hpipe] at ha ⊢
      obtain ⟨ho, hc⟩ := hq ha
      unfold Pipe.HasCredit at hc ⊢
      exact ⟨ho, hc.imp_right (Nat.lt_of_le_of_lt hadv)⟩
  | @activated p n e lb hp hadv hact hr =>
    obtain ⟨hold, -, hpipe⟩ := Endpoint.processActivateWrite_true hact
    have hcr := h.credit p hp
    refine h.activated hold hp ?_ hr
    unfold Pipe.WithinHwm at hcr ⊢
    rw [hpipe]
    exact hcr.imp_right (Nat.le_trans hadv)
  | kept hkept _ => exact h.setEnd_of_kept hkept

/-! ## The assertion of `send` -/

theorem write_error {err : Fault} (h : e.write msg = .error err) :
    err = .nullPointer ∧ ¬ e.RefusesWrite := by
  unfold Endpoint.write Pipe.write at h
  grind [Endpoint.RefusesWrite]

theorem sendLoop_idle (msg : Msg) : ∀ (count : Nat) (lb : Lb α) (ends : Ends α), lb.more = false →
    Lb.sendLoop count lb ends msg ≠ .error .assertFailed := by
  intro count
  induction count with
  | zero => intro lb ends _; simp [Lb.sendLoop]
  | succ count ih =>
    intro lb ends hm
    simp only [Lb.sendLoop]
    split
    · simp
    · split
      · next hw => simp [(write_error hw).1]
      · simp
      · simp only [hm, Bool.false_eq_true, if_false]
        split
        next hde => grind [Lb.sendDeactivate]
        next lb2 hde => grind [Lb.sendDeactivate]

theorem AtomicInv.send_ne_assertFailed (h : s.AtomicInv)
    (hk : s.PartsKeep (.send msg)) : s.lb.send s.ends msg ≠ .error .assertFailed := by
  unfold Lb.send
  split
  · simp
  next hd =>
    rw [Bool.not_eq_true] at hd
    have hloop : Lb.sendLoop s.lb.active s.lb s.ends msg ≠ .error .assertFailed := by
      cases hm : s.lb.more with
      | false => exact sendLoop_idle msg _ _ _ hm
      | true =>
        obtain ⟨p, hpos, hget, hp⟩ := h.current hm hd
        have hst := hk hm hd p hget
        obtain ⟨hout, hcredit⟩ := hp hst
        have hacc : (s.ends p).pipe.checkWrite = (true, (s.ends p).pipe) := by
          simp [Pipe.checkWrite, hout, hst, hcredit.not_full]
        obtain ⟨n, hn⟩ := Nat.exists_eq_succ_of_ne_zero (by omega : s.lb.active ≠ 0)
        rw [hn]
        simp only [Lb.sendLoop, hget]
        split
        · next hw => simp [(write_error hw).1]
        · simp
        next hw =>
          have := (Endpoint.write_false hw).1
          rw [hacc] at this
          exact absurd this (by simp)
    grind

/-! ## Multipart atomicity -/

def PartsTogether (s : LbSystem α) : Prop := ∃ phase, Phase.after s.trace = some phase

instance (s : LbSystem α) : Decidable s.PartsTogether :=
  decidable_of_iff ((Phase.after s.trace).isSome = true)
    (by simp [PartsTogether, Option.isSome_iff_exists])

/-- **In a run that meets `PartsKeep`, the parts of every message stay together.** -/
theorem parts_together_of_partsKeep (ops : List (LbOp α)) (s : LbSystem α)
    (hmeets : RunMeets step PartsKeep init ops) (hrun : run step init ops = .ok s) :
    s.PartsTogether ∧
      ∀ msg, s.PartsKeep (.send msg) → s.lb.send s.ends msg ≠ .error .assertFailed := by
  have h : s.AtomicInv :=
    run_invariant (fun _ _ _ hI hk hs => AtomicInv.step hI hk hs) ops init s atomicInv_init hmeets
      hrun
  exact ⟨⟨_, h.accepted⟩, fun msg hk => h.send_ne_assertFailed hk⟩

def morePart : Msg := { Msg.init with flags := Msg.moreFlag }

def dropRestRun : List (LbOp Nat) :=
  [.attach 0 (.init 0 0 false), .attach 1 (.init 0 0 false), .send morePart, .processPipeTerm 0,
    .terminated 0, .send morePart, .send .init, .send .init]

theorem dropRestRun_parts_together :
    RunMeets step PartsKeep init dropRestRun ∧
      ∃ s, run step init dropRestRun = .ok s ∧ s.PartsTogether ∧
        s.trace = [.written 0 true, .gone 0, .dropped true, .dropped false, .written 1 false] := by
  have hmeets : RunMeets step PartsKeep init dropRestRun := by decide
  obtain ⟨s, hs⟩ : ∃ s, run step init dropRestRun = .ok s := ⟨_, rfl⟩
  refine ⟨hmeets, s, hs, (parts_together_of_partsKeep dropRestRun s hmeets hs).1, ?_⟩
  have ht : (run step init dropRestRun).map trace = .ok
      [.written 0 true, .gone 0, .dropped true, .dropped false, .written 1 false] := by decide
  rw [hs] at ht
  simpa [Except.map] using ht

def splitMessageRun : List (LbOp Nat) :=
  [.attach 0 (.init 0 0 false), .attach 1 (.init 0 0 false), .attach 2 (.init 0 0 false),
    .send .init, .send .init, .send morePart, .processPipeTerm 1, .terminated 1, .send .init]

def refusedPartRun : List (LbOp Nat) :=
  [.attach 0 (.init 0 0 false), .send morePart, .processPipeTerm 0]

theorem splitMessageRun_splits :
    (∃ s, run step init splitMessageRun = .ok s ∧ ¬ s.PartsTogether) ∧
      ∃ s, run step init refusedPartRun = .ok s ∧
        s.lb.send s.ends .init = .error .assertFailed := by
  exact ⟨⟨_, rfl, by decide⟩, ⟨_, rfl, rfl⟩⟩

end LbSystem

end Libxs
