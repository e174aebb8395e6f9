import Libxs.Lb
import Libxs.Rotor.Current
import Libxs.Rotor.Tracking

/-! # No writable pipe is lost by the load balancer, as long as `terminated` moves none away -/

namespace Libxs

variable {α : Type}

def writeWatch : Watch Endpoint where
  refused := fun e => e.refusedWrite
  closed := fun e => e.canWrite = false
  asleep := fun e => e.pipe.outActive = false ∧ e.pipe.state = .active

namespace LbSystem

structure Inv (s : LbSystem α) : Prop where
  tracks : s.lb.Tracks writeWatch s.ends
  dropping : s.lb.dropping = true → s.lb.more = true
  sending : s.lb.more = true → s.lb.dropping = false → 0 < s.lb.active

theorem inv_init : (init : LbSystem α).Inv where
  tracks := Rotor.tracks_init _ _
  dropping := fun h => absurd h (by simp [init, Lb.init])
  sending := fun h => absurd h (by simp [init, Lb.init])

variable [DecidableEq α]
variable {e : Endpoint} {ends ends' : Ends α} {lb lb' : Lb α} {s : LbSystem α} {msg : Msg} {p : α}

theorem Inv.setEnd (h : s.Inv) (href : e.refusedWrite = (s.ends p).refusedWrite)
    (hkept : (e.pipe.state = .active →
      (s.ends p).pipe.state = .active ∧ e.pipe.outActive = (s.ends p).pipe.outActive)) :
    (s.setEnd p e).Inv where
  tracks := by
    refine h.tracks.setEnd href (fun hc => ?_) (fun ha => ?_)
    · grind [writeWatch, Endpoint.canWrite_eq_false]
    · obtain ⟨hs, ho⟩ := hkept ha.2
      exact ⟨ho ▸ ha.1, hs⟩
  dropping := h.dropping
  sending := h.sending

theorem sendDeactivate_eq (h : lb.Bounded) (hpos : 0 < lb.active) :
    lb.sendDeactivate = lb.withRotor lb.toRotor.deactivate := by
  have hlt := h.current_lt_active hpos
  unfold Lb.sendDeactivate Rotor.deactivate Lb.withRotor
  split
  next hc =>
    rw [if_neg (by omega)]
    cases lb.pipes.swap lb.current (lb.active - 1) <;> rfl
  next hc =>
    -- the current pipe is the last active one
    obtain ⟨p, hget, -, -⟩ := h.get_current hpos
    have hlast : lb.active - 1 = lb.current := by omega
    simp only [hlast, h.part.wf.swap_self hget, if_true]

inductive Skips : Lb α → Ends α → Lb α → Ends α → Prop where
  | refl (lb : Lb α) (ends : Ends α) : Skips lb ends lb ends
  | skip {lb lb' : Lb α} {ends ends' : Ends α} {r : Rotor α} {p : α} {e : Endpoint} :
      lb.more = false → 0 < lb.active → lb.pipes.get lb.current = some p →
      (ends p).pipe.checkWrite = (false, e.pipe) → e.refusedWrite = true →
      lb.toRotor.deactivate = .ok r →
      Skips { lb with toRotor := r } (Function.update ends p e) lb' ends' → Skips lb ends lb' ends'

theorem Skips.flags (h : Skips lb ends lb' ends') :
    lb'.more = lb.more ∧ lb'.dropping = lb.dropping ∧ (lb.more = true → lb' = lb ∧ ends' = ends) := by
  induction h with
  | refl => exact ⟨rfl, rfl, fun _ => ⟨rfl, rfl⟩⟩
  | skip hmore _ _ _ _ _ _ ih => exact ⟨ih.1, ih.2.1, fun hm => absurd (hmore.symm.trans hm) (by simp)⟩

theorem Skips.bounded (h : Skips lb ends lb' ends') (hb : lb.Bounded) :
    lb'.Bounded ∧ ∀ x, lb'.attached x ↔ lb.attached x := by
  induction h with
  | refl => exact ⟨hb, fun _ => Iff.rfl⟩
  | skip _ hpos hget _ _ hr _ ih =>
    obtain ⟨r, hr', hinv, hmem, -⟩ := hb.deactivate hpos hget
    rw [hr, Except.ok.injEq] at hr'
    subst hr'
    obtain ⟨hb', hmem'⟩ := ih hinv.bounded
    exact ⟨hb', fun x => (hmem' x).trans (hmem x)⟩

theorem Skips.tracks (h : Skips lb ends lb' ends') (htr : lb.Tracks writeWatch ends) :
    lb'.Tracks writeWatch ends' := by
  induction h with
  | refl => exact htr
  | skip _ hpos hget hchk href hr _ ih =>
    obtain ⟨r, hr', -, -, htr'⟩ :=
      htr.deactivate hpos hget (Endpoint.canWrite_of_checkWrite_false hchk) href
    rw [hr, Except.ok.injEq] at hr'
    subst hr'
    exact ih htr'

theorem Skips.refusesWrite {x : α} (h : Skips lb ends lb' ends') (hx : (ends' x).RefusesWrite) :
    (ends x).RefusesWrite := by
  induction h with
  | refl => exact hx
  | @skip _ _ _ _ _ p _ _ _ _ hchk _ _ _ ih =>
    by_cases hxp : x = p
    · subst hxp
      simp [Endpoint.RefusesWrite, hchk]
    · simpa [Function.update_of_ne hxp] using ih hx

theorem Skips.refuse_all (h : Skips lb ends lb' ends') (htr : lb.Tracks writeWatch ends)
    (h0 : lb'.active = 0) : ∀ p, lb.attached p → (ends p).RefusesWrite := fun p hp =>
  h.refusesWrite (Endpoint.refusesWrite_of_canWrite
    ((h.tracks htr).closed_of_active_eq_zero h0 (((h.bounded htr.rotor.bounded).2 p).2 hp)))

theorem sendLoop_skips (msg : Msg) : ∀ (count : Nat) (lb : Lb α) (ends : Ends α),
    lb.Bounded → count = lb.active →
    ∀ r lb' ends', Lb.sendLoop count lb ends msg = .ok (r, lb', ends') →
      ∃ lb₁ ends₁, Skips lb ends lb₁ ends₁ ∧
        (r = none ∧ lb₁.active = 0 ∧ lb' = lb₁ ∧ ends' = ends₁ ∨
          ∃ p e, r = some p ∧ 0 < lb₁.active ∧ lb₁.pipes.get lb₁.current = some p ∧
            (ends₁ p).write msg = .ok (true, e) ∧ lb' = { lb₁ with more := msg.more } ∧
            ends' = Function.update ends₁ p e) := by
  intro count
  induction count with
  | zero =>
    intro lb ends _ h0 r lb' ends' hrun
    cases hrun
    exact ⟨lb, ends, .refl _ _, Or.inl ⟨rfl, h0.symm, rfl, rfl⟩⟩
  | succ count ih =>
    intro lb ends h hact r lb' ends' hrun
    have hpos : 0 < lb.active := by omega
    obtain ⟨p, hget, -, -⟩ := h.get_current hpos
    simp only [Lb.sendLoop, hget] at hrun
    split at hrun
    · cases hrun
    next e hw =>
      cases hrun
      exact ⟨lb, ends, .refl _ _, Or.inr ⟨p, e, rfl, hpos, hget, hw, rfl, rfl⟩⟩
    next e hw =>
      obtain ⟨hchk, href⟩ := Endpoint.write_false hw
      split at hrun
      · cases hrun
      next hmore =>
        obtain ⟨r₁, hr, hinv, -, hact₁⟩ := h.deactivate hpos hget
        simp only [sendDeactivate_eq h hpos, Lb.withRotor, hr] at hrun
        obtain ⟨lb₁, ends₁, hskips, hend⟩ := ih _ _ hinv.bounded (by simp; omega) r lb' ends' hrun
        exact ⟨lb₁, ends₁, .skip (by simpa using hmore) hpos hget hchk href hr hskips, hend⟩

theorem hasOutLoop_skips : ∀ (count : Nat) (lb : Lb α) (ends : Ends α),
    lb.Bounded → count = lb.active → lb.more = false →
    ∀ r lb' ends', Lb.hasOutLoop count lb ends = .ok (r, lb', ends') →
      ∃ ends₁, Skips lb ends lb' ends₁ ∧
        (r = false ∧ lb'.active = 0 ∧ ends' = ends₁ ∨
          ∃ p e, r = true ∧ 0 < lb'.active ∧ lb'.pipes.get lb'.current = some p ∧
            (ends₁ p).checkWrite = (true, e) ∧ ends' = Function.update ends₁ p e) := by
  intro count
  induction count with
  | zero =>
    intro lb ends _ h0 _ r lb' ends' hrun
    cases hrun
    exact ⟨ends, .refl _ _, Or.inl ⟨rfl, h0.symm, rfl⟩⟩
  | succ count ih =>
    intro lb ends h hact hmore r lb' ends' hrun
    have hpos : 0 < lb.active := by omega
    obtain ⟨p, hget, -, -⟩ := h.get_current hpos
    simp only [Lb.hasOutLoop, hget] at hrun
    split at hrun
    next e hw =>
      cases hrun
      exact ⟨ends, .refl _ _, Or.inr ⟨p, e, rfl, hpos, hget, hw, rfl⟩⟩
    next e hw =>
      obtain ⟨hchk, href⟩ := Endpoint.checkWrite_false hw
      obtain ⟨r₁, hr, hinv, -, hact₁⟩ := h.deactivate hpos hget
      simp only [Lb.withRotor, hr] at hrun
      obtain ⟨ends₁, hskips, hend⟩ := ih { lb with toRotor := r₁ } (Function.update ends p e)
        hinv.bounded (by simp; omega) hmore r lb' ends' hrun
      exact ⟨ends₁, .skip hmore hpos hget hchk href hr hskips, hend⟩

theorem sendLoop_of_accepts
    {r : Option α} (hpos : 0 < lb.active) (hget : lb.pipes.get lb.current = some p)
    (hacc : ¬ (ends p).RefusesWrite)
    (hrun : Lb.sendLoop lb.active lb ends msg = .ok (r, lb', ends')) : r ≠ none := by
  obtain ⟨n, hn⟩ := Nat.exists_eq_succ_of_ne_zero (by omega : lb.active ≠ 0)
  rw [hn] at hrun
  simp only [Lb.sendLoop, hget] at hrun
  split at hrun
  · cases hrun
  · cases hrun
    simp
  next e hw =>
    obtain ⟨hchk, -⟩ := Endpoint.write_false hw
    exact absurd (show (ends p).RefusesWrite by simp [Endpoint.RefusesWrite, hchk]) hacc

/-! ## `send` and `has_out` -/

theorem Inv.send (h : s.Inv) {r : SendResult α}
    (hrun : s.lb.send s.ends msg = .ok (r, lb', ends')) (t : List (LbEvent α)) :
    Inv ⟨lb', ends', t⟩ ∧
      (r = .again → s.lb.dropping = false ∧ s.lb.more = false ∧
        ∀ p, s.attached p → (s.ends p).RefusesWrite) := by
  unfold Lb.send at hrun
  split at hrun
  · cases hrun
    refine ⟨⟨h.tracks, fun he => he, fun hm hd => ?_⟩, nofun⟩
    simp only at hm hd
    rw [hm] at hd
    cases hd
  next hdrop =>
    rw [Bool.not_eq_true] at hdrop
    split at hrun
    · cases hrun
    next lb2 ends2 hloop =>
      obtain ⟨lb₁, ends₁, hskips, ⟨-, h0, rfl, rfl⟩ | ⟨p, e, hp, -⟩⟩ :=
        sendLoop_skips msg _ _ _ h.tracks.rotor.bounded rfl _ _ _ hloop
      · obtain ⟨hmore₁, hdrop₁, hsame⟩ := hskips.flags
        cases hrun
        have hmore : s.lb.more = false := by
          by_contra hm
          rw [Bool.not_eq_false] at hm
          have hpos := h.sending hm hdrop
          rw [← (hsame hm).1, h0] at hpos
          exact absurd hpos (Nat.lt_irrefl 0)
        exact ⟨⟨hskips.tracks h.tracks, fun he => absurd (he.symm.trans (hdrop₁.trans hdrop)) (by simp),
          fun hm => absurd (hm.symm.trans (hmore₁.trans hmore)) (by simp)⟩,
          fun _ => ⟨hdrop, hmore, hskips.refuse_all h.tracks h0⟩⟩
      · cases hp
    next p lb2 ends2 hloop =>
      obtain ⟨lb₁, ends₁, hskips, ⟨hp, -⟩ | ⟨q, e, hp, hpos, -, hw, rfl, rfl⟩⟩ :=
        sendLoop_skips msg _ _ _ h.tracks.rotor.bounded rfl _ _ _ hloop
      · cases hp
      · cases hp
        have hd : lb₁.dropping = false := hskips.flags.2.1.trans hdrop
        obtain ⟨hchk, hpipe, href⟩ := Endpoint.write_true hw
        obtain ⟨-, hout, hst, -⟩ := Pipe.checkWrite_true hchk
        have hopen : e.pipe.outActive = true := by
          rw [hpipe]
          split <;> exact hout
        have htr : lb₁.Tracks writeWatch (Function.update ends₁ p e) :=
          (hskips.tracks h.tracks).setEnd href
            (fun hc => absurd (Endpoint.canWrite_eq_false.1 hc) (by simp [hout, hst]))
            (fun ha => absurd ha.1 (by simp [hopen]))
        split at hrun
        · cases hrun
          exact ⟨⟨htr, fun he => absurd he (by simp [hd]), fun _ _ => hpos⟩, nofun⟩
        next hm =>
          cases hrun
          refine ⟨⟨?_, fun he => absurd he (by simp [hd]), fun hm' => absurd hm' hm⟩, nofun⟩
          have hfl : lb₁.Tracks writeWatch (Function.update (Function.update ends₁ p e) p
              (Function.update ends₁ p e p).flush) := by
            refine htr.setEnd (Endpoint.flush_refusedWrite _) ?_ ?_
            · simp only [writeWatch, Endpoint.canWrite, Endpoint.flush_pipe]
              exact id
            · simp only [writeWatch, Endpoint.flush_pipe]
              exact id
          exact hfl.setCurrent (Nat.mod_lt _ hpos)

theorem Inv.hasOut (h : s.Inv) {r : Bool}
    (hrun : s.lb.hasOut s.ends = .ok (r, lb', ends')) (t : List (LbEvent α)) :
    Inv ⟨lb', ends', t⟩ ∧ (r = false → ∀ p, s.attached p → (s.ends p).RefusesWrite) ∧
      (r = true → ∀ msg r' lb'' ends'', lb'.send ends' msg = .ok (r', lb'', ends'') →
        r' ≠ .again) := by
  unfold Lb.hasOut at hrun
  split at hrun
  next hmore =>
    cases hrun
    refine ⟨⟨h.tracks, h.dropping, h.sending⟩, nofun, ?_⟩
    intro _ msg r' lb'' ends'' hs hr
    exact absurd ((h.send hs t).2 hr).2.1 (by simp [hmore])
  next hmore =>
    rw [Bool.not_eq_true] at hmore
    obtain ⟨ends₁, hskips, hend⟩ :=
      hasOutLoop_skips _ _ _ h.tracks.rotor.bounded rfl hmore _ _ _ hrun
    obtain ⟨hm, hdrop, -⟩ := hskips.flags
    have hm' : lb'.more = false := hm.trans hmore
    have hkeeps : lb'.Tracks writeWatch ends' → Inv ⟨lb', ends', t⟩ := fun htr =>
      ⟨htr, fun hd => hm ▸ h.dropping (hdrop ▸ hd), fun hmm => absurd (hmm.symm.trans hm') (by simp)⟩
    rcases hend with ⟨rfl, h0, rfl⟩ | ⟨p, e, rfl, hpos, hget, hw, rfl⟩
    · exact ⟨hkeeps (hskips.tracks h.tracks), fun _ => hskips.refuse_all h.tracks h0, nofun⟩
    · obtain ⟨hchk, hpipe, href⟩ := Endpoint.checkWrite_true hw
      refine ⟨hkeeps ((hskips.tracks h.tracks).setEnd href ?_ ?_), nofun, ?_⟩
      · simp only [writeWatch, Endpoint.canWrite, hpipe]
        exact id
      · simp only [writeWatch, hpipe]
        exact id
      · rintro - msg r' lb'' ends'' hs rfl
        have hacc : ¬ (Function.update ends₁ p e p).RefusesWrite := by
          simp [Endpoint.RefusesWrite, hpipe, hchk]
        unfold Lb.send at hs
        grind [sendLoop_of_accepts]

def StepKeeps (s : LbSystem α) : LbOp α → Prop
  | .terminated p => s.attached p → s.lb.TerminatedKeeps p
  | _ => True

instance StepKeeps.decidable (s : LbSystem α) : ∀ op, Decidable (s.StepKeeps op)
  | .terminated p => inferInstanceAs (Decidable (s.attached p → s.lb.TerminatedKeeps p))
  | .attach _ _ => .isTrue trivial
  | .send _ => .isTrue trivial
  | .hasOut => .isTrue trivial
  | .processActivateWrite _ _ => .isTrue trivial
  | .processPipeTerm _ => .isTrue trivial
  | .terminate _ _ => .isTrue trivial
  | .read _ => .isTrue trivial
  | .processActivateRead _ => .isTrue trivial
  | .peerWrite _ _ => .isTrue trivial
  | .peerFlush _ => .isTrue trivial
  | .peerRead _ => .isTrue trivial

theorem Inv.terminated_sending (h : s.Inv) {r : Rotor α}
    (hr : s.lb.toRotor.terminated p = .ok r) (hm : s.lb.more = true)
    (hd : (s.lb.dropping || (s.lb.pipes.index p == s.lb.current && s.lb.more)) = false) :
    0 < r.active := by
  simp only [Bool.or_eq_false_iff, Bool.and_eq_false_iff, beq_eq_false_iff_ne, hm] at hd
  have hne : s.lb.pipes.index p ≠ s.lb.current := hd.2.resolve_right (by simp)
  have hpos := h.sending hm hd.1
  have hlt := h.tracks.rotor.current_lt_active hpos
  rw [(Rotor.terminated_ok hr).2.1, ArrayT.eraseBoundary]
  split_ifs <;> omega

inductive Moves (s : LbSystem α) : LbOp α → LbSystem α → Prop where
  | same {op : LbOp α} : Moves s op s
  | attach {p : α} {e : Endpoint} {lb : Lb α} : ¬ s.attached p → e.pipe.outActive = true →
      e.pipe.WithinHwm → s.lb.attach p = .ok lb →
      Moves s (.attach p e) { (s.setEnd p { e with refusedWrite := false }) with lb := lb }
  | send {msg : Msg} {r : SendResult α} {lb : Lb α} {ends : Ends α} :
      s.lb.send s.ends msg = .ok (r, lb, ends) →
      Moves s (.send msg) ⟨lb, ends, s.trace ++ sendEvents msg r⟩
  | hasOut {r : Bool} {lb : Lb α} {ends : Ends α} : s.lb.hasOut s.ends = .ok (r, lb, ends) →
      Moves s .hasOut { s with lb := lb, ends := ends }
  | terminated {p : α} {lb : Lb α} : s.attached p → s.lb.terminated p = .ok lb →
      Moves s (.terminated p) { s with lb := lb, trace := s.trace ++ [.gone p] }
  | reported {p : α} {n : Nat} {e : Endpoint} : s.attached p → (s.ends p).pipe.Advances n →
      (s.ends p).processActivateWrite n = (false, e) →
      Moves s (.processActivateWrite p n) (s.setEnd p e)
  | activated {p : α} {n : Nat} {e : Endpoint} {lb : Lb α} : s.attached p →
      (s.ends p).pipe.Advances n → (s.ends p).processActivateWrite n = (true, e) →
      s.lb.activated p = .ok lb →
      Moves s (.processActivateWrite p n) { (s.setEnd p e) with lb := lb }
  | kept {op : LbOp α} {p : α} {e : Endpoint} : (s.ends p).pipe.OutboundKept e.pipe →
      e.refusedWrite = (s.ends p).refusedWrite → Moves s op (s.setEnd p e)

theorem step_moves {s' : LbSystem α} {op : LbOp α} (hs : s.step op = .ok s') : Moves s op s' := by
  cases op with
  | attach p e =>
    simp only [step] at hs
    split at hs
    · cases hs
      exact .same
    next hg =>
      simp only [not_or, Bool.not_eq_false, not_not] at hg
      split at hs
      · cases hs
      next hr =>
        cases hs
        exact .attach hg.1 hg.2.1 hg.2.2 hr
  | send msg =>
    simp only [step] at hs
    split at hs
    · cases hs
    next hr =>
      cases hs
      exact .send hr
  | hasOut =>
    simp only [step] at hs
    split at hs
    · cases hs
    next hr =>
      cases hs
      exact .hasOut hr
  | terminated p =>
    simp only [step] at hs
    split at hs
    next hp =>
      split at hs
      · cases hs
      next hr =>
        cases hs
        exact .terminated hp hr
    · cases hs
      exact .same
  | processActivateWrite p n =>
    simp only [step] at hs
    split at hs
    next hp =>
      split at hs
      next hact =>
        cases hs
        exact .reported hp.1 hp.2 hact
      next hact =>
        split at hs
        · cases hs
        next hr =>
          cases hs
          exact .activated hp.1 hp.2 hact hr
    · cases hs
      exact .same
  | processPipeTerm p =>
    simp only [step, Endpoint.processPipeTerm] at hs
    cases hpt : (s.ends p).pipe.processPipeTerm with
    | error e => simp [hpt] at hs
    | ok r =>
      simp only [hpt] at hs
      cases hs
      exact .kept (Pipe.processPipeTerm_outboundKept hpt) rfl
  | terminate p d =>
    simp only [step, Endpoint.terminate] at hs
    cases hpt : (s.ends p).pipe.terminate d (s.ends p).outPtr with
    | error e => simp [hpt] at hs
    | ok r =>
      simp only [hpt] at hs
      cases hs
      exact .kept (Pipe.terminate_outboundKept hpt) (by simp)
  | read p =>
    simp only [step, Endpoint.read] at hs
    cases hpt : (s.ends p).pipe.read (s.ends p).inq with
    | error e => simp [hpt] at hs
    | ok r =>
      simp only [hpt] at hs
      cases hs
      exact .kept (Pipe.read_outboundKept hpt) rfl
  | processActivateRead p =>
    cases hs
    exact .kept (Pipe.processActivateRead_outboundKept _) rfl
  | peerWrite p msg =>
    cases hs
    exact .kept .rfl rfl
  | peerFlush p =>
    cases hs
    exact .kept .rfl rfl
  | peerRead p =>
    cases hs
    exact .kept .rfl rfl

theorem Inv.step {s' : LbSystem α} (h : s.Inv) {op : LbOp α} (hk : s.StepKeeps op)
    (hs : s.step op = .ok s') : s'.Inv := by
  cases step_moves hs with
  | same => exact h
  | @attach p e lb hp hopen _ hr =>
    obtain ⟨r, hr', hact, htr⟩ := h.tracks.attach (e := { e with refusedWrite := false }) hp
      rfl (by simp [writeWatch, hopen])
    simp only [Lb.attach, Lb.withRotor, hr'] at hr
    cases hr
    exact ⟨htr, h.dropping, fun _ _ => by simp [hact]⟩
  | send hr => exact (h.send hr _).1
  | hasOut hr => exact (h.hasOut hr _).1
  | terminated hp hr =>
    obtain ⟨r, hr', htr⟩ := h.tracks.terminated hp (hk hp)
    simp only [Lb.terminated, Lb.withRotor, hr'] at hr
    cases hr
    refine ⟨htr, fun hd => ?_, fun hm hd => h.terminated_sending hr' hm hd⟩
    simp only [Bool.or_eq_true, Bool.and_eq_true] at hd
    exact hd.elim h.dropping (fun hd => hd.2)
  | reported _ _ hact =>
    obtain ⟨href, hpipe⟩ := Endpoint.processActivateWrite_false hact
    exact h.setEnd href (by rw [hpipe]; exact fun hst => ⟨hst, rfl⟩)
  | activated hp _ hact hr =>
    obtain ⟨hold, href, hpipe⟩ := Endpoint.processActivateWrite_true hact
    obtain ⟨r, hr', hact', htr⟩ := h.tracks.activated hp hold href (by simp [writeWatch, hpipe])
    simp only [Lb.activated, Lb.withRotor, hr'] at hr
    cases hr
    exact ⟨htr, h.dropping, fun _ _ => by simp [hact']⟩
  | kept hkept href => exact h.setEnd href hkept.1

/-! ## The load balancer never loses a writable pipe -/

def NoPipeLost (s : LbSystem α) : Prop :=
  ∀ p, s.attached p → (s.ends p).refusedWrite = false → s.lb.pipes.index p < s.lb.active

def SendFailsOnlyIfFull (s : LbSystem α) : Prop :=
  ∀ msg lb' ends', s.lb.dropping = false → s.lb.send s.ends msg = .ok (.again, lb', ends') →
    ∀ p, s.attached p → (s.ends p).RefusesWrite

def HasOutFalseOnlyIfFull (s : LbSystem α) : Prop :=
  ∀ lb' ends', s.lb.hasOut s.ends = .ok (false, lb', ends') →
    ∀ p, s.attached p → (s.ends p).RefusesWrite

def HasOutTrueThenSends (s : LbSystem α) : Prop :=
  ∀ lb' ends', s.lb.hasOut s.ends = .ok (true, lb', ends') →
    ∀ msg r lb'' ends'', lb'.send ends' msg = .ok (r, lb'', ends'') → r ≠ .again

theorem inv_of_run {ops : List (LbOp α)}
    (hmeets : RunMeets step StepKeeps init ops) (hrun : run step init ops = .ok s) : s.Inv :=
  run_invariant (fun _ _ _ hI hk hs => Inv.step hI hk hs) ops init s inv_init hmeets hrun

/-- **In a run in which every dropped pipe meets `TerminatedKeeps`, no writable pipe is ever lost.** -/
theorem no_writable_lost_iff_terminatedKeeps (ops : List (LbOp α)) (s : LbSystem α)
    (hmeets : RunMeets step StepKeeps init ops) (hrun : run step init ops = .ok s) :
    (s.NoPipeLost ∧ s.SendFailsOnlyIfFull ∧ s.HasOutFalseOnlyIfFull ∧ s.HasOutTrueThenSends) ∧
      ∀ p s', s.attached p → s.step (.terminated p) = .ok s' →
        (s'.NoPipeLost ↔ s.lb.TerminatedKeeps p) := by
  have h := inv_of_run hmeets hrun
  refine ⟨⟨h.tracks.complete, fun msg lb' ends' _ hr => ((h.send hr s.trace).2 rfl).2.2,
    fun lb' ends' hr => (h.hasOut hr s.trace).2.1 rfl,
    fun lb' ends' hr => (h.hasOut hr s.trace).2.2 rfl⟩, ?_⟩
  intro p s' hp hs
  simp only [step, hp, if_true, Lb.terminated, Lb.withRotor] at hs
  cases hr : s.lb.toRotor.terminated p with
  | error e => simp [hr] at hs
  | ok r =>
    rw [hr] at hs
    cases hs
    exact h.tracks.terminated_complete_iff hp hr

def dropFullRun : List (LbOp Nat) :=
  [.attach 0 (.init 0 1 false), .attach 1 (.init 0 1 false), .send .init, .send .init, .send .init,
    .terminated 1]

theorem dropFullRun_no_writable_lost :
    RunMeets step StepKeeps init dropFullRun ∧
      ∃ s, run step init dropFullRun = .ok s ∧ s.NoPipeLost ∧ s.SendFailsOnlyIfFull := by
  have hmeets : RunMeets step StepKeeps init dropFullRun := by decide
  obtain ⟨s, hs⟩ : ∃ s, run step init dropFullRun = .ok s := ⟨_, rfl⟩
  have h := no_writable_lost_iff_terminatedKeeps dropFullRun s hmeets hs
  exact ⟨hmeets, s, hs, h.1.1, h.1.2.1⟩

def lostWritableRun : List (LbOp Nat) :=
  [.attach 0 (.init 0 0 false), .attach 1 (.init 0 0 false), .attach 2 (.init 0 1 false),
    .send .init, .send .init, .send .init, .send .init, .send .init, .send .init,
    .processPipeTerm 0, .terminated 0]

theorem lostWritableRun_loses :
    ∃ s, run step init lostWritableRun = .ok s ∧ ¬ s.NoPipeLost ∧ ¬ s.SendFailsOnlyIfFull ∧
      ¬ s.HasOutFalseOnlyIfFull := by
  refine ⟨_, rfl, ?_, ?_, ?_⟩
  · intro h
    exact absurd (h 1 (by decide) (by decide)) (by decide)
  · intro h
    exact absurd (h .init _ _ (by decide) rfl 1 (by decide)) (by decide)
  · intro h
    exact absurd (h _ _ rfl 1 (by decide)) (by decide)

end LbSystem

end Libxs
