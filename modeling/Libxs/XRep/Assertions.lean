import Libxs.XRep.Events

/-! # The table and the assertions of `xrep_t` -/

namespace Libxs

variable {α Q : Type} [DecidableEq α] {G : Grammar Q} {q q' : Q}

namespace XRep

def isAuto (id : List UInt8) : Bool := id.length == 5 && id.head? == some 0

theorem isAuto_autoId (i : UInt32) : isAuto (autoId i) = true := by
  simp [isAuto, autoId, putUint32]

def announced : Grammar Bool where
  start := false
  next := fun mid m =>
    if m.isIdentity && (mid || m.more || isAuto m.data) then none else some m.more
  closes := by
    intro q q' m h hm
    split at h
    · cases h
    · rw [Option.some.injEq] at h
      exact h.symm.trans hm

theorem announced_next {mid mid' : Bool} {m : Msg} (h : announced.next mid m = some mid') :
    mid' = m.more ∧ (m.isIdentity = true → mid = false ∧ m.more = false ∧ isAuto m.data = false) := by
  simp only [announced] at h
  grind

theorem announces_announced : Announces announced where
  alone h hid := ⟨((announced_next h).2 hid).1, ((announced_next h).2 hid).2.1⟩
  mid h hm := by
    rw [(announced_next h).1, hm]
    simp [announced]

theorem not_announceable_autoId (i : UInt32) : ¬ Announceable announced (autoId i) := by
  rintro ⟨m, q, hnext, hid, -, hdata⟩
  have hauto := ((announced_next hnext).2 hid).2.2
  rw [hdata, isAuto_autoId] at hauto
  cases hauto

variable {s t : XRep α} {ends ends' : Ends α}
variable {n : Nat} {start : UInt32}

/-! ## Keys that are made up -/

structure MadeUp (start : UInt32) (n : Nat) (s : XRep α) : Prop where
  next : s.nextPeerId = start + UInt32.ofNat n
  keys : ∀ i, s.pipeAt (autoId i) ≠ none → ∃ j < n, i = start + UInt32.ofNat j

theorem autoId_inj {i j : UInt32} (h : autoId i = autoId j) : i = j := by
  have h' := congrArg getUint32 (List.cons.inj h).2
  rwa [getUint32_putUint32, getUint32_putUint32] at h'

omit [DecidableEq α] in
theorem MadeUp.kept (h : MadeUp start n s) (hnext : t.nextPeerId = s.nextPeerId)
    (hkeys : ∀ i, t.pipeAt (autoId i) ≠ none → s.pipeAt (autoId i) ≠ none) : MadeUp start n t :=
  ⟨hnext.trans h.next, fun i hi => h.keys i (hkeys i hi)⟩

theorem MadeUp.reaction {ev : PipeEvent α} (h : MadeUp start n s) (hr : Reaction s ev t) :
    (t.nextPeerId = s.nextPeerId ∧ MadeUp start n t) ∨
      ((∃ p e, ev = .attach p e) ∧ MadeUp start (n + 1) t) := by
  have hkeys : ∀ i, t.pipeAt (autoId i) ≠ none → s.pipeAt (autoId i) ≠ none ∨
      (i = s.nextPeerId ∧ ∃ p e, ev = .attach p e) := fun i hi =>
    (hr.keys hi).imp_right fun ⟨hk, hev⟩ => ⟨autoId_inj hk, hev⟩
  have hkept : t.nextPeerId = s.nextPeerId → (¬ ∃ p e, ev = .attach p e) → MadeUp start n t :=
    fun hnext hev => h.kept hnext fun i hi => (hkeys i hi).resolve_right fun hc => hev hc.2
  cases hr with
  | same => exact Or.inl ⟨rfl, h⟩
  | @attach p e fq _ _ =>
    refine Or.inr ⟨⟨p, e, rfl⟩, ?_, fun i hi => ?_⟩
    · simp only [h.next, UInt32.ofNat_add, UInt32.add_assoc]
      rfl
    · grind [h.keys, h.next]
  | dropped _ _ _ => exact Or.inl ⟨rfl, hkept rfl (by simp)⟩
  | readActivated _ => exact Or.inl ⟨rfl, hkept rfl (by simp)⟩
  | writeActivated _ => exact Or.inl ⟨rfl, hkept rfl (by simp)⟩

omit [DecidableEq α] in
theorem MadeUp.free (h : MadeUp start n s) (hn : n < 2 ^ 32) :
    s.pipeAt (autoId s.nextPeerId) = none := by
  by_contra hc
  obtain ⟨j, hj, heq⟩ := h.keys _ hc
  rw [h.next, UInt32.add_right_inj] at heq
  have := congrArg UInt32.toNat heq
  rw [UInt32.toNat_ofNat_of_lt' (by simpa using hn),
    UInt32.toNat_ofNat_of_lt' (by simpa using hj.trans hn)] at this
  omega

omit [DecidableEq α] in
theorem MadeUp.renamed (h : MadeUp start n s) (hr : Renamed announced s t) : MadeUp start n t :=
  h.kept (by rw [hr.eq]) fun i hi => (hr.keys _ hi).resolve_right (not_announceable_autoId i)

omit [DecidableEq α] in
theorem MadeUp.gets {r : Option Msg} {q q' : Bool} (h : MadeUp start n s)
    (hg : Gets announced q s ends r q' t ends') : MadeUp start n t := by
  cases hg with
  | prefetchedId _ => exact ⟨h.next, h.keys⟩
  | prefetchedBody _ => exact ⟨h.next, h.keys⟩
  | nothing _ _ hren _ _ => exact h.renamed hren
  | first _ _ hren _ =>
    have hu := h.renamed hren
    exact ⟨hu.next, hu.keys⟩
  | next _ _ hren _ =>
    have hu := h.renamed hren
    exact ⟨hu.next, hu.keys⟩

end XRep

def XRepOp.attaches : XRepOp α → Nat
  | .event (.attach _ _) => 1
  | _ => 0

namespace XRepSystem

open XRep (announced announces_announced)

variable {s s' : XRepSystem α} {start : UInt32} {n : Nat}
variable {op : XRepOp α}

def Behaves (s : XRepSystem α) : XRepOp α → Prop
  | .event ev => ev.Conforms announced s.xrep.fq s.ends ∧ ev.Clean
  | .xsend _ => True
  | .xrecv => s.xrep.Receptive s.ends
  | .xhasIn => s.xrep.Receptive s.ends

instance (s : XRepSystem α) : ∀ op : XRepOp α, Decidable (s.Behaves op)
  | .event _ => inferInstanceAs (Decidable (_ ∧ _))
  | .xsend _ => inferInstanceAs (Decidable True)
  | .xrecv | .xhasIn => inferInstanceAs (Decidable (s.xrep.Receptive s.ends))

structure Inv (start : UInt32) (n : Nat) (s : XRepSystem α) : Prop where
  ready : ∃ q, XRep.Ready announced q s.xrep s.ends
  madeUp : ∃ m ≤ n, XRep.MadeUp start m s.xrep

theorem inv_init (start : UInt32) : Inv start 0 (init start : XRepSystem α) where
  ready := ⟨false, ⟨Fq.intake_init _, fun h => absurd h (by simp [init, Router.init, Fq.init]),
    fun _ => rfl, fun h => absurd rfl h⟩, Router.live_init start⟩
  madeUp := ⟨0, Nat.le_refl _, by simp [init, Router.init],
    fun i hi => absurd (by simp [Router.pipeAt, init, Router.init]) hi⟩

theorem Inv.event (h : Inv start n s) {ev : PipeEvent α} (hk : s.Behaves (.event ev))
    {xrep : XRep α} {ends : Ends α} (hs : ev.step XRep.sink s.xrep s.ends = .ok (xrep, ends)) :
    Inv start (n + XRepOp.attaches (.event ev)) ⟨xrep, ends⟩ := by
  have hsteps := PipeEvent.steps hs
  obtain ⟨q, hready⟩ := h.ready
  obtain ⟨m, hm, hmade⟩ := h.madeUp
  refine ⟨⟨q, hready.event hk.1 hk.2 hsteps⟩, ?_⟩
  rcases hmade.reaction (XRep.reaction hsteps) with ⟨-, hmade'⟩ | ⟨⟨p, e, rfl⟩, hmade'⟩
  · exact ⟨m, by omega, hmade'⟩
  · exact ⟨m + 1, by simpa [XRepOp.attaches] using hm, hmade'⟩

theorem Inv.xsend (h : Inv start n s) (msg : Msg) :
    ∃ s', s.step (.xsend msg) = .ok s' ∧ Inv start n s' := by
  obtain ⟨q, hready⟩ := h.ready
  obtain ⟨m, hm, hmade⟩ := h.madeUp
  obtain ⟨t, ends, hx, -⟩ := hready.live.exists_xsend XRep.address msg
  have hsent := Router.xsend_sent hx
  obtain ⟨-, -, -, hnext, htab, -⟩ := hsent.sameReceiving
  exact ⟨⟨t, ends⟩, by simp only [step, XRep.xsend, hx], ⟨q, hready.sent hsent⟩, m, hm,
    hmade.kept hnext fun i hi => htab ▸ hi⟩

theorem Inv.xrecv (h : Inv start n s) (hk : s.Behaves .xrecv) :
    ∃ s', s.step .xrecv = .ok s' ∧ Inv start n s' := by
  obtain ⟨q, hready⟩ := h.ready
  obtain ⟨m, hm, hmade⟩ := h.madeUp
  obtain ⟨r, q', t, ends, hx, hgets, hready', -⟩ := hready.xrecv announces_announced hk.continues
    fun _ => hk.quiet
  exact ⟨⟨t, ends⟩, by simp only [step, hx], ⟨q', hready'⟩, m, hm, hmade.gets hgets⟩

theorem Inv.xhasIn (h : Inv start n s) (hk : s.Behaves .xhasIn) :
    ∃ s', s.step .xhasIn = .ok s' ∧ Inv start n s' := by
  obtain ⟨q, hready⟩ := h.ready
  obtain ⟨m, hm, hmade⟩ := h.madeUp
  obtain ⟨r, t, ends, hx, hlive⟩ := hready.xhasIn announces_announced hk
  rcases XRep.xhasIn_ok hx with ⟨rfl, rfl⟩ | ⟨-, -, hr⟩ | ⟨msg, u, hpre, hin, hr, rfl⟩
  · exact ⟨⟨_, _⟩, by simp only [step, hx], ⟨q, hready⟩, m, hm, hmade⟩
  · obtain ⟨q', hgets, hplaced⟩ := hready.toPlaced.xrecv announces_announced hr
    exact ⟨⟨t, ends⟩, by simp only [step, hx], ⟨q', hplaced, hlive⟩, m, hm, hmade.gets hgets⟩
  · obtain ⟨q', hgets, hplaced⟩ := hready.toPlaced.xrecv announces_announced hr
    have hu := hmade.gets hgets
    exact ⟨⟨_, ends⟩, by simp only [step, hx], ⟨q', hplaced.ahead_of_gets hpre hin hgets, hlive⟩, m,
      hm, hu.next, hu.keys⟩

theorem Inv.step (h : Inv start n s) (hk : s.Behaves op)
    (hs : s.step op = .ok s') : Inv start (n + op.attaches) s' := by
  cases op with
  | event ev => grind [step, h.event]
  | xsend msg =>
    obtain ⟨s₁, hs₁, hinv⟩ := h.xsend msg
    simp only [hs₁] at hs
    cases hs
    exact hinv
  | xrecv =>
    obtain ⟨s₁, hs₁, hinv⟩ := h.xrecv hk
    simp only [hs₁] at hs
    cases hs
    exact hinv
  | xhasIn =>
    obtain ⟨s₁, hs₁, hinv⟩ := h.xhasIn hk
    simp only [hs₁] at hs
    cases hs
    exact hinv

structure Asserts (s : XRepSystem α) : Prop where
  xattachPipe : ∀ p, ¬ s.xrep.fq.attached p → ∃ t, s.xrep.xattachPipe p = .ok t
  xterminated : ∀ p, s.xrep.fq.attached p → ∃ t, s.xrep.xterminated p = .ok t
  xwriteActivated : ∀ p n e, s.xrep.fq.attached p → (s.ends p).processActivateWrite n = (true, e) →
    ∃ t, s.xrep.xwriteActivated p = .ok t
  xsend : ∀ msg, ∃ t ends, s.xrep.xsend s.ends msg = .ok (t, ends)
  xrecv : s.Behaves .xrecv → ∃ r t ends, s.xrep.xrecv s.ends = .ok (r, t, ends)
  xhasIn : s.Behaves .xhasIn → ∃ r t ends, s.xrep.xhasIn s.ends = .ok (r, t, ends)

theorem Inv.asserts (h : Inv start n s) (hn : n < 2 ^ 32) : s.Asserts := by
  obtain ⟨q, hready⟩ := h.ready
  obtain ⟨m, hm, hmade⟩ := h.madeUp
  have hlive := hready.live
  refine ⟨fun p hp => ?_, fun p hp => hlive.table.exists_xterminated hp, fun p n e hp hact => ?_,
    fun msg => ?_, fun hk => ?_, fun hk => ?_⟩
  · have hfree := Router.pipeAt_eq_none.1 (hmade.free (by omega))
    obtain ⟨r, hr, -⟩ := hready.intake.bounded.attach hp
    exact ⟨_, by simp only [XRep.xattachPipe, Router.register, hfree, if_false, Fq.attach,
      Fq.withRotor, hr]; rfl⟩
  · exact hlive.exists_xwriteActivated hp (Endpoint.not_stalled_of_activated hact).1
  · obtain ⟨t, ends, hx, -⟩ := hlive.exists_xsend XRep.address msg
    exact ⟨t, ends, hx⟩
  · obtain ⟨r, q', t, ends, hx, -⟩ := hready.xrecv announces_announced hk.continues
      fun _ => hk.quiet
    exact ⟨r, t, ends, hx⟩
  · obtain ⟨r, t, ends, hx, -⟩ := hready.xhasIn announces_announced hk
    exact ⟨r, t, ends, hx⟩

theorem sending_step (h : Router.Sending id s.xrep s.ends)
    (hs : s.step op = .ok s') : Router.Sending id s'.xrep s'.ends := by
  cases op with
  | event ev =>
    simp only [step] at hs
    split at hs
    · cases hs
    next hev =>
      cases hs
      exact h.event XRep.reacts (PipeEvent.steps hev).outboundStep
  | xsend msg =>
    simp only [step] at hs
    split at hs
    · cases hs
    next hx =>
      cases hs
      exact h.sent (Router.xsend_sent hx)
  | xrecv => grind [step, h.receives, XRep.receives_xrecv, h.table]
  | xhasIn => grind [step, h.receives, XRep.receives_xhasIn, h.table]

/-- **The table is a bijection and the assertions hold.** -/
theorem table_and_assertions (nextPeerId : UInt32) (ops : List (XRepOp α)) (s : XRepSystem α)
    (hrun : run step (init nextPeerId) ops = .ok s) :
    s.xrep.Table id ∧
      ((ops.map XRepOp.attaches).sum < 2 ^ 32 →
        RunMeets step Behaves (init nextPeerId) ops → s.Asserts) := by
  refine ⟨?_, fun hfew hmeets => ?_⟩
  · have h : Router.Sending id s.xrep s.ends :=
      run_preserves (I := fun s => Router.Sending id s.xrep s.ends)
        (fun _ _ _ hI hs => sending_step hI hs) ops _ s (Router.sending_init nextPeerId) hrun
    exact h.table
  · have h := run_invariant_counted (I := fun n s => Inv nextPeerId n s)
      (fun n s a s' hI hk hs => Inv.step hI hk hs) ops 0 _ s (inv_init nextPeerId) hmeets hrun
    rw [Nat.zero_add] at h
    exact h.asserts (lt_of_eq_of_lt (runCost_actions hrun) hfew)

def announce (p : Nat) (id : List UInt8) : List (XRepOp Nat) :=
  [.event (.peerWrite p ⟨false, Msg.identityFlag, id⟩), .event (.peerFlush p)]

def threePeers : List (XRepOp Nat) :=
  [.event (.attach 0 (.init 0 1 true)), .event (.attach 1 (.init 0 0 true)),
   .event (.attach 2 (.init 0 0 true))] ++
  announce 0 [9] ++ announce 1 [9] ++ announce 2 [0, 1] ++
  [.xrecv, .xsend (.part true [9]), .xsend (.part false [1]), .xsend (.part true [9]),
   .xsend (.part false [2]), .event (.processActivateWrite 0 1), .event (.terminated 1)]

set_option maxRecDepth 8000 in
theorem threePeers_table_and_assertions :
    RunMeets step Behaves (init 7) threePeers ∧
      ∃ s, run step (init 7) threePeers = .ok s ∧ s.xrep.Table id ∧ s.Asserts := by
  have hmeets : RunMeets step Behaves (init 7) threePeers := by decide
  obtain ⟨s, hs⟩ : ∃ s, run step (init 7) threePeers = .ok s := ⟨_, rfl⟩
  obtain ⟨htable, hasserts⟩ := table_and_assertions 7 threePeers s hs
  exact ⟨hmeets, s, hs, htable, hasserts (by decide) hmeets⟩

def takenKey : List (XRepOp Nat) :=
  [.event (.attach 0 (.init 0 0 true))] ++ announce 0 (XRep.autoId 8) ++ [.xrecv]

def stalledPeer : List (XRepOp Nat) :=
  [.event (.attach 0 (.init 0 1 true)), .xsend (.part true (XRep.autoId 7)),
   .xsend (.part false [1]), .xsend (.part true (XRep.autoId 7))] ++
  announce 0 [9] ++ [.xrecv]

def takenInMessage : List (XRepOp Nat) :=
  [.event (.attach 0 (.init 0 0 true)), .event (.attach 1 (.init 0 0 true)),
   .event (.peerWrite 1 ⟨false, Msg.identityFlag ||| Msg.moreFlag, XRep.autoId 7⟩),
   .event (.peerWrite 1 (.part false [1])), .event (.peerFlush 1)]

set_option maxRecDepth 8000 in
theorem peers_break_assertions :
    (∃ s, run step (init 7) takenKey = .ok s ∧ ¬ s.xrep.fq.attached 1 ∧
      s.xrep.xattachPipe 1 = .error .assertFailed) ∧
    (∃ s e, run step (init 7) stalledPeer = .ok s ∧ s.xrep.fq.attached 0 ∧
      (s.ends 0).processActivateWrite 1 = (true, e) ∧
      s.xrep.xwriteActivated 0 = .error .assertFailed) ∧
    (∃ s, run step (init 7) takenInMessage = .ok s ∧
      s.xrep.xrecv s.ends = .error .assertFailed) :=
  ⟨⟨_, rfl, by decide, rfl⟩, ⟨_, _, rfl, by decide, rfl, rfl⟩, ⟨_, rfl, rfl⟩⟩

end XRepSystem

end Libxs
