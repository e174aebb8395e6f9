import Libxs.Router.Table

/-! # The sending half of a router -/

namespace Libxs

namespace Router

variable {κ α : Type} [DecidableEq κ] [DecidableEq α] {blob : κ → List UInt8}
variable {s t : Router κ α} {ends ends' : Ends α} {p : α}
variable {e e' : Endpoint} {msg : Msg} {address : Msg → Option κ} {u : Router κ α}
variable {S : Sink (Router κ α) α}

/-! ## What `xsend` does -/

inductive Sent (address : Msg → Option κ) (s : Router κ α) (ends : Ends α) (msg : Msg) :
    Router κ α → Ends α → Prop where
  | ignored : s.moreOut = false → s.currentOut = none → address msg = none →
      Sent address s ends msg (s.note [.sent msg true none none]) ends
  | unknown {id : κ} : s.moreOut = false → s.currentOut = none → address msg = some id →
      s.outpipes.lookup id = none →
      Sent address s ends msg
        (({ s with moreOut := true } : Router κ α).note [.sent msg true none none]) ends
  | begun {id : κ} {out : OutPipe α} {e : Endpoint} : s.moreOut = false → s.currentOut = none →
      address msg = some id → s.outpipes.lookup id = some out →
      (ends out.pipe).checkWrite = (true, e) →
      Sent address s ends msg
        (({ s with moreOut := true, currentOut := some out.pipe } : Router κ α).note
          [.sent msg true (some out.pipe) none]) (Function.update ends out.pipe e)
  | refused {id : κ} {out : OutPipe α} {e : Endpoint} : s.moreOut = false → s.currentOut = none →
      address msg = some id → s.outpipes.lookup id = some out →
      (ends out.pipe).checkWrite = (false, e) →
      Sent address s ends msg
        (({ s with outpipes := s.outpipes.insert id { out with active := false } } :
          Router κ α).note [.sent msg true (some out.pipe) none]) (Function.update ends out.pipe e)
  | dropped : s.moreOut = true → s.currentOut = none →
      Sent address s ends msg
        (({ s with moreOut := msg.more } : Router κ α).note [.sent msg false none none]) ends
  | closed {pipe : α} {e : Endpoint} : s.moreOut = true → s.currentOut = some pipe →
      (ends pipe).write msg = .ok (false, e) →
      Sent address s ends msg
        (({ s with moreOut := msg.more, currentOut := none } : Router κ α).note
          ((if (ends pipe).pipe.state = .active then [] else [.closed pipe]) ++
            [.sent msg false none none])) (Function.update ends pipe e)
  | part {pipe : α} {e : Endpoint} : s.moreOut = true → s.currentOut = some pipe →
      (ends pipe).write msg = .ok (true, e) → msg.more = true →
      Sent address s ends msg
        (({ s with moreOut := true } : Router κ α).note [.sent msg false none (some pipe)])
        (Function.update ends pipe e)
  | last {pipe : α} {e : Endpoint} : s.moreOut = true → s.currentOut = some pipe →
      (ends pipe).write msg = .ok (true, e) → msg.more = false →
      Sent address s ends msg
        (({ s with moreOut := false, currentOut := none } : Router κ α).note
          [.sent msg false none (some pipe)]) (Function.update ends pipe e.flush)

theorem xsend_sent
    (h : xsend address s ends msg = .ok (t, ends')) : Sent address s ends msg t ends' := by
  unfold xsend at h
  split at h
  next hm =>
    simp only [sendNext] at h
    split at h
    next hcur =>
      cases h
      exact .dropped hm hcur
    next pipe hcur =>
      split at h
      · cases h
      next e hw =>
        cases h
        exact .closed hm hcur hw
      next e hw =>
        split at h
        next hmore =>
          cases h
          exact .part hm hcur hw hmore
        next hmore =>
          cases h
          exact .last hm hcur hw (by simpa using hmore)
  next hm =>
    rw [Bool.not_eq_true] at hm
    unfold sendFirst at h
    split at h
    · cases h
    next hcur =>
      have hcur : s.currentOut = none := by simpa using hcur
      split at h
      next hid =>
        cases h
        exact .ignored hm hcur hid
      next id hid =>
        split at h
        next hlook =>
          cases h
          exact .unknown hm hcur hid hlook
        next out hlook =>
          split at h
          next e hc =>
            cases h
            exact .begun hm hcur hid hlook hc
          next e hc =>
            cases h
            exact .refused hm hcur hid hlook hc

structure SameReceiving (s t : Router κ α) : Prop where
  prefetched : t.prefetched = s.prefetched
  prefetchedId : t.prefetchedId = s.prefetchedId
  prefetchedMsg : t.prefetchedMsg = s.prefetchedMsg
  moreIn : t.moreIn = s.moreIn

theorem Sent.sameReceiving (h : Sent address s ends msg t ends') :
    SameReceiving s t ∧ t.fq = s.fq ∧ t.identity = s.identity ∧ t.nextPeerId = s.nextPeerId ∧
      t.pipeAt = s.pipeAt ∧ ∀ x, (ends x).SameInbound (ends' x) := by
  cases h with
  | begun _ _ _ _ hc =>
    exact ⟨⟨rfl, rfl, rfl, rfl⟩, rfl, rfl, rfl, rfl,
      sameInbound_update (Endpoint.sameInbound_checkWrite hc)⟩
  | refused _ _ _ hlook hc =>
    exact ⟨⟨rfl, rfl, rfl, rfl⟩, rfl, rfl, rfl, pipeAt_flag hlook rfl,
      sameInbound_update (Endpoint.sameInbound_checkWrite hc)⟩
  | closed _ _ hw =>
    exact ⟨⟨rfl, rfl, rfl, rfl⟩, rfl, rfl, rfl, rfl,
      sameInbound_update (Endpoint.sameInbound_write hw)⟩
  | part _ _ hw _ =>
    exact ⟨⟨rfl, rfl, rfl, rfl⟩, rfl, rfl, rfl, rfl,
      sameInbound_update (Endpoint.sameInbound_write hw)⟩
  | last _ _ hw _ =>
    exact ⟨⟨rfl, rfl, rfl, rfl⟩, rfl, rfl, rfl, rfl, sameInbound_update
      ((Endpoint.sameInbound_write hw).trans (Endpoint.sameInbound_flush _))⟩
  | _ => exact ⟨⟨rfl, rfl, rfl, rfl⟩, rfl, rfl, rfl, rfl, fun _ => .refl _⟩

theorem exists_xsend (address : Msg → Option κ) (msg : Msg)
    (hout : ∀ p, s.currentOut = some p → s.moreOut = true ∧ (ends p).Sound) :
    ∃ t ends', xsend address s ends msg = .ok (t, ends') := by
  unfold xsend
  split
  next hm =>
    cases hcur : s.currentOut with
    | none => exact ⟨_, _, by simp only [sendNext, hcur]; rfl⟩
    | some p =>
      obtain ⟨e, hw, -⟩ := (hout p hcur).2.write msg
      simp only [sendNext, hcur, hw]
      cases (ends p).accepts with
      | false => exact ⟨_, _, rfl⟩
      | true => cases msg.more <;> exact ⟨_, _, rfl⟩
  next hm =>
    have hcur : s.currentOut = none := by
      rw [Option.eq_none_iff_forall_ne_some]
      exact fun p hp => hm (hout p hp).1
    simp only [sendFirst, hcur, Option.isSome_none, Bool.false_eq_true, if_false]
    cases address msg with
    | none => exact ⟨_, _, rfl⟩
    | some id =>
      simp only
      cases s.outpipes.lookup id with
      | none => exact ⟨_, _, rfl⟩
      | some out =>
        simp only
        rcases (ends out.pipe).checkWrite with ⟨_ | _, e⟩
        · exact ⟨_, _, rfl⟩
        · exact ⟨_, _, rfl⟩

/-! ## The pipe of a half-sent message -/

def Open (e : Endpoint) : Prop :=
  e.pipe.state = .active → e.pipe.outActive = true ∧ e.pipe.HasCredit

structure Sending (blob : κ → List UInt8) (s : Router κ α) (ends : Ends α) : Prop where
  table : s.Table blob
  within : ∀ x, (ends x).pipe.WithinHwm
  out : ∀ p, s.currentOut = some p → s.moreOut = true ∧ s.fq.attached p ∧ Open (ends p)

omit [DecidableEq α] in
theorem sending_init (nextPeerId : UInt32) :
    Sending blob (init nextPeerId : Router κ α) (fun _ => Endpoint.init 0 0 true) where
  table := table_init nextPeerId
  within _ := Or.inl rfl
  out _ h := absurd h (by simp [init])

theorem open_of_checkWrite (h : e.checkWrite = (true, e')) (hw : e.pipe.WithinHwm) : Open e' := by
  obtain ⟨hcheck, hpipe, -⟩ := Endpoint.checkWrite_true h
  obtain ⟨-, hact, -, hfull⟩ := Pipe.checkWrite_true hcheck
  rw [Open, hpipe]
  exact fun _ => ⟨hact, Pipe.hasCredit_of_not_full hw hfull⟩

theorem within_update (h : ∀ x, (ends x).pipe.WithinHwm) (he : e.pipe.WithinHwm)
    (x : α) : (Function.update ends p e x).pipe.WithinHwm := by
  grind

omit [DecidableEq α] in
theorem Sending.terminating (h : Sending blob s ends)
    (hcur : s.currentOut = some p) (hw : (ends p).write msg = .ok (false, e)) :
    (ends p).pipe.state ≠ .active := by
  intro hs
  obtain ⟨-, -, hopen⟩ := h.out p hcur
  have hfst := Pipe.checkWrite_fst (ends p).pipe
  rw [(Endpoint.write_false hw).1, (hopen hs).1, hs, (hopen hs).2.not_full] at hfst
  cases hfst

theorem Sending.sent (h : Sending blob s ends)
    (hs : Sent address s ends msg t ends') : Sending blob t ends' := by
  have htable : ∀ {t : Router κ α}, t.fq = s.fq → t.outpipes = s.outpipes → t.identity = s.identity →
      t.Table blob := fun hfq hout hid =>
    h.table.congr (hfq ▸ h.table.wf) (fun _ => by rw [hfq]) (by unfold pipeAt; rw [hout]) hid
  cases hs with
  | ignored hm hcur _ => exact ⟨htable rfl rfl rfl, h.within, h.out⟩
  | unknown hm hcur _ _ =>
    exact ⟨htable rfl rfl rfl, h.within, fun p hp => absurd (hcur.symm.trans hp) (by simp)⟩
  | @begun id out e hm hcur hid hlook hc =>
    obtain ⟨-, hpipe, -⟩ := Endpoint.checkWrite_true hc
    refine ⟨htable rfl rfl rfl, within_update h.within (hpipe ▸ h.within out.pipe), fun p hp => ?_⟩
    obtain rfl : out.pipe = p := Option.some.inj hp
    refine ⟨rfl, (h.table.attached _).2 ⟨id, pipeAt_of_lookup hlook⟩, ?_⟩
    simpa using open_of_checkWrite hc (h.within out.pipe)
  | @refused id out e hm hcur hid hlook hc =>
    refine ⟨h.table.congr h.table.wf (fun _ => Iff.rfl) (pipeAt_flag hlook rfl) rfl,
      within_update h.within ?_, fun p hp => absurd (hcur.symm.trans hp) (by simp)⟩
    rw [(Pipe.checkWrite_false (Endpoint.checkWrite_false hc).1).2]
    exact h.within out.pipe
  | dropped hm hcur =>
    exact ⟨htable rfl rfl rfl, h.within, fun p hp => absurd (hcur.symm.trans hp) (by simp)⟩
  | @closed p e hm hcur hw =>
    refine ⟨htable rfl rfl rfl, within_update h.within ?_, fun p hp => absurd hp (by simp [note])⟩
    rw [(Pipe.checkWrite_false (Endpoint.write_false hw).1).2]
    exact h.within p
  | @part p e hm hcur hw hmore =>
    obtain ⟨-, hatt, hopen⟩ := h.out p hcur
    obtain ⟨-, hpipe, -⟩ := Endpoint.write_true hw
    rw [hmore, if_pos rfl] at hpipe
    refine ⟨htable rfl rfl rfl, within_update h.within (hpipe ▸ h.within p), fun x hx => ?_⟩
    obtain rfl : p = x := Option.some.inj (hcur.symm.trans hx)
    refine ⟨rfl, hatt, ?_⟩
    rw [Function.update_self, Open, hpipe]
    exact hopen
  | @last p e hm hcur hw hmore =>
    obtain ⟨-, -, hopen⟩ := h.out p hcur
    obtain ⟨hcheck, hpipe, -⟩ := Endpoint.write_true hw
    obtain ⟨-, -, hst, -⟩ := Pipe.checkWrite_true hcheck
    rw [hmore, if_neg (by simp)] at hpipe
    refine ⟨htable rfl rfl rfl, within_update h.within ?_, fun p hp => absurd hp (by simp [note])⟩
    rw [Endpoint.flush_pipe, hpipe]
    exact (hopen hst).2.withinHwm_succ

structure SameSending (s t : Router κ α) : Prop where
  currentOut : t.currentOut = s.currentOut
  moreOut : t.moreOut = s.moreOut
  attached : ∀ x, s.fq.attached x → t.fq.attached x
  trace : ∃ l, t.trace = s.trace ++ l ∧ ∀ e ∈ l, ∃ p msg, e = .received p msg

omit [DecidableEq κ] [DecidableEq α] in
theorem SameSending.of_eq (hcur : t.currentOut = s.currentOut) (hmore : t.moreOut = s.moreOut)
    (hatt : ∀ x, s.fq.attached x → t.fq.attached x) (htrace : t.trace = s.trace) :
    SameSending s t :=
  ⟨hcur, hmore, hatt, [], by rw [htrace, List.append_nil], fun e he => absurd he (by simp)⟩

omit [DecidableEq κ] [DecidableEq α] in
theorem SameSending.refl (s : Router κ α) : SameSending s s := .of_eq rfl rfl (fun _ h => h) rfl

omit [DecidableEq κ] [DecidableEq α] in
theorem SameSending.trans (h : SameSending s t) (h' : SameSending t u) : SameSending s u := by
  obtain ⟨l, hl, hall⟩ := h.trace
  obtain ⟨l', hl', hall'⟩ := h'.trace
  refine ⟨h'.currentOut.trans h.currentOut, h'.moreOut.trans h.moreOut,
    fun x hx => h'.attached x (h.attached x hx), l ++ l', by rw [hl', hl, List.append_assoc], ?_⟩
  intro e he
  exact (List.mem_append.1 he).elim (hall e) (hall' e)

omit [DecidableEq α] in
theorem Sending.kept (h : Sending blob s ends) (htable : t.Table blob) (hsame : SameSending s t)
    (hwithin : ∀ x, (ends' x).pipe.WithinHwm)
    (hopen : ∀ p, s.currentOut = some p → Open (ends p) → Open (ends' p)) : Sending blob t ends' := by
  refine ⟨htable, hwithin, fun p hp => ?_⟩
  rw [hsame.currentOut] at hp
  obtain ⟨hmore, hatt, ho⟩ := h.out p hp
  exact ⟨hsame.moreOut.trans hmore, hsame.attached p hatt, hopen p hp ho⟩

theorem within_of_sameOutbound (h : e.SameOutbound e') (hw : e.pipe.WithinHwm) :
    e'.pipe.WithinHwm := by
  unfold Pipe.WithinHwm
  rw [h.kept.2.1, h.kept.2.2.1, h.kept.2.2.2]
  exact hw

theorem open_of_sameOutbound (h : e.SameOutbound e') (ho : Open e) : Open e' := by
  intro hs
  obtain ⟨hs', hact⟩ := h.kept.1 hs
  unfold Pipe.HasCredit
  rw [hact, h.kept.2.1, h.kept.2.2.1, h.kept.2.2.2]
  exact ho hs'

omit [DecidableEq α] in
theorem Sending.sameOutbound (h : Sending blob s ends) (htable : t.Table blob)
    (hsame : SameSending s t) (hout : ∀ x, (ends x).SameOutbound (ends' x)) : Sending blob t ends' :=
  h.kept htable hsame (fun x => within_of_sameOutbound (hout x) (h.within x))
    fun p _ ho => open_of_sameOutbound (hout p) ho

theorem reported_credit {n : Nat} {sink : Bool} (hn : e.pipe.Advances n)
    (h : e.processActivateWrite n = (sink, e')) :
    (e.pipe.WithinHwm → e'.pipe.WithinHwm) ∧ (Open e → Open e') := by
  have hadv : Pipe.sub64 e.pipe.msgsWritten n ≤ Pipe.sub64 e.pipe.msgsWritten e.pipe.peersMsgsRead := hn
  cases sink with
  | true =>
    obtain ⟨⟨hout, hs⟩, -, hpipe⟩ := Endpoint.processActivateWrite_true h
    refine ⟨fun hw => ?_, fun ho => absurd ((ho hs).1.symm.trans hout) (by simp)⟩
    rw [hpipe]
    exact hw.imp_right fun hw => by simp only; omega
  | false =>
    obtain ⟨-, hpipe⟩ := Endpoint.processActivateWrite_false h
    refine ⟨fun hw => ?_, fun ho hs => ?_⟩
    · rw [hpipe]
      exact hw.imp_right fun hw => by simp only; omega
    · rw [hpipe] at hs ⊢
      exact ⟨(ho hs).1, (ho hs).2.imp_right fun hw => by simp only; omega⟩

structure Reacts (blob : κ → List UInt8) (S : Sink (Router κ α) α) : Prop where
  fq : S.fq = fq
  attach : ∀ {s t : Router κ α} {p : α}, s.Table blob → ¬ s.fq.attached p →
    S.xattachPipe s p = .ok t → t.Table blob ∧ SameSending s t ∧
      ∃ k, t.outpipes = s.outpipes.insert k ⟨p, true⟩
  readActivated : S.xreadActivated = xreadActivated
  writeActivated : S.xwriteActivated = xwriteActivated
  terminated : S.xterminated = xterminated

omit [DecidableEq κ] in
theorem xreadActivated_ok (hr : s.xreadActivated p = .ok t) :
    ∃ fq, s.fq.activated p = .ok fq ∧ t = { s with fq := fq } := by
  unfold xreadActivated at hr
  grind

theorem xterminated_ok (hr : s.xterminated p = .ok t) :
    ∃ fq x, s.fq.terminated p = .ok fq ∧ s.entryOf p = some x ∧
      t = ({ s with fq := fq, outpipes := s.outpipes.erase x.1,
                    currentOut := if s.currentOut = some p then none else s.currentOut } :
        Router κ α).note [.closed p] := by
  unfold xterminated at hr
  grind

theorem Sending.terminated (h : Sending blob s ends) (hp : s.fq.attached p)
    (hr : s.xterminated p = .ok t) : Sending blob t ends := by
  have htable := h.table.xterminated hp hr
  obtain ⟨fq, x, hfq, -, rfl⟩ := xterminated_ok hr
  refine ⟨htable, h.within, fun x hx => ?_⟩
  simp only [note] at hx ⊢
  split at hx
  · cases hx
  next hne =>
    obtain ⟨hmore, hatt, ho⟩ := h.out x hx
    have hxp : x ≠ p := fun hc => hne (hc ▸ hx)
    exact ⟨hmore, ((Fq.attached_terminated h.table.wf hp hfq).2 x).2 ⟨hatt, hxp⟩, ho⟩

theorem Reacts.sameSending (hS : Reacts blob S) (h : s.Table blob)
    (hstep : PipeEvent.OutboundStep S s ends t ends') :
    SameSending s t ∨ ∃ p, s.fq.attached p ∧ s.xterminated p = .ok t ∧ ends' = ends := by
  cases hstep with
  | same _ => exact Or.inl (.refl s)
  | attach hp _ _ _ hr =>
    rw [hS.fq] at hp
    exact Or.inl (hS.attach h hp hr).2.1
  | terminated hp hr =>
    rw [hS.fq] at hp
    rw [hS.terminated] at hr
    exact Or.inr ⟨_, hp, hr, rfl⟩
  | readActivated _ hr _ =>
    rw [hS.readActivated] at hr
    obtain ⟨fq, hfq, rfl⟩ := xreadActivated_ok hr
    exact Or.inl (.of_eq rfl rfl (fun x hx => ((Fq.attached_activated h.wf hfq).2 x).2 hx) rfl)
  | activated _ _ _ hr =>
    rw [hS.writeActivated] at hr
    obtain ⟨k, out, -, -, -, rfl⟩ := xwriteActivated_ok hr
    exact Or.inl (.of_eq rfl rfl (fun _ hx => hx) rfl)
  | reported _ _ _ => exact Or.inl (.refl s)

theorem Sending.event (hS : Reacts blob S) (h : Sending blob s ends)
    (hstep : PipeEvent.OutboundStep S s ends t ends') : Sending blob t ends' := by
  have hcredit : ∀ {p : α} {n : Nat} {e : Endpoint} {sink : Bool}, (ends p).pipe.Advances n →
      (ends p).processActivateWrite n = (sink, e) →
      (∀ x, (Function.update ends p e x).pipe.WithinHwm) ∧
        ∀ x, Open (ends x) → Open (Function.update ends p e x) := by
    intro p n e sink hn hact
    obtain ⟨hw, ho⟩ := reported_credit hn hact
    refine ⟨within_update h.within (hw (h.within p)), fun x hx => ?_⟩
    grind
  rcases hS.sameSending h.table hstep with hsame | ⟨p, hp, hr, rfl⟩
  · cases hstep with
    | same hout => exact h.sameOutbound h.table hsame hout
    | @attach p e _ hp _ _ hwithin hr =>
      rw [hS.fq] at hp
      refine h.kept (hS.attach h.table hp hr).1 hsame (within_update h.within hwithin)
        fun x hx ho => ?_
      have hxp : x ≠ p := fun hc => hp (hc ▸ (h.out x hx).2.1)
      simpa [hxp] using ho
    | terminated hp hr =>
      rw [hS.fq] at hp
      rw [hS.terminated] at hr
      exact h.terminated hp hr
    | readActivated _ hr hout =>
      rw [hS.readActivated] at hr
      exact h.sameOutbound (h.table.xreadActivated hr) hsame hout
    | activated _ hn hact hr =>
      rw [hS.writeActivated] at hr
      obtain ⟨hwithin, hopen⟩ := hcredit hn hact
      exact h.kept (h.table.xwriteActivated hr) hsame hwithin fun x _ => hopen x
    | reported _ hn hact => grind [h.kept, h.table]
  · exact h.terminated hp hr

/-! ## Receiving -/

omit [DecidableEq κ] [DecidableEq α] in
theorem deliver_fields (s : Router κ α) (p : α) (msg : Msg) :
    (s.deliver p msg).2.fq = s.fq ∧ (s.deliver p msg).2.outpipes = s.outpipes ∧
      (s.deliver p msg).2.identity = s.identity ∧ (s.deliver p msg).2.currentOut = s.currentOut ∧
      (s.deliver p msg).2.moreOut = s.moreOut ∧ (s.deliver p msg).2.nextPeerId = s.nextPeerId ∧
      (s.deliver p msg).2.trace = s.trace := by
  unfold deliver deliverFirst
  split <;> exact ⟨rfl, rfl, rfl, rfl, rfl, rfl, rfl⟩

omit [DecidableEq α] in
theorem Table.deliver (h : s.Table blob) (p : α) (msg : Msg) : (s.deliver p msg).2.Table blob := by
  obtain ⟨hfq, hout, hid, -⟩ := s.deliver_fields p msg
  exact h.congr (hfq ▸ h.wf) (fun x => by rw [hfq]) (by unfold pipeAt; rw [hout]) hid

omit [DecidableEq κ] [DecidableEq α] in
theorem takePrefetched_fields (h : s.takePrefetched = some (msg, t)) :
    t.fq = s.fq ∧ t.outpipes = s.outpipes ∧ t.identity = s.identity ∧ t.currentOut = s.currentOut ∧
      t.moreOut = s.moreOut ∧ t.nextPeerId = s.nextPeerId ∧ t.trace = s.trace := by
  unfold takePrefetched at h
  grind

structure Receives (blob : κ → List UInt8) (s : Router κ α) (ends : Ends α) (t : Router κ α)
    (ends' : Ends α) : Prop where
  table : t.Table blob
  sending : SameSending s t
  outbound : ∀ x, (ends x).SameOutbound (ends' x)

omit [DecidableEq α] in
theorem Receives.refl (h : s.Table blob) : Receives blob s ends s ends :=
  ⟨h, .refl s, fun _ => .refl _⟩

omit [DecidableEq α] in
theorem Receives.trans {ends'' : Ends α} (h : Receives blob s ends t ends')
    (h' : Receives blob t ends' u ends'') : Receives blob s ends u ends'' :=
  ⟨h'.table, h.sending.trans h'.sending, fun x => (h.outbound x).trans (h'.outbound x)⟩

omit [DecidableEq α] in
theorem Receives.taken (h : s.Table blob) (ht : s.takePrefetched = some (msg, t)) :
    Receives blob s ends t ends := by
  obtain ⟨hfq, hout, hid, hcur, hmore, -, htrace⟩ := takePrefetched_fields ht
  exact ⟨h.congr (hfq ▸ h.wf) (fun x => by rw [hfq]) (by unfold pipeAt; rw [hout]) hid,
    .of_eq hcur hmore (fun x hx => by rw [hfq]; exact hx) htrace, fun _ => .refl _⟩

theorem Receives.read (h : s.Table blob) {fq : Fq α} {r : Option (Msg × α)}
    (hr : s.fq.recvpipe ends = .ok (r, fq, ends')) :
    Receives blob s ends { s with fq := fq } ends' := by
  obtain ⟨hwf, hatt, hreads, -⟩ := Fq.recvLoop_reads _ h.wf hr
  exact ⟨h.congr hwf hatt rfl rfl, .of_eq rfl rfl (fun x hx => (hatt x).2 hx) rfl,
    fun x => Endpoint.sameOutbound_reads (hreads x)⟩

omit [DecidableEq α] in
theorem Receives.delivered (h : s.Table blob) (p : α) (msg : Msg) :
    Receives blob s ends ((s.deliver p msg).2.note [.received p msg]) ends := by
  obtain ⟨hfq, -, -, hcur, hmore, -, htrace⟩ := s.deliver_fields p msg
  have htable := h.deliver p msg
  refine ⟨htable.congr htable.wf (fun _ => Iff.rfl) rfl rfl, ⟨hcur, hmore, fun x hx => ?_,
    [.received p msg], by rw [note, htrace], fun e he => ⟨p, msg, by simpa using he⟩⟩,
    fun _ => .refl _⟩
  rw [note, hfq]
  exact hx

omit [DecidableEq α] in
theorem Receives.xhasIn
    {xrecv : Router κ α → Ends α → Except Fault (Option Msg × Router κ α × Ends α)}
    (hrecv : ∀ {s t : Router κ α} {ends ends' : Ends α} {r : Option Msg}, s.Table blob →
      xrecv s ends = .ok (r, t, ends') → Receives blob s ends t ends')
    (h : s.Table blob) {r : Bool} (hr : Router.xhasIn xrecv s ends = .ok (r, t, ends')) :
    Receives blob s ends t ends' := by
  unfold Router.xhasIn at hr
  split at hr
  · cases hr
    exact .refl h
  · split at hr
    · cases hr
      exact .refl h
    · split at hr
      · cases hr
      next hx =>
        cases hr
        exact hrecv h hx
      next hx =>
        cases hr
        obtain ⟨htable, hsending, hout⟩ := hrecv h hx
        exact ⟨htable.congr htable.wf (fun _ => Iff.rfl) rfl rfl,
          ⟨hsending.currentOut, hsending.moreOut, hsending.attached, hsending.trace⟩, hout⟩

omit [DecidableEq α] in
theorem Sending.receives (h : Sending blob s ends) (hr : Receives blob s ends t ends') :
    Sending blob t ends' :=
  h.sameOutbound hr.table hr.sending hr.outbound

end Router

end Libxs
