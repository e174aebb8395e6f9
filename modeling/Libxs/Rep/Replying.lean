import Libxs.Rep.Assertions

/-! # The replies that `rep_t` sends -/

namespace Libxs

/-! ## Exchanges -/

inductive Exchange.Phase where
  | fetched (label : Msg)
  | addressed (label : Msg)
  | copied
  | copying (label : Msg)
  | body
  | reply
deriving DecidableEq

inductive Exchange (α : Type) where
  | idle
  | busy (pipe : α) (up : Bool) (phase : Exchange.Phase)
deriving DecidableEq

namespace Exchange

variable {α : Type} [DecidableEq α]
variable {ex : Exchange α} {trace : List (RouteEvent α)}

def Phase.afterLabel (label : Msg) : Phase := if label.size = 0 then .body else .copied

def target (pipe : α) (up : Bool) : Option α := if up then some pipe else none

def next : Exchange α → RouteEvent α → Option (Exchange α)
  | .idle, .received p msg => some (.busy p true (.fetched msg))
  | .idle, .closed _ => some .idle
  | .busy p up phase, .closed q => some (.busy p (up && p ≠ q) phase)
  -- the identity
  | .busy p up (.fetched label), .sent _ true named none =>
    if named = none then some (.busy p false (.addressed label))
    else if named = some p ∧ up = true then some (.busy p true (.addressed label))
    else none
  -- the pipe of the requester has refused the identity, and the first label names nobody
  | .busy p _ (.addressed label), .sent msg true none none =>
    if msg = label then some (.busy p false (.afterLabel label)) else none
  | .busy p up (.addressed label), .sent msg false _ written =>
    if msg = label ∧ written = target p up then some (.busy p up (.afterLabel label)) else none
  | .busy p up .copied, .received q msg =>
    if p = q then some (.busy p up (.copying msg)) else none
  | .busy p up (.copying label), .sent msg false _ written =>
    if msg = label ∧ written = target p up then some (.busy p up (.afterLabel label)) else none
  | .busy p up .body, .received q msg =>
    if p = q then some (.busy p up (if msg.more then .body else .reply)) else none
  | .busy p up .reply, .sent msg false _ written =>
    if written = target p up then some (if msg.more then .busy p up .reply else .idle) else none
  | _, _ => none

def after (trace : List (RouteEvent α)) : Option (Exchange α) := trace.foldlM next .idle

theorem after_append (h : after trace = some ex)
    (events : List (RouteEvent α)) : after (trace ++ events) = events.foldlM next ex := by
  unfold after at h ⊢
  rw [List.foldlM_append, h]
  rfl

theorem after_snoc (h : after trace = some ex)
    (ev : RouteEvent α) : after (trace ++ [ev]) = next ex ev := by
  rw [after_append h]
  simp

def replying : Exchange α → Bool
  | .busy _ _ .reply => true
  | _ => false

end Exchange

namespace Rep

open Exchange (target)

variable {α : Type} [DecidableEq α] {x y : XRep α} {ends ends' : Ends α} {p : α} {up : Bool}
variable {q q' : Place} {stage stage' : Stage}
variable {phase : Exchange.Phase} {label msg : Msg} {ev : PipeEvent α}

/-! ## Sending to the requester -/

structure Route (x : XRep α) (p : α) (up : Bool) : Prop where
  more : x.moreOut = true
  out : x.currentOut = target p up

theorem Route.sent {f : Bool → Exchange α} (h : Route x p up)
    (hx : Router.Sending id x ends) (ha : Exchange.after x.trace = some (.busy p up phase))
    (hnext : ∀ up, Exchange.next (.busy p up phase) (.sent msg false none (target p up)) = some (f up))
    (hs : Router.Sent XRep.address x ends msg y ends') :
    ∃ up', Exchange.after y.trace = some (f up') ∧ y.moreOut = msg.more ∧
      (msg.more = true → Route y p up') := by
  have hcur : ∀ {pipe : α}, x.currentOut = some pipe → pipe = p ∧ up = true := fun hc => by
    have hout := h.out
    grind [target]
  cases hs with
  | ignored hm _ _ => exact absurd (h.more.symm.trans hm) (by simp)
  | unknown hm _ _ _ => exact absurd (h.more.symm.trans hm) (by simp)
  | begun hm _ _ _ _ => exact absurd (h.more.symm.trans hm) (by simp)
  | refused hm _ _ _ _ => exact absurd (h.more.symm.trans hm) (by simp)
  | dropped _ hc =>
    have hdown : target p up = none := h.out.symm.trans hc
    have := hnext up
    rw [hdown] at this
    exact ⟨up, (Exchange.after_snoc ha _).trans this, rfl, fun hm => ⟨hm, h.out⟩⟩
  | @closed pipe e _ hc hw =>
    obtain ⟨rfl, rfl⟩ := hcur hc
    have hterm := hx.terminating hc hw
    refine ⟨false, ?_, rfl, fun hm => ⟨hm, rfl⟩⟩
    simp only [Router.note, hterm, if_false, Exchange.after_append ha]
    have := hnext false
    simp only [target, Bool.false_eq_true, if_false] at this
    simpa [Exchange.next] using this
  | @part pipe e _ hc _ hm =>
    obtain ⟨rfl, rfl⟩ := hcur hc
    exact ⟨true, (Exchange.after_snoc ha _).trans (hnext true), hm.symm, fun _ => ⟨rfl, hc⟩⟩
  | @last pipe e _ hc _ hm =>
    obtain ⟨rfl, rfl⟩ := hcur hc
    exact ⟨true, (Exchange.after_snoc ha _).trans (hnext true), hm.symm,
      fun hc => absurd (hm.symm.trans hc) (by simp)⟩

/-! ## Copying the labels -/

inductive Linked (x : XRep α) : Exchange α → Stage → Prop where
  | idle : x.moreOut = false → Linked x .idle .idle
  | fetched {p : α} {label : Msg} : x.moreOut = false → x.fq.pipes.get x.fq.current = some p →
      x.pipeAt x.prefetchedId = some p → Linked x (.busy p true (.fetched label)) (.fetched label)
  | refused {p : α} {label : Msg} : x.moreOut = false → x.fq.pipes.get x.fq.current = some p →
      x.pipeAt label.data = none → Linked x (.busy p true (.addressed label)) (.addressed label)
  | addressed {p : α} {up : Bool} {label : Msg} : Route x p up →
      x.fq.pipes.get x.fq.current = some p →
      Linked x (.busy p up (.addressed label)) (.addressed label)
  | copied {p : α} {up : Bool} : Route x p up → x.fq.pipes.get x.fq.current = some p →
      Linked x (.busy p up .copied) .copied
  | body {p : α} {up : Bool} : Route x p up → x.fq.pipes.get x.fq.current = some p →
      Linked x (.busy p up .body) .body

def Answering (stage : Stage) (x : XRep α) : Prop :=
  ∃ ex, Exchange.after x.trace = some ex ∧ Linked x ex stage

omit [DecidableEq α] in
theorem linked_afterLabel (hr : Route x p up) (hcur : x.fq.pipes.get x.fq.current = some p) :
    Linked x (.busy p up (.afterLabel label)) (.afterLabel label) := by
  unfold Exchange.Phase.afterLabel Stage.afterLabel
  split
  · exact .body hr hcur
  · exact .copied hr hcur

def Unambiguous (x : XRep α) (ends : Ends α) : Prop :=
  match x.xrecv ends with
  | .ok (some id, y, ends) => ∀ out ∈ y.outpipes.lookup id.data,
      (ends out.pipe).checkWrite.1 = true ∨ y.prefetchedMsg.data ∉ y.outpipes
  | _ => True

instance (x : XRep α) (ends : Ends α) : Decidable (Unambiguous x ends) := by
  unfold Unambiguous; split <;> infer_instance

theorem answering_addressed {id : Msg} (hs : Router.Sent XRep.address x ends id y ends')
    (ha : Exchange.after x.trace = some (.busy p true (.fetched label))) (hmore : x.moreOut = false)
    (hcur : x.fq.pipes.get x.fq.current = some p) (hname : x.pipeAt id.data = some p)
    (hid : id.more = true)
    (hun : ∀ out ∈ x.outpipes.lookup id.data,
      (ends out.pipe).checkWrite.1 = true ∨ label.data ∉ x.outpipes) : Answering (.addressed label) y := by
  have haddr : XRep.address id = some id.data := by simp [XRep.address, hid]
  have hpipe : ∀ {k : List UInt8} {out : OutPipe α}, XRep.address id = some k →
      x.outpipes.lookup k = some out → k = id.data ∧ out.pipe = p := fun hk hlook => by
    obtain rfl := Option.some.inj (haddr.symm.trans hk)
    rw [Router.pipeAt_of_lookup hlook, Option.some.injEq] at hname
    exact ⟨rfl, hname⟩
  cases hs with
  | ignored _ _ hc => exact absurd (haddr.symm.trans hc) (by simp)
  | unknown _ _ hk hlook =>
    obtain rfl := Option.some.inj (haddr.symm.trans hk)
    have hfree : x.pipeAt id.data = none := by rw [Router.pipeAt, hlook, Option.map_none]
    exact absurd (hname.symm.trans hfree) (by simp)
  | begun _ _ hk hlook _ =>
    obtain ⟨rfl, rfl⟩ := hpipe hk hlook
    refine ⟨.busy _ true (.addressed label), ?_, .addressed ⟨rfl, rfl⟩ hcur⟩
    exact (Exchange.after_snoc ha _).trans (by simp [Exchange.next])
  | refused _ _ hk hlook hc =>
    obtain ⟨rfl, rfl⟩ := hpipe hk hlook
    refine ⟨.busy _ true (.addressed label), (Exchange.after_snoc ha _).trans (by simp [Exchange.next]),
      .refused hmore hcur ?_⟩
    have hfree := (hun _ hlook).resolve_left (by simp [hc])
    have hflag := Router.pipeAt_flag (s := x)
      (t := { x with outpipes := x.outpipes.insert id.data ⟨_, false⟩ }) hlook rfl
    exact (congrFun hflag label.data).trans (Router.pipeAt_eq_none.2 hfree)
  | dropped hm _ => exact absurd (hm.symm.trans hmore) (by simp)
  | closed hm _ _ => exact absurd (hm.symm.trans hmore) (by simp)
  | part hm _ _ _ => exact absurd (hm.symm.trans hmore) (by simp)
  | last hm _ _ _ => exact absurd (hm.symm.trans hmore) (by simp)

theorem answering_refused (hs : Router.Sent XRep.address x ends label y ends')
    (ha : Exchange.after x.trace = some (.busy p true (.addressed label))) (hmore : x.moreOut = false)
    (hcur : x.fq.pipes.get x.fq.current = some p) (hfree : x.pipeAt label.data = none)
    (hlabel : label.more = true) : Answering (.afterLabel label) y := by
  have haddr : XRep.address label = some label.data := by simp [XRep.address, hlabel]
  have hnone : ∀ {k : List UInt8} {out : OutPipe α}, XRep.address label = some k →
      x.outpipes.lookup k ≠ some out := fun hk hlook => by
    obtain rfl := Option.some.inj (haddr.symm.trans hk)
    exact absurd (hfree.symm.trans (Router.pipeAt_of_lookup hlook)) (by simp)
  cases hs with
  | ignored _ _ hc => exact absurd (haddr.symm.trans hc) (by simp)
  | unknown _ hc _ _ =>
    refine ⟨.busy p false (.afterLabel label), ?_, linked_afterLabel ⟨rfl, hc⟩ hcur⟩
    exact (Exchange.after_snoc ha _).trans (by simp [Exchange.next])
  | begun _ _ hk hlook _ => exact absurd hlook (hnone hk)
  | refused _ _ hk hlook _ => exact absurd hlook (hnone hk)
  | dropped hm _ => exact absurd (hm.symm.trans hmore) (by simp)
  | closed hm _ _ => exact absurd (hm.symm.trans hmore) (by simp)
  | part hm _ _ _ => exact absurd (hm.symm.trans hmore) (by simp)
  | last hm _ _ _ => exact absurd (hm.symm.trans hmore) (by simp)

theorem answering_label (hs : Router.Sent XRep.address x ends label y ends')
    (hphase : phase = .addressed label ∨ phase = .copying label)
    (ha : Exchange.after x.trace = some (.busy p up phase)) (hr : Route x p up)
    (hx : Router.Sending id x ends) (hcur : x.fq.pipes.get x.fq.current = some p)
    (hlabel : label.more = true) : Answering (.afterLabel label) y := by
  have hfq : y.fq = x.fq := hs.sameReceiving.2.1
  obtain ⟨up', ha', -, hr'⟩ := hr.sent (f := fun up => .busy p up (.afterLabel label)) hx ha
    (fun up => by rcases hphase with rfl | rfl <;> simp [Exchange.next]) hs
  exact ⟨_, ha', linked_afterLabel (hr' hlabel) (by rw [hfq]; exact hcur)⟩

def Fresh : Stage → Prop
  | .idle => True
  | .fetched _ => True
  | _ => False

omit [DecidableEq α] in
theorem not_fresh_of_hands {arr : List (α × Msg)} (h : Hands stage (some msg) arr stage')
    (hs : stage ≠ .body) : ¬ Fresh stage' := by
  have hlabel : ∀ label, ¬ Fresh (.afterLabel label) := fun label => by
    unfold Stage.afterLabel
    split <;> simp [Fresh]
  cases h with
  | begun _ _ _ => exact id
  | ahead _ _ => exact id
  | label _ => exact hlabel _
  | next _ => exact hlabel _
  | part => exact absurd rfl hs

theorem Answering.pass (h : Answering stage x) (hun : Fresh stage → Unambiguous x ends)
    (hp : Pass stage x ends stage' y ends') : Answering stage' y := by
  obtain ⟨ex, ha, hlinked⟩ := h
  cases hp with
  | @mk q q' u _ ends₁ _ arr msg _ hne hx hstage hrecv hgets hh hlog hu hstage' hsent =>
    have hsame := (XRep.receives_xrecv hx.sending.table hrecv).sending
    have hun' : Fresh stage → ∀ out ∈ u.outpipes.lookup msg.data,
        (ends₁ out.pipe).checkWrite.1 = true ∨ u.prefetchedMsg.data ∉ u.outpipes := fun hs => by
      have := hun hs
      simpa only [Unambiguous, hrecv] using this
    have hroute : ∀ {p : α} {up : Bool}, Route x p up → Route u p up := fun hr =>
      ⟨hsame.moreOut.trans hr.more, hsame.currentOut.trans hr.out⟩
    cases hh with
    | @begun p id label hid _ hlabel =>
      cases hlinked with
      | idle hmore =>
        have hau : Exchange.after u.trace = some (.busy p true (.fetched label)) := by
          rw [hlog.trace]
          exact Exchange.after_snoc ha _
        have hmem : (p, label) ∈ [(p, label)] := List.mem_singleton_self _
        refine answering_addressed hsent hau (hsame.moreOut.trans hmore)
          (hlog.current _ hmem hlabel) (hlog.names _ hmem hstage.2.1 _ rfl) hid ?_
        have := hun' trivial
        rwa [hstage'.2.1] at this
    | @ahead id label hid _ =>
      cases hlinked with
      | fetched hmore hcur hname =>
        have hlabel : u.prefetchedMsg = label := hstage'.2.1
        have := hun' trivial
        rw [hlabel] at this
        cases hgets with
        | prefetchedId _ =>
          exact answering_addressed hsent ha hmore hcur hname hid this
        | first hpre _ _ _ => exact absurd (hstage.1.symm.trans hpre) (by simp)
        | next hpre _ _ _ => exact absurd (hstage.1.symm.trans hpre) (by simp)
        | prefetchedBody hpre => exact absurd (hstage.1.symm.trans hpre) (by simp)
    | label hlabel =>
      cases hgets with
      | prefetchedId hpre => exact absurd (hstage.1.symm.trans hpre) (by simp)
      | first hpre _ _ _ => exact absurd (hstage.1.symm.trans hpre) (by simp)
      | next hpre _ _ _ => exact absurd (hstage.1.symm.trans hpre) (by simp)
      | prefetchedBody _ =>
        cases hlinked with
        | refused hmore hcur hfree =>
          exact answering_refused hsent ha hmore hcur hfree hlabel
        | addressed hr hcur =>
          exact answering_label hsent (Or.inl rfl) ha (hroute hr) hu.sending hcur hlabel
    | @next p _ hlabel =>
      cases hlinked with
      | @copied p' up hr hcur =>
        have hmid := hstage.mid hx.placed (by simp)
        obtain rfl : p' = p := Option.some.inj
          (hcur.symm.trans (hlog.source _ (List.mem_singleton_self _) hmid))
        have hau : Exchange.after u.trace = some (.busy p' up (.copying msg)) := by
          rw [hlog.trace]
          exact (Exchange.after_snoc ha _).trans (by simp [Exchange.next])
        exact answering_label hsent (Or.inr rfl) hau (hroute hr) hu.sending
          (hlog.current _ (List.mem_singleton_self _) hlabel) hlabel
    | part => exact absurd rfl hne

theorem Route.event (h : Route x p up)
    (ha : Exchange.after x.trace = some (.busy p up phase)) (hr : XRep.Reaction x ev y) :
    ∃ up', Exchange.after y.trace = some (.busy p up' phase) ∧ Route y p up' := by
  cases hr with
  | @dropped q fq k _ _ _ =>
    refine ⟨up && p ≠ q, (Exchange.after_snoc ha _).trans (by cases phase <;> rfl), h.more, ?_⟩
    have hout := h.out
    grind [target, Router.note]
  | _ => exact ⟨up, ha, h.more, h.out⟩

omit [DecidableEq α] in
theorem pipe_ne_dropped {k : List UInt8} {p' : α} (hx : x.Table id) (hy : y.Table id)
    (hcur : y.fq.pipes.get y.fq.current = some p) (hk : x.pipeAt k = some p')
    (he : y.outpipes = x.outpipes.erase k) : p ≠ p' := by
  rintro rfl
  obtain ⟨k', hk'⟩ := (hy.attached p).1 (ArrayT.mem_of_get hcur)
  rw [Router.pipeAt_erase he] at hk'
  grind [hx.unique]

theorem Answering.event (h : Answering stage x) (hx : Attentive q x ends)
    (hstage : stage.Holds x q) (hcalls : stage = .idle ∨ (∃ l, stage = .fetched l) ∨ stage = .body)
    (hk : ev.Conforms requests x.fq ends) (hs : ev.Steps XRep.sink x ends y ends') :
    Answering stage y := by
  obtain ⟨ex, ha, hlinked⟩ := h
  have hr := XRep.reaction hs
  have hy := hx.event hk hs
  have hcurrent : ∀ {p : α}, stage ≠ .idle → x.fq.pipes.get x.fq.current = some p →
      y.fq.pipes.get y.fq.current = some p := fun hne hcur => by
    rw [(hx.placed.event hk hs).2.2 (hstage.mid hx.placed hne)]
    exact hcur
  cases hlinked with
  | idle hmore =>
    cases hr with
    | dropped _ _ _ => exact ⟨.idle, Exchange.after_snoc ha _, .idle hmore⟩
    | _ => exact ⟨.idle, ha, .idle hmore⟩
  | @fetched p label hmore hcur hname =>
    have hcur' := hcurrent (by simp) hcur
    cases hr with
    | same => exact ⟨_, ha, .fetched hmore hcur' hname⟩
    | attach _ hfree =>
      refine ⟨_, ha, .fetched hmore hcur' ?_⟩
      rw [Router.pipeAt_insert (s := x) rfl, Function.update_of_ne]
      · exact hname
      · grind
    | @dropped p' _ k _ _ hpipe =>
      have hne : p ≠ p' := pipe_ne_dropped hx.sending.table hy.sending.table hcur' hpipe rfl
      refine ⟨.busy p true (.fetched label), (Exchange.after_snoc ha _).trans ?_,
        .fetched hmore hcur' ?_⟩
      · simp [Exchange.next, hne]
      · rw [Router.pipeAt_erase (s := x) rfl, Function.update_of_ne]
        · exact hname
        · rintro heq
          exact hne (Option.some.inj (hname.symm.trans (heq ▸ hpipe)))
    | readActivated _ => exact ⟨_, ha, .fetched hmore hcur' hname⟩
    | writeActivated hlook =>
      refine ⟨_, ha, .fetched hmore hcur' ?_⟩
      rw [Router.pipeAt_flag (s := x) hlook rfl]
      exact hname
  | @body p up hroute hcur =>
    obtain ⟨up', ha', hroute'⟩ := hroute.event ha hr
    exact ⟨_, ha', .body hroute' (hcurrent (by simp) hcur)⟩
  | refused _ _ _ => exact absurd hcalls (by simp)
  | addressed _ _ => exact absurd hcalls (by simp)
  | copied _ _ => exact absurd hcalls (by simp)

omit [DecidableEq α] in
theorem out_gets {r : Option Msg} (hg : XRep.Gets requests q x ends r q' y ends') :
    y.moreOut = x.moreOut ∧ y.currentOut = x.currentOut := by
  have hren : ∀ {u : XRep α}, XRep.Renamed requests x u →
      u.moreOut = x.moreOut ∧ u.currentOut = x.currentOut := fun hu => by
    rw [hu.eq]
    exact ⟨rfl, rfl⟩
  cases hg with
  | prefetchedId _ => exact ⟨rfl, rfl⟩
  | prefetchedBody _ => exact ⟨rfl, rfl⟩
  | nothing _ _ hu _ _ => exact hren hu
  | first _ _ hu _ => exact ⟨(hren hu).1, (hren hu).2⟩
  | next _ _ hu _ => exact ⟨(hren hu).1, (hren hu).2⟩

theorem Answering.nothing (h : Answering .idle x)
    (hg : XRep.Gets requests q x ends none q' y ends') : Answering .idle y := by
  obtain ⟨ex, ha, hlinked⟩ := h
  cases hlinked with
  | idle hmore =>
    cases hg with
    | nothing _ _ hren _ _ =>
      rw [hren.eq]
      exact ⟨.idle, ha, .idle hmore⟩

def Exchanges (s : Rep α) (stage : Stage) : Prop :=
  if s.sendingReply then
    ∃ p up, Exchange.after s.xrep.trace = some (.busy p up .reply) ∧ Route s.xrep p up
  else Answering stage s.xrep

variable {s t : Rep α} {delivered : List Msg}
variable {b : Bool} {r : Except Errno Msg}

theorem exchanges_recvBody (h : Answering .body s.xrep)
    (hx : Attentive q s.xrep ends) (hstage : Stage.body.Holds s.xrep q) (hsend : s.sendingReply = false)
    (hr : s.recvBody ends = .ok (r, t, ends')) :
    ∃ msg, r = .ok msg ∧ t.Exchanges (if msg.more then .body else .idle) := by
  obtain ⟨msg, q', arr, rfl, -, hgets, hh, hlog, -, ht⟩ := recvBody_ok hx hstage hr
  refine ⟨msg, rfl, ?_⟩
  obtain ⟨ex, ha, hlinked⟩ := h
  cases hlinked with
  | @body p up hroute hcur =>
    obtain ⟨hmore, hout⟩ := out_gets hgets
    have hroute' : Route t.xrep p up := ⟨hmore.trans hroute.more, hout.trans hroute.out⟩
    have hmid := hstage.mid hx.placed (by simp)
    cases hh with
    | @part p' _ =>
      obtain rfl : p = p' := Option.some.inj
        (hcur.symm.trans (hlog.source _ (List.mem_singleton_self _) hmid))
      have ha' : Exchange.after t.xrep.trace =
          some (.busy p up (if msg.more then .body else .reply)) := by
        rw [hlog.trace]
        exact (Exchange.after_snoc ha _).trans (by simp [Exchange.next])
      have hcur' := hlog.current _ (List.mem_singleton_self _)
      unfold Exchanges
      cases hm : msg.more with
      | true =>
        have hsend' : t.sendingReply = false := by
          rw [ht, if_pos hm]
          exact hsend
        simp only [hm, if_true] at ha'
        simp only [hsend', Bool.false_eq_true, if_false, if_true]
        exact ⟨_, ha', .body hroute' (hcur' hm)⟩
      | false =>
        have hsend' : t.sendingReply = true := by rw [ht, if_neg (by simp [hm])]
        simp only [hm, Bool.false_eq_true, if_false] at ha'
        simp only [hsend', if_true]
        exact ⟨p, up, ha', hroute'⟩

theorem Answering.copyLabels {fuel : Nat} (h : Answering stage x) (hx : Attentive q x ends)
    (hstage : stage.Holds x q) (hne : stage ≠ .body) (hun : Unambiguous x ends)
    (hr : copyLabels fuel x ends = .ok (b, y, ends')) :
    ∃ q', Attentive q' y ends' ∧ (if b then Stage.body else .idle).Holds y q' ∧
      Answering (if b then .body else .idle) y := by
  have hnothing : ∀ {q q' : Place} {x y : XRep α} {ends ends' : Ends α},
      (Answering .idle x ∧ (Fresh .idle → Unambiguous x ends)) →
      XRep.Gets requests q x ends none q' y ends' → Answering .idle y := fun hI hg => hI.1.nothing hg
  have hpass : ∀ {stage stage' : Stage} {x y : XRep α} {ends ends' : Ends α},
      (Answering stage x ∧ (Fresh stage → Unambiguous x ends)) → Pass stage x ends stage' y ends' →
      (Answering stage' y ∧ (Fresh stage' → Unambiguous y ends')) := fun hI hp => by
    refine ⟨hI.1.pass hI.2 hp, fun hc => ?_⟩
    cases hp with
    | mk hne _ _ _ _ hh _ _ _ _ => exact absurd hc (not_fresh_of_hands hh hne)
  obtain ⟨q', hy, hstage', hI⟩ :=
    copyLabels_keeps hnothing hpass fuel hx hstage hne ⟨h, fun _ => hun⟩ hr
  refine ⟨q', hy, hstage', ?_⟩
  cases b
  · exact hI
  · exact hI.1

theorem Exchanges.event {ev : PipeEvent α} (h : s.Exchanges stage) (hh : s.Hears ends delivered q stage)
    (hk : ev.Conforms requests s.xrep.fq ends) (hs : ev.Steps sink s ends t ends') :
    t.Exchanges stage := by
  obtain ⟨hsteps, hsend, -⟩ := steps_base hs
  unfold Exchanges at h ⊢
  rw [hsend]
  split at h
  next hs =>
    rw [if_pos hs]
    obtain ⟨p, up, ha, hroute⟩ := h
    obtain ⟨up', ha', hroute'⟩ := hroute.event ha (XRep.reaction hsteps)
    exact ⟨p, up', ha', hroute'⟩
  next hs =>
    rw [if_neg hs]
    refine h.event hh.attentive hh.holds ?_ hk hsteps
    have hfits := hh.fits
    cases stage with
    | idle => exact Or.inl rfl
    | fetched label => exact Or.inr (Or.inl ⟨label, rfl⟩)
    | body => exact Or.inr (Or.inr rfl)
    | addressed label => exact hfits.elim
    | copied => exact hfits.elim

theorem Exchanges.xsend {msg : Msg} {r : Except Errno Unit} (h : s.Exchanges stage)
    (hh : s.Hears ends delivered q stage) (hr : s.xsend ends msg = .ok (r, t, ends')) :
    t.Exchanges stage := by
  rcases xsend_ok hr with ⟨-, -, rfl, rfl⟩ | ⟨hs, -, y, hsent, rfl⟩
  · exact h
  · unfold Exchanges at h ⊢
    simp only [hs, if_true] at h
    obtain ⟨p, up, ha, hroute⟩ := h
    obtain ⟨up', ha', hmore, hroute'⟩ := hroute.sent
      (f := fun up => if msg.more then .busy p up .reply else .idle) hh.attentive.sending ha
      (fun up => by simp [Exchange.next]) hsent
    cases hm : msg.more with
    | true => grind
    | false =>
      simp only [hm, Bool.false_eq_true, if_false] at ha' ⊢
      have hidle : stage = .idle := by
        have hfits := hh.fits
        cases stage with
        | idle => rfl
        | fetched label => exact absurd (hs.symm.trans hfits.2) (by simp)
        | body => exact absurd (hs.symm.trans hfits.2) (by simp)
        | _ => exact hfits.elim
      subst hidle
      exact ⟨.idle, ha', .idle (hmore.trans hm)⟩

omit [DecidableEq α] in
theorem stage_unique (h : stage.Holds x q) (hf : s.Fits stage) (h' : stage'.Holds x q')
    (hf' : s.Fits stage') : stage = stage' := by
  cases stage <;> cases stage' <;> simp_all [Stage.Holds, Fits]

theorem Exchanges.xrecv (h : s.Exchanges stage) (hh : s.Hears ends delivered q stage)
    (hun : s.sendingReply = false → s.requestBegins = true → Unambiguous s.xrep ends)
    (hr : s.xrecv ends = .ok (r, t, ends')) :
    ∃ q' stage', t.Hears ends' (delivered ++ r.toOption.toList) q' stage' ∧ t.Exchanges stage' := by
  have hanswering : s.sendingReply = false → Answering stage s.xrep := fun hs => by
    simpa [Exchanges, hs] using h
  obtain ⟨q', stage', hh'⟩ := hh.xrecv hr
  -- the stage that the call has led to is the one that the exchange has reached
  have hmeet : ∀ {q₁ : Place} {stage₁ : Stage}, stage₁.Holds t.xrep q₁ → t.Fits stage₁ →
      t.Exchanges stage₁ → ∃ q' stage', t.Hears ends' (delivered ++ r.toOption.toList) q' stage' ∧
        t.Exchanges stage' := fun hstage₁ hfits₁ hex => by
    obtain rfl := stage_unique hstage₁ hfits₁ hh'.holds hh'.fits
    exact ⟨q', _, hh', hex⟩
  have hbody : ∀ {s₁ : Rep α} {q₁ : Place} {ends₁ : Ends α},
      s₁.recvBody ends₁ = .ok (r, t, ends') → Answering .body s₁.xrep →
      Attentive q₁ s₁.xrep ends₁ → Stage.body.Holds s₁.xrep q₁ → s₁.sendingReply = false →
      s₁.requestBegins = false → ∃ q' stage', t.Hears ends' (delivered ++ r.toOption.toList) q' stage' ∧
        t.Exchanges stage' := fun hr ha hx hstage hs hb => by
    obtain ⟨msg, q₂, _, rfl, -, -, -, -, hstage₂, ht⟩ := recvBody_ok hx hstage hr
    obtain ⟨_, hmsg, hex⟩ := exchanges_recvBody ha hx hstage hs hr
    cases hmsg
    refine hmeet hstage₂ ?_ hex
    rw [ht]
    split
    · exact ⟨hb, hs⟩
    · rfl
  cases xrecv_receives hr with
  | busy _ => exact ⟨q, stage, by simpa [Except.toOption] using hh, h⟩
  | @nothing y _ hs hb hc =>
    obtain ⟨q₁, -, hstage₁, ha⟩ := (hanswering hs).copyLabels hh.attentive hh.holds
      (hh.not_body hb) (hun hs hb) hc
    refine hmeet hstage₁ hb ?_
    simp only [Exchanges, hs, Bool.false_eq_true, if_false]
    exact ha
  | begun hs hb hc hr =>
    obtain ⟨q₁, hx₁, hstage₁, ha⟩ := (hanswering hs).copyLabels hh.attentive hh.holds
      (hh.not_body hb) (hun hs hb) hc
    exact hbody hr ha hx₁ hstage₁ hs rfl
  | body hs hb hr => grind [hh.fits_body, hh.attentive, hh.holds]

theorem Exchanges.xhasIn (h : s.Exchanges stage) (hh : s.Hears ends delivered q stage)
    (hr : s.xhasIn ends = .ok (b, t, ends')) :
    ∃ q' stage', t.Hears ends' delivered q' stage' ∧ t.Exchanges stage' := by
  obtain ⟨q', stage', hh'⟩ := hh.xhasIn hr
  rcases xhasIn_ok hr with ⟨rfl, rfl⟩ | ⟨hs, hx, ht⟩
  · exact ⟨q, stage, hh, h⟩
  · rcases xhasIn_hands hh.attentive hh.holds hx with ⟨hxrep, rfl⟩ | ⟨q₁, rfl, hy, hcases⟩
    · rw [hxrep] at ht
      subst ht
      exact ⟨q, stage, hh, h⟩
    · have hfits : t.requestBegins = true ∧ t.sendingReply = false := by
        rw [ht]
        exact ⟨hh.fits, hs⟩
      have ha : Answering .idle s.xrep := by simpa [Exchanges, hs] using h
      have hmeet : ∀ {stage₁ : Stage}, stage₁.Holds t.xrep q₁ → t.Fits stage₁ →
          Answering stage₁ t.xrep → t.Exchanges stage' := fun hstage₁ hfits₁ ha => by
        obtain rfl := stage_unique hstage₁ hfits₁ hh'.holds hh'.fits
        simpa [Exchanges, hfits.2] using ha
      refine ⟨q', stage', hh', ?_⟩
      rcases hcases with ⟨hgets, hidle⟩ | ⟨id, label, arr, u, hgets, hhands, hlog, hu, hfetched, hyu⟩
      · exact hmeet hidle hfits.1 (ha.nothing hgets)
      · refine hmeet hfetched hfits ?_
        obtain ⟨ex, ha, hlinked⟩ := ha
        cases hlinked with
        | idle hmore =>
          cases hhands with
          | @begun p _ _ _ _ hlabel =>
            have hmem : (p, label) ∈ [(p, label)] := List.mem_singleton_self _
            have hau : Exchange.after u.trace = some (.busy p true (.fetched label)) := by
              rw [hlog.trace]
              exact Exchange.after_snoc ha _
            have hmoreu : u.moreOut = false := (out_gets hgets).1.trans hmore
            rw [hyu]
            exact ⟨_, hau, .fetched hmoreu (hlog.current _ hmem hlabel)
              (hlog.names _ hmem hh.holds.2.1 _ rfl)⟩

end Rep

namespace RepSystem

variable {α : Type} [DecidableEq α] {s s' : RepSystem α}

def Answerable (s : RepSystem α) : RepOp α → Prop
  | .event ev => ev.Conforms requests s.rep.xrep.fq s.ends
  | .xrecv => s.rep.sendingReply = false → s.rep.requestBegins = true →
      Rep.Unambiguous s.rep.xrep s.ends
  | .xsend _ => True
  | .xhasIn => True

instance (s : RepSystem α) : ∀ op : RepOp α, Decidable (s.Answerable op)
  | .event ev => inferInstanceAs (Decidable (ev.Conforms requests s.rep.xrep.fq s.ends))
  | .xrecv => inferInstanceAs (Decidable (_ → _ → _))
  | .xsend _ | .xhasIn => inferInstanceAs (Decidable True)

def Replies (s : RepSystem α) : Prop :=
  ∃ q stage, s.rep.Hears s.ends s.delivered q stage ∧ s.rep.Exchanges stage

theorem Replies.step (h : Replies s) {op : RepOp α} (hk : s.Answerable op)
    (hs : s.step op = .ok s') : Replies s' := by
  obtain ⟨q, stage, hhears, hex⟩ := h
  unfold RepSystem.step at hs
  cases op with
  | event ev =>
    simp only at hs
    split at hs
    · cases hs
    next hev =>
      cases hs
      have hsteps := PipeEvent.steps hev
      exact ⟨q, stage, hhears.event hk hsteps, hex.event hhears hk hsteps⟩
  | xsend msg =>
    simp only at hs
    split at hs
    · cases hs
    next hx =>
      cases hs
      exact ⟨q, stage, hhears.xsend hx, hex.xsend hhears hx⟩
  | xrecv =>
    simp only at hs
    split at hs
    · cases hs
    next hx =>
      cases hs
      exact hex.xrecv hhears hk hx
  | xhasIn =>
    simp only at hs
    split at hs
    · cases hs
    next hx =>
      cases hs
      exact hex.xhasIn hhears hx

theorem replies_init (nextPeerId : UInt32) : Replies (init nextPeerId : RepSystem α) :=
  ⟨.start, .idle, ⟨attentive_init nextPeerId, ⟨rfl, rfl, rfl⟩, rfl, rfl⟩, .idle, rfl, .idle rfl⟩

/-- **Replies follow requests.** -/
theorem replies_follow_requests (nextPeerId : UInt32) (ops : List (RepOp α)) (s : RepSystem α)
    (hmeets : RunMeets step Answerable (init nextPeerId) ops)
    (hrun : run step (init nextPeerId) ops = .ok s) :
    ∃ ex, Exchange.after s.rep.xrep.trace = some ex ∧
      (ex.replying = true → s.rep.xrecv s.ends = .ok (.error .efsm, s.rep, s.ends)) ∧
      (ex.replying = false → ∀ msg,
        s.rep.xsend s.ends msg = .ok (.error .efsm, s.rep, s.ends)) := by
  obtain ⟨q, stage, hhears, hex⟩ := run_invariant (I := Replies)
    (fun _ _ _ hI hk hs => hI.step hk hs) ops _ s (replies_init nextPeerId) hmeets hrun
  unfold Rep.Exchanges at hex
  split at hex
  next hs => grind [Rep.xrecv, Exchange.replying]
  next hs =>
    obtain ⟨ex, ha, hlinked⟩ := hex
    refine ⟨ex, ha, fun hc => ?_, fun _ msg => by simp [Rep.xsend, hs]⟩
    cases hlinked <;> exact absurd hc (by simp [Exchange.replying])

def threeReplies : List (RepOp Nat) :=
  [.event (.attach 0 (.init 0 1 true)), .event (.attach 1 (.init 0 0 true))] ++
  peerSends 0 [.part true [], .part false [1]] ++
  [.xrecv, .xsend (.part true [2]), .xrecv, .xsend (.part false [3])] ++
  peerSends 0 [.part true [5], .part true [], .part false [4]] ++
  [.xhasIn, .xrecv, .xsend (.part false [6])] ++
  peerSends 1 [.part true [5], .part true [], .part false [7]] ++
  [.xrecv, .xsend (.part true [8]), .event (.terminated 1), .xsend (.part false [9]), .xsend .init]

set_option maxRecDepth 8000 in
theorem threeReplies_follow_requests :
    RunMeets step Answerable (init 7) threeReplies ∧
      ∃ s, run step (init 7) threeReplies = .ok s ∧
        ∃ ex, Exchange.after s.rep.xrep.trace = some ex ∧
          (ex.replying = false → ∀ msg,
            s.rep.xsend s.ends msg = .ok (.error .efsm, s.rep, s.ends)) := by
  have hmeets : RunMeets step Answerable (init 7) threeReplies := by decide
  obtain ⟨s, hs⟩ : ∃ s, run step (init 7) threeReplies = .ok s := ⟨_, rfl⟩
  obtain ⟨ex, ha, -, hsend⟩ := replies_follow_requests 7 threeReplies s hmeets hs
  exact ⟨hmeets, s, hs, ex, ha, hsend⟩

def borrowedLabel : List (RepOp Nat) :=
  [.event (.attach 0 (.init 0 1 true)), .event (.attach 1 (.init 0 0 true))] ++
  peerSends 1 [⟨false, Msg.identityFlag, [9]⟩] ++
  peerSends 0 [.part true [], .part false [1]] ++ [.xrecv, .xsend (.part false [2])] ++
  peerSends 0 [.part true [9], .part true [], .part false [3]] ++ [.xrecv, .xsend (.part false [4])]

set_option maxRecDepth 8000 in
theorem borrowedLabel_misroutes :
    ∃ s, run step (init 7) borrowedLabel = .ok s ∧
      Exchange.after s.rep.xrep.trace = none ∧
      Router.arrivals s.rep.xrep.trace = [(0, .part true []), (0, .part false [1]),
        (0, .part true [9]), (0, .part true []), (0, .part false [3])] ∧
      s.rep.xrep.trace.getLast? = some (.sent (.part false [4]) false none (some 1)) :=
  ⟨_, rfl, by decide, by decide, by decide⟩

end RepSystem

end Libxs
