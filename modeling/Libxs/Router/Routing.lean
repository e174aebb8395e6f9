import Libxs.Router.Sending

/-! # Messages are routed whole -/

namespace Libxs

/-! ## What may become of the parts -/

inductive RoutePhase (α : Type) where
  | idle
  | started (named : Option α)
  | writing (pipe : α)
  | dropping
deriving DecidableEq

namespace RoutePhase

variable {α : Type} [DecidableEq α]

def afterPart (phase : RoutePhase α) (more : Bool) : RoutePhase α := if more then phase else .idle

def next : RoutePhase α → RouteEvent α → Option (RoutePhase α)
  | phase, .received _ _ => some phase
  | .writing p, .closed q => some (if p = q then .dropping else .writing p)
  | phase, .closed _ => some phase
  | .idle, .sent msg true named none => some (afterPart (.started named) msg.more)
  | .started _, .sent msg false _ none => some (afterPart .dropping msg.more)
  | .started named, .sent msg false _ (some p) =>
    if named = some p then some (afterPart (.writing p) msg.more) else none
  | .writing p, .sent msg false _ (some q) =>
    if p = q then some (afterPart (.writing p) msg.more) else none
  | .dropping, .sent msg false _ none => some (afterPart .dropping msg.more)
  | _, .sent _ _ _ _ => none

def after (trace : List (RouteEvent α)) : Option (RoutePhase α) := trace.foldlM next .idle

theorem after_append {trace : List (RouteEvent α)} {phase : RoutePhase α}
    (h : after trace = some phase) (events : List (RouteEvent α)) :
    after (trace ++ events) = events.foldlM next phase := by
  unfold after at h ⊢
  rw [List.foldlM_append, h]
  rfl

theorem foldlM_received {l : List (RouteEvent α)} (h : ∀ e ∈ l, ∃ p msg, e = .received p msg)
    (phase : RoutePhase α) : l.foldlM next phase = some phase := by
  induction l with
  | nil => rfl
  | cons e l ih =>
    obtain ⟨p, msg, rfl⟩ := h e (by simp)
    rw [List.foldlM_cons]
    exact ih fun e he => h e (by simp [he])

end RoutePhase

namespace Router

variable {κ α : Type} [DecidableEq κ] [DecidableEq α] {blob : κ → List UInt8}

def InPhase (s : Router κ α) : RoutePhase α → Prop
  | .idle => s.moreOut = false
  | .started named => s.moreOut = true ∧ ∀ p, s.currentOut = some p → named = some p
  | .writing p => s.moreOut = true ∧ s.currentOut = some p
  | .dropping => s.moreOut = true ∧ s.currentOut = none

structure Routing (blob : κ → List UInt8) (s : Router κ α) (ends : Ends α) : Prop
    extends Sending blob s ends where
  phase : ∃ phase, RoutePhase.after s.trace = some phase ∧ s.InPhase phase

theorem routing_init (nextPeerId : UInt32) :
    Routing blob (init nextPeerId : Router κ α) (fun _ => Endpoint.init 0 0 true) :=
  ⟨sending_init nextPeerId, .idle, rfl, rfl⟩

variable {s t : Router κ α} {ends ends' : Ends α} {p : α}
variable {phase : RoutePhase α}

def Sends (address : Msg → Option κ) (s : Router κ α) (ends : Ends α) (msg : Msg) : Prop :=
  s.moreOut = false → msg.more = true →
    ∃ id ∈ address msg, ∀ out ∈ s.outpipes.lookup id, (ends out.pipe).accepts = true

instance (address : Msg → Option κ) (s : Router κ α) (ends : Ends α) (msg : Msg) :
    Decidable (Sends address s ends msg) := by
  unfold Sends
  cases address msg with
  | none => exact decidable_of_iff (s.moreOut = false → msg.more = true → False) (by simp)
  | some id =>
    exact decidable_of_iff (s.moreOut = false → msg.more = true →
      ∀ out ∈ s.outpipes.lookup id, (ends out.pipe).accepts = true) (by simp)

omit [DecidableEq κ] [DecidableEq α] in
theorem InPhase.idle (h : s.InPhase phase) (hm : s.moreOut = false) : phase = .idle := by
  cases phase with
  | idle => rfl
  | started named => exact absurd (h.1.symm.trans hm) (by simp)
  | writing p => exact absurd (h.1.symm.trans hm) (by simp)
  | dropping => exact absurd (h.1.symm.trans hm) (by simp)

theorem Routing.idle (h : Routing blob s ends) (hm : s.moreOut = false) :
    RoutePhase.after s.trace = some .idle := by
  obtain ⟨phase, hphase, hin⟩ := h.phase
  rw [hphase, hin.idle hm]

theorem Routing.phase_next (h : Routing blob s ends) (hm : s.moreOut = true) (msg : Msg) :
    (s.currentOut = none → RoutePhase.after (s.trace ++ [.sent msg false none none]) =
        some (RoutePhase.afterPart .dropping msg.more)) ∧
      ∀ p, s.currentOut = some p →
        RoutePhase.after (s.trace ++ [.sent msg false none (some p)]) =
            some (RoutePhase.afterPart (.writing p) msg.more) ∧
          RoutePhase.after (s.trace ++ [.closed p, .sent msg false none none]) =
            some (RoutePhase.afterPart .dropping msg.more) := by
  obtain ⟨phase, hphase, hin⟩ := h.phase
  cases phase with
  | idle => exact absurd (hm.symm.trans hin) (by simp)
  | started named =>
    refine ⟨fun _ => ?_, fun p hp => ?_⟩
    · rw [RoutePhase.after_append hphase]
      rfl
    · obtain rfl := hin.2 p hp
      rw [RoutePhase.after_append hphase, RoutePhase.after_append hphase]
      exact ⟨by simp [RoutePhase.next], rfl⟩
  | writing q =>
    refine ⟨fun hp => absurd (hp.symm.trans hin.2) (by simp), fun p hp => ?_⟩
    obtain rfl : p = q := Option.some.inj (hp.symm.trans hin.2)
    rw [RoutePhase.after_append hphase, RoutePhase.after_append hphase]
    exact ⟨by simp [RoutePhase.next], by simp [RoutePhase.next]⟩
  | dropping =>
    refine ⟨fun _ => ?_, fun p hp => absurd (hp.symm.trans hin.2) (by simp)⟩
    rw [RoutePhase.after_append hphase]
    rfl

omit [DecidableEq κ] [DecidableEq α] in
theorem inPhase_afterPart {more : Bool} (hm : s.moreOut = more)
    (hphase : more = true → s.InPhase phase) : s.InPhase (phase.afterPart more) := by
  cases more with
  | true => exact hphase rfl
  | false => exact hm

theorem Routing.xsend (h : Routing blob s ends) {address : Msg → Option κ}
    (haddr : ∀ {m : Msg} {id : κ}, address m = some id → m.more = true) {msg : Msg}
    (hk : Sends address s ends msg) (hr : xsend address s ends msg = .ok (t, ends')) :
    Routing blob t ends' := by
  have hsent := xsend_sent hr
  refine ⟨h.toSending.sent hsent, ?_⟩
  -- a first part that announces more starts a message
  have hstarted : s.moreOut = false → ∀ {id : κ} (named : Option α), address msg = some id →
      RoutePhase.after (s.trace ++ [.sent msg true named none]) = some (.started named) := by
    intro hm id named hid
    rw [RoutePhase.after_append (h.idle hm)]
    simp [RoutePhase.next, RoutePhase.afterPart, haddr hid]
  cases hsent with
  | ignored hm hcur hid =>
    have hlast : msg.more = false := by
      by_contra hc
      obtain ⟨id, hid', -⟩ := hk hm (by simpa using hc)
      exact absurd (hid.symm.trans hid') (by simp)
    refine ⟨.idle, ?_, hm⟩
    rw [note, RoutePhase.after_append (h.idle hm)]
    simp [RoutePhase.next, RoutePhase.afterPart, hlast]
  | unknown hm hcur hid hlook =>
    exact ⟨_, hstarted hm none hid, rfl, fun p hp => absurd (hcur.symm.trans hp) (by simp)⟩
  | begun hm hcur hid hlook hc => exact ⟨_, hstarted hm _ hid, rfl, fun p hp => hp⟩
  | refused hm hcur hid hlook hc =>
    obtain ⟨id, hid', hacc⟩ := hk hm (haddr hid)
    obtain rfl := Option.some.inj (hid.symm.trans hid')
    have hacc := hacc _ hlook
    rw [Endpoint.accepts, (Endpoint.checkWrite_false hc).1] at hacc
    cases hacc
  | dropped hm hcur =>
    exact ⟨_, (h.phase_next hm msg).1 hcur, inPhase_afterPart rfl fun hmore => ⟨hmore, hcur⟩⟩
  | closed hm hcur hw =>
    rw [if_neg (h.toSending.terminating hcur hw)]
    exact ⟨_, ((h.phase_next hm msg).2 _ hcur).2, inPhase_afterPart rfl fun hmore => ⟨hmore, rfl⟩⟩
  | part hm hcur hw hmore =>
    exact ⟨_, ((h.phase_next hm msg).2 _ hcur).1,
      inPhase_afterPart hmore.symm fun _ => ⟨rfl, hcur⟩⟩
  | last hm hcur hw hmore =>
    exact ⟨_, ((h.phase_next hm msg).2 _ hcur).1,
      inPhase_afterPart hmore.symm fun hc => absurd (hmore.symm.trans hc) (by simp)⟩

omit [DecidableEq κ] [DecidableEq α] in
theorem SameSending.inPhase (h : SameSending s t) (hin : s.InPhase phase) : t.InPhase phase := by
  unfold InPhase
  rw [h.currentOut, h.moreOut]
  exact hin

theorem Routing.sameSending (h : Routing blob s ends) (hsending : Sending blob t ends')
    (hsame : SameSending s t) : Routing blob t ends' := by
  obtain ⟨phase, hphase, hin⟩ := h.phase
  obtain ⟨l, hl, hall⟩ := hsame.trace
  refine ⟨hsending, phase, ?_, hsame.inPhase hin⟩
  rw [hl, RoutePhase.after_append hphase, RoutePhase.foldlM_received hall]

theorem Routing.terminated (h : Routing blob s ends) (hp : s.fq.attached p)
    (hr : s.xterminated p = .ok t) : Routing blob t ends := by
  refine ⟨h.toSending.terminated hp hr, ?_⟩
  obtain ⟨fq, x, -, -, rfl⟩ := xterminated_ok hr
  obtain ⟨phase, hphase, hin⟩ := h.phase
  simp only [note, RoutePhase.after_append hphase]
  cases phase with
  | idle => exact ⟨.idle, rfl, hin⟩
  | started named =>
    refine ⟨.started named, rfl, hin.1, fun x hx => ?_⟩
    simp only at hx
    split at hx
    · cases hx
    · exact hin.2 x hx
  | writing q =>
    by_cases hq : q = p
    · subst hq
      exact ⟨.dropping, by simp [RoutePhase.next], hin.1, by simp [hin.2]⟩
    · exact ⟨.writing q, by simp [RoutePhase.next, hq], hin.1, by simp [hin.2, hq]⟩
  | dropping => exact ⟨.dropping, rfl, hin.1, by simp [hin.2]⟩

theorem Routing.event {S : Sink (Router κ α) α} (hS : Reacts blob S) (h : Routing blob s ends)
    (hstep : PipeEvent.OutboundStep S s ends t ends') : Routing blob t ends' := by
  rcases hS.sameSending h.table hstep with hsame | ⟨p, hp, hr, rfl⟩
  · exact h.sameSending (h.toSending.event hS hstep) hsame
  · exact h.terminated hp hr

theorem Routing.receives (h : Routing blob s ends) (hr : Receives blob s ends t ends') :
    Routing blob t ends' :=
  h.sameSending (h.toSending.receives hr) hr.sending

end Router

end Libxs
