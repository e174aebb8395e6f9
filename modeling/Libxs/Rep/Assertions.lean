import Libxs.Rep.Receiving

/-! # The assertions of `rep_t` -/

namespace Libxs

variable {α : Type} [DecidableEq α]

namespace Rep

open Router (Live)

variable {s : Rep α} {ends : Ends α} {delivered : List Msg} {q : Place} {stage : Stage}

theorem exists_recvBody (hx : Attentive q s.xrep ends) (hlive : Live id s.xrep ends)
    (hcont : s.xrep.fq.Continues ends) (hstage : Stage.body.Holds s.xrep q) :
    ∃ r t ends', s.recvBody ends = .ok (r, t, ends') ∧ Live id t.xrep ends' := by
  have hmid := hstage.mid hx.placed (by simp)
  obtain ⟨r, _, y, ends', hrecv, -, hready, -⟩ := XRep.Ready.xrecv announces_requests
    ⟨hx.placed, hlive⟩ hcont fun hm => absurd (hmid.symm.trans hm) (by simp)
  simp only [recvBody, hrecv]
  cases r with
  | none => exact ⟨_, { s with xrep := y }, ends', rfl, hready.live⟩
  | some msg =>
    cases hm : msg.more with
    | true => exact ⟨_, { s with xrep := y }, ends', by simp [hm]; rfl, hready.live⟩
    | false => exact ⟨_, ⟨y, true, true⟩, ends', by simp [hm]; rfl, hready.live⟩

theorem Hears.exists_xrecv (h : s.Hears ends delivered q stage) (hlive : Live id s.xrep ends)
    (ho : s.sendingReply = false → s.xrep.Receptive ends) :
    ∃ r t ends', s.xrecv ends = .ok (r, t, ends') ∧ Live id t.xrep ends' := by
  unfold Rep.xrecv
  cases hs : s.sendingReply with
  | true => exact ⟨_, _, ends, rfl, hlive⟩
  | false =>
    have ho := ho hs
    cases hb : s.requestBegins with
    | false =>
      obtain rfl := h.fits_body hb
      exact exists_recvBody h.attentive hlive ho.continues h.holds
    | true =>
      have hfuel : pending s.xrep ends < labelFuel s.xrep ends := by
        unfold pending labelFuel
        split <;> omega
      obtain ⟨r, x, ends₁, hc, hlive₁, hcont₁⟩ := exists_copyLabels _ h.attentive hlive
        ho.continues (fun _ => ho.quiet) h.holds (h.not_body hb) hfuel
      obtain ⟨q', hx, hstage, -⟩ := h.copyLabels (h.not_body hb) hc
      simp only [Bool.false_eq_true, if_false, if_true, hc]
      cases r with
      | false => exact ⟨_, _, ends₁, rfl, hlive₁⟩
      | true => exact exists_recvBody hx hlive₁ hcont₁ hstage

theorem exists_xsend (hlive : Live id s.xrep ends) (msg : Msg) :
    ∃ r t ends', s.xsend ends msg = .ok (r, t, ends') ∧ Live id t.xrep ends' := by
  unfold xsend
  obtain ⟨x, ends', hx, hlive'⟩ := hlive.exists_xsend XRep.address msg
  cases s.sendingReply with
  | false => exact ⟨_, _, ends, rfl, hlive⟩
  | true =>
    simp only [XRep.xsend, hx]
    cases msg.more <;> exact ⟨_, _, ends', rfl, hlive'⟩

theorem Hears.exists_xhasIn (h : s.Hears ends delivered q stage) (hlive : Live id s.xrep ends)
    (ho : s.sendingReply = false → s.xrep.Receptive ends) :
    ∃ r t ends', s.xhasIn ends = .ok (r, t, ends') ∧ Live id t.xrep ends' := by
  unfold Rep.xhasIn
  cases hs : s.sendingReply with
  | true => exact ⟨_, _, ends, rfl, hlive⟩
  | false =>
    obtain ⟨r, x, ends', hx, hlive'⟩ :=
      XRep.Ready.xhasIn announces_requests ⟨h.attentive.placed, hlive⟩ (ho hs)
    exact ⟨r, _, ends', by simp [hx]; rfl, hlive'⟩

end Rep

namespace RepSystem

variable {s s' : RepSystem α}

def Behaves (s : RepSystem α) : RepOp α → Prop
  | .event ev => ev.Conforms requests s.rep.xrep.fq s.ends ∧ ev.Clean
  | .xsend _ => True
  | .xrecv => s.rep.sendingReply = false → s.rep.xrep.Receptive s.ends
  | .xhasIn => s.rep.sendingReply = false → s.rep.xrep.Receptive s.ends

instance (s : RepSystem α) (op : RepOp α) : Decidable (s.Behaves op) := by
  unfold Behaves; split <;> infer_instance

structure Inv (s : RepSystem α) : Prop where
  hears : ∃ q stage, s.rep.Hears s.ends s.delivered q stage
  live : Router.Live id s.rep.xrep s.ends

theorem attentive_init (nextPeerId : UInt32) :
    Attentive .start (Router.init nextPeerId : XRep α) fun _ => Endpoint.init 0 0 true where
  placed := ⟨Fq.intake_init _, fun h => absurd h (by simp [Router.init, Fq.init]), fun _ => rfl,
    fun h => absurd rfl h⟩
  sending := Router.sending_init nextPeerId
  heard := XRep.heard_init nextPeerId
  named := by simp [Router.pipeAt, Router.init]

theorem inv_init (nextPeerId : UInt32) : Inv (init nextPeerId : RepSystem α) where
  hears := ⟨.start, .idle, attentive_init nextPeerId, ⟨rfl, rfl, rfl⟩, rfl, rfl⟩
  live := Router.live_init nextPeerId

theorem Inv.step (h : Inv s) {op : RepOp α} (hk : s.Behaves op) (hs : s.step op = .ok s') : Inv s' := by
  obtain ⟨q, stage, hhears⟩ := h.hears
  cases op with
  | event ev =>
    simp only [RepSystem.step] at hs
    split at hs
    · cases hs
    next hev =>
      cases hs
      have hsteps := PipeEvent.steps hev
      obtain ⟨hx, -⟩ := Rep.steps_base hsteps
      exact ⟨⟨q, stage, hhears.event hk.1 hsteps⟩,
        h.live.event XRep.reacts hx.outboundStep (hx.outq_good h.live.good hk.2)⟩
  | xsend msg =>
    obtain ⟨r, t, ends, hx, hlive⟩ := Rep.exists_xsend h.live msg
    simp only [RepSystem.step, hx] at hs
    cases hs
    exact ⟨⟨q, stage, hhears.xsend hx⟩, hlive⟩
  | xrecv =>
    obtain ⟨r, t, ends, hx, hlive⟩ := hhears.exists_xrecv h.live hk
    simp only [RepSystem.step, hx] at hs
    cases hs
    exact ⟨hhears.xrecv hx, hlive⟩
  | xhasIn =>
    obtain ⟨r, t, ends, hx, hlive⟩ := hhears.exists_xhasIn h.live hk
    simp only [RepSystem.step, hx] at hs
    cases hs
    exact ⟨hhears.xhasIn hx, hlive⟩

structure Serves (s : RepSystem α) : Prop where
  xsend : ∀ msg, ∃ r, s.rep.xsend s.ends msg = .ok r
  xrecv : s.Behaves .xrecv → ∃ r, s.rep.xrecv s.ends = .ok r
  xhasIn : s.Behaves .xhasIn → ∃ r, s.rep.xhasIn s.ends = .ok r
  received : (requests.after .start ((Router.arrivals s.rep.xrep.trace).map Prod.snd)).isSome = true
  whole : (Router.arrivals s.rep.xrep.trace).IsChain fun a b => a.2.more = true → b.1 = a.1
  delivered : s.delivered = bodies .start ((Router.arrivals s.rep.xrep.trace).map Prod.snd)

theorem Inv.serves (h : Inv s) : s.Serves := by
  obtain ⟨q, stage, hhears⟩ := h.hears
  refine ⟨fun msg => ?_, fun hk => ?_, fun hk => ?_, ?_, hhears.attentive.heard.whole,
    hhears.delivered⟩
  · obtain ⟨r, t, ends, hx, -⟩ := Rep.exists_xsend h.live msg
    exact ⟨_, hx⟩
  · obtain ⟨r, t, ends, hx, -⟩ := hhears.exists_xrecv h.live hk
    exact ⟨_, hx⟩
  · obtain ⟨r, t, ends, hx, -⟩ := hhears.exists_xhasIn h.live hk
    exact ⟨_, hx⟩
  · exact Option.isSome_iff_exists.2 ⟨q, hhears.attentive.heard.place⟩

/-- **Requests are delivered.** -/
theorem requests_delivered (nextPeerId : UInt32) (ops : List (RepOp α)) (s : RepSystem α)
    (hmeets : RunMeets step Behaves (init nextPeerId) ops)
    (hrun : run step (init nextPeerId) ops = .ok s) : s.Serves :=
  (run_invariant (I := Inv) (fun _ _ _ hI hk hs => hI.step hk hs) ops _ s (inv_init nextPeerId) hmeets
    hrun).serves

def peerSends (p : Nat) (parts : List Msg) : List (RepOp Nat) :=
  parts.map (fun m => .event (.peerWrite p m)) ++ [.event (.peerFlush p)]

def twoRequests : List (RepOp Nat) :=
  [.event (.attach 0 (.init 0 0 true)), .event (.attach 1 (.init 0 0 true))] ++
  peerSends 1 [⟨false, Msg.identityFlag, [9]⟩] ++
  peerSends 0 [.part true [5], .part true [6], .part true [], .part true [1], .part false []] ++
  peerSends 1 [.part true [], .part false [2]] ++
  [.xhasIn, .xsend (.part false [3]), .xrecv, .xrecv, .xrecv, .xsend (.part false [3]), .xrecv]

set_option maxRecDepth 8000 in
theorem twoRequests_delivered :
    RunMeets step Behaves (init 7) twoRequests ∧
      ∃ s, run step (init 7) twoRequests = .ok s ∧ s.Serves ∧
        s.delivered = [.part true [1], .part false [], .part false [2]] := by
  have hmeets : RunMeets step Behaves (init 7) twoRequests := by decide
  obtain ⟨s, hs, hd⟩ : ∃ s, run step (init 7) twoRequests = .ok s ∧
      s.delivered = [.part true [1], .part false [], .part false [2]] := ⟨_, rfl, by decide⟩
  exact ⟨hmeets, s, hs, requests_delivered 7 twoRequests s hmeets hs, hd⟩

def shortRequest (parts : List Msg) : List (RepOp Nat) :=
  [.event (.attach 0 (.init 0 0 true))] ++ peerSends 0 parts ++
  peerSends 0 [.part true [], .part false [2]]

def Aborts (parts : List Msg) : Prop :=
  ∃ s, run step (init 7) (shortRequest parts) = .ok s ∧
    s.rep.xrecv s.ends = .error .assertFailed

set_option maxRecDepth 8000 in
theorem shortRequests_abort :
    Aborts [.part false [1]] ∧ Aborts [.part true [1], .part false [2]] ∧
      Aborts [.part true [1], .part false []] := by
  refine ⟨?_, ?_, ?_⟩
  · exact ⟨_, rfl, rfl⟩
  · exact ⟨_, rfl, rfl⟩
  · exact ⟨_, rfl, rfl⟩

end RepSystem

end Libxs
