import Libxs.Router.Routing

/-! # `xrep_t` delivers messages whole -/

namespace Libxs

variable {α : Type} [DecidableEq α]

namespace XRep

open Router (Receives)

variable {s t : XRep α} {ends ends' : Ends α} {p : α}

theorem more_of_address {m : Msg} {k : List UInt8} (h : address m = some k) : m.more = true := by
  unfold address at h
  split at h
  · assumption
  · cases h

theorem reacts : Router.Reacts id (sink : Sink (XRep α) α) where
  fq := rfl
  attach h hp hr := by
    refine ⟨table_xattachPipe h hp hr, ?_⟩
    obtain ⟨fq, hfq, -, rfl⟩ := xattachPipe_ok hr
    exact ⟨.of_eq rfl rfl (fun x hx => ((Fq.attached_attach h.wf hp hfq).2 x).2 (Or.inl hx)) rfl,
      _, rfl⟩
  readActivated := rfl
  writeActivated := rfl
  terminated := rfl

inductive Identified (s : XRep α) (ends : Ends α) (p : α) (msg : Msg) : XRep α → Ends α → Prop where
  | anonymous : msg.size = 0 → Identified s ends p msg s ends
  | taken {e : Endpoint} : msg.data ∈ s.outpipes → (ends p).terminate false = .ok e →
      Identified s ends p msg s (Function.update ends p e)
  | changed {k : List UInt8} : msg.size ≠ 0 → msg.data ∉ s.outpipes → s.pipeAt k = some p →
      Identified s ends p msg
        { s with outpipes := (s.outpipes.erase k).insert msg.data ⟨p, true⟩,
                 identity := Function.update s.identity p msg.data } ends

theorem processIdentity_identified {msg : Msg}
    (hr : s.processIdentity ends p msg = .ok (t, ends')) : Identified s ends p msg t ends' := by
  unfold processIdentity at hr
  split at hr
  · cases hr
  · split at hr
    next hsize =>
      cases hr
      exact .anonymous hsize
    next hsize =>
      split at hr
      next hk =>
        split at hr
        · cases hr
        next he =>
          cases hr
          exact .taken hk he
      next hk =>
        split at hr
        · cases hr
        next hs =>
          cases hr
          obtain ⟨k, hpk, rfl⟩ := changeIdentity_ok hs
          exact .changed hsize hk hpk

theorem Identified.receives {msg : Msg} (h : s.Table id) (hi : Identified s ends p msg t ends') :
    Receives id s ends t ends' := by
  cases hi with
  | anonymous _ => exact .refl h
  | taken _ he => exact ⟨h, .refl s, sameOutbound_update (Endpoint.sameOutbound_terminate he)⟩
  | changed _ hk hpk =>
    exact ⟨table_changed h (Router.pipeAt_eq_none.2 hk) hpk,
      .of_eq rfl rfl (fun _ hx => hx) rfl, fun _ => .refl _⟩

theorem receives_recvLoop : ∀ (fuel : Nat) {s t : XRep α} {ends ends' : Ends α} {r : Option Msg},
    s.Table id → recvLoop fuel s ends = .ok (r, t, ends') → Receives id s ends t ends' := by
  intro fuel
  induction fuel with
  | zero => exact fun _ hr => absurd hr (by simp [recvLoop])
  | succ fuel ih =>
    intro s t ends ends' r h hr
    simp only [recvLoop] at hr
    split at hr
    · cases hr
    next hq =>
      cases hr
      exact .read h hq
    next msg p fq ends₁ hq =>
      have hread := Receives.read h hq
      split at hr
      · split at hr
        · cases hr
        next hp =>
          have hid := (processIdentity_identified hp).receives hread.table
          exact (hread.trans hid).trans (ih hid.table hr)
      · cases hr
        exact hread.trans (.delivered hread.table p msg)

theorem receives_xrecv {r : Option Msg} (h : s.Table id) (hr : s.xrecv ends = .ok (r, t, ends')) :
    Receives id s ends t ends' := by
  unfold xrecv at hr
  split at hr
  next ht =>
    cases hr
    exact .taken h ht
  · exact receives_recvLoop _ h hr

theorem receives_xhasIn {r : Bool} (h : s.Table id) (hr : s.xhasIn ends = .ok (r, t, ends')) :
    Receives id s ends t ends' :=
  Receives.xhasIn receives_xrecv h hr

end XRep

namespace XRepSystem

def Accepts (s : XRepSystem α) : XRepOp α → Prop
  | .xsend msg => Router.Sends XRep.address s.xrep s.ends msg
  | _ => True

instance (s : XRepSystem α) (op : XRepOp α) : Decidable (s.Accepts op) := by
  unfold Accepts; split <;> infer_instance

theorem routing_step {s s' : XRepSystem α} (h : Router.Routing id s.xrep s.ends) {op : XRepOp α}
    (hk : s.Accepts op) (hs : s.step op = .ok s') : Router.Routing id s'.xrep s'.ends := by
  cases op with
  | event ev =>
    simp only [step] at hs
    split at hs
    · cases hs
    next hev =>
      cases hs
      exact h.event XRep.reacts (PipeEvent.steps hev).outboundStep
  | xsend msg =>
    simp only [step] at hs
    split at hs
    · cases hs
    next hx =>
      cases hs
      exact h.xsend XRep.more_of_address hk hx
  | xrecv => grind [step, h.receives, XRep.receives_xrecv, h.table]
  | xhasIn => grind [step, h.receives, XRep.receives_xhasIn, h.table]

/-- **Messages are routed whole.** -/
theorem messages_routed_whole (nextPeerId : UInt32) (ops : List (XRepOp α)) (s : XRepSystem α)
    (hmeets : RunMeets step Accepts (init nextPeerId) ops)
    (hrun : run step (init nextPeerId) ops = .ok s) :
    ∃ phase, RoutePhase.after s.xrep.trace = some phase := by
  have h : Router.Routing id s.xrep s.ends :=
    run_invariant (I := fun s => Router.Routing id s.xrep s.ends)
      (fun _ _ _ hI hk hs => routing_step hI hk hs) ops _ s (Router.routing_init nextPeerId)
      hmeets hrun
  obtain ⟨phase, hphase, -⟩ := h.phase
  exact ⟨phase, hphase⟩

def twoPeers : List (XRepOp Nat) :=
  [.event (.attach 0 (.init 0 1 true)), .event (.attach 1 (.init 0 0 true))]

def fourMessages : List (XRepOp Nat) :=
  twoPeers ++
  [.xsend (.part true (XRep.autoId 7)), .xsend (.part true [1]), .xsend (.part false [2]),
   .xsend (.part true (XRep.autoId 8)), .xsend (.part false [3]),
   .xsend (.part true [4]), .xsend (.part false [5]),
   .xsend (.part true (XRep.autoId 8)), .xsend (.part true [6]), .event (.terminated 1),
   .xsend (.part false [7])]

set_option maxRecDepth 8000 in
theorem fourMessages_routed_whole :
    RunMeets step Accepts (init 7) fourMessages ∧
      ∃ s phase, run step (init 7) fourMessages = .ok s ∧
        RoutePhase.after s.xrep.trace = some phase := by
  have hmeets : RunMeets step Accepts (init 7) fourMessages := by decide
  obtain ⟨s, hs⟩ : ∃ s, run step (init 7) fourMessages = .ok s := ⟨_, rfl⟩
  obtain ⟨phase, hphase⟩ := messages_routed_whole 7 fourMessages s hmeets hs
  exact ⟨hmeets, s, phase, hs, hphase⟩

def fullPipe : List (XRepOp Nat) :=
  twoPeers ++
  [.xsend (.part true (XRep.autoId 7)), .xsend (.part false [1]),
   .xsend (.part true (XRep.autoId 7)), .xsend (.part true (XRep.autoId 8)), .xsend (.part false [2])]

set_option maxRecDepth 8000 in
theorem fullPipe_misroutes :
    ∃ s, run step (init 7) fullPipe = .ok s ∧
      s.xrep.trace.drop 2 =
        [.sent (.part true (XRep.autoId 7)) true (some 0) none,
         .sent (.part true (XRep.autoId 8)) true (some 1) none,
         .sent (.part false [2]) false none (some 1)] ∧
      RoutePhase.after s.xrep.trace = none :=
  ⟨_, rfl, by decide, by decide⟩

end XRepSystem

end Libxs
