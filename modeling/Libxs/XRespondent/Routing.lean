import Libxs.Router.Routing

/-! # `xrespondent_t` delivers messages whole -/

namespace Libxs

variable {α : Type} [DecidableEq α]

namespace XRespondent

open Router (Receives)

variable {s t : XRespondent α} {ends ends' : Ends α}

theorem more_of_address {m : Msg} {k : UInt32} (h : address m = some k) : m.more = true := by
  unfold address at h
  grind

theorem reacts : Router.Reacts putUint32 (sink : Sink (XRespondent α) α) where
  fq := rfl
  attach h hp hr := by
    refine ⟨table_xattachPipe h hp hr, ?_⟩
    obtain ⟨fq, hfq, -, rfl⟩ := xattachPipe_ok hr
    exact ⟨.of_eq rfl rfl (fun x hx => ((Fq.attached_attach h.wf hp hfq).2 x).2 (Or.inl hx)) rfl,
      _, rfl⟩
  readActivated := rfl
  writeActivated := rfl
  terminated := rfl

theorem receives_xrecv {r : Option Msg} (h : s.Table putUint32)
    (hr : s.xrecv ends = .ok (r, t, ends')) : Receives putUint32 s ends t ends' := by
  simp only [xrecv] at hr
  split at hr
  next ht =>
    cases hr
    exact .taken h ht
  · split at hr
    · cases hr
    next hq =>
      cases hr
      exact .read h hq
    next msg p fq ends₁ hq =>
      have hread := Receives.read h hq
      cases hr
      exact hread.trans (.delivered hread.table p msg)

theorem receives_xhasIn {r : Bool} (h : s.Table putUint32)
    (hr : s.xhasIn ends = .ok (r, t, ends')) : Receives putUint32 s ends t ends' :=
  Receives.xhasIn receives_xrecv h hr

end XRespondent

namespace XRespondentSystem

def Accepts (s : XRespondentSystem α) : XRespondentOp α → Prop
  | .xsend msg => Router.Sends XRespondent.address s.xrespondent s.ends msg
  | _ => True

instance (s : XRespondentSystem α) (op : XRespondentOp α) : Decidable (s.Accepts op) := by
  unfold Accepts; split <;> infer_instance

theorem routing_step {s s' : XRespondentSystem α}
    (h : Router.Routing putUint32 s.xrespondent s.ends) {op : XRespondentOp α}
    (hk : s.Accepts op) (hs : s.step op = .ok s') :
    Router.Routing putUint32 s'.xrespondent s'.ends := by
  cases op with
  | event ev =>
    simp only [step] at hs
    split at hs
    · cases hs
    next hev =>
      cases hs
      exact h.event XRespondent.reacts (PipeEvent.steps hev).outboundStep
  | xsend msg =>
    simp only [step] at hs
    split at hs
    · cases hs
    next hx =>
      cases hs
      exact h.xsend XRespondent.more_of_address hk hx
  | xrecv => grind [step, h.receives, XRespondent.receives_xrecv, h.table]
  | xhasIn => grind [step, h.receives, XRespondent.receives_xhasIn, h.table]

/-- **Responses are routed whole.** -/
theorem responses_routed_whole (nextPeerId : UInt32) (ops : List (XRespondentOp α))
    (s : XRespondentSystem α)
    (hmeets : RunMeets step Accepts (init nextPeerId) ops)
    (hrun : run step (init nextPeerId) ops = .ok s) :
    ∃ phase, RoutePhase.after s.xrespondent.trace = some phase := by
  have h : Router.Routing putUint32 s.xrespondent s.ends :=
    run_invariant (I := fun s => Router.Routing putUint32 s.xrespondent s.ends)
      (fun _ _ _ hI hk hs => routing_step hI hk hs) ops _ s (Router.routing_init nextPeerId)
      hmeets hrun
  obtain ⟨phase, hphase, -⟩ := h.phase
  exact ⟨phase, hphase⟩

def twoSurveyors : List (XRespondentOp Nat) :=
  [.event (.attach 0 (.init 0 1 true)), .event (.attach 1 (.init 0 0 true))]

def fourResponses : List (XRespondentOp Nat) :=
  twoSurveyors ++
  [.xsend (.part true (putUint32 7)), .xsend (.part true [1]), .xsend (.part false [2]),
   .xsend (.part true (putUint32 8)), .xsend (.part false [3]),
   .xsend (.part true (putUint32 9)), .xsend (.part false [5]),
   .xsend (.part true (putUint32 8)), .xsend (.part true [6]), .event (.terminated 1),
   .xsend (.part false [7])]

set_option maxRecDepth 8000 in
theorem fourResponses_routed_whole :
    RunMeets step Accepts (init 7) fourResponses ∧
      ∃ s phase, run step (init 7) fourResponses = .ok s ∧
        RoutePhase.after s.xrespondent.trace = some phase := by
  have hmeets : RunMeets step Accepts (init 7) fourResponses := by decide
  obtain ⟨s, hs⟩ : ∃ s, run step (init 7) fourResponses = .ok s := ⟨_, rfl⟩
  obtain ⟨phase, hphase⟩ := responses_routed_whole 7 fourResponses s hmeets hs
  exact ⟨hmeets, s, phase, hs, hphase⟩

def wrongSize : List (XRespondentOp Nat) :=
  twoSurveyors ++
  [.xsend (.part true [1, 2, 3]), .xsend (.part true (putUint32 8)), .xsend (.part false [2])]

def fullSurveyor : List (XRespondentOp Nat) :=
  twoSurveyors ++
  [.xsend (.part true (putUint32 7)), .xsend (.part false [1]),
   .xsend (.part true (putUint32 7)), .xsend (.part true (putUint32 8)), .xsend (.part false [2])]

set_option maxRecDepth 8000 in
theorem dropped_response_misroutes :
    (∃ s, run step (init 7) wrongSize = .ok s ∧
      s.xrespondent.trace =
        [.sent (.part true [1, 2, 3]) true none none,
         .sent (.part true (putUint32 8)) true (some 1) none,
         .sent (.part false [2]) false none (some 1)] ∧
      RoutePhase.after s.xrespondent.trace = none) ∧
    (∃ s, run step (init 7) fullSurveyor = .ok s ∧
      s.xrespondent.trace.drop 2 =
        [.sent (.part true (putUint32 7)) true (some 0) none,
         .sent (.part true (putUint32 8)) true (some 1) none,
         .sent (.part false [2]) false none (some 1)] ∧
      RoutePhase.after s.xrespondent.trace = none) :=
  ⟨⟨_, rfl, by decide, by decide⟩, ⟨_, rfl, by decide, by decide⟩⟩

end XRespondentSystem

end Libxs
