import Libxs.Rep
import Libxs.XRep.Events

/-! # The requests that `rep_t` receives -/

namespace Libxs

variable {m : Msg}

/-! ## Requests -/

inductive Place where
  | start
  | labels
  | body
deriving DecidableEq

def requests : Grammar Place where
  start := .start
  next := fun q m =>
    if m.isIdentity then if q = .start ∧ m.more = false then some .start else none
    else if q = .body then some (if m.more then .body else .start)
    else if m.more then some (if m.size = 0 then .body else .labels) else none
  closes := by
    intro q q' m h hm
    simp only [hm, and_true, Bool.false_eq_true, if_false] at h
    split at h
    · split at h
      · exact (Option.some.inj h).symm
      · cases h
    · split at h
      · exact (Option.some.inj h).symm
      · cases h

theorem requests_identity {q q' : Place} (h : requests.next q m = some q')
    (hid : m.isIdentity = true) : q = .start ∧ m.more = false := by
  simp only [requests, hid, if_true] at h
  split at h
  · assumption
  · cases h

theorem requests_body {q : Place} (h : requests.next .body m = some q)
    (hid : m.isIdentity = false) : q = if m.more then .body else .start := by
  simpa [requests, hid] using h.symm

theorem requests_label {q q' : Place} (h : requests.next q m = some q')
    (hid : m.isIdentity = false) (hq : q ≠ .body) :
    m.more = true ∧ q' = if m.size = 0 then .body else .labels := by
  simp only [requests, hid, Bool.false_eq_true, if_false, hq] at h
  grind

theorem announces_requests : XRep.Announces requests where
  alone h hid := requests_identity h hid
  mid {q q' m} h hm := by
    have hid : m.isIdentity = false := by grind [requests_identity]
    grind [requests]

def bodies : Place → List Msg → List Msg
  | _, [] => []
  | q, m :: ms =>
    match requests.next q m with
    | none => []
    | some q' => if q = .body then m :: bodies q' ms else bodies q' ms

theorem bodies_append {q₂ : Place} : ∀ {l : List Msg} {q q₁ : Place},
    requests.after q l = some q₁ → requests.next q₁ m = some q₂ →
    bodies q (l ++ [m]) = bodies q l ++ if q₁ = .body then [m] else [] := by
  intro l
  induction l with
  | nil => grind [Grammar.after, bodies]
  | cons m' l ih => grind [Grammar.after, bodies]

/-! ## What is read -/

inductive Stage where
  | idle
  | fetched (label : Msg)
  | addressed (label : Msg)
  | copied
  | body
deriving DecidableEq

namespace Stage

variable {α : Type}
variable {q : Place} {x : XRep α}

def Holds (x : XRep α) (q : Place) : Stage → Prop
  | .idle => x.prefetched = .nothing ∧ x.moreIn = false ∧ q = .start
  | .fetched label => x.prefetched = .idAndBody ∧ x.prefetchedMsg = label ∧
      label.isIdentity = false ∧ requests.next .start label = some q ∧ x.prefetchedId ≠ []
  | .addressed label => x.prefetched = .body ∧ x.prefetchedMsg = label ∧
      label.isIdentity = false ∧ requests.next .start label = some q
  | .copied => x.prefetched = .nothing ∧ x.moreIn = true ∧ q = .labels
  | .body => x.prefetched = .nothing ∧ x.moreIn = true ∧ q = .body

def afterLabel (label : Msg) : Stage := if label.size = 0 then .body else .copied

theorem holds_afterLabel {label : Msg} (hpre : x.prefetched = .nothing)
    (hmore : x.moreIn = true) (hq : q = if label.size = 0 then .body else .labels) :
    (afterLabel label).Holds x q := by
  unfold afterLabel
  split at hq <;> simp_all [Holds]

theorem Holds.congr {y : XRep α} {stage : Stage} (h : stage.Holds x q)
    (hs : Router.SameReceiving x y) : stage.Holds y q := by
  obtain ⟨hpre, hid, hmsg, hin⟩ := hs
  cases stage <;> simpa [Holds, hpre, hid, hmsg, hin] using h

end Stage

inductive Hands {α : Type} : Stage → Option Msg → List (α × Msg) → Stage → Prop where
  | nothing : Hands .idle none [] .idle
  | begun {p : α} {id label : Msg} : id.more = true → id.size ≠ 0 → label.more = true →
      Hands .idle (some id) [(p, label)] (.addressed label)
  | ahead {id label : Msg} : id.more = true → id.size ≠ 0 →
      Hands (.fetched label) (some id) [] (.addressed label)
  | label {label : Msg} : label.more = true →
      Hands (.addressed label) (some label) [] (.afterLabel label)
  | next {p : α} {label : Msg} : label.more = true →
      Hands .copied (some label) [(p, label)] (.afterLabel label)
  | part {p : α} {msg : Msg} :
      Hands .body (some msg) [(p, msg)] (if msg.more then .body else .idle)

variable {α : Type} [DecidableEq α]

structure Attentive (q : Place) (x : XRep α) (ends : Ends α) : Prop where
  placed : XRep.Placed requests q x ends
  sending : Router.Sending id x ends
  heard : XRep.Heard requests q x
  named : x.pipeAt [] = none

namespace Attentive

open XRep (Gets Reaction Renamed)

variable {q q' : Place} {x y : XRep α} {ends ends' : Ends α}
variable {r : Option Msg}

omit [DecidableEq α] in
theorem renamed_named (h : x.pipeAt [] = none) (hr : Renamed requests x y) : y.pipeAt [] = none := by
  by_contra hc
  rcases hr.keys [] hc with hx | ⟨m, _, -, -, hsize, hdata⟩
  · exact hx h
  · exact hsize (by simp [Msg.size, hdata])

omit [DecidableEq α] in
theorem identity_ne_nil (h : x.Table id) (hn : x.pipeAt [] = none) {p : α} (hp : x.fq.attached p) :
    x.identity p ≠ [] := by
  obtain ⟨k, hk⟩ := (h.attached p).1 hp
  rw [← h.identity hk]
  rintro rfl
  exact absurd (hn.symm.trans hk) (by simp)

theorem event {ev : PipeEvent α} (h : Attentive q x ends) (hk : ev.Conforms requests x.fq ends)
    (hs : ev.Steps XRep.sink x ends y ends') : Attentive q y ends' where
  placed := (h.placed.event hk hs).1
  sending := h.sending.event XRep.reacts hs.outboundStep
  heard := h.heard.event h.placed hk hs
  named := by
    by_contra hc
    rcases (XRep.reaction hs).keys hc with hx | ⟨hkey, -⟩
    · exact hx h.named
    · exact absurd hkey (by simp [XRep.autoId])

theorem sent {msg : Msg} (h : Attentive q x ends) (hs : Router.Sent XRep.address x ends msg y ends') :
    Attentive q y ends' where
  placed := h.placed.sent hs
  sending := h.sending.sent hs
  heard := h.heard.sent hs
  named := by
    obtain ⟨-, -, -, -, htab, -⟩ := hs.sameReceiving
    rw [htab]
    exact h.named

omit [DecidableEq α] in
theorem gets_named (h : x.pipeAt [] = none) (hg : Gets requests q x ends r q' y ends') :
    y.pipeAt [] = none := by
  cases hg with
  | prefetchedId _ => exact h
  | prefetchedBody _ => exact h
  | nothing _ _ hren _ _ => exact renamed_named h hren
  | first _ _ hren _ =>
    have hu := renamed_named h hren
    exact hu
  | next _ _ hren _ =>
    have hu := renamed_named h hren
    exact hu

theorem xrecv (h : Attentive q x ends) (hr : x.xrecv ends = .ok (r, y, ends')) :
    ∃ q', Gets requests q x ends r q' y ends' ∧ Attentive q' y ends' := by
  obtain ⟨q', hgets, hplaced⟩ := h.placed.xrecv announces_requests hr
  exact ⟨q', hgets, hplaced, h.sending.receives (XRep.receives_xrecv h.sending.table hr),
    h.heard.gets h.placed hgets, gets_named h.named hgets⟩

end Attentive

variable {ends ends' : Ends α} {r : Option Msg} {q : Place} {stage : Stage} {x y : XRep α}

structure Logged (x : XRep α) (r : Option Msg) (arr : List (α × Msg)) (y : XRep α) : Prop where
  trace : y.trace = x.trace ++ arr.map fun a => .received a.1 a.2
  source : ∀ a ∈ arr, x.fq.more = true → x.fq.pipes.get x.fq.current = some a.1
  current : ∀ a ∈ arr, a.2.more = true → y.fq.pipes.get y.fq.current = some a.1
  names : ∀ a ∈ arr, x.moreIn = false → ∀ id ∈ r, y.pipeAt id.data = some a.1

omit [DecidableEq α] in
theorem Logged.nil (h : y.trace = x.trace) : Logged x r [] y :=
  ⟨by simp [h], fun _ h => absurd h (by simp), fun _ h => absurd h (by simp),
    fun _ h => absurd h (by simp)⟩

omit [DecidableEq α] in
theorem Logged.took {q' : Place} {u : XRep α} {p : α} {msg : Msg}
    (hren : XRep.Renamed requests x u)
    (htook : XRep.Took requests q x ends p msg q' u ends')
    (htrace : y.trace = u.trace ++ [.received p msg]) (hfq : y.fq = u.fq)
    (hnames : x.moreIn = false → ∀ id ∈ r, y.pipeAt id.data = some p) : Logged x r [(p, msg)] y where
  trace := by
    rw [htrace, hren.eq]
    rfl
  source a ha hm := by grind [htook.source]
  current a ha hm := by grind [htook.current]
  names a ha := by grind

theorem Stage.Holds.gets {q' : Place} (h : stage.Holds x q) (hy : Attentive q' y ends')
    (hg : XRep.Gets requests q x ends r q' y ends') :
    ∃ arr stage', Hands stage r arr stage' ∧ Logged x r arr y ∧ stage'.Holds y q' := by
  cases hg with
  | prefetchedId hpre =>
    cases stage with
    | fetched label =>
      obtain ⟨-, hmsg, hid, hnext, hne⟩ := h
      exact ⟨[], _, .ahead (by simp) (by simpa using hne), .nil rfl, rfl, hmsg, hid, hnext⟩
    | _ => exact absurd (h.1.symm.trans hpre) (by simp)
  | prefetchedBody hpre =>
    cases stage with
    | addressed label =>
      obtain ⟨-, rfl, hid, hnext⟩ := h
      obtain ⟨hmore, hq⟩ := requests_label hnext hid (by simp)
      exact ⟨[], _, .label hmore, .nil rfl, Stage.holds_afterLabel rfl hmore hq⟩
    | _ => exact absurd (h.1.symm.trans hpre) (by simp)
  | nothing hpre hin hren _ _ =>
    cases stage with
    | idle =>
      obtain ⟨-, -, rfl⟩ := h
      refine ⟨[], .idle, .nothing, .nil (by rw [hren.eq]), ?_, ?_, rfl⟩ <;> rw [hren.eq]
      · exact hpre
      · exact hin
    | fetched label => exact absurd (h.1.symm.trans hpre) (by simp)
    | addressed label => exact absurd (h.1.symm.trans hpre) (by simp)
    | copied => exact absurd (h.2.1.symm.trans hin) (by simp)
    | body => exact absurd (h.2.1.symm.trans hin) (by simp)
  | @first u ends' p msg q' hpre hin hren htook =>
    cases stage with
    | idle =>
      obtain ⟨-, -, rfl⟩ := h
      obtain ⟨hmore, -⟩ := requests_label htook.place htook.plain (by simp)
      have hne : u.identity p ≠ [] :=
        Attentive.identity_ne_nil hy.sending.table hy.named htook.attached
      refine ⟨[(p, msg)], _, .begun (by simp) (by simpa using hne) hmore,
        .took hren htook rfl rfl fun _ id hid => ?_, rfl, rfl, htook.plain, htook.place⟩
      obtain rfl : Router.idPart (u.identity p) = id := by simpa using hid
      obtain ⟨k, hk⟩ := (hy.sending.table.attached p).1 htook.attached
      obtain rfl : k = u.identity p := hy.sending.table.identity hk
      exact hk
    | fetched label => exact absurd (h.1.symm.trans hpre) (by simp)
    | addressed label => exact absurd (h.1.symm.trans hpre) (by simp)
    | copied => exact absurd (h.2.1.symm.trans hin) (by simp)
    | body => exact absurd (h.2.1.symm.trans hin) (by simp)
  | @next u ends' p msg q' hpre hin hren htook =>
    have hupre : u.prefetched = .nothing := by
      rw [hren.eq]
      exact hpre
    have hmid : x.moreIn = false → ∀ id ∈ some msg,
        Router.pipeAt (({ u with moreIn := msg.more } : XRep α).note [.received p msg]) id.data =
          some p := fun hc => absurd (hin.symm.trans hc) (by simp)
    cases stage with
    | idle => exact absurd (h.2.1.symm.trans hin) (by simp)
    | fetched label => exact absurd (h.1.symm.trans hpre) (by simp)
    | addressed label => exact absurd (h.1.symm.trans hpre) (by simp)
    | copied =>
      obtain ⟨-, -, rfl⟩ := h
      obtain ⟨hmore, hq⟩ := requests_label htook.place htook.plain (by simp)
      exact ⟨[(p, msg)], _, .next hmore, .took hren htook rfl rfl hmid,
        Stage.holds_afterLabel hupre hmore hq⟩
    | body =>
      obtain ⟨-, -, rfl⟩ := h
      have hq := requests_body htook.place htook.plain
      refine ⟨[(p, msg)], _, .part, .took hren htook rfl rfl hmid, ?_⟩
      split at hq
      next hm =>
        simp only [hm, if_true]
        exact ⟨hupre, rfl, hq⟩
      next hm =>
        simp only [Bool.not_eq_true] at hm
        simp only [hm, Bool.false_eq_true, if_false]
        exact ⟨hupre, rfl, hq⟩

theorem Stage.Holds.mid (h : stage.Holds x q)
    (hx : XRep.Placed requests q x ends) (hs : stage ≠ .idle) : x.fq.more = true := by
  cases stage with
  | idle => exact absurd rfl hs
  | fetched label =>
    obtain ⟨hpre, rfl, hid, hnext, -⟩ := h
    rw [← (hx.ahead (by simp [hpre])).2]
    exact (requests_label hnext hid (by simp)).1
  | addressed label =>
    obtain ⟨hpre, rfl, hid, hnext⟩ := h
    rw [← (hx.ahead (by simp [hpre])).2]
    exact (requests_label hnext hid (by simp)).1
  | copied => exact (hx.more h.1).symm.trans h.2.1
  | body => exact (hx.more h.1).symm.trans h.2.1

/-! ## The loop that copies the labels -/

namespace Rep

variable {ends : Ends α} {msg : Msg}

inductive Pass (stage : Stage) (x : XRep α) (ends : Ends α) : Stage → XRep α → Ends α → Prop where
  | mk {q q' : Place} {y z : XRep α} {ends₁ ends₂ : Ends α} {arr : List (α × Msg)} {msg : Msg}
      {stage' : Stage} : stage ≠ .body → Attentive q x ends → stage.Holds x q →
      x.xrecv ends = .ok (some msg, y, ends₁) →
      XRep.Gets requests q x ends (some msg) q' y ends₁ → Hands stage (some msg) arr stage' →
      Logged x (some msg) arr y → Attentive q' y ends₁ → stage'.Holds y q' →
      Router.Sent XRep.address y ends₁ msg z ends₂ → Pass stage x ends stage' z ends₂

omit [DecidableEq α] in
theorem more_of_hands {stage stage' : Stage} {arr : List (α × Msg)}
    (h : Hands stage (some msg) arr stage') (hs : stage ≠ .body) :
    msg.more = true ∧ stage' ≠ .idle ∧ (msg.size = 0 ↔ stage' = .body) := by
  cases h with
  | begun hmore hsize _ => exact ⟨hmore, by simp, by simp [hsize]⟩
  | ahead hmore hsize => exact ⟨hmore, by simp, by simp [hsize]⟩
  | label hmore => grind [Stage.afterLabel]
  | next hmore => grind [Stage.afterLabel]
  | part => exact absurd rfl hs

theorem copyLabels_keeps {I : Stage → XRep α → Ends α → Prop} {J : XRep α → Prop}
    (hnothing : ∀ {q q' : Place} {x y : XRep α} {ends ends' : Ends α}, I .idle x ends →
      XRep.Gets requests q x ends none q' y ends' → J y)
    (hpass : ∀ {stage stage' : Stage} {x y : XRep α} {ends ends' : Ends α}, I stage x ends →
      Pass stage x ends stage' y ends' → I stage' y ends') :
    ∀ (fuel : Nat) {stage : Stage} {q : Place} {x y : XRep α} {ends ends' : Ends α} {r : Bool},
      Attentive q x ends → stage.Holds x q → stage ≠ .body → I stage x ends →
      copyLabels fuel x ends = .ok (r, y, ends') →
      ∃ q', Attentive q' y ends' ∧ (if r then Stage.body else .idle).Holds y q' ∧
        if r then I .body y ends' else J y := by
  intro fuel
  induction fuel with
  | zero => exact fun _ _ _ _ hr => absurd hr (by simp [copyLabels])
  | succ fuel ih =>
    intro stage q x y ends ends' r hx hstage hne hI hr
    simp only [copyLabels] at hr
    split at hr
    · cases hr
    next x₁ ends₁ hrecv =>
      cases hr
      obtain ⟨q', hgets, hx'⟩ := hx.xrecv hrecv
      obtain ⟨arr, stage', hhands, -, hstage'⟩ := hstage.gets hx' hgets
      cases hhands with
      | nothing => exact ⟨q', hx', hstage', hnothing hI hgets⟩
    next msg x₁ ends₁ hrecv =>
      obtain ⟨q', hgets, hx'⟩ := hx.xrecv hrecv
      obtain ⟨arr, stage', hhands, hlog, hstage'⟩ := hstage.gets hx' hgets
      obtain ⟨-, -, hbody⟩ := more_of_hands hhands hne
      split at hr
      · cases hr
      · split at hr
        · cases hr
        next x₂ ends₂ hsend =>
          have hsent := Router.xsend_sent hsend
          have hstage₂ := hstage'.congr hsent.sameReceiving.1
          have hI₂ := hpass hI (.mk hne hx hstage hrecv hgets hhands hlog hx' hstage' hsent)
          grind [hx'.sent]

def pending (x : XRep α) (ends : Ends α) : Nat :=
  2 * x.fq.backlog ends +
    match x.prefetched with
    | .nothing => 0
    | .body => 1
    | .idAndBody => 2

omit [DecidableEq α] in
theorem pending_gets {q q' : Place} {x y : XRep α} {ends' : Ends α}
    (h : XRep.Gets requests q x ends (some msg) q' y ends') : pending y ends' < pending x ends := by
  unfold pending
  cases h with
  | prefetchedId hpre => simp [hpre]
  | prefetchedBody hpre => simp [hpre]
  | first hpre _ hren htook =>
    have := htook.less
    simp only [hpre, Router.note]
    omega
  | @next u _ _ _ _ hpre _ hren htook =>
    have := htook.less
    have hupre : u.prefetched = .nothing := by
      rw [hren.eq]
      exact hpre
    simp only [hpre, hupre, Router.note]
    omega

theorem pending_sent {x y : XRep α} {ends' : Ends α}
    (h : Router.Sent XRep.address x ends msg y ends') : pending y ends' = pending x ends := by
  obtain ⟨hsame, hfq, -, -, -, hinb⟩ := h.sameReceiving
  unfold pending Fq.backlog
  simp only [hfq, hsame.prefetched, fun p => (hinb p).inq]

theorem exists_copyLabels : ∀ (fuel : Nat) {stage : Stage} {q : Place} {x : XRep α} {ends : Ends α},
    Attentive q x ends → Router.Live id x ends → x.fq.Continues ends →
    (x.fq.more = false → x.Quiet ends) → stage.Holds x q → stage ≠ .body → pending x ends < fuel →
    ∃ r y ends', copyLabels fuel x ends = .ok (r, y, ends') ∧ Router.Live id y ends' ∧
      y.fq.Continues ends' := by
  intro fuel
  induction fuel with
  | zero => exact fun _ _ _ _ _ _ hf => absurd hf (by omega)
  | succ fuel ih =>
    intro stage q x ends hx hlive hcont hquiet hstage hne hfuel
    obtain ⟨r, _, y, ends₁, hrecv, -, hready, hcont₁⟩ :=
      XRep.Ready.xrecv announces_requests ⟨hx.placed, hlive⟩ hcont hquiet
    obtain ⟨q', hgets, hy⟩ := hx.xrecv hrecv
    simp only [copyLabels, hrecv]
    cases r with
    | none => exact ⟨false, y, ends₁, rfl, hready.live, hcont₁⟩
    | some msg =>
      obtain ⟨arr, stage', hhands, -, hstage'⟩ := hstage.gets hy hgets
      obtain ⟨hmore, hidle, hbody⟩ := more_of_hands hhands hne
      obtain ⟨z, ends₂, hsend, hlive₂⟩ := hready.live.exists_xsend XRep.address msg
      have hsent := Router.xsend_sent hsend
      obtain ⟨-, hfq, -, -, -, hinb⟩ := hsent.sameReceiving
      have hcont₂ : z.fq.Continues ends₂ := by
        rw [hfq]
        exact hcont₁.sent hinb
      simp only [hmore, Bool.not_true, Bool.false_eq_true, if_false, XRep.xsend, hsend]
      split
      · grind
      next hsize =>
        have hstage₂ := hstage'.congr hsent.sameReceiving.1
        have hz := hy.sent hsent
        refine ih hz hlive₂ hcont₂ (fun hm => ?_) hstage₂ (fun hc => hsize (hbody.2 hc)) ?_
        · -- the next label is in the middle of the message
          exact absurd ((hstage₂.mid hz.placed hidle).symm.trans hm) (by simp)
        · have h1 := pending_gets hgets
          have h2 := pending_sent hsent
          omega

inductive Receives (s : Rep α) (ends : Ends α) : Except Errno Msg → Rep α → Ends α → Prop where
  | busy : s.sendingReply = true → Receives s ends (.error .efsm) s ends
  | nothing {x : XRep α} {ends' : Ends α} : s.sendingReply = false → s.requestBegins = true →
      copyLabels (labelFuel s.xrep ends) s.xrep ends = .ok (false, x, ends') →
      Receives s ends (.error .eagain) { s with xrep := x } ends'
  | begun {x : XRep α} {ends₁ ends' : Ends α} {r : Except Errno Msg} {t : Rep α} :
      s.sendingReply = false → s.requestBegins = true →
      copyLabels (labelFuel s.xrep ends) s.xrep ends = .ok (true, x, ends₁) →
      ({ s with xrep := x, requestBegins := false } : Rep α).recvBody ends₁ = .ok (r, t, ends') →
      Receives s ends r t ends'
  | body {ends' : Ends α} {r : Except Errno Msg} {t : Rep α} : s.sendingReply = false →
      s.requestBegins = false → s.recvBody ends = .ok (r, t, ends') → Receives s ends r t ends'

variable {s t : Rep α} {ends ends' : Ends α}

theorem xrecv_receives {r : Except Errno Msg} (h : s.xrecv ends = .ok (r, t, ends')) :
    Receives s ends r t ends' := by
  unfold xrecv at h
  split at h
  next hs =>
    cases h
    exact .busy hs
  next hs =>
    rw [Bool.not_eq_true] at hs
    split at h
    next hb =>
      split at h
      · cases h
      next hc =>
        cases h
        exact .nothing hs hb hc
      next hc => exact .begun hs hb hc h
    next hb => exact .body hs (by simpa using hb) h

theorem xsend_ok {msg : Msg} {r : Except Errno Unit} (h : s.xsend ends msg = .ok (r, t, ends')) :
    (s.sendingReply = false ∧ r = .error .efsm ∧ t = s ∧ ends' = ends) ∨
      (s.sendingReply = true ∧ r = .ok () ∧ ∃ x, Router.Sent XRep.address s.xrep ends msg x ends' ∧
        t = { s with xrep := x, sendingReply := msg.more }) := by
  unfold xsend at h
  split at h
  next hs => grind
  next hs =>
    have hs : s.sendingReply = true := by simpa using hs
    split at h
    · cases h
    next x ends₁ hx =>
      refine Or.inr ⟨hs, ?_⟩
      split at h
      next hm =>
        cases h
        exact ⟨rfl, x, Router.xsend_sent hx, by simp [hm, hs]⟩
      next hm =>
        cases h
        exact ⟨rfl, x, Router.xsend_sent hx, by simp [hm]⟩

omit [DecidableEq α] in
theorem base_ok {f : XRep α → α → Except Fault (XRep α)} {p : α} (h : base f s p = .ok t) :
    f s.xrep p = .ok t.xrep ∧ t = { s with xrep := t.xrep } := by
  unfold base at h
  grind

theorem steps_base {ev : PipeEvent α} (h : ev.Steps sink s ends t ends') :
    ev.Steps XRep.sink s.xrep ends t.xrep ends' ∧ t.sendingReply = s.sendingReply ∧
      t.requestBegins = s.requestBegins := by
  cases h with
  | attach hp hfresh hr =>
    obtain ⟨hx, ht⟩ := base_ok hr
    exact ⟨.attach hp hfresh hx, by rw [ht], by rw [ht]⟩
  | terminated hp hr =>
    obtain ⟨hx, ht⟩ := base_ok hr
    exact ⟨.terminated hp hx, by rw [ht], by rw [ht]⟩
  | readActivated hp hact hr =>
    obtain ⟨hx, ht⟩ := base_ok hr
    exact ⟨.readActivated hp hact hx, by rw [ht], by rw [ht]⟩
  | writeActivated hp hn hact hr =>
    obtain ⟨hx, ht⟩ := base_ok hr
    exact ⟨.writeActivated hp hn hact hx, by rw [ht], by rw [ht]⟩
  | ignored => exact ⟨.ignored, rfl, rfl⟩
  | writeReported hp hn hact => exact ⟨.writeReported hp hn hact, rfl, rfl⟩
  | processPipeTerm hr => exact ⟨.processPipeTerm hr, rfl, rfl⟩
  | terminate hr => exact ⟨.terminate hr, rfl, rfl⟩
  | peerWrite => exact ⟨.peerWrite, rfl, rfl⟩
  | peerFlush => exact ⟨.peerFlush, rfl, rfl⟩
  | peerRollback hr => exact ⟨.peerRollback hr, rfl, rfl⟩
  | peerRead => exact ⟨.peerRead, rfl, rfl⟩

def voiced (x : XRep α) : List Msg := bodies .start ((Router.arrivals x.trace).map Prod.snd)

omit [DecidableEq α] in
theorem voiced_hands {q q' : Place} {x y : XRep α} {r : Option Msg} {arr : List (α × Msg)}
    {stage stage' : Stage} (hstage : stage.Holds x q) (hx : XRep.Heard requests q x)
    (hy : XRep.Heard requests q' y) (hh : Hands stage r arr stage') (hlog : Logged x r arr y) :
    voiced y = voiced x ++ if stage = .body then r.toList else [] := by
  have harr : Router.arrivals y.trace = Router.arrivals x.trace ++ arr := by
    rw [hlog.trace, Router.arrivals_append]
    simp [Router.arrivals, List.filterMap_map]
  -- a part that is read belongs to a body if the place before it is in one
  have hone : ∀ {p : α} {msg : Msg}, arr = [(p, msg)] →
      voiced y = voiced x ++ if q = .body then [msg] else [] := fun {p msg} ha => by
    have hplace := hy.place
    rw [harr, ha, List.map_append, Grammar.after_append, hx.place] at hplace
    unfold voiced
    rw [harr, ha, List.map_append]
    exact bodies_append hx.place (by simpa [Grammar.after] using hplace)
  have hnil : arr = [] → voiced y = voiced x := fun ha => by
    unfold voiced
    rw [harr, ha, List.append_nil]
  cases hh with
  | nothing => simp [hnil rfl]
  | begun _ _ _ => simp [hone rfl, hstage.2.2]
  | ahead _ _ => simp [hnil rfl]
  | label _ => simp [hnil rfl]
  | next _ => simp [hone rfl, hstage.2.2]
  | part => simp [hone rfl, hstage.2.2]

theorem voiced_sent {x y : XRep α} {msg : Msg} (h : Router.Sent XRep.address x ends msg y ends') :
    voiced y = voiced x := by
  unfold voiced
  rw [h.arrivals]

theorem recvBody_ok {q : Place} {r : Except Errno Msg} (hx : Attentive q s.xrep ends)
    (hstage : Stage.body.Holds s.xrep q) (h : s.recvBody ends = .ok (r, t, ends')) :
    ∃ msg q' arr, r = .ok msg ∧ Attentive q' t.xrep ends' ∧
      XRep.Gets requests q s.xrep ends (some msg) q' t.xrep ends' ∧
      Hands .body (some msg) arr (if msg.more then .body else .idle) ∧ Logged s.xrep (some msg) arr t.xrep ∧
      (if msg.more then Stage.body else .idle).Holds t.xrep q' ∧
      t = if msg.more then { s with xrep := t.xrep } else ⟨t.xrep, true, true⟩ := by
  unfold recvBody at h
  split at h
  · cases h
  next hr =>
    obtain ⟨q', hgets, hy⟩ := hx.xrecv hr
    obtain ⟨_, _, hh, -⟩ := hstage.gets hy hgets
    exact absurd hh (by intro hc; cases hc)
  next msg x ends₁ hr =>
    obtain ⟨q', hgets, hy⟩ := hx.xrecv hr
    obtain ⟨arr, _, hh, hlog, hstage'⟩ := hstage.gets hy hgets
    cases hh with
    | part =>
      split at h
      next hm =>
        cases h
        exact ⟨msg, q', _, rfl, hy, hgets, .part, hlog, hstage', by simp [hm]⟩
      next hm =>
        cases h
        exact ⟨msg, q', _, rfl, hy, hgets, .part, hlog, hstage', by simp [hm]⟩

def Fits (s : Rep α) : Stage → Prop
  | .idle => s.requestBegins = true
  | .fetched _ => s.requestBegins = true ∧ s.sendingReply = false
  | .body => s.requestBegins = false ∧ s.sendingReply = false
  | _ => False

structure Hears (s : Rep α) (ends : Ends α) (delivered : List Msg) (q : Place) (stage : Stage) :
    Prop where
  attentive : Attentive q s.xrep ends
  holds : stage.Holds s.xrep q
  fits : s.Fits stage
  delivered : delivered = voiced s.xrep

theorem Hears.recvBody {delivered : List Msg} {q : Place} {r : Except Errno Msg}
    (h : s.Hears ends delivered q .body) (hr : s.recvBody ends = .ok (r, t, ends')) :
    ∃ q' stage, t.Hears ends' (delivered ++ r.toOption.toList) q' stage := by
  obtain ⟨msg, q', arr, rfl, hy, -, hh, hlog, hstage, ht⟩ := recvBody_ok h.attentive h.holds hr
  refine ⟨q', _, hy, hstage, ?_, ?_⟩
  · rw [ht]
    split
    · exact h.fits
    · rfl
  · rw [voiced_hands h.holds h.attentive.heard hy.heard hh hlog, h.delivered]
    rfl

theorem Hears.copyLabels {delivered : List Msg} {q : Place} {stage : Stage} {x : XRep α} {r : Bool}
    (h : s.Hears ends delivered q stage) (hne : stage ≠ .body)
    (hr : copyLabels (labelFuel s.xrep ends) s.xrep ends = .ok (r, x, ends')) :
    ∃ q', Attentive q' x ends' ∧ (if r then Stage.body else .idle).Holds x q' ∧
      delivered = voiced x := by
  have hnothing : ∀ {q q' : Place} {x y : XRep α} {ends ends' : Ends α}, delivered = voiced x →
      XRep.Gets requests q x ends none q' y ends' → delivered = voiced y := fun hI hg => by
    cases hg with
    | nothing _ _ hren _ _ => rw [hI, voiced, voiced, hren.eq]
  have hpass : ∀ {stage stage' : Stage} {x y : XRep α} {ends ends' : Ends α}, delivered = voiced x →
      Pass stage x ends stage' y ends' → delivered = voiced y := fun hI hp => by
    cases hp with
    | mk hne hx hstage _ _ hh hlog hy _ hsent =>
      rw [hI, voiced_sent hsent, voiced_hands hstage hx.heard hy.heard hh hlog, if_neg hne,
        List.append_nil]
  obtain ⟨q', hx, hstage, hd⟩ := copyLabels_keeps (I := fun _ y _ => delivered = voiced y)
    (J := fun y => delivered = voiced y) hnothing hpass _ h.attentive h.holds hne h.delivered hr
  exact ⟨q', hx, hstage, by simpa using hd⟩

theorem Hears.fits_body {delivered : List Msg} {q : Place} {stage : Stage}
    (h : s.Hears ends delivered q stage) (hb : s.requestBegins = false) : stage = .body := by
  have hfits := h.fits
  cases stage with
  | body => rfl
  | idle => exact absurd (hb.symm.trans hfits) (by simp)
  | fetched label => exact absurd (hb.symm.trans hfits.1) (by simp)
  | addressed label => exact hfits.elim
  | copied => exact hfits.elim

theorem Hears.not_body {delivered : List Msg} {q : Place} {stage : Stage}
    (h : s.Hears ends delivered q stage) (hb : s.requestBegins = true) : stage ≠ .body := by
  rintro rfl
  exact absurd (hb.symm.trans h.fits.1) (by simp)

theorem Hears.xrecv {delivered : List Msg} {q : Place} {stage : Stage} {r : Except Errno Msg}
    (h : s.Hears ends delivered q stage) (hr : s.xrecv ends = .ok (r, t, ends')) :
    ∃ q' stage', t.Hears ends' (delivered ++ r.toOption.toList) q' stage' := by
  cases xrecv_receives hr with
  | busy _ => exact ⟨q, stage, by simpa [Except.toOption] using h⟩
  | nothing _ hb hc =>
    obtain ⟨q', hx, hidle, hd⟩ := h.copyLabels (h.not_body hb) hc
    exact ⟨q', .idle, hx, hidle, hb, by simpa [Except.toOption] using hd⟩
  | begun hs hb hc hbody =>
    obtain ⟨q', hx, hstage, hd⟩ := h.copyLabels (h.not_body hb) hc
    have hbegun : Hears { s with xrep := _, requestBegins := false } _ delivered q' .body :=
      ⟨hx, hstage, ⟨rfl, hs⟩, hd⟩
    exact hbegun.recvBody hbody
  | body hs hb hbody =>
    obtain rfl := h.fits_body hb
    exact h.recvBody hbody

theorem Hears.event {delivered : List Msg} {q : Place} {stage : Stage} {ev : PipeEvent α}
    (h : s.Hears ends delivered q stage) (hk : ev.Conforms requests s.xrep.fq ends)
    (hs : ev.Steps sink s ends t ends') : t.Hears ends' delivered q stage := by
  obtain ⟨hsteps, hreply, hbegins⟩ := steps_base hs
  refine ⟨h.attentive.event hk hsteps, h.holds.congr (XRep.reaction hsteps).sameReceiving, ?_, ?_⟩
  · have hfits := h.fits
    cases stage with
    | idle => exact hbegins.trans hfits
    | fetched label => exact ⟨hbegins.trans hfits.1, hreply.trans hfits.2⟩
    | body => exact ⟨hbegins.trans hfits.1, hreply.trans hfits.2⟩
    | _ => exact hfits
  · rw [h.delivered, voiced, voiced, (XRep.reaction hsteps).arrivals]

theorem Hears.xsend {delivered : List Msg} {q : Place} {stage : Stage} {msg : Msg}
    {r : Except Errno Unit} (h : s.Hears ends delivered q stage)
    (hr : s.xsend ends msg = .ok (r, t, ends')) : t.Hears ends' delivered q stage := by
  rcases xsend_ok hr with ⟨-, -, rfl, rfl⟩ | ⟨hs, -, x, hsent, rfl⟩
  · exact h
  · refine ⟨h.attentive.sent hsent, h.holds.congr hsent.sameReceiving.1, ?_, ?_⟩
    · have hfits := h.fits
      cases stage with
      | idle => exact hfits
      | fetched label => exact absurd (hs.symm.trans hfits.2) (by simp)
      | body => exact absurd (hs.symm.trans hfits.2) (by simp)
      | _ => exact hfits
    · rw [h.delivered, voiced_sent hsent]

theorem xhasIn_hands {q : Place} {x y : XRep α} {stage : Stage} {b : Bool} (hx : Attentive q x ends)
    (hstage : stage.Holds x q) (hr : x.xhasIn ends = .ok (b, y, ends')) :
    (y = x ∧ ends' = ends) ∨ ∃ q', stage = .idle ∧ Attentive q' y ends' ∧
      ((XRep.Gets requests q x ends none q' y ends' ∧ Stage.idle.Holds y q') ∨
        ∃ id label arr u, XRep.Gets requests q x ends (some id) q' u ends' ∧
          Hands .idle (some id) arr (.addressed label) ∧ Logged x (some id) arr u ∧ Attentive q' u ends' ∧
          (Stage.fetched label).Holds y q' ∧
          y = { u with prefetchedId := id.data, prefetched := .idAndBody }) := by
  rcases XRep.xhasIn_ok hr with hsame | ⟨-, -, hrecv⟩ | ⟨id, u, hpre, hin, hrecv, rfl⟩
  · exact Or.inl hsame
  · obtain ⟨q', hgets, hy⟩ := hx.xrecv hrecv
    obtain ⟨_, _, hh, -, hstage'⟩ := hstage.gets hy hgets
    cases hh with
    | nothing => grind
  · obtain ⟨q', hgets, hu⟩ := hx.xrecv hrecv
    obtain ⟨arr, stage', hh, hlog, hstage'⟩ := hstage.gets hu hgets
    have hy : Attentive q' ({ u with prefetchedId := id.data, prefetched := .idAndBody } : XRep α)
        ends' :=
      ⟨hu.placed.ahead_of_gets hpre hin hgets,
        hx.sending.receives (XRep.receives_xhasIn hx.sending.table hr),
        hu.heard.kept rfl ⟨rfl, fun _ => rfl⟩, hu.named⟩
    cases hh with
    | begun hmore hsize hlabel =>
      obtain ⟨-, hmsg, hplain, hnext⟩ := hstage'
      exact Or.inr ⟨q', rfl, hy, Or.inr ⟨id, _, _, u, hgets, .begun hmore hsize hlabel, hlog, hu,
        ⟨rfl, hmsg, hplain, hnext, by simpa [Msg.size] using hsize⟩, rfl⟩⟩
    | ahead _ _ => exact absurd (hpre.symm.trans hstage.1) (by simp)
    | label _ => exact absurd (hpre.symm.trans hstage.1) (by simp)
    | next _ => exact absurd (hin.symm.trans hstage.2.1) (by simp)
    | part => exact absurd (hin.symm.trans hstage.2.1) (by simp)

theorem xhasIn_ok {b : Bool} (h : s.xhasIn ends = .ok (b, t, ends')) :
    (t = s ∧ ends' = ends) ∨ (s.sendingReply = false ∧
      s.xrep.xhasIn ends = .ok (b, t.xrep, ends') ∧ t = { s with xrep := t.xrep }) := by
  unfold xhasIn at h
  grind

theorem Hears.xhasIn {delivered : List Msg} {q : Place} {stage : Stage} {b : Bool}
    (h : s.Hears ends delivered q stage) (hr : s.xhasIn ends = .ok (b, t, ends')) :
    ∃ q' stage', t.Hears ends' delivered q' stage' := by
  rcases xhasIn_ok hr with ⟨rfl, rfl⟩ | ⟨hs, hx, ht⟩
  · exact ⟨q, stage, h⟩
  · rcases xhasIn_hands h.attentive h.holds hx with ⟨hxrep, rfl⟩ | ⟨q', rfl, hy, hcases⟩
    · rw [hxrep] at ht
      exact ⟨q, stage, ht ▸ h⟩
    · have hbegins : t.requestBegins = true := by
        rw [ht]
        exact h.fits
      rcases hcases with ⟨hgets, hidle⟩ | ⟨id, label, arr, u, -, hh, hlog, hu, hfetched, hyu⟩
      · refine ⟨q', .idle, hy, hidle, hbegins, ?_⟩
        cases hgets with
        | nothing _ _ hren _ _ => rw [h.delivered, voiced, voiced, hren.eq]
      · refine ⟨q', _, hy, hfetched, ⟨hbegins, by rw [ht]; exact hs⟩, ?_⟩
        have hv := voiced_hands h.holds h.attentive.heard hu.heard hh hlog
        rw [hyu, h.delivered]
        simpa [voiced] using hv.symm

end Rep

end Libxs
