import Libxs.Own
import Libxs.SessionBase

/-! # The linger timer of a session -/

namespace Libxs

structure OwnedSession (α : Type) extends SessionBase where
  own : Own α
  engine : Bool
  pending : Bool
  lingerTimer : Option Nat
  timers : List Nat
  nextTimer : Nat
  destroyed : Bool

namespace OwnedSession

variable {α : Type}

def init (options : Options) (connect : Bool) (linger : Int) (owner : α) : OwnedSession α where
  toSessionBase := .init options connect
  own := { Own.init linger with owner := some owner }
  engine := false
  pending := false
  lingerTimer := none
  timers := []
  nextTimer := 0
  destroyed := false

/-! ## Timers and destruction -/

def addTimer (s : OwnedSession α) : OwnedSession α :=
  { s with
    timers := s.timers ++ [s.nextTimer]
    lingerTimer := some s.nextTimer
    nextTimer := s.nextTimer + 1 }

def destroy (s : OwnedSession α) : Except Fault (OwnedSession α) :=
  if s.pipe.isSome then .error .assertFailed
  else .ok
    { s with
      timers := s.lingerTimer.elim s.timers s.timers.erase
      lingerTimer := none
      engine := false
      destroyed := true }

def settle (s : OwnedSession α) : Except Fault (Own.Outcome α) → Except Fault (OwnedSession α)
  | .error e => .error e
  | .ok r => if r.destroyed then { s with own := r.own }.destroy else .ok { s with own := r.own }

/-! ## Termination -/

def proceedWithTerm (self : α) (s : OwnedSession α) : Except Fault (OwnedSession α) :=
  { s with pending := false }.settle (s.own.processTerm self 0)

def processTerm (self : α) (linger : Int) (s : OwnedSession α) : Except Fault (OwnedSession α) :=
  if s.pending then .error .assertFailed
  else
    match s.pipe with
    | none => s.proceedWithTerm self
    | some pipe =>
      if 0 < linger ∧ s.lingerTimer.isSome then .error .assertFailed
      else
        match pipe.terminate (linger != 0) with
        | .error e => .error e
        | .ok pipe =>
          match pipe.checkRead with
          | .error e => .error e
          | .ok (_, pipe) =>
            let s := { s with pending := true, pipe := some pipe }
            .ok (if 0 < linger then s.addTimer else s)

def terminated (self : α) (s : OwnedSession α) : Except Fault (OwnedSession α) :=
  let s := { s with pipe := none }
  if s.pending then s.proceedWithTerm self else .ok s

def timerEvent (handle : Nat) (s : OwnedSession α) : Except Fault (OwnedSession α) :=
  if s.lingerTimer ≠ some handle then .error .assertFailed
  else
    match s.pipe with
    | none => .error .assertFailed
    | some pipe =>
      match pipe.terminate false with
      | .error e => .error e
      | .ok pipe => .ok { s with lingerTimer := none, pipe := some pipe }

def executeTimer (handle : Nat) (s : OwnedSession α) : Except Fault (OwnedSession α) :=
  if handle ∈ s.timers then
    match s.timerEvent handle with
    | .error e => .error e
    | .ok s => .ok { s with timers := s.timers.erase handle }
  else .ok s

/-! ## Engines -/

variable [LinearOrder α]

def startConnecting (child : α) (s : OwnedSession α) : OwnedSession α :=
  { s with own := (s.own.launchChild child).own }

def detached (self child : α) (s : OwnedSession α) : Except Fault (OwnedSession α) :=
  if s.connect then
    .ok { s.startConnecting child with toSessionBase := s.toSessionBase.detached }
  else s.settle (s.own.terminate self)

def detach (self child : α) (s : OwnedSession α) : Except Fault (OwnedSession α) :=
  match s.toSessionBase.detach with
  | .error e => .error e
  | .ok base =>
    let s := { s with toSessionBase := base, engine := false }
    if s.connect then .ok (s.startConnecting child) else s.settle (s.own.terminate self)

def processAttach (self child : α) (engine : Bool) (pipe : Endpoint) (s : OwnedSession α) :
    Except Fault (OwnedSession α) :=
  if s.engine then .error .assertFailed
  else if engine then
    let s := if s.pipe.isNone && !s.own.terminating then { s with pipe := some pipe } else s
    .ok { s with engine := true }
  else s.detached self child

def attachPipe (pipe : Endpoint) (s : OwnedSession α) : Except Fault (OwnedSession α) :=
  if s.own.terminating || s.pipe.isSome then .error .assertFailed
  else .ok { s with pipe := some pipe }

def processPlug (child : α) (s : OwnedSession α) : OwnedSession α :=
  if s.connect then s.startConnecting child else s

/-! ## What happens to a session -/

inductive Op (α : Type) where
  | attachPipe (pipe : Endpoint)
  | incSeqnum
  | plug (child : α)
  | attach (child : α) (engine : Bool) (pipe : Endpoint)
  | term (linger : Int)
  | termReq (object : α)
  | termAck
  | pipe (e : Endpoint)
  | pipeTermAck
  | read (msg : Msg)
  | write (msg : Msg)
  | flush
  | detach (child : α)
  | expire (handle : Nat)

def byEngine (s : OwnedSession α) (r : Except Fault SessionBase) : Except Fault (OwnedSession α) :=
  if s.engine then
    match r with
    | .error e => .error e
    | .ok base => .ok { s with toSessionBase := base }
  else .ok s

def step (self : α) (s : OwnedSession α) (op : Op α) : Except Fault (OwnedSession α) :=
  if s.destroyed then .ok s
  else
    match op with
    | .attachPipe pipe => s.attachPipe pipe
    | .incSeqnum => .ok { s with own := s.own.incSeqnum }
    | .plug child =>
      let s := s.processPlug child
      s.settle (s.own.processSeqnum self)
    | .attach child engine pipe =>
      match s.processAttach self child engine pipe with
      | .error e => .error e
      | .ok s => s.settle (s.own.processSeqnum self)
    | .term linger => s.processTerm self linger
    | .termReq object => .ok { s with own := (s.own.processTermReq object).own }
    | .termAck => s.settle (s.own.unregisterTermAck self)
    | .pipe e => .ok { s with pipe := s.pipe.map fun _ => e }
    | .pipeTermAck => if s.pipe.isSome then s.terminated self else .ok s
    | .read msg => s.byEngine ((s.toSessionBase.read msg).map Prod.snd)
    | .write msg => s.byEngine ((s.toSessionBase.write msg).map fun r => r.2.2)
    | .flush => s.byEngine (.ok s.toSessionBase.flush)
    | .detach child => if s.engine then s.detach self child else .ok s
    | .expire handle => s.executeTimer handle

/-! ## What holds of every session -/

structure Inv (s : OwnedSession α) : Prop where
  owner : s.own.owner.isSome = true
  armed : s.timers = s.lingerTimer.toList
  pending : s.pending = true → s.pipe.isSome = true
  alive : s.pipe.isSome = true → s.own.terminating = false
  gone : s.destroyed = true → s.lingerTimer = none

def Lingers (s : OwnedSession α) : Prop := s.lingerTimer.isSome = true → s.pending = true

def TimerSound (s : OwnedSession α) : Prop :=
  ∀ handle ∈ s.timers, s.lingerTimer = some handle ∧ s.pipe.isSome = true ∧ s.destroyed = false

def Unencumbered (s : OwnedSession α) : Prop :=
  s.own.caughtUp = true ∧ s.own.termAcks + s.own.owned.length = 0
deriving Decidable

def Prompt (s : OwnedSession α) : Op α → Prop
  | .pipeTermAck =>
    s.destroyed = false → s.pipe.isSome = true → s.lingerTimer.isSome = true → s.Unencumbered
  | _ => True

instance (s : OwnedSession α) (op : Op α) : Decidable (s.Prompt op) := by
  unfold Prompt; split <;> infer_instance

variable {s s' : OwnedSession α} {self child : α}
variable {o : Own α} {r : Own.Outcome α}

omit [LinearOrder α] in
theorem inv_init (options : Options) (connect : Bool) (linger : Int) (owner : α) :
    (init options connect linger owner).Inv ∧ (init options connect linger owner).Lingers := by
  refine ⟨⟨rfl, rfl, ?_, ?_, ?_⟩, ?_⟩ <;> exact fun h => absurd h (by simp [init, SessionBase.init])

omit [LinearOrder α] in
theorem Inv.timerSound (h : s.Inv) (hl : s.Lingers) : s.TimerSound := by
  intro handle hmem
  have htimer : s.lingerTimer = some handle := by
    rw [h.armed] at hmem
    simpa using hmem
  have hsome : s.lingerTimer.isSome = true := by
    rw [htimer]
    rfl
  refine ⟨htimer, h.pending (hl hsome), ?_⟩
  by_contra hgone
  rw [h.gone (by simpa using hgone)] at hsome
  cases hsome

/-! ### Steps that do not concern the timer -/

structure Undisturbed (s s' : OwnedSession α) : Prop where
  owner : s'.own.owner = s.own.owner
  terminating : s'.own.terminating = s.own.terminating
  pipe : s'.pipe.isSome = s.pipe.isSome
  pending : s'.pending = s.pending
  lingerTimer : s'.lingerTimer = s.lingerTimer
  timers : s'.timers = s.timers
  destroyed : s'.destroyed = s.destroyed

omit [LinearOrder α] in
theorem Undisturbed.inv (h : s.Undisturbed s') (hI : s.Inv) : s'.Inv where
  owner := by rw [h.owner]; exact hI.owner
  armed := by rw [h.timers, h.lingerTimer]; exact hI.armed
  pending := by rw [h.pending, h.pipe]; exact hI.pending
  alive := by rw [h.pipe, h.terminating]; exact hI.alive
  gone := by rw [h.destroyed, h.lingerTimer]; exact hI.gone

omit [LinearOrder α] in
theorem Undisturbed.lingers (h : s.Undisturbed s') (hl : s.Lingers) : s'.Lingers := by
  unfold Lingers
  rw [h.lingerTimer, h.pending]
  exact hl

omit [LinearOrder α] in
theorem undisturbed_base {base : SessionBase} (h : s.toSessionBase.Keeps base) :
    s.Undisturbed { s with toSessionBase := base } :=
  ⟨rfl, rfl, h.pipe, rfl, rfl, rfl, rfl⟩

omit [LinearOrder α] in
theorem undisturbed_own {own : Own α} (howner : own.owner = s.own.owner)
    (hterm : own.terminating = s.own.terminating) : s.Undisturbed { s with own := own } :=
  ⟨howner, hterm, rfl, rfl, rfl, rfl, rfl⟩

theorem undisturbed_startConnecting (s : OwnedSession α) (child : α) :
    s.Undisturbed (s.startConnecting child) := by
  unfold startConnecting Own.launchChild
  split <;> exact undisturbed_own rfl rfl

/-! ### Steps that may destroy the session -/

omit [LinearOrder α] in
theorem checkTermAcks_own (h : o.checkTermAcks self = .ok r) : r.own = o := by
  unfold Own.checkTermAcks at h
  grind

omit [LinearOrder α] in
theorem Inv.settle (h : Inv { s with own := r.own }) (hs : s.settle (.ok r) = .ok s') :
    s'.Inv ∧ (s.Lingers → s'.Lingers) ∧ s'.pipe = s.pipe ∧
      (if r.destroyed then s'.lingerTimer = none else s' = { s with own := r.own }) := by
  unfold OwnedSession.settle at hs
  cases hd : r.destroyed with
  | false =>
    simp only [hd, Bool.false_eq_true, if_false, Except.ok.injEq] at hs ⊢
    subst hs
    exact ⟨h, id, rfl, rfl⟩
  | true =>
    simp only [hd, if_true, destroy] at hs ⊢
    split at hs
    · cases hs
    next hpipe =>
      cases hs
      refine ⟨⟨h.owner, ?_, h.pending, h.alive, fun _ => rfl⟩, fun _ hc => absurd hc (by simp), rfl,
        rfl⟩
      have harmed := h.armed
      cases ht : s.lingerTimer with
      | none =>
        simp only [ht] at harmed
        simpa using harmed
      | some handle =>
        simp only [ht] at harmed
        simp [harmed]

omit [LinearOrder α] in
theorem Inv.settle_undisturbed (h : s.Inv) {r : Except Fault (Own.Outcome α)}
    (hown : ∀ o, r = .ok o → o.own.owner = s.own.owner ∧ o.own.terminating = s.own.terminating)
    (hs : s.settle r = .ok s') : s'.Inv ∧ (s.Lingers → s'.Lingers) := by
  cases r with
  | error e => exact absurd hs (by simp [OwnedSession.settle])
  | ok r =>
    obtain ⟨howner, hterm⟩ := hown r rfl
    obtain ⟨hI, hl, -⟩ := ((undisturbed_own howner hterm).inv h).settle hs
    exact ⟨hI, hl⟩

omit [LinearOrder α] in
theorem Inv.processSeqnum (h : s.Inv) (hs : s.settle (s.own.processSeqnum self) = .ok s') :
    s'.Inv ∧ (s.Lingers → s'.Lingers) :=
  h.settle_undisturbed (fun o ho => by rw [checkTermAcks_own ho]; exact ⟨rfl, rfl⟩) hs

omit [LinearOrder α] in
theorem Inv.unregisterTermAck (h : s.Inv) (hs : s.settle (s.own.unregisterTermAck self) = .ok s') :
    s'.Inv ∧ (s.Lingers → s'.Lingers) := by
  refine h.settle_undisturbed (fun o ho => ?_) hs
  unfold Own.unregisterTermAck at ho
  grind [checkTermAcks_own]

omit [LinearOrder α] in
theorem Inv.terminate (h : s.Inv) (hs : s.settle (s.own.terminate self) = .ok s') :
    s'.Inv ∧ (s.Lingers → s'.Lingers) := by
  refine h.settle_undisturbed (fun o ho => ?_) hs
  obtain ⟨p, hp⟩ := Option.isSome_iff_exists.1 h.owner
  simp only [Own.terminate, hp] at ho
  grind

theorem Inv.detached (h : s.Inv) (hs : s.detached self child = .ok s') :
    s'.Inv ∧ (s.Lingers → s'.Lingers) := by
  unfold OwnedSession.detached at hs
  split at hs
  · cases hs
    have hu := undisturbed_startConnecting s child
    have hkept := s.toSessionBase.detached_base_keeps
    have hu' : s.Undisturbed
        { s.startConnecting child with toSessionBase := s.toSessionBase.detached } :=
      ⟨hu.owner, hu.terminating, hkept.pipe, hu.pending, hu.lingerTimer, hu.timers, hu.destroyed⟩
    exact ⟨hu'.inv h, hu'.lingers⟩
  · exact h.terminate hs

theorem Inv.detach (h : s.Inv) (hs : s.detach self child = .ok s') :
    s'.Inv ∧ (s.Lingers → s'.Lingers) := by
  unfold OwnedSession.detach at hs
  split at hs
  · cases hs
  next base hbase =>
    have hkept := SessionBase.detach_keeps hbase
    have hu : s.Undisturbed { s with toSessionBase := base, engine := false } :=
      ⟨rfl, rfl, hkept.pipe, rfl, rfl, rfl, rfl⟩
    simp only at hs
    split at hs
    · cases hs
      have hu' := undisturbed_startConnecting { s with toSessionBase := base, engine := false } child
      exact ⟨hu'.inv (hu.inv h), fun hl => hu'.lingers (hu.lingers hl)⟩
    · obtain ⟨hI, hl⟩ := (hu.inv h).terminate hs
      exact ⟨hI, fun hlin => hl (hu.lingers hlin)⟩

theorem Inv.processAttach (h : s.Inv) {engine : Bool} {pipe : Endpoint}
    (hs : s.processAttach self child engine pipe = .ok s') :
    s'.Inv ∧ (s.Lingers → s'.Lingers) := by
  unfold OwnedSession.processAttach at hs
  split at hs
  · cases hs
  · split at hs
    · cases hs
      split
      next hnew =>
        simp only [Bool.and_eq_true, Bool.not_eq_true'] at hnew
        exact ⟨⟨h.owner, h.armed, fun _ => rfl, fun _ => hnew.2, h.gone⟩, id⟩
      · exact ⟨⟨h.owner, h.armed, h.pending, h.alive, h.gone⟩, id⟩
    · exact h.detached hs

omit [LinearOrder α] in
theorem Inv.byEngine (h : s.Inv) {r : Except Fault SessionBase}
    (hr : ∀ base, r = .ok base → s.toSessionBase.Keeps base) (hs : s.byEngine r = .ok s') :
    s'.Inv ∧ (s.Lingers → s'.Lingers) := by
  unfold OwnedSession.byEngine at hs
  split at hs
  · cases r with
    | error e => exact absurd hs (by simp)
    | ok base =>
      cases hs
      have hu := undisturbed_base (hr base rfl)
      exact ⟨hu.inv h, hu.lingers⟩
  · cases hs
    exact ⟨h, id⟩

/-! ### Steps that concern the timer -/

omit [LinearOrder α] in
theorem processTerm_outcome (self : α) (h : o.terminating = false) (linger : Int) :
    ∃ r, o.processTerm self linger = .ok r ∧ r.own = o.beginTerm ∧
      (r.destroyed = true ↔ o.caughtUp = true ∧ o.termAcks + o.owned.length = 0) := by
  have hacks : o.beginTerm.termAcks = o.termAcks + o.owned.length := rfl
  have hcaught : o.beginTerm.caughtUp = o.caughtUp := rfl
  simp only [Own.processTerm, h, Bool.false_eq_true, if_false, Own.checkTermAcks, hcaught, hacks]
  by_cases hdone : o.caughtUp = true ∧ o.termAcks + o.owned.length = 0
  · obtain ⟨hc, ha⟩ := hdone
    simp [Own.beginTerm, hc, ha]
  · have hnot : (o.beginTerm.terminating && o.caughtUp && o.termAcks + o.owned.length == 0) = false := by
      simp only [Own.beginTerm, Bool.true_and, Bool.and_eq_false_iff, beq_eq_false_iff_ne]
      grind
    simp [hnot, hdone]

omit [LinearOrder α] in
theorem Inv.proceedWithTerm (h : s.Inv) (hpipe : s.pipe = none) (hs : s.proceedWithTerm self = .ok s') :
    s'.Inv ∧ s'.pipe = none ∧ (s.own.terminating = false →
      if s.Unencumbered then s'.lingerTimer = none else s'.lingerTimer = s.lingerTimer) := by
  unfold OwnedSession.proceedWithTerm at hs
  cases ht : s.own.terminating with
  | true => simp [Own.processTerm, ht, OwnedSession.settle] at hs
  | false =>
    obtain ⟨r, hr, hown, hdone⟩ := processTerm_outcome self ht 0
    rw [hr] at hs
    have hI : Inv { ({ s with pending := false } : OwnedSession α) with own := r.own } := by
      refine ⟨?_, h.armed, fun hc => absurd hc (by simp), fun hc => ?_, h.gone⟩
      · rw [hown]
        exact h.owner
      · simp [hpipe] at hc
    obtain ⟨hI', -, hpipe', hcase⟩ := hI.settle hs
    refine ⟨hI', hpipe'.trans hpipe, fun _ => ?_⟩
    by_cases hu : s.Unencumbered
    · rw [if_pos (hdone.2 hu)] at hcase
      rw [if_pos hu]
      exact hcase
    · rw [if_neg fun hd => hu (hdone.1 hd)] at hcase
      rw [if_neg hu, hcase]

omit [LinearOrder α] in
theorem Inv.processTerm (h : s.Inv) (hgone : s.destroyed = false) {linger : Int}
    (hs : s.processTerm self linger = .ok s') : s'.Inv ∧ (s.Lingers → s'.Lingers) := by
  unfold OwnedSession.processTerm at hs
  split at hs
  · cases hs
  next hpending =>
    split at hs
    next hpipe =>
      obtain ⟨hI, -, htimer⟩ := h.proceedWithTerm hpipe hs
      refine ⟨hI, fun hl hsome => ?_⟩
      -- a timer would be set only while termination is pending
      cases ht : s.own.terminating with
      | true => simp [OwnedSession.proceedWithTerm, Own.processTerm, ht, OwnedSession.settle] at hs
      | false =>
        have htimer := htimer ht
        split at htimer
        · simp [htimer] at hsome
        · rw [htimer] at hsome
          exact absurd (hl hsome) hpending
    next pipe hpipe =>
      have halive := h.alive (by rw [hpipe]; rfl)
      split at hs
      · cases hs
      next hfree =>
        split at hs
        · cases hs
        · split at hs
          · cases hs
          next e _ =>
            cases hs
            have hI : Inv { s with pending := true, pipe := some e } :=
              ⟨h.owner, h.armed, fun _ => rfl, fun _ => halive, h.gone⟩
            split
            next hpos =>
              have hnone : s.lingerTimer = none := by simpa [hpos] using hfree
              refine ⟨⟨hI.owner, ?_, hI.pending, hI.alive, fun hc => ?_⟩, fun _ _ => rfl⟩
              · have harmed := h.armed
                rw [hnone] at harmed
                simp [addTimer, harmed]
              · exact absurd (hgone.symm.trans hc) (by simp)
            · exact ⟨hI, fun _ _ => rfl⟩

omit [LinearOrder α] in
theorem Inv.terminated (h : s.Inv) (hpipe : s.pipe.isSome = true) (hs : s.terminated self = .ok s') :
    s'.Inv ∧ s'.pipe = none ∧ (s.Lingers →
      (s'.lingerTimer.isSome = true ↔ s.lingerTimer.isSome = true ∧ ¬ s.Unencumbered)) := by
  have halive := h.alive hpipe
  unfold OwnedSession.terminated at hs
  simp only at hs
  split at hs
  next hpending =>
    have hI : Inv { s with pipe := none, pending := false } :=
      ⟨h.owner, h.armed, fun hc => absurd hc (by simp), fun hc => absurd hc (by simp), h.gone⟩
    obtain ⟨hI', hnone, htimer⟩ := hI.proceedWithTerm rfl hs
    refine ⟨hI', hnone, fun _ => ?_⟩
    have htimer := htimer halive
    split at htimer
    next hu => exact ⟨fun hc => by simp [htimer] at hc, fun hc => absurd hu hc.2⟩
    next hu =>
      rw [htimer]
      exact ⟨fun hc => ⟨hc, hu⟩, fun hc => hc.1⟩
  next hpending =>
    cases hs
    refine ⟨⟨h.owner, h.armed, fun hc => absurd hc hpending, fun hc => absurd hc (by simp), h.gone⟩,
      rfl, fun hl => ?_⟩
    exact ⟨fun hc => absurd (hl hc) hpending, fun hc => absurd (hl hc.1) hpending⟩

omit [LinearOrder α] in
theorem Inv.executeTimer (h : s.Inv) {handle : Nat} (hs : s.executeTimer handle = .ok s') :
    s'.Inv ∧ (s.Lingers → s'.Lingers) := by
  unfold OwnedSession.executeTimer OwnedSession.timerEvent at hs
  split at hs
  next hmem =>
    split at hs
    · cases hs
    next t ht =>
      cases hs
      split at ht
      · cases ht
      next hhandle =>
        split at ht
        · cases ht
        next pipe hpipe =>
          split at ht
          · cases ht
          · cases ht
            have hsome : s.pipe.isSome = true := by rw [hpipe]; rfl
            refine ⟨⟨h.owner, ?_, fun _ => rfl, fun _ => h.alive hsome, fun _ => rfl⟩,
              fun _ hc => absurd hc (by simp)⟩
            have harmed := h.armed
            rw [not_not.1 hhandle] at harmed
            simp [harmed]
  · cases hs
    exact ⟨h, id⟩

theorem Inv.step (h : s.Inv) {op : Op α} (hs : s.step self op = .ok s') :
    s'.Inv ∧ (s.Lingers → s.Prompt op → s'.Lingers) := by
  have hsimple : ∀ {t : OwnedSession α}, t.Inv ∧ (s.Lingers → t.Lingers) →
      t.Inv ∧ (s.Lingers → s.Prompt op → t.Lingers) := fun ht => ⟨ht.1, fun hl _ => ht.2 hl⟩
  unfold OwnedSession.step at hs
  split at hs
  · cases hs
    exact hsimple ⟨h, id⟩
  next hgone =>
    have hgone : s.destroyed = false := by simpa using hgone
    cases op with
    | attachPipe pipe =>
      simp only [OwnedSession.attachPipe] at hs
      split at hs
      · cases hs
      next hfree =>
        cases hs
        simp only [Bool.or_eq_true, not_or, Bool.not_eq_true] at hfree
        exact hsimple ⟨⟨h.owner, h.armed, fun _ => rfl, fun _ => hfree.1, h.gone⟩, id⟩
    | incSeqnum =>
      cases hs
      have hu : s.Undisturbed { s with own := s.own.incSeqnum } := undisturbed_own rfl rfl
      exact hsimple ⟨hu.inv h, hu.lingers⟩
    | plug child =>
      simp only at hs
      have hu : s.Undisturbed (s.processPlug child) := by
        unfold OwnedSession.processPlug
        split
        · exact undisturbed_startConnecting s child
        · exact ⟨rfl, rfl, rfl, rfl, rfl, rfl, rfl⟩
      obtain ⟨hI, hl⟩ := (hu.inv h).processSeqnum hs
      exact hsimple ⟨hI, fun hlin => hl (hu.lingers hlin)⟩
    | attach child engine pipe =>
      simp only at hs
      split at hs
      · cases hs
      next hattach =>
        obtain ⟨hI, hl⟩ := h.processAttach hattach
        obtain ⟨hI', hl'⟩ := hI.processSeqnum hs
        exact hsimple ⟨hI', fun hlin => hl' (hl hlin)⟩
    | term linger => exact hsimple (h.processTerm hgone hs)
    | termReq object =>
      cases hs
      have hu : s.Undisturbed { s with own := (s.own.processTermReq object).own } := by
        unfold Own.processTermReq
        split_ifs <;> exact undisturbed_own rfl rfl
      exact hsimple ⟨hu.inv h, hu.lingers⟩
    | termAck => exact hsimple (h.unregisterTermAck hs)
    | pipe e =>
      cases hs
      have hu : s.Undisturbed { s with pipe := s.pipe.map fun _ => e } :=
        ⟨rfl, rfl, Option.isSome_map, rfl, rfl, rfl, rfl⟩
      exact hsimple ⟨hu.inv h, hu.lingers⟩
    | pipeTermAck =>
      simp only at hs
      split at hs
      next hpipe =>
        obtain ⟨hI, -, htimer⟩ := h.terminated hpipe hs
        refine ⟨hI, fun hl hprompt hsome => ?_⟩
        obtain ⟨hset, hu⟩ := (htimer hl).1 hsome
        exact absurd (hprompt hgone hpipe hset) hu
      · cases hs
        exact hsimple ⟨h, id⟩
    | read msg =>
      refine hsimple (h.byEngine (fun base hbase => ?_) hs)
      cases hr : s.toSessionBase.read msg with
      | error e => simp [hr, Except.map] at hbase
      | ok r =>
        simp only [hr, Except.map] at hbase
        cases hbase
        exact SessionBase.read_keeps hr
    | write msg =>
      refine hsimple (h.byEngine (fun base hbase => ?_) hs)
      cases hr : s.toSessionBase.write msg with
      | error e => simp [hr, Except.map] at hbase
      | ok r =>
        simp only [hr, Except.map] at hbase
        cases hbase
        exact SessionBase.write_keeps hr
    | flush =>
      refine hsimple (h.byEngine (fun base hbase => ?_) hs)
      cases hbase
      exact ⟨rfl, rfl, Option.isSome_map⟩
    | detach child => grind [h.detach]
    | expire handle => exact hsimple (h.executeTimer hs)

def LeavesTimerSound (self : α) (s : OwnedSession α) (op : Op α) : Prop :=
  ∀ s', s.step self op = .ok s' → s'.TimerSound

theorem leavesTimerSound_iff_prompt (h : s.Inv) (hl : s.Lingers) (op : Op α) :
    s.LeavesTimerSound self op ↔ s.Prompt op := by
  constructor
  · intro hleaves
    cases op with
    | pipeTermAck =>
      intro hgone hpipe hset
      by_contra hu
      -- the session goes on without a pipe
      have halive := h.alive hpipe
      obtain ⟨s', hs⟩ : ∃ s', s.terminated self = .ok s' := by
        obtain ⟨r, hr, -, hdone⟩ := processTerm_outcome self halive 0
        have hrest : r.destroyed = false := by
          by_contra hd
          exact hu (hdone.1 (by simpa using hd))
        simp only [terminated, hl hset, if_true, proceedWithTerm, hr,
          settle, hrest, Bool.false_eq_true, if_false]
        exact ⟨_, rfl⟩
      obtain ⟨hI, hnone, htimer⟩ := h.terminated hpipe hs
      obtain ⟨handle, hhandle⟩ := Option.isSome_iff_exists.1 ((htimer hl).2 ⟨hset, hu⟩)
      have hsound := hleaves s' (by simp [step, hgone, hpipe, hs]) handle
        (by simp [hI.armed, hhandle])
      rw [hnone] at hsound
      exact absurd hsound.2.1 (by simp)
    | _ => trivial
  · intro hprompt s' hs
    obtain ⟨hI, hlingers⟩ := h.step hs
    exact hI.timerSound (hlingers hl hprompt)

/-- **When the linger timer finds a pipe.** -/
theorem linger_timer_sound_iff (self : α) (options : Options) (connect : Bool) (linger : Int) (owner : α)
    (ops : List (Op α)) :
    RunMeets (step self) (LeavesTimerSound self) (init options connect linger owner) ops ↔
      RunMeets (step self) Prompt (init options connect linger owner) ops := by
  have hinit := inv_init options connect linger owner
  constructor
  · refine RunMeets.mono_of_invariant (I := fun s => s.Inv ∧ s.Lingers) (fun s op s' hI hc hs => ?_)
      (fun s op hI hc => (leavesTimerSound_iff_prompt hI.1 hI.2 op).1 hc) hinit
    obtain ⟨hI', hl⟩ := hI.1.step hs
    exact ⟨hI', hl hI.2 ((leavesTimerSound_iff_prompt hI.1 hI.2 op).1 hc)⟩
  · refine RunMeets.mono_of_invariant (I := fun s => s.Inv ∧ s.Lingers) (fun s op s' hI hc hs => ?_)
      (fun s op hI hc => (leavesTimerSound_iff_prompt hI.1 hI.2 op).2 hc) hinit
    obtain ⟨hI', hl⟩ := hI.1.step hs
    exact ⟨hI', hl hI.2 hc⟩

def closing : List (Op (Fin 3)) :=
  [.attachPipe (.init 0 0 true), .incSeqnum, .plug (Fin.last 2), .term 100, .pipeTermAck]

theorem closing_fails : ∃ s, run (step 1) (init (.req [] 3) true (-1) (0 : Fin 3)) closing = .ok s ∧
    s.pipe = none ∧ s.timers = [0] ∧ s.destroyed = false ∧ s.own.termAcks = 1 ∧
    s.timerEvent 0 = .error .assertFailed ∧
    run (step 1) (init (.req [] 3) true (-1) (0 : Fin 3)) (closing ++ [.expire 0]) =
      .error .assertFailed := by
  exact ⟨_, rfl, rfl, rfl, rfl, rfl, rfl, rfl⟩

end OwnedSession

end Libxs
