import Libxs.Surveyor.Proofs

/-! # The deadline of a survey -/

namespace Libxs

variable {α : Type} [DecidableEq α]

/-! ## What is expected -/

def IsInt (n : Int) : Prop := -2 ^ 31 ≤ n ∧ n < 2 ^ 31
deriving Decidable

namespace SurveyorSystem

end SurveyorSystem

/-! ## The three computations -/

namespace Surveyor

open XSurveyor (supply)

variable {s s' : Surveyor α} {ends ends' : Ends α} {now : Nat}

def Idle (s : Surveyor α) (ends : Ends α) : Prop :=
  s.receivingResponses = true ∧ s.prefetched = none ∧
    ∃ x, supply.recv (s.toXSurveyor, ends) = .ok (none, x)

omit [DecidableEq α] in
theorem deadline_spec (h : s.surveyTimeout ≠ 0) :
    (s.deadline now : Int) = (now + s.surveyTimeout) % 2 ^ 64 := by
  rw [deadline, if_neg h]
  omega

/-! ### What does not change -/

theorem recvPart_keeps {r : Option Msg} (h : s.recvPart ends = .ok (r, s', ends')) :
    s'.timeout = s.timeout ∧ s'.surveyTimeout = s.surveyTimeout := by
  unfold recvPart at h
  grind

theorem discard_keeps (h : s.discard ends = .ok (s', ends')) :
    s'.timeout = s.timeout ∧ s'.surveyTimeout = s.surveyTimeout := by
  unfold discard at h
  grind

theorem recvResponse_keeps {r : Except Errno Msg} (h : s.recvResponse ends now = .ok (r, s', ends')) :
    s'.timeout = s.timeout ∧ s'.surveyTimeout = s.surveyTimeout := by
  unfold recvResponse at h
  split at h
  · cases h
  next hfirst =>
    cases h
    exact recvPart_keeps hfirst
  next hfirst =>
    obtain ⟨htimeout, hoption⟩ := recvPart_keeps hfirst
    split at h
    · grind [discard_keeps]
    · grind [recvPart_keeps]

theorem xrecv_keeps {r : Except Errno Msg} (h : s.xrecv ends now = .ok (r, s', ends')) :
    s'.timeout = s.timeout ∧ s'.surveyTimeout = s.surveyTimeout := by
  unfold xrecv at h
  grind [recvResponse_keeps]

theorem xhasIn_keeps {r : Bool} (h : s.xhasIn ends now = .ok (r, s', ends')) :
    s'.timeout = s.timeout ∧ s'.surveyTimeout = s.surveyTimeout := by
  unfold xhasIn at h
  split at h
  · cases h
    exact ⟨rfl, rfl⟩
  · split at h
    · cases h
      exact ⟨rfl, rfl⟩
    · grind [xrecv_keeps]

theorem xsend_timeout {msg : Msg} {sndmore : Bool} {r : Except Errno Unit}
    (h : s.xsend ends msg sndmore now = .ok (r, s', ends')) :
    s'.timeout = (if (sndmore || msg.more) = true then s.timeout else s.deadline now) ∧
      s'.surveyTimeout = s.surveyTimeout := by
  unfold xsend at h
  split at h
  next hrefused =>
    cases h
    exact ⟨(if_pos hrefused).symm, rfl⟩
  next hsent => grind

end Surveyor

/-! ## A surveyor and a clock -/

def SurveyorOp.reading : SurveyorOp α → Option Nat
  | .xsend _ _ now => some now
  | .xrecv now => some now
  | .xhasIn now => some now
  | _ => none

structure TimedSurveyor (α : Type) where
  system : SurveyorSystem α
  clock : Nat
  survey : Option (Int × Nat)

namespace TimedSurveyor

def init (surveyTimeout : Int) (surveyId : UInt32) : TimedSurveyor α :=
  ⟨.init surveyTimeout surveyId, 0, none⟩

def step (s : TimedSurveyor α) (op : SurveyorOp α) : Except Fault (TimedSurveyor α) :=
  match s.system.step op with
  | .error err => .error err
  | .ok system => .ok
      { system := system
        clock := op.reading.getD s.clock
        survey := match op with
          | .xsend msg sndmore now =>
            if (sndmore || msg.more) = true then s.survey
            else some (s.system.surveyor.surveyTimeout, now)
          | _ => s.survey }

def Ticks (s : TimedSurveyor α) (op : SurveyorOp α) : Prop :=
  (∀ now ∈ op.reading, s.clock ≤ now ∧ now < 2 ^ 64) ∧
    match op with
    | .setTimeout t => IsInt t
    | _ => True

instance (s : TimedSurveyor α) : ∀ op : SurveyorOp α, Decidable (s.Ticks op)
  | .setTimeout _ => inferInstanceAs (Decidable (_ ∧ IsInt _))
  | .event _ | .xsend _ _ _ | .xrecv _ | .xhasIn _ => inferInstanceAs (Decidable (_ ∧ True))

structure Inv (s : TimedSurveyor α) : Prop where
  option : IsInt s.system.surveyor.surveyTimeout
  survey : ∀ t sent, s.survey = some (t, sent) → IsInt t ∧ sent ≤ s.clock ∧
    (t ≠ 0 → (s.system.surveyor.timeout : Int) = (sent + t) % 2 ^ 64)

variable {s s' : TimedSurveyor α}

omit [DecidableEq α] in
theorem Inv.quiet (h : s.Inv) {system : SurveyorSystem α} {clock : Nat} (hclock : s.clock ≤ clock)
    (htimeout : system.surveyor.timeout = s.system.surveyor.timeout)
    (hoption : IsInt system.surveyor.surveyTimeout) : Inv ⟨system, clock, s.survey⟩ where
  option := hoption
  survey t sent ht := by
    obtain ⟨hint, hsent, hd⟩ := h.survey t sent ht
    exact ⟨hint, hsent.trans hclock, fun h0 => by rw [htimeout]; exact hd h0⟩

theorem Inv.step (h : s.Inv) {op : SurveyorOp α} (hk : s.Ticks op) (hs : s.step op = .ok s') :
    s'.Inv := by
  obtain ⟨hnow, hint⟩ := hk
  unfold TimedSurveyor.step at hs
  split at hs
  · cases hs
  next system hsys =>
    cases hs
    cases op with
    | event ev =>
      simp only [SurveyorSystem.step] at hsys
      split at hsys
      · cases hsys
      next hev =>
        cases hsys
        have hbase := (Surveyor.outboundStep_base (PipeEvent.steps hev).outboundStep).1
        refine h.quiet (Nat.le_refl _) ?_ ?_
        · have htimeout := congrArg Surveyor.timeout hbase
          exact htimeout
        · have hoption := congrArg Surveyor.surveyTimeout hbase
          exact hoption.symm ▸ h.option
    | setTimeout t =>
      rw [SurveyorSystem.step, Except.ok.injEq] at hsys
      subst hsys
      exact h.quiet (Nat.le_refl _) rfl hint
    | xsend msg sndmore now =>
      simp only [SurveyorSystem.step] at hsys
      split at hsys
      · cases hsys
      next hx =>
        cases hsys
        obtain ⟨htimeout, hoption⟩ := Surveyor.xsend_timeout hx
        have hclock := (hnow now rfl).1
        by_cases hrefused : (sndmore || msg.more) = true
        · rw [if_pos hrefused] at htimeout
          simp only [if_pos hrefused]
          exact h.quiet hclock htimeout (hoption.symm ▸ h.option)
        · rw [if_neg hrefused] at htimeout
          simp only [if_neg hrefused]
          refine ⟨hoption.symm ▸ h.option, fun t sent ht => ?_⟩
          simp only [Option.some.injEq, Prod.mk.injEq] at ht
          obtain ⟨rfl, rfl⟩ := ht
          refine ⟨h.option, Nat.le_refl _, fun h0 => ?_⟩
          simp only [htimeout]
          exact Surveyor.deadline_spec h0
    | xrecv now =>
      simp only [SurveyorSystem.step] at hsys
      split at hsys
      · cases hsys
      next hx =>
        cases hsys
        obtain ⟨htimeout, hoption⟩ := Surveyor.xrecv_keeps hx
        exact h.quiet (hnow now rfl).1 htimeout (hoption.symm ▸ h.option)
    | xhasIn now =>
      simp only [SurveyorSystem.step] at hsys
      split at hsys
      · cases hsys
      next hx =>
        cases hsys
        obtain ⟨htimeout, hoption⟩ := Surveyor.xhasIn_keeps hx
        exact h.quiet (hnow now rfl).1 htimeout (hoption.symm ▸ h.option)

end TimedSurveyor

/-! ## When the deadline is respected -/

namespace SurveyorSystem

open Surveyor (Idle)

variable {s : SurveyorSystem α} {t : Int} {sent now : Nat}

end SurveyorSystem

namespace TimedSurveyor

open SurveyorSystem (surveying peerSends body)

end TimedSurveyor

end Libxs
