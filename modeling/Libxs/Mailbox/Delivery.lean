import Libxs.Foundation.Run
import Libxs.Mailbox

/-! # The mailbox delivers every command once -/

namespace Libxs

variable {ι κ : Type}

theorem YPipe.flush_write {α : Type} {q : YPipe α} (h : q.WF) (hall : q.w = q.back) (value : α) :
    (q.write value false).flush = (decide (q.c ≠ none),
      { q with queue := q.queue ++ [value], w := q.back + 1, f := q.back + 1,
               c := some (q.back + 1) }) := by
  have hf : (q.write value false).f = q.back + 1 := by simp [write_f]
  have hne : ¬ q.w = q.back + 1 := by omega
  rw [flush_eq (h.write value false), hf, write_w, write_c]
  simp only [hne, false_or, if_false, Prod.mk.injEq, true_and]
  simp [write, back]

namespace YPipe

variable {α : Type} {q : YPipe α}

def awake (q : YPipe α) : Nat := if q.c = none then 0 else 1

theorem awake_le (q : YPipe α) : q.awake ≤ 1 := by
  unfold awake
  split <;> omega

theorem awake_of_ne (h : q.c ≠ none) : q.awake = 1 := by simp [awake, h]

theorem asleep_of_eq (h : q.c = none) : q.awake = 0 := by simp [awake, h]

end YPipe

namespace Mailbox

variable [DecidableEq ι] {s t : Mailbox ι κ}
variable {rest : List (ι × κ)} {x : Signaler} {sender : ι} {cmd : ι × κ}

inductive Balanced (s : Mailbox ι κ) : Prop where
  | active : s.active = true → s.stage = .outside ∨ s.stage = .reading ∨ s.stage = .woken →
      s.cpipe.awake = 1 → s.signaler.signals = 1 → s.signalling = ∅ → Balanced s
  | draining : s.active = false → s.stage = .draining →
      s.signaler.signals + s.signalling.card = 1 + s.cpipe.awake → s.signalling.card ≤ s.cpipe.awake → Balanced s
  | returning : s.active = false → s.stage = .returning → s.cpipe.awake = 1 → s.signaler.signals = 0 →
      s.signalling = ∅ → Balanced s
  | passive : s.active = false → s.stage = .outside ∨ s.stage = .waiting →
      s.signaler.signals + s.signalling.card = s.cpipe.awake → Balanced s

omit [DecidableEq ι] in
theorem Balanced.congr (h : s.Balanced) (hact : t.active = s.active) (hstage : t.stage = s.stage)
    (hawake : t.cpipe.awake = s.cpipe.awake) (hsignals : t.signaler.signals = s.signaler.signals)
    (hsenders : t.signalling = s.signalling) : t.Balanced := by
  cases h with
  | active h1 h2 h3 h4 h5 =>
    exact .active (hact.trans h1) (by rwa [hstage]) (hawake.trans h3) (hsignals.trans h4)
      (hsenders.trans h5)
  | draining h1 h2 h3 h4 =>
    exact .draining (hact.trans h1) (hstage.trans h2) (by rwa [hsignals, hsenders, hawake])
      (by rwa [hsenders, hawake])
  | returning h1 h2 h3 h4 h5 =>
    exact .returning (hact.trans h1) (hstage.trans h2) (hawake.trans h3) (hsignals.trans h4)
      (hsenders.trans h5)
  | passive h1 h2 h3 =>
    exact .passive (hact.trans h1) (by rwa [hstage]) (by rwa [hsignals, hsenders, hawake])

structure Inv (s : Mailbox ι κ) : Prop where
  wf : s.cpipe.WF
  flushed : s.cpipe.w = s.cpipe.back
  log : s.sent = s.received ++ s.cpipe.queue
  fresh : s.active = false ∨ s.stage = .woken → s.cpipe.awake = 1 → s.cpipe.queue ≠ []
  balanced : s.Balanced

theorem signalerSend_eq (h : x.signals ≤ 1) :
    x.signalerSend = .ok { x with signals := x.signals + 1 } := by
  have hroom := x.kind.two_le
  unfold Signaler.signalerSend
  rw [if_pos (by omega)]

theorem grab_cases (h1 : 1 ≤ x.signals) (h2 : x.signals ≤ 2) :
    (x.signals = 2 ∧ x.grab = .ok (true, { x with signals := 0 })) ∨
      x.grab = .ok (false, { x with signals := x.signals - 1 }) := by
  have h0 : ¬ x.signals = 0 := by omega
  unfold Signaler.grab
  rw [if_neg h0]
  cases x.kind.eventfd with
  | false => exact Or.inr rfl
  | true =>
    by_cases htwo : x.signals = 2
    · exact Or.inl ⟨htwo, by simp [htwo]⟩
    · have hone : x.signals = 1 := by omega
      exact Or.inr (by simp [hone])

theorem Inv.send (h : s.Inv) (hs : sender ∉ s.signalling) (cmd : κ) :
    (s.send sender cmd).Inv := by
  have hb := h.wf.front_le_w
  have hw := h.flushed
  have hflush := YPipe.flush_write h.wf h.flushed (sender, cmd)
  have hwf := (h.wf.write (sender, cmd) false).flush
  rw [hflush] at hwf
  have hall : s.cpipe.back + 1 = s.cpipe.front + (s.cpipe.queue ++ [(sender, cmd)]).length := by
    simp [YPipe.back, Nat.add_assoc]
  have hlog : s.sent ++ [(sender, cmd)] =
      s.received ++ (s.cpipe.queue ++ [(sender, cmd)]) := by
    rw [h.log, List.append_assoc]
  unfold Mailbox.send
  rw [hflush]
  by_cases hc : s.cpipe.c = none
  · have hasleep := YPipe.asleep_of_eq hc
    simp only [hc, ne_eq, not_true_eq_false, decide_false]
    refine ⟨hwf, hall, hlog, fun _ _ => by simp, ?_⟩
    cases h.balanced with
    | active _ _ hawake _ _ => omega
    | returning _ _ hawake _ _ => omega
    | draining hact hstage hsum hle =>
      refine .draining hact hstage ?_ ?_ <;>
        simp only [Finset.card_insert_of_notMem hs, YPipe.awake, reduceCtorEq, if_false] <;> omega
    | passive hact hstage hsum =>
      refine .passive hact hstage ?_
      simp only [Finset.card_insert_of_notMem hs, YPipe.awake, reduceCtorEq, if_false]
      omega
  · have hawake := YPipe.awake_of_ne hc
    simp only [hc, ne_eq, not_false_eq_true, decide_true]
    refine ⟨hwf, hall, hlog, fun _ _ => by simp, ?_⟩
    exact h.balanced.congr rfl rfl ((YPipe.awake_of_ne (by simp)).trans hawake.symm) rfl rfl

theorem Inv.signal (h : s.Inv) (hs : sender ∈ s.signalling) :
    ∃ t, s.step (.signal sender) = .ok t ∧ t.Inv := by
  have hcard := Finset.card_erase_of_mem hs
  have hpos : 0 < s.signalling.card := Finset.card_pos.2 ⟨sender, hs⟩
  have hawake := s.cpipe.awake_le
  have hsome : s.signalling ≠ ∅ := Finset.nonempty_iff_ne_empty.1 ⟨sender, hs⟩
  have hone : s.signaler.signals ≤ 1 := by
    cases h.balanced with
    | active _ _ _ _ hnone => exact absurd hnone hsome
    | returning _ _ _ _ hnone => exact absurd hnone hsome
    | draining _ _ hsum hle => omega
    | passive _ _ hsum => omega
  refine ⟨{ s with
    signaler := { s.signaler with signals := s.signaler.signals + 1 }
    signalling := s.signalling.erase sender }, ?_, h.wf, h.flushed, h.log, h.fresh, ?_⟩
  · simp only [step, if_pos hs, signalerSend_eq hone]
  · cases h.balanced with
    | active _ _ _ _ hnone => exact absurd hnone hsome
    | returning _ _ _ _ hnone => exact absurd hnone hsome
    | draining hact hstage hsum hle =>
      refine .draining hact hstage ?_ ?_ <;> simp only [hcard] <;> omega
    | passive hact hstage hsum =>
      refine .passive hact hstage ?_
      simp only [hcard]
      omega

theorem Inv.call (h : s.Inv) : ∃ t, s.step .call = .ok t ∧ t.Inv := by
  by_cases hout : s.stage = .outside
  · refine ⟨{ s with stage := if s.active then .reading else .waiting }, by simp [step, hout], h.wf,
      h.flushed, h.log, fun hpas => h.fresh ?_, ?_⟩
    · grind
    · cases h.balanced with
      | active hact _ hawake hone hnone =>
        exact .active hact (Or.inr (Or.inl (by simp [hact]))) hawake hone hnone
      | passive hact _ hsum => exact .passive hact (Or.inr (by simp [hact])) hsum
      | draining _ hstage _ _ => exact absurd (hout.symm.trans hstage) (by simp)
      | returning _ hstage _ _ _ => exact absurd (hout.symm.trans hstage) (by simp)
  · exact ⟨s, by simp [step, hout], h⟩

omit [DecidableEq ι] in
theorem Inv.returns (h : s.Inv) (hact : s.active = true) {r : Nat}
    (hq : s.cpipe.queue = cmd :: rest) (h1 : s.cpipe.front < r) (h2 : r ≤ s.cpipe.w) :
    (s.return0 cmd (s.cpipe.popped rest r)).Inv := by
  have hw := h.flushed
  refine ⟨h.wf.popped hq h1 h2, ?_, ?_, fun hc => ?_, ?_⟩
  · grind [return0, YPipe.popped, YPipe.back]
  · simp only [return0, YPipe.popped]
    rw [h.log, hq, List.append_assoc]
    rfl
  · simp [return0, hact] at hc
  · cases h.balanced with
    | active _ _ hawake hone hnone => exact .active hact (Or.inl rfl) hawake hone hnone
    | draining hoff _ _ _ => exact absurd (hact.symm.trans hoff) (by simp)
    | returning hoff _ _ _ _ => exact absurd (hact.symm.trans hoff) (by simp)
    | passive hoff _ _ => exact absurd (hact.symm.trans hoff) (by simp)

omit [DecidableEq ι] in
theorem Inv.active_of_stage (h : s.Inv) (hs : s.stage = .reading ∨ s.stage = .woken) :
    s.active = true ∧ s.cpipe.awake = 1 ∧ s.signaler.signals = 1 ∧ s.signalling = ∅ := by
  cases h.balanced with
  | active hact _ hawake hone hnone => exact ⟨hact, hawake, hone, hnone⟩
  | draining _ hstage _ _ => rw [hstage] at hs; simp at hs
  | returning _ hstage _ _ _ => rw [hstage] at hs; simp at hs
  | passive _ hstage _ => grind

theorem Inv.read (h : s.Inv) : ∃ t, s.step .read = .ok t ∧ t.Inv := by
  cases hstage : s.stage with
  | outside => exact ⟨s, by simp [step, hstage], h⟩
  | draining => exact ⟨s, by simp [step, hstage], h⟩
  | returning => exact ⟨s, by simp [step, hstage], h⟩
  | waiting => exact ⟨s, by simp [step, hstage], h⟩
  | reading =>
    obtain ⟨hact, -, hone, hnone⟩ := h.active_of_stage (Or.inl hstage)
    rcases YPipe.read_cases h.wf with ⟨-, cmd, rest, r, hq, h1, h2, hread⟩ | ⟨hfw, r, hread, hr⟩
    · grind [step, h.returns]
    · refine ⟨{ s with
          cpipe := { s.cpipe with r := r, c := none }, active := false, stage := .draining },
        by simp only [step, hstage, hread], h.wf.sleep hfw hr, h.flushed, h.log,
        fun _ hawake => absurd hawake (by simp [YPipe.awake]), ?_⟩
      refine .draining rfl rfl ?_ ?_ <;> simp [hone, hnone, YPipe.awake]
  | woken =>
    obtain ⟨hact, hawake, -⟩ := h.active_of_stage (Or.inr hstage)
    have hne := h.fresh (Or.inr hstage) hawake
    rcases YPipe.read_cases h.wf with ⟨-, cmd, rest, r, hq, h1, h2, hread⟩ | ⟨hfw, -⟩
    · grind [step, h.returns]
    · have hw := h.flushed
      simp only [YPipe.back] at hw
      exact absurd (List.length_eq_zero_iff.1 (by omega)) hne

theorem Inv.signalerRecv (h : s.Inv) : ∃ t, s.step .signalerRecv = .ok t ∧ t.Inv := by
  by_cases hdr : s.stage = .draining
  · have hle := s.cpipe.awake_le
    cases h.balanced with
    | active _ hstage _ _ _ => simp [hdr] at hstage
    | returning _ hstage _ _ _ => simp [hdr] at hstage
    | passive _ hstage _ => simp [hdr] at hstage
    | draining hact _ hsum hsenders =>
      rcases grab_cases (x := s.signaler) (by omega) (by omega) with ⟨htwo, hgrab⟩ | hgrab
      · refine ⟨{ s with signaler := { s.signaler with signals := 0 }, stage := .returning },
          by simp only [step, hdr, hgrab, if_true], h.wf, h.flushed, h.log,
          fun _ => h.fresh (Or.inl hact), ?_⟩
        have hawake : s.cpipe.awake = 1 := by omega
        have hnone : s.signalling = ∅ := Finset.card_eq_zero.1 (by omega)
        exact .returning hact rfl hawake rfl hnone
      · refine ⟨{ s with
            signaler := { s.signaler with signals := s.signaler.signals - 1 }, stage := .waiting },
          by simp only [step, hdr, hgrab, if_true], h.wf, h.flushed, h.log,
          fun _ => h.fresh (Or.inl hact), ?_⟩
        refine .passive hact (Or.inr rfl) ?_
        simp only
        omega
  · exact ⟨s, by simp [step, hdr], h⟩

theorem Inv.writeBack (h : s.Inv) : ∃ t, s.step .writeBack = .ok t ∧ t.Inv := by
  by_cases hre : s.stage = .returning
  · cases h.balanced with
    | active _ hstage _ _ _ => simp [hre] at hstage
    | draining _ hstage _ _ => simp [hre] at hstage
    | passive _ hstage _ => simp [hre] at hstage
    | returning hact _ hawake hzero hnone =>
      have hsend := signalerSend_eq (x := s.signaler) (by omega)
      refine ⟨{ s with
          signaler := { s.signaler with signals := s.signaler.signals + 1 }, stage := .waiting },
        by simp only [step, hre, if_true, hsend], h.wf, h.flushed, h.log, fun _ => h.fresh (Or.inl hact), ?_⟩
      exact .passive hact (Or.inr rfl) (by simp [hzero, hnone, hawake])
  · exact ⟨s, by simp [step, hre], h⟩

theorem Inv.wait (h : s.Inv) (r : WaitResult) : ∃ t, s.step (.wait r) = .ok t ∧ t.Inv := by
  by_cases hwt : s.stage = .waiting
  · cases h.balanced with
    | active _ hstage _ _ _ => simp [hwt] at hstage
    | draining _ hstage _ _ => simp [hwt] at hstage
    | returning _ hstage _ _ _ => simp [hwt] at hstage
    | passive hact _ hsum =>
      have hle := s.cpipe.awake_le
      have hout : ({ s with stage := .outside } : Mailbox ι κ).Inv :=
        ⟨h.wf, h.flushed, h.log, fun _ => h.fresh (Or.inl hact), .passive hact (Or.inl rfl) hsum⟩
      cases r with
      | timedOut => grind [step]
      | interrupted => grind [step]
      | signalled =>
        by_cases hsig : s.signaler.signals = 0
        · exact ⟨s, by simp [step, hwt, hsig], h⟩
        · have hawake : s.cpipe.awake = 1 := by omega
          have hone : s.signaler.signals = 1 := by omega
          have hnone : s.signalling = ∅ := Finset.card_eq_zero.1 (by omega)
          exact ⟨{ s with active := true, stage := .woken }, by simp [step, hwt, hsig], h.wf,
            h.flushed, h.log, fun _ => h.fresh (Or.inl hact),
            .active rfl (Or.inr (Or.inr rfl)) hawake hone hnone⟩
  · exact ⟨s, by simp [step, hwt], h⟩

theorem Inv.step (h : s.Inv) (op : MailboxOp ι κ) : ∃ t, s.step op = .ok t ∧ t.Inv := by
  cases op with
  | send sender cmd => grind [step, h.send]
  | signal sender => grind [h.signal, step]
  | call => exact h.call
  | read => exact h.read
  | signalerRecv => exact h.signalerRecv
  | writeBack => exact h.writeBack
  | wait r => exact h.wait r

omit [DecidableEq ι] in
theorem Inv.awake_of_unread (h : s.Inv) (hne : s.cpipe.queue ≠ []) : s.cpipe.awake = 1 := by
  have hlen := List.length_pos_iff.2 hne
  have hw := h.flushed
  simp only [YPipe.back] at hw
  refine YPipe.awake_of_ne fun hc => ?_
  rcases h.wf.c_eq with hc' | ⟨-, hfw⟩
  · exact absurd (hc.symm.trans hc') (by simp)
  · omega

omit [DecidableEq ι] in
theorem Inv.signalled (h : s.Inv) (hnone : s.signalling = ∅) (hpas : s.Passive)
    (hne : s.cpipe.queue ≠ []) : 0 < s.signaler.signals := by
  have hawake := h.awake_of_unread hne
  cases h.balanced with
  | active hon _ _ _ _ => exact absurd (hpas.1.symm.trans hon) (by simp)
  | returning _ hstage _ _ _ => exact absurd hstage hpas.2
  | draining _ _ hsum _ =>
    rw [hnone, Finset.card_empty] at hsum
    omega
  | passive _ _ hsum =>
    rw [hnone, Finset.card_empty] at hsum
    omega

end Mailbox

end Libxs
