import Libxs.Fq
import Libxs.Rotor.Tracking

/-! # No pipe is lost by the fair queue, as long as `terminated` moves none across the boundary -/

namespace Libxs

variable {α : Type}

def readWatch : Watch Endpoint where
  refused := fun e => e.refusedRead
  closed := fun e => e.canRead = false
  asleep := fun e => e.pipe.inActive = false

namespace FqSystem

def Inv (s : FqSystem α) : Prop := s.fq.Tracks readWatch s.ends

theorem inv_init : (init : FqSystem α).Inv := Rotor.tracks_init _ _

theorem Inv.not_readable {s : FqSystem α} (h : s.Inv) (h0 : s.fq.active = 0) :
    ∀ p, s.attached p → ¬ (s.ends p).Readable :=
  fun _ hp => Endpoint.not_readable (h.closed_of_active_eq_zero h0 hp)

variable [DecidableEq α]
variable {ends' : Ends α} {fq' : Fq α} {s : FqSystem α}

theorem Inv.deactivate (h : s.Inv) (hpos : 0 < s.fq.active) {p : α} {e : Endpoint}
    (hget : s.fq.pipes.get s.fq.current = some p) (hcan : e.canRead = false)
    (href : e.refusedRead = true) :
    ∃ fq', s.fq.deactivate = .ok fq' ∧ fq'.active = s.fq.active - 1 ∧
      (∀ x, fq'.attached x ↔ s.attached x) ∧ Inv ⟨fq', Function.update s.ends p e⟩ := by
  obtain ⟨r, hr, hact, hmem, htr⟩ := Rotor.Tracks.deactivate h hpos hget hcan href
  exact ⟨{ s.fq with toRotor := r }, by simp only [Fq.deactivate, Fq.withRotor, hr], hact, hmem, htr⟩

theorem Inv.recvLoop : ∀ (count : Nat) (s : FqSystem α), s.Inv → count = s.fq.active →
    ∀ r fq' ends', Fq.recvLoop count s.fq s.ends = .ok (r, fq', ends') →
      Inv ⟨fq', ends'⟩ ∧ (r = none → ∀ p, s.attached p → ¬ (s.ends p).Readable) := by
  intro count
  induction count with
  | zero =>
    intro s h h0 r fq' ends' hrun
    simp only [Fq.recvLoop] at hrun
    cases hrun
    exact ⟨h, fun _ => h.not_readable h0.symm⟩
  | succ count ih =>
    intro s h hact r fq' ends' hrun
    have hlt := h.rotor.current_lt_active (by omega)
    obtain ⟨p, hget, -, -⟩ := h.rotor.get_current (by omega)
    simp only [Fq.recvLoop, hget] at hrun
    rcases Endpoint.read_cases (s.ends p) with
      ⟨msg, e, hread, hc, hc', hin, href⟩ | ⟨e, hread, hcan, href⟩
    · -- a message: only `current` and `more` change
      rw [hread] at hrun
      cases hrun
      have hsame : s.fq.Tracks readWatch (Function.update s.ends p e) :=
        Rotor.Tracks.setEnd h href (fun hf => absurd hc (by rw [hf]; simp))
          (fun ha => absurd hin (by rw [ha]; simp))
      refine ⟨hsame.setCurrent ?_, fun he => absurd he (by simp)⟩
      split_ifs <;> omega
    · -- a refusal: the pipe leaves the active region and the loop goes on
      rw [hread] at hrun
      simp only at hrun
      split at hrun
      · cases hrun
      · obtain ⟨fq2, hde, hact2, hmem2, hinv2⟩ := h.deactivate (by omega) hget hcan href
        rw [hde] at hrun
        obtain ⟨hinv', hnone⟩ := ih ⟨fq2, Function.update s.ends p e⟩ hinv2 (by simp; omega)
          r fq' ends' hrun
        refine ⟨hinv', fun he x hx => ?_⟩
        by_cases hxp : x = p
        · subst hxp
          rintro ⟨msg, e2, hr2⟩
          rw [hread] at hr2
          cases hr2
        · have := hnone he x ((hmem2 x).2 hx)
          simpa [Function.update_of_ne hxp] using this

theorem Inv.hasInLoop : ∀ (count : Nat) (s : FqSystem α), s.Inv → count = s.fq.active →
    ∀ r fq' ends', Fq.hasInLoop count s.fq s.ends = .ok (r, fq', ends') →
      Inv ⟨fq', ends'⟩ ∧ (r = false → ∀ p, s.attached p → ¬ (s.ends p).Readable) := by
  intro count
  induction count with
  | zero =>
    intro s h h0 r fq' ends' hrun
    simp only [Fq.hasInLoop] at hrun
    cases hrun
    exact ⟨h, fun _ => h.not_readable h0.symm⟩
  | succ count ih =>
    intro s h hact r fq' ends' hrun
    obtain ⟨p, hget, -, -⟩ := h.rotor.get_current (by omega)
    simp only [Fq.hasInLoop, hget] at hrun
    split at hrun
    · cases hrun
    next e hchk =>
      cases hrun
      rcases Endpoint.checkRead_cases _ e true hchk with ⟨-, hc, hpipe, href⟩ | ⟨hf, _⟩
      · exact ⟨Rotor.Tracks.setEnd h href (fun hf => absurd hc (by rw [hf]; simp))
          (by simp only [readWatch, hpipe]; exact id), fun he => absurd he (by simp)⟩
      · cases hf
    next e hchk =>
      rcases Endpoint.checkRead_cases _ e false hchk with ⟨hf, _⟩ | ⟨-, hcan, href⟩
      · cases hf
      · obtain ⟨fq2, hde, hact2, hmem2, hinv2⟩ := h.deactivate (by omega) hget hcan href
        rw [hde] at hrun
        obtain ⟨hinv', hnone⟩ := ih ⟨fq2, Function.update s.ends p e⟩ hinv2 (by simp; omega)
          r fq' ends' hrun
        refine ⟨hinv', fun he x hx => ?_⟩
        by_cases hxp : x = p
        · subst hxp
          exact Endpoint.not_readable_of_checkRead hchk
        · have := hnone he x ((hmem2 x).2 hx)
          simpa [Function.update_of_ne hxp] using this

theorem Inv.recvpipe (h : s.Inv) {r : Option (Msg × α)}
    (hrun : s.fq.recvpipe s.ends = .ok (r, fq', ends')) :
    Inv ⟨fq', ends'⟩ ∧ (r = none → ∀ p, s.attached p → ¬ (s.ends p).Readable) :=
  Inv.recvLoop _ s h rfl r fq' ends' hrun

theorem Inv.hasIn (h : s.Inv) {r : Bool} (hrun : s.fq.hasIn s.ends = .ok (r, fq', ends')) :
    Inv ⟨fq', ends'⟩ ∧ (r = false → ∀ p, s.attached p → ¬ (s.ends p).Readable) := by
  unfold Fq.hasIn at hrun
  split at hrun
  · cases hrun
    exact ⟨h, fun he => absurd he (by simp)⟩
  · exact Inv.hasInLoop _ s h rfl r fq' ends' hrun

def StepKeeps (s : FqSystem α) : FqOp α → Prop
  | .terminated p => s.attached p → s.fq.TerminatedKeeps p
  | _ => True

instance StepKeeps.decidable (s : FqSystem α) : ∀ op, Decidable (s.StepKeeps op)
  | .terminated p => inferInstanceAs (Decidable (s.attached p → s.fq.TerminatedKeeps p))
  | .attach _ _ => .isTrue trivial
  | .recvpipe => .isTrue trivial
  | .hasIn => .isTrue trivial
  | .processActivateRead _ => .isTrue trivial
  | .processPipeTerm _ => .isTrue trivial
  | .terminate _ _ => .isTrue trivial
  | .peerWrite _ _ => .isTrue trivial
  | .peerFlush _ => .isTrue trivial

theorem Inv.step {s' : FqSystem α} (h : s.Inv) {op : FqOp α} (hk : s.StepKeeps op)
    (hs : s.step op = .ok s') : s'.Inv := by
  cases op with
  | attach p e =>
    simp only [FqSystem.step] at hs
    split at hs
    · cases hs
      exact h
    next hg =>
      simp only [not_or, Bool.not_eq_false] at hg
      obtain ⟨r, hr, -, htr⟩ := Rotor.Tracks.attach (e := { e with refusedRead := false }) h hg.1
        rfl (by simp [readWatch, hg.2])
      simp only [Fq.attach, Fq.withRotor, hr] at hs
      cases hs
      exact htr
  | recvpipe => grind [FqSystem.step, h.recvpipe]
  | hasIn => grind [FqSystem.step, h.hasIn]
  | terminated p =>
    simp only [FqSystem.step] at hs
    split at hs
    next hp =>
      obtain ⟨r, hr, htr⟩ := Rotor.Tracks.terminated h hp (hk hp)
      simp only [Fq.terminated, Fq.withRotor, hr] at hs
      cases hs
      exact htr
    · cases hs
      exact h
  | processActivateRead p =>
    simp only [FqSystem.step] at hs
    split at hs
    next hp =>
      split at hs
      next e hact =>
        simp only [Except.ok.injEq] at hs
        obtain rfl := Endpoint.processActivateRead_false hact
        exact hs ▸ Rotor.Tracks.setEnd h rfl (fun hc => hc) (fun ha => ha)
      next e hact =>
        obtain ⟨hin, hin', href⟩ := Endpoint.processActivateRead_true hact
        obtain ⟨r, hr, -, htr⟩ := Rotor.Tracks.activated h hp hin href
          (by simp [readWatch, hin'])
        simp only [Fq.activated, Fq.withRotor, hr] at hs
        cases hs
        exact htr
    · cases hs
      exact h
  | processPipeTerm p =>
    simp only [FqSystem.step, Endpoint.processPipeTerm] at hs
    cases hpt : (s.ends p).pipe.processPipeTerm with
    | error e => simp [hpt] at hs
    | ok r =>
      obtain ⟨pipe, cmds⟩ := r
      rw [hpt] at hs
      cases hs
      obtain ⟨hin, hreads⟩ := Pipe.processPipeTerm_reads hpt
      exact Rotor.Tracks.setEnd h rfl (Endpoint.canRead_mono hin hreads)
        (fun ha => hin.symm.trans ha)
  | terminate p d =>
    simp only [FqSystem.step, Endpoint.terminate] at hs
    cases hpt : (s.ends p).pipe.terminate d (s.ends p).outPtr with
    | error e => simp [hpt] at hs
    | ok r =>
      obtain ⟨pipe, outq, cmds⟩ := r
      rw [hpt] at hs
      cases hs
      obtain ⟨hin, hreads⟩ := Pipe.terminate_reads hpt
      exact Rotor.Tracks.setEnd h (by simp [readWatch]) (Endpoint.canRead_mono hin hreads)
        (fun ha => hin.symm.trans ha)
  | peerWrite p msg =>
    simp only [FqSystem.step] at hs
    cases hs
    exact Rotor.Tracks.setEnd h rfl (fun hc => hc) (fun ha => ha)
  | peerFlush p =>
    simp only [FqSystem.step] at hs
    cases hs
    exact Rotor.Tracks.setEnd h rfl (fun hc => hc) (fun ha => ha)

/-! ## The queue never loses a pipe -/

def NoPipeLost (s : FqSystem α) : Prop :=
  ∀ p, s.attached p → (s.ends p).refusedRead = false → s.fq.pipes.index p < s.fq.active

def RecvFailsOnlyIfEmpty (s : FqSystem α) : Prop :=
  ∀ fq' ends', s.fq.recvpipe s.ends = .ok (none, fq', ends') →
    ∀ p, s.attached p → ¬ (s.ends p).Readable

def HasInFalseOnlyIfEmpty (s : FqSystem α) : Prop :=
  ∀ fq' ends', s.fq.hasIn s.ends = .ok (false, fq', ends') →
    ∀ p, s.attached p → ¬ (s.ends p).Readable

theorem inv_of_run {ops : List (FqOp α)}
    (hmeets : RunMeets step StepKeeps init ops) (hrun : run step init ops = .ok s) : s.Inv :=
  run_invariant (fun _ _ _ hI hk hs => Inv.step hI hk hs) ops init s inv_init hmeets hrun

/-- **In a run in which every dropped pipe meets `TerminatedKeeps`, no pipe is ever lost.** -/
theorem no_pipe_lost_iff_terminatedKeeps (ops : List (FqOp α)) (s : FqSystem α)
    (hmeets : RunMeets step StepKeeps init ops) (hrun : run step init ops = .ok s) :
    (s.NoPipeLost ∧ s.RecvFailsOnlyIfEmpty ∧ s.HasInFalseOnlyIfEmpty) ∧
      ∀ p s', s.attached p → s.step (.terminated p) = .ok s' →
        (s'.NoPipeLost ↔ s.fq.TerminatedKeeps p) := by
  have h := inv_of_run hmeets hrun
  refine ⟨⟨Rotor.Tracks.complete h, fun fq' ends' hr => (h.recvpipe hr).2 rfl,
    fun fq' ends' hr => (h.hasIn hr).2 rfl⟩, ?_⟩
  intro p s' hp hs
  simp only [step, hp, if_true, Fq.terminated, Fq.withRotor] at hs
  cases hr : s.fq.toRotor.terminated p with
  | error e => simp [hr] at hs
  | ok r =>
    rw [hr] at hs
    cases hs
    exact Rotor.Tracks.terminated_complete_iff h hp hr

def dropPassiveRun : List (FqOp Nat) :=
  [.attach 0 (.init 0 0 false), .attach 1 (.init 0 0 false), .peerWrite 0 .init, .peerFlush 0,
    .recvpipe, .recvpipe, .terminated 1]

theorem dropPassiveRun_no_pipe_lost :
    RunMeets step StepKeeps init dropPassiveRun ∧
      ∃ s, run step init dropPassiveRun = .ok s ∧ s.NoPipeLost ∧ s.RecvFailsOnlyIfEmpty := by
  have hmeets : RunMeets step StepKeeps init dropPassiveRun := by decide
  obtain ⟨s, hs⟩ : ∃ s, run step init dropPassiveRun = .ok s := ⟨_, rfl⟩
  have h := no_pipe_lost_iff_terminatedKeeps dropPassiveRun s hmeets hs
  exact ⟨hmeets, s, hs, h.1.1, h.1.2.1⟩

def lostPipeRun : List (FqOp Nat) :=
  [.attach 0 (.init 0 0 false), .attach 1 (.init 0 0 false), .attach 2 (.init 0 0 false),
    .peerWrite 0 .init, .peerWrite 0 .init, .peerFlush 0,
    .peerWrite 1 .init, .peerWrite 1 .init, .peerFlush 1,
    .recvpipe, .recvpipe, .recvpipe, .processPipeTerm 0, .terminated 0]

theorem lostPipeRun_loses :
    ∃ s, run step init lostPipeRun = .ok s ∧ ¬ s.NoPipeLost ∧ ¬ s.RecvFailsOnlyIfEmpty := by
  refine ⟨_, rfl, ?_, ?_⟩
  · intro h
    exact absurd (h 1 (by decide) (by decide)) (by decide)
  · intro h
    exact h _ _ rfl 1 (by decide) ⟨_, _, rfl⟩

end FqSystem

end Libxs
