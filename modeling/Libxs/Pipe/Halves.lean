import Libxs.Pipe

/-! # What the methods of a pipe end do to its two halves -/

namespace Libxs

variable {d : Bool} {cmds : List Command} {msg : Option Msg} {outq outq' : Option UPipe}
variable {p p' : Pipe} {inq inq' : UPipe}

/-! ## The inbound half -/

theorem Pipe.processPipeTerm_reads (h : p.processPipeTerm = .ok (p', cmds)) :
    p'.inActive = p.inActive ∧ (p.reads = false → p'.reads = false) := by
  unfold Pipe.processPipeTerm at h
  cases hs : p.state <;> simp only [hs] at h
  case active =>
    grind [Pipe.reads]
  case delimited =>
    cases h
    simp [Pipe.reads]
  case terminated =>
    cases h
    simp [Pipe.reads]
  all_goals exact absurd h (by simp)

theorem Pipe.terminateTail_fields
    {cmds' : List Command} (h : p.terminateTail outq cmds = .ok (p', outq', cmds')) :
    p' = { p with outActive := false } := by
  unfold Pipe.terminateTail at h
  simp only at h
  split at h
  · grind
  · grind

theorem Pipe.terminate_reads (h : p.terminate d outq = .ok (p', outq', cmds)) :
    p'.inActive = p.inActive ∧ (p.reads = false → p'.reads = false) := by
  unfold Pipe.terminate at h
  cases hs : p.state <;> simp only [hs] at h
  case active => rw [Pipe.terminateTail_fields h]; simp [Pipe.reads]
  case delimited => rw [Pipe.terminateTail_fields h]; simp [Pipe.reads]
  case pending =>
    split at h <;> (rw [Pipe.terminateTail_fields h]; simp [Pipe.reads, hs])
  all_goals
    cases h
    simp [Pipe.reads, hs]

/-! ## The outbound half -/

theorem Pipe.flush_none (p : Pipe) : (p.flush none).1 = none := by
  unfold Pipe.flush
  split <;> rfl

theorem Pipe.flush_result (p : Pipe) (q : UPipe) :
    (p.flush (some q)).1 = some q ∨ (p.flush (some q)).1 = some q.flush.2 := by
  unfold Pipe.flush
  grind

theorem Pipe.checkWrite_true (h : p.checkWrite = (true, p')) :
    p' = p ∧ p.outActive = true ∧ p.state = .active ∧ p.full = false := by
  unfold Pipe.checkWrite at h
  grind

theorem Pipe.checkWrite_fst (p : Pipe) :
    p.checkWrite.1 = (p.outActive && p.state == .active && !p.full) := by
  unfold Pipe.checkWrite
  cases p.outActive <;> cases hs : p.state == .active <;> cases hf : p.full <;> simp [bne, hs]

theorem Pipe.checkWrite_false (h : p.checkWrite = (false, p')) :
    (p'.outActive = false ∨ p'.state ≠ .active) ∧ p' = { p with outActive := p'.outActive } := by
  unfold Pipe.checkWrite at h
  split at h
  next hg =>
    simp only [Prod.mk.injEq, true_and] at h
    subst h
    simpa using hg
  · grind

def Pipe.OutboundKept (p p' : Pipe) : Prop :=
  (p'.state = .active → p.state = .active ∧ p'.outActive = p.outActive) ∧
    p'.hwm = p.hwm ∧ p'.msgsWritten = p.msgsWritten ∧ p'.peersMsgsRead = p.peersMsgsRead
deriving Decidable

theorem Pipe.OutboundKept.rfl : p.OutboundKept p := ⟨fun h => ⟨h, Eq.refl _⟩, by simp⟩

theorem Pipe.processPipeTerm_outboundKept
    (h : p.processPipeTerm = .ok (p', cmds)) : p.OutboundKept p' := by
  unfold Pipe.processPipeTerm at h
  cases hs : p.state <;> simp only [hs] at h
  case active =>
    grind [OutboundKept]
  case delimited =>
    cases h
    simp [OutboundKept]
  case terminated =>
    cases h
    simp [OutboundKept]
  all_goals exact absurd h (by simp)

theorem Pipe.terminate_outboundKept
    (h : p.terminate d outq = .ok (p', outq', cmds)) : p.OutboundKept p' := by
  unfold Pipe.terminate at h
  cases hs : p.state <;> simp only [hs] at h
  case active => rw [Pipe.terminateTail_fields h]; simp [OutboundKept]
  case delimited => rw [Pipe.terminateTail_fields h]; simp [OutboundKept]
  case pending => split at h <;> (rw [Pipe.terminateTail_fields h]; simp [OutboundKept, hs])
  all_goals
    cases h
    simp [OutboundKept, hs]

theorem Pipe.delimit_outboundKept (h : p.delimit = .ok (p', cmds)) : p.OutboundKept p' := by
  unfold Pipe.delimit at h
  grind [OutboundKept]

theorem Pipe.read_outboundKept
    (h : p.read inq = .ok (msg, p', inq', cmds)) : p.OutboundKept p' := by
  unfold Pipe.read at h
  split at h
  · cases h
    exact .rfl
  · split at h
    · cases h
      simp [OutboundKept]
    · grind [Pipe.delimit_outboundKept, OutboundKept]

theorem Pipe.delimit_state (h : p.delimit = .ok (p', cmds)) : p'.state ≠ .active := by
  unfold Pipe.delimit at h
  grind

theorem Pipe.read_outpipe (h : p.read inq = .ok (msg, p', inq', cmds)) (hs : p'.state = .active) :
    p'.outpipe = p.outpipe := by
  unfold Pipe.read at h
  split at h
  · grind
  · split at h
    · grind
    · grind [Pipe.delimit_state]

theorem Pipe.processPipeTerm_state
    (h : p.processPipeTerm = .ok (p', cmds)) : p'.state ≠ .active := by
  unfold Pipe.processPipeTerm at h
  cases hs : p.state <;> simp only [hs] at h
  case active =>
    grind
  case delimited =>
    simp only [Except.ok.injEq, Prod.mk.injEq] at h
    simp [← h.1]
  case terminated =>
    simp only [Except.ok.injEq, Prod.mk.injEq] at h
    simp [← h.1]
  all_goals exact absurd h (by simp)

theorem Pipe.terminate_state
    (h : p.terminate d outq = .ok (p', outq', cmds)) : p'.state ≠ .active := by
  unfold Pipe.terminate at h
  cases hs : p.state <;> simp only [hs] at h
  case active => rw [Pipe.terminateTail_fields h]; simp
  case delimited => rw [Pipe.terminateTail_fields h]; simp
  case pending => split at h <;> (rw [Pipe.terminateTail_fields h]; simp)
  all_goals
    cases h
    simp

theorem Pipe.processActivateRead_outboundKept (p : Pipe) :
    p.OutboundKept p.processActivateRead.2 := by
  unfold Pipe.processActivateRead
  split <;> simp [OutboundKept]

end Libxs
