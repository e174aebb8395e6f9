import Libxs.YPipe

/-! # A pipe as a channel: order and wake-ups -/

namespace Libxs

namespace YPipe

variable {α : Type} {q : YPipe α}

/-! ## The content of a pipe -/

def ready (q : YPipe α) : List α := q.queue.take (q.f - q.front)

theorem ready_append_incomplete (q : YPipe α) : q.ready ++ q.incomplete = q.queue :=
  List.take_append_drop _ _

theorem WF.flushed_le_ready (h : q.WF) : q.flushed <+: q.ready := by
  have h2 := h.w_le_f
  exact List.take_prefix_take_left (by omega)

theorem WF.length_flushed (h : q.WF) : q.flushed.length = q.w - q.front := by
  have h2 := h.w_le_f
  have h3 := h.f_le_back
  simp only [back] at h3
  exact List.length_take_of_le (by omega)

theorem WF.length_ready (h : q.WF) : q.ready.length = q.f - q.front := by
  have h3 := h.f_le_back
  simp only [back] at h3
  exact List.length_take_of_le (by omega)

theorem WF.flushed_write (h : q.WF) (v : α) (b : Bool) : (q.write v b).flushed = q.flushed := by
  have h2 := h.w_le_f
  have h3 := h.f_le_back
  simp only [back] at h3
  simp only [flushed, write_queue, write_front, write_w]
  exact List.take_append_of_le_length (by omega)

theorem WF.content_write_true (h : q.WF) (v : α) :
    (q.write v true).ready = q.ready ∧ (q.write v true).incomplete = q.incomplete ++ [v] := by
  have h3 := h.f_le_back
  simp only [back] at h3
  simp only [ready, incomplete, write_queue, write_front, write_f, if_true]
  exact ⟨List.take_append_of_le_length (by omega), List.drop_append_of_le_length (by omega)⟩

theorem content_write_false (q : YPipe α) (v : α) :
    (q.write v false).ready = q.ready ++ q.incomplete ++ [v] ∧
      (q.write v false).incomplete = [] := by
  rw [ready_append_incomplete]
  simp only [ready, incomplete, write_queue, write_front, write_f, back, Bool.false_eq_true, if_false]
  exact ⟨List.take_of_length_le (by simp; omega), List.drop_of_length_le (by simp; omega)⟩

theorem WF.content_flush (h : q.WF) :
    q.flush.2.flushed = q.ready ∧ q.flush.2.ready = q.ready ∧
      q.flush.2.incomplete = q.incomplete := by
  rw [flush_eq h]
  exact ⟨rfl, rfl, rfl⟩

theorem WF.content_unwrite (h : q.WF) {v : α} {q' : YPipe α} (hu : q.unwrite = some (v, q')) :
    q'.flushed = q.flushed ∧ q'.ready = q.ready ∧ q.incomplete = q'.incomplete ++ [v] := by
  have h2 := h.w_le_f
  have h3 := h.f_le_back
  obtain ⟨hne, hqueue, rfl⟩ := unwrite_some hu
  simp only [back] at hne h3
  simp only at hqueue
  refine ⟨?_, ?_, ?_⟩
  · grind [flushed]
  · grind [ready]
  · grind [incomplete]

theorem WF.content_popped (h : q.WF) {v : α} {rest : List α} (hq : q.queue = v :: rest) (r : Nat)
    (hlt : q.front < q.w) :
    q.flushed = v :: (q.popped rest r).flushed ∧ q.ready = v :: (q.popped rest r).ready ∧
      (q.popped rest r).incomplete = q.incomplete := by
  have h2 := h.w_le_f
  have hw : q.w - q.front = q.w - (q.front + 1) + 1 := by omega
  have hf : q.f - q.front = q.f - (q.front + 1) + 1 := by omega
  simp only [flushed, ready, incomplete, YPipe.popped, hq, hw, hf, List.take_succ_cons,
    List.drop_succ_cons, and_self]

/-! ## Two threads at work -/

inductive Op (α : Type) where
  | write (value : α) (incomplete : Bool)
  | unwrite
  | flush
  | checkRead
  | read
deriving DecidableEq, Repr

structure Observed (α : Type) where
  pipe : YPipe α
  pending : List α
  completed : List α
  flushed : List α
  obtained : List α
  asleep : Bool
  woken : Bool

namespace Observed

def init : Observed α := ⟨.init, [], [], [], [], false, false⟩

def fresh (o : Observed α) : Bool := decide (o.flushed.length < o.completed.length)

def step (o : Observed α) : Op α → Observed α
  | .write value true =>
    { o with pipe := o.pipe.write value true, pending := o.pending ++ [value] }
  | .write value false =>
    { o with
      pipe := o.pipe.write value false
      pending := []
      completed := o.completed ++ o.pending ++ [value] }
  | .unwrite =>
    match o.pipe.unwrite with
    | none => o
    | some (_, pipe) => { o with pipe := pipe, pending := o.pending.dropLast }
  | .flush =>
    match o.pipe.flush with
    | (awake, pipe) =>
      { o with
        pipe := pipe
        flushed := o.completed
        asleep := o.asleep && !o.fresh
        woken := o.woken || !awake }
  | .checkRead =>
    match o.pipe.checkRead with
    | (found, pipe) => { o with pipe := pipe, asleep := o.asleep || !found, woken := false }
  | .read =>
    match o.pipe.read with
    | (value, pipe) =>
      { o with
        pipe := pipe
        obtained := o.obtained ++ value.toList
        asleep := o.asleep || value.isNone
        woken := false }

structure Inv (o : Observed α) : Prop where
  wf : o.pipe.WF
  completed : o.completed = o.obtained ++ o.pipe.ready
  flushed : o.flushed = o.obtained ++ o.pipe.flushed
  pending : o.pending = o.pipe.incomplete
  asleep : o.asleep = true ↔ o.pipe.c = none
  woken : o.woken = true → o.pipe.front < o.pipe.w

theorem inv_init : Inv (init : Observed α) :=
  ⟨wf_init, rfl, rfl, rfl, by simp [init, YPipe.init], by simp [init]⟩

namespace Inv

variable {o : Observed α}

theorem fresh_iff (h : Inv o) : o.fresh = true ↔ o.pipe.w ≠ o.pipe.f := by
  have h1 := h.wf.front_le_w
  have h2 := h.wf.w_le_f
  rw [fresh, decide_eq_true_iff, h.flushed, h.completed, List.length_append, List.length_append,
    h.wf.length_flushed, h.wf.length_ready]
  omega

theorem flush_iff (h : Inv o) :
    o.pipe.flush.1 = false ↔ o.asleep = true ∧ o.fresh = true := by
  rw [h.fresh_iff, h.asleep, flush_eq h.wf]
  simp only [decide_eq_false_iff_not, not_or, not_not]
  exact and_comm

theorem write (h : Inv o) (value : α) (b : Bool) : Inv (o.step (.write value b)) := by
  have hflushed := h.wf.flushed_write value b
  cases b with
  | true =>
    obtain ⟨hready, hinc⟩ := h.wf.content_write_true value
    exact ⟨h.wf.write value true, by rw [step, hready]; exact h.completed,
      by rw [step, hflushed]; exact h.flushed, by rw [step, hinc, h.pending],
      by simpa [step] using h.asleep, by simpa [step] using h.woken⟩
  | false =>
    obtain ⟨hready, hinc⟩ := content_write_false o.pipe value
    exact ⟨h.wf.write value false, by rw [step, hready, h.completed, h.pending]; simp,
      by rw [step, hflushed]; exact h.flushed, by rw [step, hinc],
      by simpa [step] using h.asleep, by simpa [step] using h.woken⟩

theorem unwrite (h : Inv o) : Inv (o.step .unwrite) := by
  cases hu : o.pipe.unwrite with
  | none => simpa only [step, hu] using h
  | some x =>
    obtain ⟨v, pipe⟩ := x
    obtain ⟨hflushed, hready, hinc⟩ := h.wf.content_unwrite hu
    obtain ⟨-, -, hpipe⟩ := unwrite_some hu
    simp only [step, hu]
    refine ⟨h.wf.unwrite hu, ?_, ?_, ?_, ?_, ?_⟩
    · rw [hready]
      exact h.completed
    · rw [hflushed]
      exact h.flushed
    · rw [h.pending, hinc, List.dropLast_concat]
    · rw [hpipe]
      exact h.asleep
    · rw [hpipe]
      exact h.woken

theorem flush (h : Inv o) : Inv (o.step .flush) := by
  obtain ⟨hflushed, hready, hinc⟩ := h.wf.content_flush
  have h1 := h.wf.front_le_w
  have h2 := h.wf.w_le_f
  have hwf := h.wf.flush
  have hiff := h.flush_iff
  have heq := flush_eq h.wf
  cases hf : o.pipe.flush with
  | mk awake pipe =>
    rw [hf] at hflushed hready hinc hwf heq hiff
    simp only [Prod.mk.injEq] at heq
    simp only [step, hf]
    refine ⟨hwf, ?_, ?_, ?_, ?_, ?_⟩
    · rw [hready]
      exact h.completed
    · rw [hflushed]
      exact h.completed
    · rw [hinc]
      exact h.pending
    · -- whatever is new wakes the reader up
      rw [heq.2]
      by_cases hne : o.pipe.w = o.pipe.f
      · have hfresh : o.fresh = false := by
          rw [← Bool.not_eq_true, h.fresh_iff]
          exact not_not.2 hne
        simp [hne, hfresh, h.asleep]
      · simp [hne, h.fresh_iff.2 hne]
    · intro hw
      rw [heq.2]
      simp only
      rw [Bool.or_eq_true, Bool.not_eq_true'] at hw
      rcases hw with hw | hw
      · have := h.woken hw
        omega
      · have hne := h.fresh_iff.1 (hiff.1 hw).2
        omega

theorem sleep (h : Inv o) (hfw : o.pipe.front = o.pipe.w) {r : Option Nat}
    (hr : r = some o.pipe.front ∨ r = none) :
    Inv { o with pipe := { o.pipe with r := r, c := none }, asleep := true, woken := false } :=
  ⟨h.wf.sleep hfw hr, h.completed, h.flushed, h.pending, by simp, by simp⟩

theorem checkRead (h : Inv o) : Inv (o.step .checkRead) := by
  rcases checkRead_cases h.wf with ⟨hlt, r, he, hr1, hr2⟩ | ⟨hfw, r, he, hr⟩
  · simp only [step, he, Bool.not_true, Bool.or_false]
    exact ⟨h.wf.prefetch hr1 hr2, h.completed, h.flushed, h.pending, h.asleep, by simp⟩
  · grind [step, h.sleep]

theorem read (h : Inv o) : Inv (o.step .read) := by
  rcases read_cases h.wf with ⟨hlt, v, rest, r, hq, hr1, hr2, he⟩ | ⟨hfw, r, he, hr⟩
  · obtain ⟨hflushed, hready, hinc⟩ := h.wf.content_popped hq r hlt
    simp only [step, he, Option.toList_some, Option.isNone_some, Bool.or_false]
    refine ⟨h.wf.popped hq hr1 hr2, ?_, ?_, h.pending.trans hinc.symm, ?_, by simp⟩
    · grind [h.completed]
    · grind [h.flushed]
    · simpa [popped] using h.asleep
  · grind [step, h.sleep]

theorem step (h : Inv o) (op : Op α) : Inv (o.step op) := by
  cases op with
  | write value b => exact h.write value b
  | unwrite => exact h.unwrite
  | flush => exact h.flush
  | checkRead => exact h.checkRead
  | read => exact h.read

theorem run (ops : List (Op α)) : ∀ {o : Observed α}, Inv o → Inv (ops.foldl Observed.step o) := by
  induction ops with
  | nil => exact fun h => h
  | cons op ops ih => exact fun h => ih (h.step op)

end Inv

end Observed

/-- **Order and wake-ups.** -/
theorem no_lost_wakeup (ops : List (Op α)) :
    let o := ops.foldl Observed.step Observed.init
    o.obtained <+: o.flushed ∧
      (o.pipe.flush.1 = false ↔ o.asleep = true ∧ o.fresh = true) ∧
      (o.woken = true → o.pipe.checkRead.1 = true ∧ o.pipe.read.1.isSome = true) := by
  intro o
  have hI : Observed.Inv o := Observed.Inv.run ops Observed.inv_init
  refine ⟨⟨_, hI.flushed.symm⟩, hI.flush_iff, fun hw => ?_⟩
  have hlt := hI.woken hw
  constructor
  · grind [checkRead_cases, hI.wf]
  · rcases read_cases hI.wf with ⟨-, v, rest, r, -, -, -, he⟩ | ⟨hfw, -⟩
    · rw [he]
      rfl
    · omega

end YPipe

end Libxs
