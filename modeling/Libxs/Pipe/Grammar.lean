import Libxs.Pipe.Framing

/-! # Messages of a known shape in a pipe -/

namespace Libxs

structure Grammar (Q : Type) where
  start : Q
  next : Q → Msg → Option Q
  closes : ∀ {q q' : Q} {m : Msg}, next q m = some q' → m.more = false → q' = start

namespace Grammar

variable {Q : Type} (G : Grammar Q)

def after (q : Q) (ms : List Msg) : Option Q := ms.foldlM G.next q

variable {G} {q q' : Q}

theorem after_cons_isSome {m : Msg} {ms : List Msg} (h : (G.after q (m :: ms)).isSome = true) :
    ∃ q', G.next q m = some q' ∧ (G.after q' ms).isSome = true := by
  unfold after at h
  rw [List.foldlM_cons] at h
  cases hq : G.next q m with
  | none => simp [hq] at h
  | some q' => exact ⟨q', rfl, by simpa [hq, after] using h⟩

theorem after_append (l ms : List Msg) : G.after q (l ++ ms) = (G.after q l).bind (G.after · ms) := by
  unfold after
  rw [List.foldlM_append]
  rfl

theorem after_framed : ∀ {mid : Bool} {l : List Msg} {q : Q}, (mid = false → q = G.start) →
    Framed mid l → G.after q l = some q' → q' = G.start := by
  intro mid l
  induction l generalizing mid with
  | nil =>
    intro q hq h hl
    obtain rfl : q = q' := by simpa [after] using hl
    exact hq h
  | cons m l ih =>
    intro q _ h hl
    have hsome : (G.after q (m :: l)).isSome = true := by
      rw [hl]
      rfl
    obtain ⟨q₁, hnext, -⟩ := after_cons_isSome hsome
    refine ih (G.closes hnext) h.2 ?_
    simpa [after, List.foldlM_cons, hnext] using hl

theorem after_append_framed {mid : Bool} {l ms : List Msg} (hq : mid = false → q = G.start)
    (hl : Framed mid l) (h : (G.after q l).isSome = true)
    (hms : (G.after G.start ms).isSome = true) : (G.after q (l ++ ms)).isSome = true := by
  obtain ⟨q', hq'⟩ := Option.isSome_iff_exists.1 h
  obtain rfl := after_framed hq hl hq'
  simpa [after_append, hq'] using hms

end Grammar

def Grammar.any : Grammar Unit := ⟨(), fun _ _ => some (), fun _ _ => rfl⟩

theorem Grammar.after_any (q : Unit) (ms : List Msg) : (any.after q ms).isSome = true := by
  induction ms with
  | nil => rfl
  | cons m ms ih => simpa [after, List.foldlM_cons, any] using ih

/-! ## Messages of a known shape -/

structure YPipe.Content {Q : Type} (G : Grammar Q) (mid : Bool) (q : Q) (u : UPipe) : Prop
    extends u.Inbound mid where
  place : mid = false → q = G.start
  flushed_shape : (G.after q u.flushed).isSome = true
  ready_shape : (G.after q u.ready).isSome = true
  incomplete_shape : (G.after G.start u.incomplete).isSome = true

instance {Q : Type} [DecidableEq Q] (G : Grammar Q) (mid : Bool) (q : Q) (u : UPipe) :
    Decidable (u.Content G mid q) :=
  decidable_of_iff (u.Inbound mid ∧ (mid = false → q = G.start) ∧
      (G.after q u.flushed).isSome = true ∧ (G.after q u.ready).isSome = true ∧
      (G.after G.start u.incomplete).isSome = true)
    ⟨fun h => ⟨h.1, h.2.1, h.2.2.1, h.2.2.2.1, h.2.2.2.2⟩,
      fun h => ⟨h.toInbound, h.place, h.flushed_shape, h.ready_shape, h.incomplete_shape⟩⟩

namespace YPipe

variable {Q : Type} {G : Grammar Q} {mid : Bool} {q : Q} {u : UPipe}

theorem Inbound.content (h : u.Inbound mid) : u.Content Grammar.any mid () :=
  ⟨h, fun _ => rfl, Grammar.after_any _ _, Grammar.after_any _ _, Grammar.after_any _ _⟩

theorem Content.write (h : u.Content G mid q) {m : Msg}
    (hd : m.isDelimiter = true → m.more = false ∧ u.incomplete = [])
    (hm : (G.after G.start (u.incomplete ++ [m])).isSome = true) :
    (u.write m m.more).Content G mid q := by
  have hinb := h.toInbound.write hd
  have hflushed : (G.after q (u.write m m.more).flushed).isSome = true := by
    rw [h.good.wf.flushed_write]
    exact h.flushed_shape
  cases hmore : m.more with
  | true =>
    obtain ⟨hready, hinc⟩ := h.good.wf.content_write_true m
    rw [hmore] at hinb hflushed
    exact ⟨hinb, h.place, hflushed, by rw [hready]; exact h.ready_shape, by rw [hinc]; exact hm⟩
  | false =>
    obtain ⟨hready, hinc⟩ := content_write_false u m
    rw [hmore] at hinb hflushed
    refine ⟨hinb, h.place, hflushed, ?_, by rw [hinc]; rfl⟩
    rw [hready, List.append_assoc]
    exact Grammar.after_append_framed h.place h.ready h.ready_shape hm

theorem Content.flush (h : u.Content G mid q) : u.flush.2.Content G mid q := by
  obtain ⟨hflushed, hready, hinc⟩ := h.good.wf.content_flush
  exact ⟨h.toInbound.flush, h.place, by rw [hflushed]; exact h.ready_shape,
    by rw [hready]; exact h.ready_shape, by rw [hinc]; exact h.incomplete_shape⟩

theorem Content.rolledBack (h : u.Content G mid q) : u.rolledBack.Content G mid q := by
  obtain ⟨hflushed, hready, hinc⟩ := h.good.wf.content_rolledBack
  exact ⟨h.toInbound.rolledBack, h.place, by rw [hflushed]; exact h.flushed_shape,
    by rw [hready]; exact h.ready_shape, by rw [hinc]; rfl⟩

end YPipe

def Grammar.step {Q : Type} (G : Grammar Q) (q : Q) (msg : Option Msg) : Option Q :=
  msg.elim (some q) (G.next q)

theorem Endpoint.read_content {Q : Type} {G : Grammar Q} {e e' : Endpoint} {mid : Bool} {q : Q}
    {msg : Option Msg} (h : e.inq.Content G mid q) (hr : e.read = .ok (msg, e')) :
    ∃ q', G.step q msg = some q' ∧ e'.inq.Content G (msg.elim mid Msg.more) q' ∧
      e'.inq.ready.length + msg.toList.length ≤ e.inq.ready.length := by
  have hinb := (read_inbound h.toInbound hr).1
  obtain ⟨msg₀, e₀, hr₀, hreads, -, hinc⟩ := read_reads h.good.wf
  rw [hr, Except.ok.injEq, Prod.mk.injEq] at hr₀
  obtain ⟨rfl, rfl⟩ := hr₀
  have hflushed := h.flushed_shape
  have hready := h.ready_shape
  have hincomplete : (G.after G.start e'.inq.incomplete).isSome = true := by
    rw [hinc]
    exact h.incomplete_shape
  cases hreads with
  | part _ _ _ hf hg =>
    rw [hf] at hflushed
    rw [hg] at hready
    obtain ⟨q', hnext, hflushed'⟩ := Grammar.after_cons_isSome hflushed
    obtain ⟨q'', hnext', hready'⟩ := Grammar.after_cons_isSome hready
    obtain rfl : q' = q'' := by simpa [hnext] using hnext'
    exact ⟨q', hnext, ⟨hinb, G.closes hnext, hflushed', hready', hincomplete⟩, by simp [hg]⟩
  | delimiter _ _ hd hf hg =>
    rw [hf] at hflushed
    rw [hg] at hready
    obtain ⟨q', hnext, hflushed'⟩ := Grammar.after_cons_isSome hflushed
    obtain ⟨q'', hnext', hready'⟩ := Grammar.after_cons_isSome hready
    obtain rfl : q' = q'' := by simpa [hnext] using hnext'
    -- a delimiter stands alone, so the place in the message is the same after it
    have hframed := h.ready
    rw [hg] at hframed
    obtain ⟨hmid, hmore⟩ := hframed.1 hd
    have hsame : q' = q := (G.closes hnext hmore).trans (h.place hmid).symm
    subst hsame
    exact ⟨q', rfl, ⟨hinb, h.place, hflushed', hready', hincomplete⟩, by simp [hg]⟩
  | empty _ _ hf hf' hg =>
    refine ⟨q, rfl, ⟨hinb, h.place, ?_, by rw [hg]; exact hready, hincomplete⟩, by simp [hg]⟩
    rw [hf']
    rfl
  | refused _ _ hq =>
    exact ⟨q, rfl, ⟨hinb, h.place, by rw [hq]; exact hflushed, by rw [hq]; exact hready,
      hincomplete⟩, by simp [hq]⟩

end Libxs
