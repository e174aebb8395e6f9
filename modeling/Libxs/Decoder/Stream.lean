import Libxs.Decoder.Proofs

/-! # What comes out of a stream -/

namespace Libxs

open Decoder

variable {malloc : Nat → Bool} {max : Nat} {stream : List UInt8}
variable {ms : List Msg} {bytes : List UInt8}

/-! ## Frames and the memory for them -/

theorem Framer.Reads.of_receivable {q : List UInt8}
    (h : (receivable malloc max).Reads bytes ms q) : (frames max).Reads bytes ms q := by
  induction h with
  | nil bytes => exact .nil bytes
  | @cons bytes rest q m ms hnext _ ih =>
    by_cases hmem : Affordable malloc max bytes
    · rw [receivable_next hmem] at hnext
      exact .cons hnext ih
    · rw [receivable_next_of_not hmem] at hnext
      cases hnext

theorem of_receivable_incomplete (h : (receivable malloc max).next bytes = .incomplete) :
    Affordable malloc max bytes ∧ nextFrame max bytes = .incomplete := by
  grind [receivable_next, receivable_next_of_not]

theorem atStarts_of_receivable {q : List UInt8}
    (h : (receivable malloc max).Reads bytes ms q) (hq : Affordable malloc max q)
    (hstop : ∀ m rest, nextFrame max q ≠ .item m rest) :
    (frames max).AtStarts (Affordable malloc max) bytes := by
  induction h with
  | nil bytes => exact (Framer.atStarts_iff_of_stop hstop).2 hq
  | @cons bytes rest q m ms hnext _ ih =>
    by_cases hmem : Affordable malloc max bytes
    · rw [receivable_next hmem] at hnext
      have hframe : (frames max).next bytes = .item m rest := hnext
      exact (Framer.atStarts_iff_of_item hframe).2 ⟨hmem, ih hq hstop⟩
    · rw [receivable_next_of_not hmem] at hnext
      cases hnext

theorem not_starves (hall : (frames max).AtStarts (Affordable malloc max) stream) :
    ¬ Starves malloc max stream := by
  rintro ⟨ms, q, hreads, hno⟩
  exact hno (hall ms q hreads.of_receivable)

/-! ## The invariant of a feed -/

namespace Feed

variable {d : Decoder} {f : Feed} {size : Nat}

def Dead (f : Feed) : Prop := none ∈ f.returned

def held (f : Feed) : List Msg := if f.decoder.Stalled then [f.decoder.message] else []

def Finished (f : Feed) : Prop := ¬ f.Dead ∧ f.rest = [] ∧ f.held = []

def Counts (f : Feed) (dead : Nat) : Prop :=
  ∃ ns : List Nat, f.returned = ns.map some ++ List.replicate dead none ∧
    ns.sum = f.consumed.length

inductive State (malloc : Nat → Bool) (max : Nat) (stream : List UInt8) (f : Feed) : Prop where
  | alive (h : Tracks malloc max f.consumed f.decoder f.session)
      (hwaits : f.decoder.toRead ≠ 0 ∨ f.decoder.Stalled) (hcounts : f.Counts 0)
  | dead {k : Nat} (h : GaveUp malloc max stream f.decoder f.session) (hcounts : f.Counts (k + 1))

structure Inv (malloc : Nat → Bool) (max : Nat) (stream : List UInt8) (f : Feed) : Prop where
  bytes : f.consumed ++ f.rest = stream
  left : f.insize ≤ f.rest.length
  answers : .failed ∉ f.session.answers
  state : State malloc max stream f

theorem inv_init {bufsize : Nat} {answers : List Answer} (h : .failed ∉ answers) :
    Inv malloc max stream (init bufsize max answers stream) where
  bytes := rfl
  left := Nat.zero_le _
  answers := h
  state := .alive ⟨[], .nil [], holds_init bufsize⟩ (Or.inl Nat.one_ne_zero) ⟨[], rfl, rfl⟩

def work (f : Feed) : Nat :=
  2 * f.rest.length + (if f.decoder.toRead = 0 then 1 else 0) + f.session.answers.length

def Done (f : Feed) : Prop :=
  f.decoder.next = none ∨ f.rest = [] ∧ f.decoder.toRead ≠ 0

def took (f : Feed) (size k : Nat) (d : Decoder) (s : Session) : Feed where
  decoder := d
  session := s
  consumed := f.consumed ++ f.rest.take k
  rest := f.rest.drop k
  insize := size - k
  returned := f.returned ++ [some k]

theorem work_took (f : Feed) (size k : Nat) (d : Decoder) (s : Session) :
    (f.took size k d s).work =
      2 * (f.rest.length - k) + (if d.toRead = 0 then 1 else 0) + s.answers.length := by
  rw [← List.length_drop]
  rfl

def failed (f : Feed) (d : Decoder) (s : Session) : Feed :=
  { f with decoder := d, session := s, returned := f.returned ++ [none] }

theorem Counts.took (h : f.Counts 0) {k : Nat} (hk : k ≤ f.rest.length) (d : Decoder)
    (s : Session) : (f.took size k d s).Counts 0 := by
  obtain ⟨ns, hns, hsum⟩ := h
  rw [List.replicate_zero, List.append_nil] at hns
  refine ⟨ns ++ [k], ?_, ?_⟩
  · grind [took]
  · grind [took]

theorem Counts.failed {n : Nat} (h : f.Counts n) (d : Decoder) (s : Session) :
    (f.failed d s).Counts (n + 1) := by
  obtain ⟨ns, hns, hsum⟩ := h
  refine ⟨ns, ?_, hsum⟩
  show f.returned ++ [none] = _
  rw [hns, List.append_assoc, ← List.replicate_succ']

theorem Inv.took (h : Inv malloc max stream f) {k : Nat} {s : Session}
    (hk : k ≤ size) (hsize : size ≤ f.rest.length) (hcounts : f.Counts 0)
    (htracks : Tracks malloc max (f.consumed ++ f.rest.take k) d s)
    (hwaits : d.toRead ≠ 0 ∨ d.Stalled) (hs : s.answers <:+ f.session.answers) :
    Inv malloc max stream (f.took size k d s) where
  bytes := by
    show f.consumed ++ f.rest.take k ++ f.rest.drop k = stream
    rw [List.append_assoc, List.take_append_drop, h.bytes]
  left := by
    show size - k ≤ (f.rest.drop k).length
    rw [List.length_drop]
    omega
  answers := fun hmem => h.answers (hs.subset hmem)
  state := .alive htracks hwaits (hcounts.took (Nat.le_trans hk hsize) d s)

theorem Inv.handIn (h : Inv malloc max stream f) {direct : Bool}
    (hsize : size ≤ f.rest.length) (hroom : direct = true → size ≤ f.decoder.toRead) :
    (∃ e, f.handIn malloc direct size = .error e ∧ Starves malloc max stream) ∨
      ∃ f', f.handIn malloc direct size = .ok f' ∧ Inv malloc max stream f' ∧
        (f'.decoder.next = none ∨ f'.work < f.work ∨ size = 0 ∧ f.decoder.toRead ≠ 0) := by
  have hlen : (f.rest.take size).length = size := List.length_take_of_le hsize
  cases h.state with
  | dead hgave hcounts =>
    have heq : f.handIn malloc direct size = .ok (f.failed f.decoder f.session) := by
      simp only [Feed.handIn, processBuffer, hgave.1, if_true, Feed.failed]
    exact Or.inr ⟨_, heq, ⟨h.bytes, h.left, h.answers, .dead hgave (hcounts.failed _ _)⟩,
      Or.inl hgave.1⟩
  | alive htracks hwaits hcounts =>
    have hproc : Processes malloc max f.consumed (f.rest.take size) f.decoder f.session.answers 0
        (f.decoder.processBuffer malloc f.session direct (f.rest.take size)) :=
      htracks.processBuffer h.answers (fun hd => by rw [hlen]; exact hroom hd)
    have hstream : f.consumed ++ f.rest.take size ++ f.rest.drop size = stream := by
      rw [List.append_assoc, List.take_append_drop, h.bytes]
    generalize hres : f.decoder.processBuffer malloc f.session direct (f.rest.take size) = r
      at hproc
    cases hproc with
    | @faults e hstarves =>
      have heq : f.handIn malloc direct size = .error e := by simp only [Feed.handIn, hres]
      exact Or.inl ⟨e, heq, hstream ▸ hstarves.append (f.rest.drop size)⟩
    | @takes d s htracks' hr hs =>
      rw [hlen, Nat.zero_add] at hres
      have heq : f.handIn malloc direct size = .ok (f.took size size d s) := by
        simp only [Feed.handIn, hres, Feed.took]
      refine Or.inr ⟨_, heq, h.took (Nat.le_refl _) hsize hcounts htracks' (Or.inl hr) hs, ?_⟩
      have hans := hs.length_le
      rw [work_took, if_neg hr, work]
      grind
    | @stalls k d s hk htracks' hst hs hlt hmoved =>
      rw [Nat.zero_add] at hres
      rw [hlen] at hk
      rw [List.take_take, Nat.min_eq_left hk] at htracks'
      have heq : f.handIn malloc direct size = .ok (f.took size k d s) := by
        simp only [Feed.handIn, hres, Feed.took]
      refine Or.inr ⟨_, heq, h.took hk hsize hcounts htracks' (Or.inr hst) hs, ?_⟩
      rw [work_took, if_pos hst.2, work]
      grind
    | @givesUp d s hgave hs =>
      have heq : f.handIn malloc direct size = .ok (f.failed d s) := by
        simp only [Feed.handIn, hres, Feed.failed]
      exact Or.inr ⟨_, heq, ⟨h.bytes, h.left, fun hmem => h.answers (hs.subset hmem),
        .dead (hstream ▸ hgave.append (f.rest.drop size)) (hcounts.failed _ _)⟩, Or.inl hgave.1⟩

theorem getBuffer_room (hr : d.toRead ≠ 0) : 0 < d.getBuffer.2 := by
  unfold getBuffer
  split <;> simp only <;> omega

theorem getBuffer_direct (h : d.getBuffer.1 = true) : d.getBuffer.2 = d.toRead := by
  unfold getBuffer at h ⊢
  grind

end Feed

def FeedOp.Eager : FeedOp → Prop
  | .inEvent ready => 0 < ready
  | .push size => 0 < size

namespace Feed

variable {f : Feed}

theorem Inv.step_eq_handIn (h : Inv malloc max stream f) (op : FeedOp) :
    ∃ direct size, f.step malloc op = f.handIn malloc direct size ∧ size ≤ f.rest.length ∧
      (direct = true → size ≤ f.decoder.toRead) ∧
      (op.Eager → f.decoder.toRead ≠ 0 → size = 0 → f.rest = []) := by
  cases op with
  | inEvent ready =>
    by_cases hin : f.insize = 0
    · refine ⟨f.decoder.getBuffer.1, min (min ready f.decoder.getBuffer.2) f.rest.length,
        by simp only [step, hin, if_true], Nat.min_le_right _ _, fun hd => ?_, ?_⟩
      · rw [← getBuffer_direct hd]
        omega
      · intro heager hr hzero
        have := getBuffer_room hr
        have heager' : 0 < ready := heager
        exact List.eq_nil_of_length_eq_zero (by omega)
    · exact ⟨false, f.insize, by simp only [step, hin, if_false], h.left,
        fun hd => absurd hd (by simp), fun _ _ hzero => absurd hzero hin⟩
  | push size =>
    refine ⟨false, min size f.rest.length, rfl, Nat.min_le_right _ _,
      fun hd => absurd hd (by simp), fun heager _ hzero => ?_⟩
    have heager' : 0 < size := heager
    exact List.eq_nil_of_length_eq_zero (by omega)

theorem Inv.step (h : Inv malloc max stream f) (op : FeedOp) :
    (∃ e, f.step malloc op = .error e ∧ Starves malloc max stream) ∨
      ∃ f', f.step malloc op = .ok f' ∧ Inv malloc max stream f' ∧
        (op.Eager → ¬ f.Done → f'.decoder.next = none ∨ f'.work < f.work) := by
  obtain ⟨direct, size, heq, hsize, hroom, hzero⟩ := h.step_eq_handIn op
  rw [heq]
  rcases h.handIn hsize hroom with hfault | ⟨f', hf', hinv, hwork⟩
  · exact Or.inl hfault
  · refine Or.inr ⟨f', hf', hinv, fun heager hnot => ?_⟩
    rcases hwork with hnone | hless | ⟨hs, hr⟩
    · exact Or.inl hnone
    · exact Or.inr hless
    · exact absurd (Or.inr ⟨hzero heager hr hs, hr⟩) hnot

end Feed

theorem Decoder.processBuffer_nil (malloc : Nat → Bool) {d : Decoder} (hnext : d.next ≠ none)
    (hr : d.toRead ≠ 0) (s : Session) (direct : Bool) :
    ∃ d', d.processBuffer malloc s direct [] = .ok (some 0, d', s) ∧ d'.toRead ≠ 0 := by
  have hr' : (d.fill []).toRead ≠ 0 := hr
  grind [processBuffer, settle_of_toRead, copyLoop]

namespace Feed

variable {f f' : Feed} {op : FeedOp}

theorem Done.step (hd : f.Done) (h : Inv malloc max stream f)
    (hs : f.step malloc op = .ok f') : f'.Done := by
  obtain ⟨direct, size, heq, hsize, hroom, -⟩ := h.step_eq_handIn op
  rw [heq] at hs
  by_cases hnone : f.decoder.next = none
  · simp only [handIn, processBuffer, hnone, if_true, Except.ok.injEq] at hs
    rw [← hs]
    exact Or.inl hnone
  · obtain ⟨hnil, hr⟩ := hd.resolve_left hnone
    obtain ⟨d', hproc, hr'⟩ := processBuffer_nil malloc hnone hr f.session direct
    simp only [handIn, hnil, List.take_nil, hproc, Except.ok.injEq] at hs
    rw [← hs]
    exact Or.inr ⟨rfl, hr'⟩

theorem Inv.of_step (h : Inv malloc max stream f) (hs : f.step malloc op = .ok f') :
    Inv malloc max stream f' ∧
      (op.Eager → ¬ f.Done → f'.decoder.next = none ∨ f'.work < f.work) := by
  rcases h.step op with ⟨e, he, -⟩ | ⟨f1, hf1, hinv, hwork⟩
  · exact absurd (he.symm.trans hs) (by simp)
  · grind

theorem Inv.run_done (h : Inv malloc max stream f) {ops : List FeedOp}
    (heager : ∀ op ∈ ops, op.Eager) (hlen : f.work < ops.length)
    (hrun : run (Feed.step malloc) f ops = .ok f') : f'.Done := by
  refine run_reaches Feed.work ?_ ?_ ?_ ops f f' h heager hrun (Or.inr hlen)
  · exact fun _ _ _ hI hs => (Inv.of_step hI hs).1
  · exact fun _ _ _ hI hd hs => Done.step hd hI hs
  · exact fun _ _ _ hI he hd hs => ((Inv.of_step hI hs).2 he hd).imp Or.inl id

/-! ## What the session gets -/

theorem Inv.dead_iff (h : Inv malloc max stream f) : f.Dead ↔ f.decoder.next = none := by
  unfold Dead
  cases h.state with
  | alive htracks _ hcounts =>
    obtain ⟨ns, hns, -⟩ := hcounts
    rw [hns]
    simp [htracks.next_ne_none]
  | dead hgave hcounts =>
    obtain ⟨ns, hns, -⟩ := hcounts
    rw [hns]
    simp [hgave.1]

structure Follows (max : Nat) (stream : List UInt8) (f : Feed) : Prop where
  bytes : f.consumed ++ f.rest = stream
  started : f.session.accepted <+: (frames max).items stream
  alive : ¬ f.Dead → f.Counts 0 ∧ (frames max).items f.consumed = f.session.accepted ++ f.held
  dead : f.Dead → (∃ k, f.Counts (k + 1)) ∧ (frames max).items stream = f.session.accepted ∧
    (frames max).Malformed stream
  finished : f.Finished → (frames max).items stream = f.session.accepted ∧
    ¬ (frames max).Malformed stream

theorem items_part {part : List UInt8} (hholds : Holds malloc max f.decoder part)
    (hwaits : f.decoder.toRead ≠ 0 ∨ f.decoder.Stalled) : (frames max).items part = f.held := by
  unfold held
  by_cases hst : f.decoder.Stalled
  · have hreads : (receivable malloc max).Reads part [f.decoder.message] [] :=
      .cons (hholds.whole hst) (.nil [])
    rw [if_pos hst]
    exact (hreads.of_receivable.items_of_stop (fun m rest h => absurd h (by simp [frames, nextFrame,
      lengthField]))).1
  · obtain ⟨-, hinc⟩ := of_receivable_incomplete (hholds.incomplete (hwaits.resolve_right hst))
    have hframe : (frames max).next part = .incomplete := hinc
    rw [if_neg hst]
    exact (Framer.split_of_stop (fun m rest h => absurd (hframe.symm.trans h) (by simp))).1

theorem Inv.follows (h : Inv malloc max stream f)
    (hall : (frames max).AtStarts (Affordable malloc max) stream) : f.Follows max stream := by
  cases h.state with
  | alive htracks hwaits hcounts =>
    obtain ⟨part, hreads, hholds⟩ := htracks
    have hframes := hreads.of_receivable
    have hstream : (frames max).Reads stream f.session.accepted (part ++ f.rest) := by
      rw [← h.bytes]
      exact hframes.append f.rest
    have hnotdead : ¬ f.Dead := fun hd => hholds.next_ne_none (h.dead_iff.1 hd)
    have hitems : (frames max).items f.consumed = f.session.accepted ++ f.held := by
      rw [hframes.items_eq.1, items_part hholds hwaits]
    refine ⟨h.bytes, ?_, fun _ => ⟨hcounts, hitems⟩, fun hd => absurd hd hnotdead, ?_⟩
    · rw [hstream.items_eq.1]
      exact List.prefix_append _ _
    · rintro ⟨-, hnil, hheld⟩
      have hconsumed : f.consumed = stream := by rw [← h.bytes, hnil, List.append_nil]
      rw [← hconsumed, hitems, hheld, List.append_nil]
      refine ⟨rfl, ?_⟩
      -- nothing is held back, so that the decoder waits for the rest of a frame
      have hst : ¬ f.decoder.Stalled := fun hst => by simp [held, hst] at hheld
      have hinc : (frames max).next part = .incomplete :=
        (of_receivable_incomplete (hholds.incomplete (hwaits.resolve_right hst))).2
      have htail := (hframes.items_of_stop
        (fun m rest h => absurd (hinc.symm.trans h) (by simp))).2
      rw [Framer.Malformed, htail, hinc]
      simp
  | dead hgave hcounts =>
    obtain ⟨hnext, q, hreads, hbad⟩ := hgave
    have hdead := h.dead_iff.2 hnext
    have hframes := hreads.of_receivable
    rw [receivable_next (hall _ q hframes)] at hbad
    have hbad' : (frames max).next q = .malformed := hbad
    obtain ⟨hitems, htail⟩ := hframes.items_of_stop
      (fun m rest h => absurd (hbad'.symm.trans h) (by simp))
    refine ⟨h.bytes, hitems ▸ List.prefix_refl _, fun hnot => absurd hdead hnot,
      fun _ => ⟨⟨_, hcounts⟩, hitems, ?_⟩, fun hfin => absurd hdead hfin.1⟩
    rw [Framer.Malformed, htail, hbad']

theorem Inv.ended (h : Inv malloc max stream f) (hd : f.Done) : f.Dead ∨ f.Finished := by
  by_cases hdead : f.Dead
  · exact Or.inl hdead
  · have hnone : f.decoder.next ≠ none := fun hnext => hdead (h.dead_iff.2 hnext)
    obtain ⟨hnil, hr⟩ := hd.resolve_left hnone
    refine Or.inr ⟨hdead, hnil, ?_⟩
    have hst : ¬ f.decoder.Stalled := fun hst => hr hst.2
    rw [held, if_neg hst]

theorem Inv.run_ok (hall : (frames max).AtStarts (Affordable malloc max) stream)
    (ops : List FeedOp) (h : Inv malloc max stream f) :
    ∃ f', run (Feed.step malloc) f ops = .ok f' ∧ Inv malloc max stream f' := by
  refine run_safe (fun f op hI => ?_) ops f h
  rcases hI.step op with ⟨e, -, hstarves⟩ | ⟨f', hs, hinv, -⟩
  · exact absurd hstarves (not_starves hall)
  · exact ⟨f', hs, hinv⟩

theorem Inv.atStarts (h : Inv malloc max stream f) (hfollows : f.Follows max stream)
    (hend : f.Dead ∨ f.Finished) : (frames max).AtStarts (Affordable malloc max) stream := by
  cases h.state with
  | alive htracks hwaits hcounts =>
    obtain ⟨part, hreads, hholds⟩ := htracks
    have hnotdead : ¬ f.Dead := fun hd => hholds.next_ne_none (h.dead_iff.1 hd)
    obtain ⟨-, hnil, hheld⟩ := hend.resolve_left hnotdead
    have hst : ¬ f.decoder.Stalled := fun hst => by simp [held, hst] at hheld
    obtain ⟨hmem, hinc⟩ :=
      of_receivable_incomplete (hholds.incomplete (hwaits.resolve_right hst))
    rw [← h.bytes, hnil, List.append_nil]
    exact atStarts_of_receivable hreads hmem (fun m rest hm => absurd (hinc.symm.trans hm) (by simp))
  | dead hgave hcounts =>
    obtain ⟨hnext, q, hreads, -⟩ := hgave
    obtain ⟨-, hitems, hbad⟩ := hfollows.dead (h.dead_iff.2 hnext)
    have hframes := hreads.of_receivable
    -- there is no further message in what the decoder stopped at
    have hnone : (frames max).items q = [] := by
      rw [hframes.items_eq.1] at hitems
      exact List.append_cancel_left (hitems.trans (List.append_nil _).symm)
    have hstop : ∀ m rest, (frames max).next q ≠ .item m rest := by
      intro m rest hm
      rw [Framer.items_of_item hm] at hnone
      cases hnone
    rw [Framer.Malformed, (hframes.items_of_stop hstop).2] at hbad
    obtain ⟨length, body, hfield, hlen⟩ := nextFrame_malformed_iff.1 hbad
    exact atStarts_of_receivable hreads ((affordable_iff hfield).2 (by omega)) hstop

theorem run_follows (hall : (frames max).AtStarts (Affordable malloc max) stream) (bufsize : Nat)
    {answers : List Answer} (hno : .failed ∉ answers) (ops : List FeedOp) :
    ∃ f, run (Feed.step malloc) (init bufsize max answers stream) ops = .ok f ∧
      f.Follows max stream ∧
      ((∀ op ∈ ops, op.Eager) → 2 * stream.length + answers.length < ops.length →
        f.Dead ∨ f.Finished) := by
  have hinit : Inv malloc max stream (init bufsize max answers stream) := inv_init hno
  obtain ⟨f, hrun, hinv⟩ := Inv.run_ok hall ops hinit
  refine ⟨f, hrun, hinv.follows hall, fun heager hlen => ?_⟩
  exact hinv.ended (hinit.run_done heager hlen hrun)

/-- **Decoding depends on the byte stream alone** exactly if there is memory for every frame that is
    to be received. -/
theorem decoding_follows_stream_iff (malloc : Nat → Bool) (bufsize max : Nat)
    (stream : List UInt8) :
    (∀ (answers : List Answer) (ops : List FeedOp), .failed ∉ answers →
      ∃ f, run (step malloc) (init bufsize max answers stream) ops = .ok f ∧
        f.Follows max stream ∧
        ((∀ op ∈ ops, op.Eager) → 2 * stream.length + answers.length < ops.length →
          f.Dead ∨ f.Finished)) ↔
      (frames max).AtStarts (Affordable malloc max) stream := by
  constructor
  · intro hall
    -- one byte at a time, with a session that never refuses
    obtain ⟨f, hrun, hfollows, hends⟩ := hall []
      (List.replicate (2 * stream.length + 1) (.push 1)) (by simp)
    have hinit : Inv malloc max stream (init bufsize max [] stream) := inv_init (by simp)
    have hinv : Inv malloc max stream f :=
      run_preserves (fun _ _ _ hI hs => (hI.of_step hs).1) _ _ f hinit hrun
    have hend := hends (fun op hop => by rw [List.eq_of_mem_replicate hop]; exact Nat.one_pos)
      (by rw [List.length_replicate]; exact Nat.lt_succ_self _)
    exact hinv.atStarts hfollows hend
  · intro hall answers ops hno
    exact run_follows hall bufsize hno ops

theorem wrappingLength_faults :
    (frames (2 ^ 64 - 1)).next [255, 255, 255, 255, 255, 255, 255, 255, 217] = .incomplete ∧
      run (step fun _ => true)
        (init 8192 (2 ^ 64 - 1) [] [255, 255, 255, 255, 255, 255, 255, 255, 217])
        [.inEvent 9] = .error .blockTooSmall :=
  ⟨rfl, rfl⟩

end Feed

end Libxs
