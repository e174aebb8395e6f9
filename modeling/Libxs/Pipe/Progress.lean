import Libxs.Pipe.Safety

/-! # Termination does not get stuck, except after a hiccup -/

namespace Libxs

namespace YPipe

variable {q q' : UPipe}
variable {cmds : List Command} {m : Msg}

def Closes (q : UPipe) : Prop := ∃ m ∈ q.flushed, m.isDelimiter = true

theorem Closes.lt (h : q.Closes) : q.front < q.w := by
  obtain ⟨m, hm, -⟩ := h
  by_contra hge
  rw [flushed, Nat.sub_eq_zero_of_le (by omega), List.take_zero] at hm
  cases hm

theorem mem_flushed_write (h : q.WF) (hm : m ∈ q.flushed) (v : Msg) (b : Bool) :
    m ∈ (q.write v b).flushed := by
  have h1 := h.w_le_f
  have h2 := h.f_le_back
  simp only [back] at h2
  rw [flushed, write_queue, write_w, write_front, List.take_append_of_le_length (by omega)]
  exact hm

theorem mem_flushed_rolledBack (h : q.WF) (hm : m ∈ q.flushed) : m ∈ q.rolledBack.flushed := by
  have h1 := h.w_le_f
  simp only [flushed, rolledBack, List.take_take]
  rw [Nat.min_eq_left (by omega)]
  exact hm

theorem mem_flushed_flush (h : q.WF) (hm : m ∈ q.flushed) : m ∈ q.flush.2.flushed := by
  have h1 := h.w_le_f
  rw [flush_eq h]
  show m ∈ q.queue.take (q.f - q.front)
  refine List.mem_of_mem_take (i := q.w - q.front) ?_
  rw [List.take_take, Nat.min_eq_left (by omega)]
  exact hm

structure Feeds (q q' : UPipe) (cmds : List Command) : Prop where
  wake : q.c = none → q'.c = none ∨ .activateRead ∈ cmds
  closes : q.Closes → q'.Closes

theorem feeds_refl (q : UPipe) (cmds : List Command) : Feeds q q cmds := ⟨Or.inl, id⟩

theorem feeds_write (h : q.WF) (v : Msg) (b : Bool) (cmds : List Command) :
    Feeds q (q.write v b) cmds :=
  ⟨fun hc => Or.inl (by rw [write_c, hc]),
    fun ⟨m, hm, hd⟩ => ⟨m, mem_flushed_write h hm v b, hd⟩⟩

theorem feeds_rolledBack (h : q.WF) (cmds : List Command) : Feeds q q.rolledBack cmds :=
  ⟨fun hc => Or.inl hc, fun ⟨m, hm, hd⟩ => ⟨m, mem_flushed_rolledBack h hm, hd⟩⟩

theorem feeds_flush (h : q.WF) (hcmds : Pipe.wake q.flush.1 ⊆ cmds) : Feeds q q.flush.2 cmds := by
  refine ⟨fun hc => ?_, fun ⟨m, hm, hd⟩ => ⟨m, mem_flushed_flush h hm, hd⟩⟩
  rw [flush_eq h] at hcmds ⊢
  grind [Pipe.wake]

theorem Feeds.trans {q'' : UPipe} (h : Feeds q q' []) (h' : Feeds q' q'' cmds) :
    Feeds q q'' cmds := by
  refine ⟨fun hc => ?_, fun hd => h'.closes (h.closes hd)⟩
  rcases h.wake hc with hc' | hm
  · exact h'.wake hc'
  · cases hm

theorem feeds_closing (h : q.Good)
    (hcmds : Pipe.wake (Pipe.closing q).flush.1 ⊆ cmds) : Feeds q (Pipe.closing q).flush.2 cmds :=
  have hback := h.rolledBack.wf
  (feeds_rolledBack h.wf []).trans
    ((feeds_write hback _ _ []).trans (feeds_flush (hback.write _ _) hcmds))

theorem closes_closing (h : q.Good) : (Pipe.closing q).flush.2.Closes := by
  have hwf : (Pipe.closing q).WF := h.rolledBack.wf.write _ _
  refine ⟨.initDelimiter, ?_, rfl⟩
  rw [flush_eq hwf]
  have hf : (Pipe.closing q).f - (Pipe.closing q).front = (Pipe.closing q).queue.length := by
    simp only [Pipe.closing, write_f, write_front, write_queue, back, List.length_append,
      List.length_singleton, Bool.false_eq_true, if_false]
    omega
  show Msg.initDelimiter ∈ (Pipe.closing q).queue.take
    ((Pipe.closing q).f - (Pipe.closing q).front)
  rw [hf, List.take_length]
  simp [Pipe.closing]

end YPipe

namespace Pipe

variable {p p' : Pipe} {inq inq' : UPipe} {outq outq' : Option UPipe} {cmds : List Command}
  {ends : Bool}
variable {q : UPipe}

def Waits (p : Pipe) : Prop := p.state = .pending ∨ (p.state = .active ∧ p.delay = true)

instance (p : Pipe) : Decidable p.Waits := by
  unfold Waits
  infer_instance

@[simp] theorem took_delay (p : Pipe) (m : Msg) : (p.took m).delay = p.delay := by
  unfold took; split <;> rfl

@[simp] theorem took_inActive (p : Pipe) (m : Msg) : (p.took m).inActive = p.inActive := by
  unfold took; split <;> rfl

@[simp] theorem wrote_delay (p : Pipe) (m : Msg) : (p.wrote m).delay = p.delay := by
  unfold wrote; split <;> rfl

@[simp] theorem wrote_inActive (p : Pipe) (m : Msg) : (p.wrote m).inActive = p.inActive := by
  unfold wrote; split <;> rfl

theorem Calls.waits (h : Calls p inq outq ends p' inq' outq' cmds) (hw : p'.Waits) : p.Waits := by
  cases h with
  | take => simpa [Waits] using hw
  | write => simpa [Waits] using hw
  | linger hq hs => exact Or.inl hs
  | delimit hs => simp [Waits] at hw
  | finish hs => simp [Waits] at hw
  | close => simp [Waits] at hw
  | giveUp => simp [Waits] at hw
  | ignore delay hs => rcases hs with hs | hs | hs <;> simp [Waits, hs] at hw
  | _ => exact hw

theorem Calls.asleep (h : Calls p inq outq ends p' inq' outq' cmds) (ha : p'.inActive = false)
    (hr : p'.reads = true) :
    inq'.c = none ∨ (p.inActive = false ∧ p.reads = true ∧ inq'.c = inq.c) := by
  cases h with
  | sleep => exact Or.inl rfl
  | take => exact Or.inr ⟨by simpa using ha, by simpa [reads] using hr, rfl⟩
  | write => exact Or.inr ⟨by simpa using ha, by simpa [reads] using hr, rfl⟩
  | delimit => simp [reads] at hr
  | finish => simp [reads] at hr
  | close => simp [reads] at hr
  | giveUp => simp [reads] at hr
  | _ => exact Or.inr ⟨ha, hr, rfl⟩

theorem Calls.closes (h : Calls p inq outq ends p' inq' outq' cmds) (hw : p'.Waits)
    (hc : inq.Closes) : inq'.Closes := by
  cases h with
  | @take v rest r hreads hq h1 h2 hv =>
    obtain ⟨m, hm, hd⟩ := hc
    refine ⟨m, ?_, hd⟩
    have hw' : inq.w - inq.front = inq.w - (inq.front + 1) + 1 := by omega
    rw [YPipe.flushed, hq, hw', List.take_succ_cons, List.mem_cons] at hm
    rcases hm with rfl | hm
    · rw [hv] at hd
      cases hd
    · exact hm
  | delimit => simp [Waits] at hw
  | finish => simp [Waits] at hw
  | prefetch => exact hc
  | sleep => exact hc
  | _ => exact hc

theorem Calls.feeds (h : Calls p inq outq ends p' inq' outq' cmds) (hq : outq = some q)
    (hgood : q.Good) : ∃ q', outq' = some q' ∧ YPipe.Feeds q q' cmds := by
  cases h with
  | write hq' =>
    cases hq.symm.trans hq'
    exact ⟨_, rfl, YPipe.feeds_write hgood.wf _ _ _⟩
  | flush hq' =>
    cases hq.symm.trans hq'
    exact ⟨_, rfl, YPipe.feeds_flush hgood.wf (List.Subset.refl _)⟩
  | rollback hq' =>
    cases hq.symm.trans hq'
    exact ⟨_, rfl, YPipe.feeds_rolledBack hgood.wf _⟩
  | close delay hq' => grind [YPipe.feeds_closing]
  | linger hq' => grind [YPipe.feeds_closing]
  | _ => exact ⟨q, hq, YPipe.feeds_refl q _⟩

theorem Calls.closes_out (h : Calls p inq outq ends p' inq' outq' cmds) (hs : p.state ≠ .terminated)
    (hs' : p'.state = .terminated) :
    ∃ q q', outq = some q ∧ outq' = some q' ∧ (q.Good → q'.Closes) := by
  cases h with
  | close delay hq => exact ⟨_, _, hq, rfl, YPipe.closes_closing⟩
  | take => exact absurd (by simpa using hs') hs
  | write => exact absurd (by simpa using hs') hs
  | delimit => exact absurd hs' (by simp)
  | finish => exact absurd hs' (by simp)
  | giveUp => exact absurd hs' (by simp)
  | _ => exact absurd hs' hs

theorem Calls.closed (h : Calls p inq outq ends p' inq' outq' cmds)
    (hs : ends = false → p.state ≠ .active ∧ p.state ≠ .delimited) :
    p'.state ≠ .active ∧ p'.state ≠ .delimited := by
  cases h with
  | take => simpa using hs
  | write => simpa using hs
  | delimit h => exact absurd h (hs rfl).1
  | finish => simp
  | giveUp => simp
  | close => simp
  | linger hq h => simp [h]
  | ignore delay h => rcases h with h | h | h <;> simp [h]
  | _ => exact hs rfl

theorem Hears.waits (h : Hears p p' cmds) (hw : p'.Waits) : p.Waits := by
  cases h with
  | pend hs hd => exact Or.inr ⟨hs, hd⟩
  | ack => simp [Waits] at hw
  | cross => simp [Waits] at hw

theorem Hears.reads (h : Hears p p' cmds) (hr : p'.reads = true) :
    p.reads = true ∧ p'.inActive = p.inActive := by
  cases h with
  | pend hs => exact ⟨by simp [reads, hs], rfl⟩
  | ack => simp [reads] at hr
  | cross => simp [reads] at hr

theorem Hears.state (h : Hears p p' cmds) :
    p'.state ≠ .terminated ∧ p'.state ≠ .active ∧ p'.state ≠ .delimited := by
  cases h <;> simp

theorem processActivateRead_awake (p : Pipe) (ha : p.processActivateRead.2.inActive = false) :
    p.processActivateRead.2.reads = false := by
  unfold processActivateRead at ha ⊢
  grind

theorem read_none {msg : Option Msg} (hq : inq.Good)
    (hread : p.read inq = .ok (msg, p', q, cmds)) (hmsg : msg = none) (hs : p'.state = p.state)
    (hr : p.reads = true) : p.inActive = false ∨ inq.front = inq.w := by
  by_contra hboth
  obtain ⟨ha, hlt⟩ := not_or.1 hboth
  rw [Bool.not_eq_false] at ha
  unfold read at hread
  rw [if_neg (by simp [ha, hr])] at hread
  rcases YPipe.read_cases hq.wf with ⟨-, v, rest, r, -, -, -, he⟩ | ⟨hfw, -⟩
  · rw [he] at hread
    simp only at hread
    cases hd : v.isDelimiter with
    | true => grind [delimit]
    | false => grind
  · exact hlt hfw

end Pipe

namespace PipePair

variable {p : PipePair} {x : Side}

/-! ## The two conditions of progress -/

def Awake (pipe : Pipe) (inbox : List Command) (q : Option UPipe) : Prop :=
  ∀ q', q = some q' → pipe.inActive = false → pipe.reads = true →
    .activateRead ∈ inbox ∨ q'.c = none

def Delimited (pipe : Pipe) (inbox : List Command) (peer : Pipe) (q : Option UPipe) : Prop :=
  pipe.state = .terminated → peer.Waits → hiccups inbox ≠ [] ∨ ∃ q', q = some q' ∧ q'.Closes

structure Live (p : PipePair) : Prop where
  awake : ∀ x, p.dead x = false → Awake (p.pipe x) (p.inbox x) (p.reading x)
  delimited : ∀ x, p.dead x = false → p.dead x.other = false →
    Delimited (p.pipe x) (p.inbox x) (p.pipe x.other) (p.reading x.other)
  asked : ∀ x, p.asked x = true →
    (p.pipe x).state ≠ .active ∧ (p.pipe x).state ≠ .delimited

theorem live_init (hwms : Side → Nat) (delays : Side → Bool) : Live (init hwms delays) := by
  refine ⟨fun x _ _ _ ha => ?_, fun x _ _ hs => ?_, fun x ha => ?_⟩
  · cases x <;> exact absurd ha (by simp [init, Pipe.init])
  · cases x <;> exact absurd hs (by simp [init, Pipe.init])
  · exact absurd ha (by simp [init])

namespace Live

variable {cmds inbox rest : List Command} {i : Nat} {q : Option UPipe} {pipe : Pipe} {p' : PipePair}

theorem next (x : Side)
    (hself : p'.dead x = false → Awake (p'.pipe x) (p'.inbox x) (p'.reading x))
    (hother : p'.dead x.other = false →
      Awake (p'.pipe x.other) (p'.inbox x.other) (p'.reading x.other))
    (hfrom : p'.dead x = false → p'.dead x.other = false →
      Delimited (p'.pipe x) (p'.inbox x) (p'.pipe x.other) (p'.reading x.other))
    (hto : p'.dead x = false → p'.dead x.other = false →
      Delimited (p'.pipe x.other) (p'.inbox x.other) (p'.pipe x) (p'.reading x))
    (hasked : p'.asked x = true → (p'.pipe x).state ≠ .active ∧ (p'.pipe x).state ≠ .delimited)
    (hasked' : p'.asked x.other = true →
      (p'.pipe x.other).state ≠ .active ∧ (p'.pipe x.other).state ≠ .delimited) : Live p' := by
  refine ⟨(Side.forall_iff x).2 ⟨hself, hother⟩, (Side.forall_iff x).2 ⟨hfrom, ?_⟩,
    (Side.forall_iff x).2 ⟨hasked, hasked'⟩⟩
  intro h1 h2
  rw [Side.other_other] at h2 ⊢
  exact hto h2 h1

theorem delimited_to (hL : Live p) (h1 : p.dead x = false) (h2 : p.dead x.other = false) :
    Delimited (p.pipe x.other) (p.inbox x.other) (p.pipe x) (p.reading x) := by
  have h := hL.delimited x.other h2
  rw [Side.other_other] at h
  exact h h1

theorem awake_append
    (h : Awake pipe inbox q) (cmds : List Command) : Awake pipe (inbox ++ cmds) q := by
  intro q' hq ha hr
  rcases h q' hq ha hr with hm | hc
  · exact Or.inl (List.mem_append_left _ hm)
  · exact Or.inr hc

theorem delimited_append {peer : Pipe} (h : Delimited pipe inbox peer q) (cmds : List Command) :
    Delimited pipe (inbox ++ cmds) peer q := by
  intro hs hw
  rcases h hs hw with hh | hc
  · exact Or.inl (by simp [hh])
  · exact Or.inr hc

theorem called (hI : Inv p) (hL : Live p) (halive : p.dead x = false) {inq inq' : UPipe}
    {outq outq' : Option UPipe} {ends : Bool}
    {asked : Side → Bool} (hin : (p.pipe x).inpipe = some i) (hinq : p.heap i = some inq)
    (houtq : (p.pipe x).outpipe.bind p.heap = outq)
    (hcalls : Pipe.Calls (p.pipe x) inq outq ends pipe inq' outq' cmds)
    (hasked : asked = if ends then Function.update p.asked x true else p.asked) :
    Live (p.afterCall x i inq' outq' pipe cmds asked) := by
  have hreading : p.reading x = some inq := by
    simp [reading, hin, hinq]
  have hself : (p.afterCall x i inq' outq' pipe cmds asked).reading x = some inq' :=
    hI.reading_self halive hin hcalls.inpipe_eq
  have hfeeds : p.dead x.other = false →
      (p.afterCall x i inq' outq' pipe cmds asked).reading x.other = p.reading x.other ∨
        ∃ q q', p.reading x.other = some q ∧ YPipe.Feeds q q' cmds ∧
          (p.afterCall x i inq' outq' pipe cmds asked).reading x.other = some q' := by
    intro halive'
    obtain ⟨j, q, hj, -, hq, hgood⟩ := hI.inq halive'
    by_cases hsame : (p.pipe x).outpipe = (p.pipe x.other).inpipe
    · have houtq' : outq = some q := by
        rw [← houtq, hsame, hj, Option.bind_some, hq]
      obtain ⟨q', rfl, hfeeds⟩ := hcalls.feeds houtq' hgood
      exact Or.inr ⟨q, q', by simp [reading, hj, hq], hfeeds,
        Inv.reading_fed (by simp [hj]) hsame⟩
    · exact Or.inl (hI.reading_unfed halive halive' hin hsame)
  refine next x (fun _ => ?_) (fun hd => ?_) (fun _ hd => ?_) (fun _ hd => ?_) ?_ ?_
  · rw [hself]
    intro q hq ha hr
    cases hq
    simp only [afterCall_pipe_self, afterCall_inbox_self] at ha hr ⊢
    rcases hcalls.asleep ha hr with hc | ⟨ha', hr', hc⟩
    · exact Or.inr hc
    · rw [hc]
      exact hL.awake x halive inq hreading ha' hr'
  · rw [afterCall_dead] at hd
    have hold := hL.awake x.other hd
    rw [afterCall_pipe_other, afterCall_inbox_other]
    rcases hfeeds hd with hsame | ⟨q, q', hq, hfeed, hq'⟩
    · rw [hsame]
      exact awake_append hold cmds
    · rw [hq']
      intro q'' hq'' ha hr
      cases hq''
      rcases hold q hq ha hr with hm | hc
      · exact Or.inl (List.mem_append_left _ hm)
      · grind [hfeed.wake]
  · rw [afterCall_dead] at hd
    rw [afterCall_pipe_self, afterCall_pipe_other, afterCall_inbox_self]
    intro hs hw
    by_cases hold : (p.pipe x).state = .terminated
    · rcases hL.delimited x halive hd hold hw with hh | ⟨q₀, hq₀, hc⟩
      · exact Or.inl hh
      · rcases hfeeds hd with hsame | ⟨q, q', hq, hfeed, hq'⟩
        · exact Or.inr ⟨q₀, hsame.trans hq₀, hc⟩
        · grind [hfeed.closes]
    · -- the call was `terminate`, and its delimiter went to the peer unless a hiccup is under way
      obtain ⟨q, q', rfl, rfl, hc⟩ := hcalls.closes_out hold hs
      by_cases hh : hiccups (p.inbox x) = []
      · obtain ⟨o, ho, hq⟩ := Option.bind_eq_some_iff.1 houtq
        have hmem := (hI.outq ho).1
        rw [hI.handles_settled hd hh, Option.mem_toList] at hmem
        exact Or.inr ⟨q', Inv.reading_fed (by rw [hmem]; simp) (ho.trans hmem.symm),
          hc (hI.owns.good o q hq)⟩
      · exact Or.inl hh
  · rw [afterCall_dead] at hd
    rw [hself, afterCall_pipe_self, afterCall_pipe_other, afterCall_inbox_other]
    intro hs hw
    rcases delimited_append (hL.delimited_to halive hd) cmds hs (hcalls.waits hw) with hh | ⟨q, hq, hc⟩
    · exact Or.inl hh
    · grind [hcalls.closes]
  · grind [afterCall_asked, afterCall_pipe_self, hcalls.closed, hL.asked]
  · rw [afterCall_asked, afterCall_pipe_other]
    intro ha
    refine hL.asked x.other ?_
    rw [← ha, hasked]
    grind [Side.other_ne]

theorem processed (hL : Live p) (halive : p.dead x = false) (cmds : List Command)
    (hpipe : p'.pipe x.other = p.pipe x.other) (hdead : p'.dead = p.dead)
    (hasked : p'.asked = p.asked) (hsent : p'.inbox x.other = p.inbox x.other ++ cmds)
    (hself : p'.reading x = p.reading x)
    (hother : p.dead x.other = false → p'.reading x.other = p.reading x.other)
    (hawake : Awake (p'.pipe x) (p'.inbox x) (p.reading x))
    (hdelim : p.dead x.other = false →
      Delimited (p'.pipe x) (p'.inbox x) (p.pipe x.other) (p.reading x.other))
    (hwaits : (p'.pipe x).Waits → (p.pipe x).Waits)
    (hclosed : (p.pipe x).state ≠ .active ∧ (p.pipe x).state ≠ .delimited →
      (p'.pipe x).state ≠ .active ∧ (p'.pipe x).state ≠ .delimited) : Live p' := by
  refine next x (fun _ => ?_) (fun hd => ?_) (fun _ hd => ?_) (fun _ hd => ?_) ?_ ?_
  · rw [hself]
    exact hawake
  · grind [awake_append, hL.awake]
  · grind
  · rw [hdead] at hd
    rw [hpipe, hself, hsent]
    intro hs hw
    exact delimited_append (hL.delimited_to halive hd) cmds hs (hwaits hw)
  · rw [hasked]
    exact fun ha => hclosed (hL.asked x ha)
  · rw [hasked, hpipe]
    exact hL.asked x.other

theorem hiccup (hI : Inv p) (hL : Live p) (hs : (p.pipe x).state = .active) :
    Live (p.hiccuped x) := by
  have hother : p.dead x.other = false → (p.hiccuped x).reading x.other = p.reading x.other := by
    intro hd
    obtain ⟨j, -, hj, hmem, -⟩ := hI.inq hd
    have hlt := hI.owns.below _ _ hmem
    refine reading_eq (by simp [hiccuped]) fun j' hj' => ?_
    rw [hj, Option.some.injEq] at hj'
    have hne : j' ≠ p.fresh := by omega
    simp [hiccuped, hne]
  refine next x (fun _ => ?_) (fun hd => ?_) (fun _ _ => ?_) (fun _ _ => ?_) ?_ ?_
  · intro q _ ha
    simp [hiccuped] at ha
  · have hd' : p.dead x.other = false := hd
    have hold := awake_append (hL.awake x.other hd') [.hiccup p.fresh]
    rw [hother hd']
    simpa [hiccuped] using hold
  · intro hs'
    simp [hiccuped, hs] at hs'
  · intro _ _
    exact Or.inl (by simp [hiccuped])
  · intro ha
    exact absurd hs (hL.asked x ha).1
  · simpa [hiccuped] using hL.asked x.other

theorem replace (hI : Inv p) (hL : Live p) {h o : Nat}
    (hbox : p.inbox x = .hiccup h :: rest) (hout : (p.pipe x).outpipe = some o)
    (hcond : (p.pipe x).state = .terminated → ¬ (p.pipe x.other).Waits) :
    Live (p.replaced x rest o h) := by
  have halive := hI.alive_of_inbox hbox
  have hself : (p.replaced x rest o h).reading x = p.reading x := by
    refine reading_eq (by simp [replaced]) fun i hi => ?_
    have hne := hI.in_ne_out halive hi hout
    simp [replaced, hne]
  have hother : p.dead x.other = false →
      (p.replaced x rest o h).reading x.other = p.reading x.other := by
    intro hd
    refine reading_eq (by simp [replaced]) fun j hj => ?_
    -- the deallocated pipe is the first of its chain, and the peer reads from the last
    obtain ⟨j', hj', hlast⟩ := hI.last x.other hd
    rw [hj, Option.some.injEq] at hj'
    subst hj'
    have hhandles : p.handles x.other = o :: h :: hiccups rest := by
      simp [handles, chain, hout, hbox]
    have hnodup := hI.owns.nodup x.other
    rw [hhandles, List.getLast?_cons_cons] at hlast
    rw [hhandles, List.nodup_cons] at hnodup
    have hne : j ≠ o := fun he => hnodup.1 (he ▸ List.mem_of_getLast? hlast)
    simp [replaced, hne]
  refine hL.processed halive [] ?_ ?_ ?_ ?_ hself hother ?_ (fun _ => ?_) ?_ ?_
  · simp [replaced]
  · simp [replaced]
  · simp [replaced]
  · simp [replaced]
  · intro q hq ha hr
    simp only [replaced, after_pipe_self] at ha hr
    rcases hL.awake x halive q hq ha hr with hm | hc
    · rw [hbox] at hm
      exact Or.inl (by simpa [replaced] using hm)
    · exact Or.inr hc
  · intro hs hw
    simp only [replaced, after_pipe_self] at hs
    exact absurd hw (hcond hs)
  · simp [replaced, Pipe.Waits]
  · simp [replaced]

theorem departed (hI : Inv p) (hL : Live p) (hbox : p.inbox x = .pipeTermAck :: rest)
    (hin : (p.pipe x).inpipe = some i) (hleaves : Pipe.Leaves (p.pipe x) pipe cmds) :
    Live (p.departed x rest i pipe cmds) := by
  have halive := hI.alive_of_inbox hbox
  have hstate : pipe.state = (p.pipe x).state := by
    cases hleaves <;> rfl
  have hdead : (p.departed x rest i pipe cmds).dead x = true := by
    simp [PipePair.departed]
  refine next x (fun hd => ?_) (fun hd => ?_) (fun hd _ => ?_) (fun hd _ => ?_) ?_ ?_
  · rw [hdead] at hd
    cases hd
  · have hd' : p.dead x.other = false := by simpa [PipePair.departed] using hd
    have hother : (p.departed x rest i pipe cmds).reading x.other = p.reading x.other := by
      refine reading_eq (by simp [PipePair.departed]) fun j hj => ?_
      have hne := hI.in_ne_in halive hd' hin hj
      simp [PipePair.departed, hne]
    rw [hother]
    have hold := awake_append (hL.awake x.other hd') cmds
    simpa [PipePair.departed] using hold
  · rw [hdead] at hd
    cases hd
  · rw [hdead] at hd
    cases hd
  · simpa [PipePair.departed, hstate] using hL.asked x
  · simpa [PipePair.departed] using hL.asked x.other

theorem quiet (hL : Live p) (halive : p.dead x = false) {c : Command}
    (hbox : p.inbox x = c :: rest) (hin : pipe.inpipe = (p.pipe x).inpipe)
    (hawake : Awake (p.pipe x) (p.inbox x) (p.reading x) → Awake pipe rest (p.reading x))
    (hdelim : pipe.state = .terminated → (p.pipe x).state = .terminated)
    (hhic : pipe.state = .terminated → hiccups (c :: rest) = hiccups rest)
    (hwaits : pipe.Waits → (p.pipe x).Waits)
    (hclosed : (p.pipe x).state ≠ .active ∧ (p.pipe x).state ≠ .delimited →
      pipe.state ≠ .active ∧ pipe.state ≠ .delimited) :
    Live ({ p with inbox := Function.update p.inbox x rest }.after x pipe cmds) := by
  refine hL.processed halive cmds ?_ ?_ ?_ ?_ ?_ (fun _ => ?_) ?_ (fun hd => ?_) ?_ ?_
  · simp
  · simp
  · simp
  · simp
  · exact reading_eq (by simpa using hin) fun _ _ => rfl
  · exact reading_eq (by simp) fun _ _ => rfl
  · simpa using hawake (hL.awake x halive)
  · intro hs hw
    simp only [after_pipe_self] at hs
    simp only [after_inbox_self, Function.update_self, ← hhic hs, ← hbox]
    exact hL.delimited x halive hd (hdelim hs) hw
  · simpa using hwaits
  · simpa using hclosed

end Live

def SparesDelimiter (p : PipePair) : PairOp → Prop
  | .process x =>
    match p.inbox x with
    | .hiccup _ :: _ => (p.pipe x).state = .terminated → ¬ (p.pipe x.other).Waits
    | _ => True
  | _ => True

instance (p : PipePair) (op : PairOp) : Decidable (p.SparesDelimiter op) := by
  unfold SparesDelimiter
  split
  · split <;> infer_instance
  · infer_instance

theorem Live.effect (hI : Inv p) (hL : Live p) {op : PairOp} (hop : p.SparesDelimiter op)
    {p' : PipePair} (h : Effect p op p') : Live p' := by
  cases h with
  | idle => exact hL
  | called halive hin hinq houtq hcalls =>
    exact hL.called hI halive hin hinq houtq hcalls rfl
  | hiccup halive hs => exact hL.hiccup hI hs
  | @activateRead x rest hbox =>
    have hawake := (p.pipe x).processActivateRead_awake
    obtain ⟨b, hb⟩ := (p.pipe x).processActivateRead_eq
    rw [hb] at hawake ⊢
    refine hL.quiet (hI.alive_of_inbox hbox) hbox rfl (fun _ q _ ha hr => ?_) id (fun _ => by simp)
      id id
    rw [hawake ha] at hr
    cases hr
  | @activateWrite x n rest hbox =>
    obtain ⟨b, hb⟩ := (p.pipe x).processActivateWrite_eq n
    rw [hb]
    refine hL.quiet (hI.alive_of_inbox hbox) hbox rfl (fun hold q hq ha hr => ?_) id
      (fun _ => by simp) id id
    simpa [hbox] using hold q hq ha hr
  | replace hbox hout =>
    refine hL.replace hI hbox hout ?_
    simpa only [SparesDelimiter, hbox] using hop
  | @pipeTerm x rest pipe cmds hbox hhears =>
    have halive := hI.alive_of_inbox hbox
    refine hL.quiet halive hbox hhears.inpipe_eq (fun hold q hq ha hr => ?_)
      (fun hs => absurd hs hhears.state.1) (fun _ => by simp) hhears.waits
      (fun _ => hhears.state.2)
    obtain ⟨hr', ha'⟩ := hhears.reads hr
    rw [ha'] at ha
    simpa [hbox] using hold q hq ha hr'
  | pipeTermAck hbox hin hleaves => exact hL.departed hI hbox hin hleaves

/-! ## Quiescent states -/

def Drained (p : PipePair) (x : Side) : Prop :=
  ∃ inq pipe inq' cmds, p.reading x = some inq ∧
    (p.pipe x).read inq = .ok (none, pipe, inq', cmds) ∧ pipe.state = (p.pipe x).state

structure Quiescent (p : PipePair) : Prop where
  silent : ∀ x, p.inbox x = []
  asked : ∃ x, p.asked x = true
  drained : ∀ x, p.dead x = false → (p.pipe x).reads = true → p.Drained x

namespace Quiescent

theorem not_pending (hI : Inv p) (hL : Live p) (hq : Quiescent p) (h1 : p.dead x = false)
    (h2 : p.dead x.other = false) (hs : (p.pipe x).state = .terminated) :
    (p.pipe x.other).state ≠ .pending := by
  intro hpend
  have hreads : (p.pipe x.other).reads = true := by
    simp [Pipe.reads, hpend]
  obtain ⟨inq, pipe, inq', cmds, hinq, hread, hstate⟩ := hq.drained x.other h2 hreads
  have hgood : inq.Good := by
    obtain ⟨j, -, hj⟩ := Option.bind_eq_some_iff.1 hinq
    exact hI.owns.good j inq hj
  rcases hL.delimited x h1 h2 hs (Or.inl hpend) with hh | ⟨q, hq', hcloses⟩
  · rw [hq.silent x] at hh
    exact hh rfl
  · rw [hinq, Option.some.injEq] at hq'
    subst hq'
    have hlt := hcloses.lt
    rcases Pipe.read_none hgood hread rfl hstate hreads with ha | hfw
    · rcases hL.awake x.other h2 inq hinq ha hreads with hm | hc
      · rw [hq.silent x.other] at hm
        cases hm
      · rcases hgood.wf.c_eq with hc' | ⟨-, hfw⟩
        · rw [hc] at hc'
          cases hc'
        · omega
    · omega

theorem peer_dead (hI : Inv p) (hq : Quiescent p) (hack : p.acked x = true) :
    p.dead x.other = true := by
  have hcount := (hI.link_from x).acks
  rw [hq.silent x.other, hack] at hcount
  grind

theorem peer_got (hI : Inv p) (hq : Quiescent p) (hs : (p.pipe x).state.sentTerm = true) :
    (p.pipe x.other).state.gotTerm = true := by
  have hcount := (hI.link_from x).terms
  rw [hq.silent x.other, hs] at hcount
  grind

theorem all_dead_of_acked (hI : Inv p) (hq : Quiescent p) (hack : p.acked x = true) :
    ∀ y, p.dead y = true := by
  have h1 := hq.peer_dead hI hack
  have h2 := hq.peer_dead (x := x.other) hI (by simp [acked, h1])
  rw [Side.other_other] at h2
  exact (Side.forall_iff x).2 ⟨h2, h1⟩

theorem all_dead (hI : Inv p) (hL : Live p) (hq : Quiescent p) : ∀ y, p.dead y = true := by
  -- a terminated end has been heard, and its peer has answered
  have hterm : ∀ x, p.dead x = false → (p.pipe x).state = .terminated →
      ∃ y, p.acked y = true := by
    intro x hd hs
    have hgot := hq.peer_got hI (by rw [hs]; rfl : (p.pipe x).state.sentTerm = true)
    cases hd' : p.dead x.other with
    | true => exact ⟨x.other, by simp [acked, hd']⟩
    | false =>
      have hne := hq.not_pending hI hL hd hd' hs
      refine ⟨x.other, ?_⟩
      rw [Inv.acked_alive hd']
      cases hs' : (p.pipe x.other).state <;> simp_all [PipeState.gotTerm, PipeState.sentAck]
  obtain ⟨x, hasked⟩ := hq.asked
  obtain ⟨hne1, hne2⟩ := hL.asked x hasked
  suffices hack : ∃ y, p.acked y = true by
    obtain ⟨y, hy⟩ := hack
    exact hq.all_dead_of_acked hI hy
  cases hd : p.dead x with
  | true => exact ⟨x, by simp [acked, hd]⟩
  | false =>
    cases hs : (p.pipe x).state with
    | active => exact absurd hs hne1
    | delimited => exact absurd hs hne2
    | terminated => exact hterm x hd hs
    | terminating => exact ⟨x, by simp [acked, hs, PipeState.sentAck]⟩
    | doubleTerminated => exact ⟨x, by simp [acked, hs, PipeState.sentAck]⟩
    | pending =>
      -- the peer asked for it: it was terminated, and is still or has acknowledged
      have hsent := (hI.link_to x).term_of_got (by rw [hs]; rfl)
      cases hd' : p.dead x.other with
      | true => exact ⟨x.other, by simp [acked, hd']⟩
      | false =>
        cases hs' : (p.pipe x.other).state with
        | terminated => exact hterm x.other hd' hs'
        | doubleTerminated => exact ⟨x.other, by simp [acked, hs', PipeState.sentAck]⟩
        | active => simp [hs', PipeState.sentTerm] at hsent
        | delimited => simp [hs', PipeState.sentTerm] at hsent
        | pending => simp [hs', PipeState.sentTerm] at hsent
        | terminating => simp [hs', PipeState.sentTerm] at hsent

end Quiescent

theorem step_live {op : PairOp} {p' : PipePair} (h : Inv p ∧ Live p) (hop : p.SparesDelimiter op)
    (hstep : p.step op = .ok p') : Inv p' ∧ Live p' := by
  obtain ⟨hI, hL⟩ := h
  obtain ⟨p₁, hp₁, heffect⟩ := hI.step_effect op
  rw [hstep, Except.ok.injEq] at hp₁
  subst hp₁
  exact ⟨hI.effect heffect, hL.effect hI hop heffect⟩

/-- **Termination completes.** -/
theorem termination_completes {hwms : Side → Nat} {delays : Side → Bool} {ops : List PairOp}
    (hmeets : RunMeets step SparesDelimiter (init hwms delays) ops)
    (hrun : run step (init hwms delays) ops = .ok p) (hq : p.Quiescent) :
    ∀ x, p.dead x = true := by
  obtain ⟨hI, hL⟩ : Inv p ∧ Live p :=
    run_invariant (fun _ _ _ h hop hstep => step_live h hop hstep) ops _ _
      ⟨inv_init hwms delays, live_init hwms delays⟩ hmeets hrun
  exact hq.all_dead hI hL

def timelyHiccup : List PairOp :=
  [.hiccup .right, .process .left, .terminate .left true, .process .right, .read .right,
    .process .left, .process .right]

theorem termination_completes_timelyHiccup :
    ∃ p, RunMeets step SparesDelimiter (init (fun _ => 0) (fun _ => true)) timelyHiccup ∧
      run step (init (fun _ => 0) (fun _ => true)) timelyHiccup = .ok p ∧ p.Quiescent ∧
      ∀ x, p.dead x = true := by
  have hmeets : RunMeets step SparesDelimiter (init (fun _ => 0) (fun _ => true)) timelyHiccup := by
    decide
  have hquiet : ∀ p, run step (init (fun _ => 0) (fun _ => true)) timelyHiccup = .ok p →
      p.Quiescent := by
    rintro p ⟨⟩
    exact ⟨fun x => by cases x <;> rfl, ⟨.left, rfl⟩,
      fun x hd => by cases x <;> exact absurd hd (by decide)⟩
  exact ⟨_, hmeets, rfl, hquiet _ rfl, termination_completes hmeets rfl (hquiet _ rfl)⟩

theorem hiccup_loses_delimiter :
    ∃ p, run step (init (fun _ => 0) (fun _ => true))
        [.hiccup .right, .terminate .left false, .process .left, .process .right] = .ok p ∧
      p.Quiescent ∧ ∀ x, p.dead x = false := by
  refine ⟨_, rfl, ⟨fun x => ?_, ⟨.left, rfl⟩, fun x _ hr => ?_⟩, fun x => ?_⟩
  · cases x <;> rfl
  · cases x with
    | left => exact absurd hr (by decide)
    | right => exact ⟨_, _, _, _, rfl, rfl, rfl⟩
  · cases x <;> rfl

end PipePair

end Libxs
