import Libxs.Pipe.Watermark

/-! # Hiccups and the high watermark -/

namespace Libxs

def PairOp.flows : PairOp → Bool
  | .hiccup _ => false
  | .terminate _ _ => false
  | _ => true

def PairOp.continues : PairOp → Bool
  | .terminate _ _ => false
  | _ => true

theorem Pipe.Calls.empty {p p' : Pipe} {inq inq' : UPipe} {outq outq' : Option UPipe} {ends : Bool}
    {cmds : List Command} (h : Calls p inq outq ends p' inq' outq' cmds) (hempty : inq.queue = []) :
    inq'.queue = [] := by
  cases h with
  | take _ hq => exact absurd (hq.symm.trans hempty) (by simp)
  | delimit _ hq => exact absurd (hq.symm.trans hempty) (by simp)
  | finish _ hq => exact absurd (hq.symm.trans hempty) (by simp)
  | _ => exact hempty

theorem YPipe.complete_of_empty {q : UPipe} (h : q.queue = []) : q.complete = 0 := by
  simp [YPipe.complete, h]

namespace PipePair

variable {p : PipePair} {x : Side}

def writing (p : PipePair) (x : Side) : Option UPipe := (p.pipe x).outpipe.bind p.heap

/-! ## What is lost -/

def drops (x : Side) (p : PipePair) : PairOp → Nat
  | .process y =>
    match p.inbox y, p.writing y with
    | .hiccup _ :: _, some q => if y = x then q.complete else 0
    | _, _ => 0
  | _ => 0

def lost (x : Side) (p : PipePair) (ops : List PairOp) : Nat := runCost step (drops x) p ops

/-! ## Two ends that go on -/

structure Continuing (p : PipePair) : Prop where
  alive : ∀ x, p.dead x = false
  active : ∀ x, (p.pipe x).state = .active
  unended : ∀ x, .pipeTerm ∉ p.inbox x ∧ .pipeTermAck ∉ p.inbox x
  plain : ∀ h q, p.heap h = some q → q.Plain
  unused : ∀ x h q, h ∈ hiccups (p.inbox x) → p.heap h = some q → q.queue = []

def Leaks (p : PipePair) (x : Side) (hwm lost : Nat) : Prop :=
  ∃ q, p.writing x = some q ∧
    Accounts hwm lost (p.pipe x) (p.pipe x.other) (p.inbox x) q

theorem continuing_init (hwms : Side → Nat) (delays : Side → Bool) :
    Continuing (init hwms delays) := by
  refine ⟨fun _ => rfl, fun x => ?_, fun x => ?_, fun h q hq => ?_, fun x h q hh => ?_⟩
  · cases x <;> rfl
  · simp [init]
  · grind [init, YPipe.Plain, YPipe.init]
  · simp [init] at hh

theorem leaks_init (hwms : Side → Nat) (delays : Side → Bool) (x : Side) :
    Leaks (init hwms delays) x (hwms x) 0 := by
  refine ⟨YPipe.init, ?_, .of_tracks (c := Credit.start _ _) ?_⟩
  · cases x <;> rfl
  · cases x <;> exact ⟨rfl, rfl, rfl, rfl, rfl, rfl, rfl, rfl⟩

namespace Continuing

variable {rest : List Command} {h i o : Nat} {op : PairOp} {p' : PipePair}

theorem writes (hI : Inv p) (hC : Continuing p) (x : Side) :
    ∃ o q, (p.pipe x).outpipe = some o ∧ p.heap o = some q ∧ q.Good := by
  have hack : p.acked x = false := by
    rw [Inv.acked_alive (hC.alive x), hC.active x]
    rfl
  obtain ⟨o, ho⟩ := Option.ne_none_iff_exists'.1
    (fun hn => absurd ((hI.out x).1 hn) (by simp [hack]))
  obtain ⟨-, q, hq, hgood⟩ := hI.outq ho
  exact ⟨o, q, ho, hq, hgood⟩

theorem attached (hI : Inv p) (hC : Continuing p) (hnone : hiccups (p.inbox x) = []) :
    (p.pipe x).outpipe = (p.pipe x.other).inpipe := by
  refine hI.attached (hC.alive _) ?_ hnone
  rw [Inv.acked_alive (hC.alive x), hC.active x]
  rfl

theorem handles_eq (ho : (p.pipe x).outpipe = some o) :
    p.handles x.other = o :: hiccups (p.inbox x) := by
  simp [handles, chain, ho]

theorem unshared (hI : Inv p) (hC : Continuing p) (ho : (p.pipe x).outpipe = some o) :
    ∀ y, o ∉ hiccups (p.inbox y) := by
  refine (Side.forall_iff x).2 ⟨fun hmem => ?_, fun hmem => ?_⟩
  · have hnodup := hI.owns.nodup x.other
    rw [handles_eq ho, List.nodup_cons] at hnodup
    exact hnodup.1 hmem
  · obtain ⟨o', -, ho', -⟩ := hC.writes hI x.other
    have hself : o ∈ p.handles x := by
      have heq := handles_eq ho'
      rw [Side.other_other] at heq
      rw [heq]
      exact List.mem_cons_of_mem _ hmem
    exact absurd (hI.owns.disjoint _ _ o hself (hI.outq ho).1) (by simp)

theorem reads (hI : Inv p) (hC : Continuing p) (hi : (p.pipe x.other).inpipe = some i)
    (ho : (p.pipe x).outpipe = some o) : i = o ∨ i ∈ hiccups (p.inbox x) := by
  obtain ⟨i', -, hi', hmem, -⟩ := hI.inq (hC.alive x.other)
  rw [hi, Option.some.injEq] at hi'
  rw [handles_eq ho, ← hi', List.mem_cons] at hmem
  exact hmem

theorem out_ne_out (hI : Inv p) {o' : Nat} (ho : (p.pipe x).outpipe = some o)
    (ho' : (p.pipe x.other).outpipe = some o') : o' ≠ o := by
  rintro rfl
  have h := (hI.outq ho').1
  rw [Side.other_other] at h
  exact absurd (hI.owns.disjoint _ _ o' h (hI.outq ho).1) (by simp)

theorem called (hI : Inv p) (hC : Continuing p) {inq inq' : UPipe}
    {outq outq' : Option UPipe} {pipe : Pipe} {cmds : List Command} {asked : Side → Bool}
    (hin : (p.pipe x).inpipe = some i) (hinq : p.heap i = some inq)
    (houtq : (p.pipe x).outpipe.bind p.heap = outq)
    (hcalls : Pipe.Calls (p.pipe x) inq outq false pipe inq' outq' cmds) :
    Continuing (p.afterCall x i inq' outq' pipe cmds asked) ∧
      ∀ y hwm lost, 0 < hwm → hwm < 2 ^ 64 → Leaks p y hwm lost →
        Leaks (p.afterCall x i inq' outq' pipe cmds asked) y hwm lost := by
  obtain ⟨o, q, ho, hq, hgood⟩ := hC.writes hI x
  have hio : i ≠ o := hI.in_ne_out (hC.alive x) hin ho
  have houtq' : outq = some q := by
    rw [← houtq, ho, Option.bind_some, hq]
  obtain ⟨hactive, hcmds, hplain⟩ := hcalls.active (hC.active x) (hC.plain i inq hinq)
  obtain ⟨q', rfl, hplain'⟩ := hcalls.plain houtq' hgood (hC.plain o q hq)
  have hout : pipe.outpipe = some o := by
    rcases hcalls.keeps with ⟨hout, -⟩ | ⟨-, -, hack⟩
    · rw [hout, ho]
    · rw [hactive] at hack
      exact absurd hack (by simp [PipeState.sentAck])
  have hheap : (p.afterCall x i inq' (some q') pipe cmds asked).heap =
      Function.update (Function.update p.heap i (some inq')) o (some q') := by
    simp [afterCall, store, ho]
  have hhiccups : ∀ y, hiccups ((p.afterCall x i inq' (some q') pipe cmds asked).inbox y) =
      hiccups (p.inbox y) := by
    refine (Side.forall_iff x).2 ⟨by rw [afterCall_inbox_self], ?_⟩
    rw [afterCall_inbox_other, hiccups_append, hcalls.hiccups_eq, List.append_nil]
  refine ⟨⟨fun y => ?_, (Side.forall_iff x).2 ⟨?_, ?_⟩, (Side.forall_iff x).2 ⟨?_, ?_⟩,
    fun h b hb => ?_, fun y h b hh hb => ?_⟩, (Side.forall_iff x).2 ⟨?_, ?_⟩⟩
  · rw [afterCall_dead]
    exact hC.alive y
  · rw [afterCall_pipe_self]
    exact hactive
  · rw [afterCall_pipe_other]
    exact hC.active x.other
  · rw [afterCall_inbox_self]
    exact hC.unended x
  · have hnone : ∀ c, c = .pipeTerm ∨ c = .pipeTermAck → c ∉ cmds := by
      rintro c hc hmem
      rcases hcmds c hmem with rfl | ⟨n, rfl⟩ <;> simp at hc
    rw [afterCall_inbox_other, List.mem_append, List.mem_append]
    exact ⟨not_or.2 ⟨(hC.unended _).1, hnone _ (Or.inl rfl)⟩,
      not_or.2 ⟨(hC.unended _).2, hnone _ (Or.inr rfl)⟩⟩
  · rw [hheap] at hb
    grind [hC.plain]
  · rw [hhiccups] at hh
    have hho : h ≠ o := by
      rintro rfl
      exact hC.unshared hI ho y hh
    rw [hheap, Function.update_of_ne hho] at hb
    grind [hcalls.empty, hC.unused]
  · rintro hwm lost hpos hlt ⟨q₀, hq₀, ha⟩
    rw [writing, ho, Option.bind_some, hq, Option.some.injEq] at hq₀
    subst hq₀
    obtain ⟨q₁, hq₁, ha'⟩ := hcalls.accounts_writer hpos hlt houtq' hgood ha
    rw [Option.some.injEq] at hq₁
    subst hq₁
    refine ⟨q', ?_, ?_⟩
    · rw [writing, afterCall_pipe_self, hout, Option.bind_some, hheap, Function.update_self]
    · rw [afterCall_pipe_self, afterCall_pipe_other, afterCall_inbox_self]
      exact ha'
  · rintro hwm lost hpos hlt ⟨q₀, hq₀, ha⟩
    obtain ⟨o', -, ho', -⟩ := hC.writes hI x.other
    have hoo : o' ≠ o := out_ne_out hI ho ho'
    rw [writing, ho', Option.bind_some] at hq₀
    rw [Side.other_other] at ha
    have hreads := hC.reads hI (x := x.other) (by rw [Side.other_other]; exact hin) ho'
    rw [Leaks, writing, afterCall_pipe_other, ho', Option.bind_some, hheap,
      Function.update_of_ne hoo, Side.other_other, afterCall_pipe_self, afterCall_inbox_other]
    rcases hreads with rfl | hunheard
    · grind [hcalls.accounts_reader, hC.active, hC.plain]
    · -- the writer is still in an older pipe, and there is nothing to read yet
      have hempty := hC.unused x.other i inq hunheard hinq
      have hio' : o' ≠ i := by
        rintro rfl
        exact hC.unshared hI ho' x.other hunheard
      have hnone := YPipe.complete_of_empty hempty
      have hnone' := YPipe.complete_of_empty (hcalls.empty hempty)
      rw [Function.update_of_ne hio']
      refine ⟨q₀, hq₀, ?_⟩
      have ha₀ : Accounts hwm (q₀.complete + lost) (p.pipe x.other) (p.pipe x) (p.inbox x.other)
          inq := ha.shift (by omega)
      exact (hcalls.accounts_reader hpos (hC.active x) (hC.plain i inq hinq) ha₀).shift (by omega)

theorem hiccuped (hI : Inv p) (hC : Continuing p) :
    Continuing (p.hiccuped x) ∧
      ∀ y hwm lost, Leaks p y hwm lost → Leaks (p.hiccuped x) y hwm lost := by
  have hheap : (p.hiccuped x).heap = Function.update p.heap p.fresh (some .init) := rfl
  have hself : (p.hiccuped x).inbox x = p.inbox x := by
    simp [PipePair.hiccuped]
  have hother : (p.hiccuped x).inbox x.other = p.inbox x.other ++ [.hiccup p.fresh] := by
    simp [PipePair.hiccuped]
  have hpipe : (p.hiccuped x).pipe x = { p.pipe x with inpipe := some p.fresh, inActive := true } := by
    simp [PipePair.hiccuped]
  have hpipe' : (p.hiccuped x).pipe x.other = p.pipe x.other := by
    simp [PipePair.hiccuped]
  have houtpipe : ∀ y, ((p.hiccuped x).pipe y).outpipe = (p.pipe y).outpipe :=
    (Side.forall_iff x).2 ⟨by rw [hpipe], by rw [hpipe']⟩
  have hwriting : ∀ y q, p.writing y = some q → (p.hiccuped x).writing y = some q := by
    intro y q hq
    obtain ⟨o, -, ho, -⟩ := hC.writes hI y
    have hne : o ≠ p.fresh := Nat.ne_of_lt (hI.owns.below _ o (hI.outq ho).1)
    rw [writing, ho, Option.bind_some] at hq
    rw [writing, houtpipe, ho, Option.bind_some, hheap, Function.update_of_ne hne, hq]
  refine ⟨⟨hC.alive, (Side.forall_iff x).2 ⟨?_, ?_⟩, (Side.forall_iff x).2 ⟨?_, ?_⟩,
    fun h b hb => ?_, fun y h b hh hb => ?_⟩, (Side.forall_iff x).2 ⟨?_, ?_⟩⟩
  · rw [hpipe]
    exact hC.active x
  · rw [hpipe']
    exact hC.active x.other
  · rw [hself]
    exact hC.unended x
  · rw [hother]
    simpa using hC.unended x.other
  · rw [hheap] at hb
    grind [YPipe.Plain, YPipe.init, hC.plain]
  · rw [hheap] at hb
    rcases eq_or_ne h p.fresh with rfl | hne
    · rw [Function.update_self, Option.some.injEq] at hb
      rw [← hb]
      rfl
    · rw [Function.update_of_ne hne] at hb
      have hold : h ∈ hiccups (p.inbox y) := by
        revert hh
        revert y
        refine (Side.forall_iff x).2 ⟨by rw [hself]; exact id, ?_⟩
        rw [hother]
        simp [hne]
      exact hC.unused y h b hold hb
  · rintro hwm lost ⟨q, hq, ha⟩
    refine ⟨q, hwriting x q hq, ?_⟩
    rw [hpipe, hpipe', hself]
    exact ha.congr rfl rfl rfl rfl rfl rfl rfl rfl
  · rintro hwm lost ⟨q, hq, ha⟩
    refine ⟨q, hwriting x.other q hq, ?_⟩
    rw [Side.other_other] at ha ⊢
    rw [hpipe, hpipe', hother]
    exact ha.congr rfl rfl rfl rfl rfl rfl (by simp [credits]) rfl

theorem processed (hC : Continuing p) {c : Command} (pipe : Pipe)
    (hbox : p.inbox x = c :: rest) (hstate : pipe.state = (p.pipe x).state)
    (hout : pipe.outpipe = (p.pipe x).outpipe) :
    Continuing ({ p with inbox := Function.update p.inbox x rest }.after x pipe []) ∧
      ∀ y, ({ p with inbox := Function.update p.inbox x rest }.after x pipe []).writing y =
        p.writing y := by
  have hsub : ∀ y c', c' ∈ ({ p with inbox := Function.update p.inbox x rest }.after x pipe []).inbox y →
      c' ∈ p.inbox y := by
    refine (Side.forall_iff x).2 ⟨fun c' hc' => ?_, fun c' hc' => ?_⟩
    · grind [after_inbox_self]
    · simpa using hc'
  have hhiccups : ∀ y h,
      h ∈ hiccups (({ p with inbox := Function.update p.inbox x rest }.after x pipe []).inbox y) →
        h ∈ hiccups (p.inbox y) := by
    intro y h hh
    simp only [hiccups, List.mem_filterMap] at hh ⊢
    obtain ⟨c', hc', he⟩ := hh
    exact ⟨c', hsub y c' hc', he⟩
  refine ⟨⟨hC.alive, (Side.forall_iff x).2 ⟨?_, ?_⟩, fun y => ?_, hC.plain, fun y h b hh hb => ?_⟩,
    (Side.forall_iff x).2 ⟨?_, ?_⟩⟩
  · rw [after_pipe_self, hstate]
    exact hC.active x
  · rw [after_pipe_other]
    exact hC.active x.other
  · grind [hC.unended]
  · exact hC.unused y h b (hhiccups y h hh) hb
  · rw [writing, after_pipe_self, hout]
    rfl
  · rw [writing, after_pipe_other]
    rfl

theorem replaced (hI : Inv p) (hC : Continuing p)
    (hbox : p.inbox x = .hiccup h :: rest) (hout : (p.pipe x).outpipe = some o) :
    Continuing (p.replaced x rest o h) ∧
      ∀ y hwm lost, Leaks p y hwm lost →
        Leaks (p.replaced x rest o h) y hwm (lost + drops y p (.process x)) := by
  obtain ⟨hcont, -⟩ := hC.processed (p.pipe x) hbox rfl rfl
  have hheap : (p.replaced x rest o h).heap = Function.update p.heap o none := rfl
  have hinbox : ∀ y, (p.replaced x rest o h).inbox y =
      ({ p with inbox := Function.update p.inbox x rest }.after x (p.pipe x) []).inbox y :=
    fun _ => rfl
  have hself : (p.replaced x rest o h).inbox x = rest := by
    simp [PipePair.replaced]
  have hother : (p.replaced x rest o h).inbox x.other = p.inbox x.other := by
    simp [PipePair.replaced]
  have hpipe : (p.replaced x rest o h).pipe x =
      { p.pipe x with outpipe := some h, outActive := true } := by
    simp [PipePair.replaced]
  have hpipe' : (p.replaced x rest o h).pipe x.other = p.pipe x.other := by
    simp [PipePair.replaced]
  have hheapOf : ∀ a b, (p.replaced x rest o h).heap a = some b → p.heap a = some b := by
    intro a b hb
    rw [hheap] at hb
    grind
  refine ⟨⟨hC.alive, (Side.forall_iff x).2 ⟨?_, ?_⟩, fun y => ?_, fun a b hb => ?_,
    fun y a b ha hb => ?_⟩, (Side.forall_iff x).2 ⟨?_, ?_⟩⟩
  · rw [hpipe]
    exact hC.active x
  · rw [hpipe']
    exact hC.active x.other
  · rw [hinbox]
    exact hcont.unended y
  · exact hC.plain a b (hheapOf a b hb)
  · rw [hinbox] at ha
    exact hcont.unused y a b ha (hheapOf a b hb)
  · rintro hwm lost ⟨q, hq, ha⟩
    -- the new pipe is live and nothing was written to it
    have hmem : h ∈ p.handles x.other := by
      rw [handles_eq hout, hbox]
      simp
    obtain ⟨b, hb, -⟩ := hI.owns.get hmem
    have hhiccup : h ∈ hiccups (p.inbox x) := by
      simp [hbox]
    have hne : h ≠ o := by
      rintro rfl
      exact hC.unshared hI hout x hhiccup
    have hnone := YPipe.complete_of_empty (hC.unused x h b hhiccup hb)
    have hdrops : drops x p (.process x) = q.complete := by
      simp [drops, hbox, hq]
    refine ⟨b, ?_, ?_⟩
    · rw [writing, hpipe, Option.bind_some, hheap, Function.update_of_ne hne, hb]
    · rw [hpipe, hpipe', hself, hdrops]
      rw [hbox] at ha
      have ha' : Accounts hwm lost { p.pipe x with outpipe := some h, outActive := true }
          (p.pipe x.other) rest q :=
        ha.reopen.congr rfl rfl rfl rfl rfl rfl (by simp [credits]) rfl
      exact ha'.shift (by omega)
  · rintro hwm lost ⟨q, hq, ha⟩
    obtain ⟨o', -, ho', -⟩ := hC.writes hI x.other
    have hdrops : drops x.other p (.process x) = 0 := by
      simp only [drops, hbox]
      split
      · rw [if_neg (Side.ne_other x)]
      · rfl
    rw [writing, ho', Option.bind_some] at hq
    rw [Leaks, writing, hpipe', ho', Option.bind_some, hheap,
      Function.update_of_ne (out_ne_out hI hout ho'), hdrops, Side.other_other, hpipe, hother]
    rw [Side.other_other] at ha
    exact ⟨q, hq, ha.congr rfl rfl rfl rfl rfl rfl rfl rfl⟩

theorem effect (hI : Inv p) (hC : Continuing p) (hop : op.continues = true)
    (hquiet : ∀ x h rest, op = .process x → p.inbox x ≠ .hiccup h :: rest)
    (h : Effect p op p') :
    Continuing p' ∧ ∀ y hwm lost, 0 < hwm → hwm < 2 ^ 64 → Leaks p y hwm lost →
      Leaks p' y hwm lost := by
  cases h with
  | idle => exact ⟨hC, fun _ _ _ _ _ => id⟩
  | @called op x i inq inq' outq outq' ends pipe cmds halive hin hinq houtq hcalls hends =>
    cases ends with
    | false => exact hC.called hI hin hinq houtq hcalls
    | true => grind [PairOp.continues]
  | hiccup halive hs => grind [hC.hiccuped]
  | @activateRead x rest hbox =>
    obtain ⟨b, hb⟩ := (p.pipe x).processActivateRead_eq
    rw [hb]
    obtain ⟨hcont, hwriting⟩ := hC.processed { p.pipe x with inActive := b } hbox rfl rfl
    refine ⟨hcont, (Side.forall_iff x).2 ⟨?_, ?_⟩⟩
    · rintro hwm lost - - ⟨q, hq, ha⟩
      refine ⟨q, (hwriting _).trans hq, ?_⟩
      rw [after_pipe_self, after_pipe_other, after_inbox_self]
      exact ha.congr rfl rfl rfl rfl rfl rfl (by simp [hbox]) rfl
    · rintro hwm lost - - ⟨q, hq, ha⟩
      refine ⟨q, (hwriting _).trans hq, ?_⟩
      rw [Side.other_other] at ha ⊢
      rw [after_pipe_self, after_pipe_other, after_inbox_other]
      exact ha.congr rfl rfl rfl rfl rfl rfl (by simp) rfl
  | @activateWrite x n rest hbox =>
    obtain ⟨b, hb⟩ := (p.pipe x).processActivateWrite_eq n
    obtain ⟨hcont, hwriting⟩ :=
      hC.processed ((p.pipe x).processActivateWrite n).2 hbox (by rw [hb]) (by rw [hb])
    refine ⟨hcont, (Side.forall_iff x).2 ⟨?_, ?_⟩⟩
    · rintro hwm lost - - ⟨q, hq, ha⟩
      rw [hbox] at ha
      refine ⟨q, (hwriting _).trans hq, ?_⟩
      rw [after_pipe_self, after_pipe_other, after_inbox_self]
      simpa using ha.hear (hC.active x)
    · rintro hwm lost - - ⟨q, hq, ha⟩
      refine ⟨q, (hwriting _).trans hq, ?_⟩
      rw [Side.other_other] at ha ⊢
      rw [after_pipe_self, after_pipe_other, after_inbox_other, hb]
      exact ha.congr rfl rfl rfl rfl rfl rfl (by simp) rfl
  | replace hbox => exact absurd hbox (hquiet _ _ _ rfl)
  | @pipeTerm x rest pipe cmds hbox => exact absurd (by simp [hbox]) (hC.unended x).1
  | @pipeTermAck x rest i pipe cmds hbox => exact absurd (by simp [hbox]) (hC.unended x).2

theorem process_hiccup (hI : Inv p) (hC : Continuing p) (hbox : p.inbox x = .hiccup h :: rest) :
    ∃ o, (p.pipe x).outpipe = some o ∧ p.step (.process x) = .ok (p.replaced x rest o h) := by
  obtain ⟨o, q, ho, hq, -⟩ := hC.writes hI x
  refine ⟨o, ho, ?_⟩
  simp [PipePair.step, process, hbox, hC.alive x, deliver, processHiccup, Pipe.processHiccup, ho, deref,
    hq, release, PipePair.replaced]

theorem step (hI : Inv p) (hC : Continuing p) (hop : op.continues = true)
    (hs : p.step op = .ok p') :
    Continuing p' ∧ ∀ y hwm lost, 0 < hwm → hwm < 2 ^ 64 → Leaks p y hwm lost →
      Leaks p' y hwm (lost + drops y p op) := by
  by_cases hhiccup : ∃ x h rest, op = .process x ∧ p.inbox x = .hiccup h :: rest
  · obtain ⟨x, h, rest, rfl, hbox⟩ := hhiccup
    obtain ⟨o, ho, hstep⟩ := hC.process_hiccup hI hbox
    rw [hs, Except.ok.injEq] at hstep
    subst hstep
    obtain ⟨hcont, hleaks⟩ := hC.replaced hI hbox ho
    exact ⟨hcont, fun y hwm lost _ _ => hleaks y hwm lost⟩
  · have hquiet : ∀ x h rest, op = .process x → p.inbox x ≠ .hiccup h :: rest :=
      fun x h rest he hbox => hhiccup ⟨x, h, rest, he, hbox⟩
    have hdrops : ∀ y, drops y p op = 0 := by
      intro y
      unfold drops
      grind
    obtain ⟨p₁, hp₁, heffect⟩ := hI.step_effect op
    rw [hs, Except.ok.injEq] at hp₁
    subst hp₁
    obtain ⟨hcont, hleaks⟩ := hC.effect hI hop hquiet heffect
    refine ⟨hcont, fun y hwm lost hpos hlt hL => ?_⟩
    rw [hdrops]
    exact hleaks y hwm lost hpos hlt hL

end Continuing

theorem run_leaks {hwms : Side → Nat} {delays : Side → Bool} {ops : List PairOp} {x : Side}
    (hpos : 0 < hwms x) (hlt : hwms x < 2 ^ 64) (hops : ∀ op ∈ ops, op.continues = true)
    (hrun : run step (init hwms delays) ops = .ok p) :
    Inv p ∧ Continuing p ∧ Leaks p x (hwms x) (lost x (init hwms delays) ops) := by
  have hstep : ∀ n p op p', Inv p ∧ Continuing p ∧ Leaks p x (hwms x) n → op.continues = true →
      step p op = .ok p' → Inv p' ∧ Continuing p' ∧ Leaks p' x (hwms x) (n + drops x p op) := by
    rintro n p op p' ⟨hI, hC, hL⟩ hop hs
    obtain ⟨p₁, hp₁, hI'⟩ := step_safe op hI
    rw [hs, Except.ok.injEq] at hp₁
    subst hp₁
    obtain ⟨hC', hL'⟩ := hC.step hI hop hs
    exact ⟨hI', hC', hL' x _ n hpos hlt hL⟩
  have h := run_invariant_counted (I := fun n p => Inv p ∧ Continuing p ∧ Leaks p x (hwms x) n)
    hstep ops 0 _ p ⟨inv_init hwms delays, continuing_init hwms delays, leaks_init hwms delays x⟩
    (runMeets_of_forall ops _ fun _ => hops) hrun
  rwa [Nat.zero_add] at h

/-! ## Without hiccups -/

def Unhiccuped (p : PipePair) : Prop := ∀ x, hiccups (p.inbox x) = []

theorem Unhiccuped.drops_eq_zero (h : Unhiccuped p) (x : Side) (op : PairOp) : drops x p op = 0 := by
  cases op with
  | process y =>
    have hy := h y
    simp only [drops]
    split
    next hbox _ => simp [hbox] at hy
    · rfl
  | _ => rfl

theorem Unhiccuped.effect (h : Unhiccuped p) (hC : Continuing p) {op : PairOp} (hop : op.flows = true)
    {p' : PipePair} (he : Effect p op p') : Unhiccuped p' := by
  have hrest : ∀ {x c rest}, p.inbox x = c :: rest → hiccups rest = [] := fun {x c rest} hbox => by
    have := h x
    rw [hbox] at this
    cases c <;> simp_all [hiccups]
  cases he with
  | idle => exact h
  | @called _ x _ _ _ _ _ _ _ _ _ _ _ _ hcalls =>
    refine (Side.forall_iff x).2 ⟨by simpa using h x, ?_⟩
    rw [afterCall_inbox_other, hiccups_append, hcalls.hiccups_eq, List.append_nil]
    exact h x.other
  | hiccup => exact absurd hop (by simp [PairOp.flows])
  | @activateRead x _ hbox => exact (Side.forall_iff x).2 ⟨by simpa using hrest hbox, by simpa using h _⟩
  | @activateWrite x _ _ hbox => exact (Side.forall_iff x).2 ⟨by simpa using hrest hbox, by simpa using h _⟩
  | @replace x _ _ _ hbox =>
    have := h x
    simp [hbox] at this
  | @pipeTerm x _ _ _ hbox => exact absurd (by simp [hbox]) (hC.unended x).1
  | @pipeTermAck x _ _ _ _ hbox => exact absurd (by simp [hbox]) (hC.unended x).2

theorem run_unhiccuped {hwms : Side → Nat} {delays : Side → Bool} {ops : List PairOp}
    (hops : ∀ op ∈ ops, op.flows = true) (hrun : run step (init hwms delays) ops = .ok p) (x : Side) :
    Unhiccuped p ∧ lost x (init hwms delays) ops = 0 := by
  have hstep : ∀ p op p', Inv p ∧ Continuing p ∧ Unhiccuped p → op.flows = true →
      step p op = .ok p' → Inv p' ∧ Continuing p' ∧ Unhiccuped p' := by
    rintro p op p' ⟨hI, hC, hU⟩ hop hs
    obtain ⟨p₁, hp₁, heffect⟩ := hI.step_effect op
    cases hs.symm.trans hp₁
    have hcont : op.continues = true := by cases op <;> first | rfl | cases hop
    exact ⟨hI.effect heffect, (hC.step hI hcont hs).1, hU.effect hC hop heffect⟩
  have hinit : Inv (init hwms delays) ∧ Continuing (init hwms delays) ∧ Unhiccuped (init hwms delays) :=
    ⟨inv_init hwms delays, continuing_init hwms delays, fun _ => rfl⟩
  have hmeets : RunMeets step _ (init hwms delays) ops := runMeets_of_forall ops _ fun _ => hops
  exact ⟨(run_invariant hstep ops _ _ hinit hmeets hrun).2.2,
    runCost_eq_zero (hmeets.mono_of_invariant hstep (fun _ _ hI _ => hI.2.2.drops_eq_zero x _) hinit)⟩

theorem run_tracks {hwms : Side → Nat} {delays : Side → Bool} {ops : List PairOp} {x : Side}
    (hpos : 0 < hwms x) (hlt : hwms x < 2 ^ 64) (hops : ∀ op ∈ ops, op.flows = true)
    (hrun : run step (init hwms delays) ops = .ok p) : Continuing p ∧
      ∃ q, p.reading x.other = some q ∧
        ∃ c : Credit (hwms x) (Due (hwms x)), Tracks (p.pipe x) (p.pipe x.other) (p.inbox x) q c := by
  obtain ⟨hunhiccuped, hlost⟩ := run_unhiccuped hops hrun x
  obtain ⟨hI, hC, q, hq, ha⟩ := run_leaks hpos hlt
    (fun op hop => by have := hops op hop; cases op <;> first | rfl | cases this) hrun
  rw [hlost] at ha
  refine ⟨hC, q, ?_, ha.tracks⟩
  rw [reading, ← hC.attached hI (hunhiccuped x)]
  exact hq

/-- **The high watermark.** -/
theorem watermark_bounds_and_releases {hwms : Side → Nat} {delays : Side → Bool}
    {ops : List PairOp} {x : Side} (hpos : 0 < hwms x) (hint : hwms x < 2 ^ 31)
    (hops : ∀ op ∈ ops, op.flows = true) (hrun : run step (init hwms delays) ops = .ok p) :
    ∃ q, p.reading x.other = some q ∧ q.complete ≤ hwms x ∧
      (q.complete = 0 → (∀ n, .activateWrite n ∉ p.inbox x) →
        (p.pipe x).checkWrite.1 = true ∧ (p.pipe x).outActive = true) := by
  have hlt : hwms x < 2 ^ 64 := by omega
  obtain ⟨hC, q, hq, c, ht⟩ := run_tracks hpos hlt hops hrun
  have hqueue := ht.queue
  have houtstanding := c.outstanding_le
  refine ⟨q, hq, by omega, fun hnone hheard => ?_⟩
  have hflight : c.inFlight = [] := by
    rw [← List.map_eq_nil_iff (f := (· % 2 ^ 64)), ← ht.inFlight]
    exact credits_eq_nil hheard
  obtain ⟨hroom, hopen⟩ := c.open_of_idle (due_soon hpos hlt)
    (Pipe.computeLwm_bounds hpos).2 (by omega) hflight
  have hactive : (p.pipe x).outActive = true := by
    rw [ht.outActive, hopen]
    rfl
  refine ⟨?_, hactive⟩
  have hfull : (p.pipe x).full = false := by
    rw [← Bool.not_eq_true, ht.full_iff hpos hlt]
    omega
  simp [Pipe.checkWrite, hactive, hC.active x, hfull]

def fillAndDrain : List PairOp :=
  [.write .left 0 [1], .write .left 0 [2], .flush .left, .read .right, .process .left]

theorem fillAndDrain_releases :
    ∃ p, run step (init (fun _ => 1) (fun _ => false)) fillAndDrain = .ok p ∧
      (p.pipe .left).checkWrite.1 = true ∧ (p.pipe .left).outActive = true := by
  have hrun : run step (init (fun _ => 1) (fun _ => false)) fillAndDrain = .ok _ := rfl
  obtain ⟨q, hq, -, hreleases⟩ :=
    watermark_bounds_and_releases (x := .left) (by decide) (by decide) (by decide) hrun
  refine ⟨_, hrun, hreleases ?_ fun n => ?_⟩
  · rw [← Option.some.inj hq]
    rfl
  · exact List.not_mem_nil

/-! ## With hiccups -/

def unreported (p : PipePair) (x : Side) : Nat :=
  Pipe.sub64 (p.pipe x.other).msgsRead (p.pipe x).peersMsgsRead

def DropsNothing (x : Side) (p : PipePair) (op : PairOp) : Prop := drops x p op = 0

instance (x : Side) (p : PipePair) (op : PairOp) : Decidable (DropsNothing x p op) :=
  inferInstanceAs (Decidable (drops x p op = 0))

/-- **Hiccups leak credit.** -/
theorem hiccup_leaks_credit {hwms : Side → Nat} {delays : Side → Bool} {ops : List PairOp} {x : Side}
    (hpos : 0 < hwms x) (hint : hwms x < 2 ^ 31) (hops : ∀ op ∈ ops, op.continues = true)
    (hrun : run step (init hwms delays) ops = .ok p) (hheard : p.inbox x = []) {q : UPipe}
    (hq : p.reading x.other = some q) (hread : q.complete = 0) :
    ((p.pipe x).checkWrite.1 = true ↔
        lost x (init hwms delays) ops + p.unreported x < hwms x) ∧
      (RunMeets step (DropsNothing x) (init hwms delays) ops →
        (p.pipe x).checkWrite.1 = true) := by
  have hlt : hwms x < 2 ^ 64 := by omega
  obtain ⟨hI, hC, q₀, hq₀, v, hv, c, ht⟩ := run_leaks hpos hlt hops hrun
  have hsame := hC.attached hI (by rw [hheard]; rfl : hiccups (p.inbox x) = [])
  have hqq : q₀ = q := by
    rw [writing, hsame] at hq₀
    exact Option.some.inj (hq₀.symm.trans hq)
  have hqueue := ht.queue
  rw [hv, hqq, hread, Nat.zero_add] at hqueue
  have hflight : c.inFlight = [] := by
    rw [← List.map_eq_nil_iff (f := (· % 2 ^ 64)), ← ht.inFlight, hheard]
    rfl
  have hwithin := c.within
  have hacked := c.acked_le_read
  have hiff : (p.pipe x).checkWrite.1 = true ↔ c.written ≠ c.acked + hwms x := by
    rw [Ne, ← ht.full_iff hpos hlt]
    have hopen : (p.pipe x).full = false → (p.pipe x).outActive = true := by
      intro hfull
      rw [ht.outActive]
      cases hb : c.blocked with
      | false => rfl
      | true =>
        rw [← Bool.not_eq_true, ht.full_iff hpos hlt] at hfull
        exact absurd (c.full hb) hfull
    grind [Pipe.checkWrite, hC.active]
  have hunreported : p.unreported x = c.read - c.acked := by
    rw [unreported, Pipe.sub64, ht.read, ht.acked]
    omega
  refine ⟨?_, fun hmeets => ?_⟩
  · rw [hiff, hunreported]
    omega
  · have hnone : lost x (init hwms delays) ops = 0 := runCost_eq_zero hmeets
    obtain ⟨hroom, -⟩ := c.open_of_idle (due_soon hpos hlt) (Pipe.computeLwm_bounds hpos).2
      (by omega) hflight
    rw [hiff]
    omega

def readAndReconnect : List PairOp :=
  [.write .left 0 [1], .flush .left, .read .right, .hiccup .right, .process .left, .process .left]

theorem readAndReconnect_releases :
    ∃ p, run step (init (fun _ => 1) (fun _ => false)) readAndReconnect = .ok p ∧
      (p.pipe .left).checkWrite.1 = true := by
  have hrun : run step (init (fun _ => 1) (fun _ => false)) readAndReconnect = .ok _ := rfl
  have hmeets : RunMeets step (DropsNothing .left) (init (fun _ => 1) (fun _ => false))
      readAndReconnect := by
    decide
  exact ⟨_, hrun, (hiccup_leaks_credit (x := .left) (by decide) (by decide) (by decide) hrun rfl rfl
    rfl).2 hmeets⟩

def reconnectTwice : List PairOp :=
  [.write .left 0 [1], .flush .left, .hiccup .right, .process .left,
   .write .left 0 [2], .flush .left, .hiccup .right, .process .left]

theorem reconnectTwice_blocks :
    ∃ p q, run step (init (fun _ => 2) (fun _ => false)) reconnectTwice = .ok p ∧
      p.inbox .left = [] ∧ p.inbox .right = [] ∧ p.reading .right = some q ∧ q.queue = [] ∧
      (p.pipe .left).checkWrite.1 = false :=
  ⟨_, _, rfl, rfl, rfl, rfl, rfl, rfl⟩

end PipePair

end Libxs
