import Libxs.Pipe.Safety
import Libxs.YPipe.Channel

/-! # Pipes deliver whole messages -/

namespace Libxs

/-! ## Parts in a pipe -/

namespace YPipe

variable {q : UPipe}

def parts (q : UPipe) : List Msg := q.ready.filter fun m => !m.isDelimiter

def readable (q : UPipe) : List Msg := q.flushed.filter fun m => !m.isDelimiter

theorem WF.readable_le_parts (h : q.WF) : q.readable <+: q.parts := h.flushed_le_ready.filter _

theorem parts_write_true (h : q.WF) (m : Msg) :
    (q.write m true).parts = q.parts ∧ (q.write m true).incomplete = q.incomplete ++ [m] := by
  obtain ⟨hready, hinc⟩ := h.content_write_true m
  exact ⟨by rw [parts, hready, parts], hinc⟩

theorem parts_write_false {m : Msg} (hplain : ∀ m' ∈ q.incomplete ++ [m], m'.isDelimiter = false) :
    (q.write m false).parts = q.parts ++ (q.incomplete ++ [m]) ∧
      (q.write m false).incomplete = [] := by
  obtain ⟨hready, hinc⟩ := content_write_false q m
  refine ⟨?_, hinc⟩
  have hkeep : (q.incomplete ++ [m]).filter (fun m => !m.isDelimiter) = q.incomplete ++ [m] := by
    rw [List.filter_eq_self]
    intro m' hm'
    simp [hplain m' hm']
  rw [parts, hready, List.append_assoc, List.filter_append, hkeep, parts]

theorem parts_flush (h : q.WF) :
    q.flush.2.parts = q.parts ∧ q.flush.2.incomplete = q.incomplete := by
  obtain ⟨-, hready, hinc⟩ := h.content_flush
  exact ⟨by rw [parts, hready, parts], hinc⟩

theorem parts_rolledBack (h : q.WF) :
    q.rolledBack.parts = q.parts ∧ q.rolledBack.incomplete = [] := by
  have hlen := h.length_ready
  refine ⟨?_, ?_⟩
  · simp only [parts, ready, rolledBack]
    rw [List.take_take, Nat.min_self]
  · grind [incomplete, rolledBack]

theorem parts_closing (h : q.Good) :
    (Pipe.closing q).flush.2.parts = q.parts ∧ (Pipe.closing q).flush.2.incomplete = [] := by
  have hgood := h.rolledBack
  obtain ⟨hparts, hinc⟩ := parts_rolledBack h.wf
  obtain ⟨hready, hinc'⟩ := content_write_false q.rolledBack Msg.initDelimiter
  obtain ⟨hflush, hflush'⟩ := parts_flush (hgood.wf.write Msg.initDelimiter false)
  refine ⟨?_, hflush'.trans hinc'⟩
  rw [← hparts, Pipe.closing, hflush, parts, hready, hinc, List.append_nil, List.filter_append, parts]
  simp [Msg.initDelimiter]

theorem parts_popped (h : q.WF) {v : Msg} {rest : List Msg} (hq : q.queue = v :: rest) (r : Nat)
    (hlt : q.front < q.w) :
    q.parts = (if v.isDelimiter then [] else [v]) ++ (q.popped rest r).parts ∧
      (q.popped rest r).incomplete = q.incomplete := by
  obtain ⟨-, hready, hinc⟩ := h.content_popped hq r hlt
  refine ⟨?_, hinc⟩
  rw [parts, hready, List.filter_cons, parts]
  cases v.isDelimiter <;> rfl

end YPipe

/-! ## What a method moves -/

namespace Pipe

variable {p p' : Pipe} {inq inq' : UPipe} {outq outq' : Option UPipe} {cmds : List Command}
variable {b : Bool}

theorem read_parts (hin : inq.WF) {msg : Option Msg}
    (h : p.read inq = .ok (msg, p', inq', cmds)) :
    inq.parts = msg.toList ++ inq'.parts ∧ inq'.incomplete = inq.incomplete := by
  unfold read at h
  split at h
  · cases h
    exact ⟨rfl, rfl⟩
  · rcases YPipe.read_cases hin with ⟨hlt, v, rest, r, hq, -, -, he⟩ | ⟨-, r, he, -⟩
    · obtain ⟨hparts, hinc⟩ := YPipe.parts_popped hin hq r hlt
      rw [he] at h
      simp only at h
      split at h
      next hd => grind
      next hd => grind
    · rw [he] at h
      cases h
      exact ⟨rfl, rfl⟩

theorem checkRead_parts (hin : inq.WF) (h : p.checkRead inq = .ok (b, p', inq', cmds)) :
    inq'.parts = inq.parts ∧ inq'.incomplete = inq.incomplete := by
  unfold checkRead at h
  split at h
  · cases h
    exact ⟨rfl, rfl⟩
  · rcases YPipe.checkRead_cases hin with ⟨hlt, r, he, h1, h2⟩ | ⟨-, r, he, -⟩
    · obtain ⟨v, rest, hq⟩ := hin.queue_cons hlt
      have hprobe := YPipe.probe_prefetched (q := { inq with r := some r }) rfl h1 hq (·.isDelimiter)
      have hread := YPipe.read_prefetched (q := { inq with r := some r }) rfl h1 hq
      obtain ⟨hparts, hinc⟩ := YPipe.parts_popped hin hq r hlt
      simp only [he, hprobe] at h
      cases hd : v.isDelimiter with
      | false =>
        simp only [hd] at h
        cases h
        exact ⟨rfl, rfl⟩
      | true =>
        simp only [hd, hread] at h
        rw [if_pos hd] at hparts
        split at h
        · cases h
        · cases h
          exact ⟨hparts.symm, hinc⟩
    · rw [he] at h
      cases h
      exact ⟨rfl, rfl⟩

theorem Calls.terminated (h : Calls p inq outq false p' inq' outq' cmds)
    (hs : p'.state = .terminated) : p.state = .terminated := by
  cases h with
  | take => rwa [took_state] at hs
  | write => rwa [wrote_state] at hs
  | delimit => exact absurd hs (by simp)
  | finish => exact absurd hs (by simp)
  | _ => exact hs

structure Moves (inq : UPipe) (outq : Option UPipe) (p' : Pipe) (inq' : UPipe)
    (outq' : Option UPipe) (sent : List (List Msg)) (current got : List Msg) : Prop where
  got : inq.parts = got ++ inq'.parts
  kept : inq'.incomplete = inq.incomplete
  idle : outq = none → sent = []
  sent : ∀ q, outq = some q → ∃ q', outq' = some q' ∧ q'.parts = q.parts ++ sent.flatten ∧
    (p'.outpipe ≠ none → q'.incomplete = current)
  plain : ∀ m ∈ current, m.isDelimiter = false
  closed : p'.state = .terminated → current = []

theorem Moves.inbound {current got : List Msg} (hgot : inq.parts = got ++ inq'.parts)
    (hkept : inq'.incomplete = inq.incomplete)
    (hcurrent : ∀ q, outq = some q → q.incomplete = current)
    (hplain : ∀ m ∈ current, m.isDelimiter = false)
    (hclosed : p'.state = .terminated → current = []) :
    Moves inq outq p' inq' outq [] current got :=
  ⟨hgot, hkept, fun _ => rfl, fun q hq => ⟨q, hq, by simp, fun _ => hcurrent q hq⟩, hplain, hclosed⟩

theorem write_result {msg : Msg} (h : p.write outq msg = .ok (b, p', outq')) :
    b = p.checkWrite.1 ∧ (b = false → outq' = outq) ∧
      (b = true → ∃ q, outq = some q ∧ outq' = some (q.write msg msg.more)) := by
  unfold write at h
  grind

theorem Calls.moves_end (h : Calls p inq outq true p' inq' outq' cmds)
    (hout : ∀ q, outq = some q → q.Good) (hnone : p.state.sentAck = true → p.outpipe = none)
    (hclosed : ∀ q, p.state = .terminated → outq = some q → q.incomplete = []) :
    Moves inq outq p' inq' outq' [] [] [] := by
  have hmoves : ∀ q q', outq = some q → outq' = some q' → q'.parts = q.parts →
      (p'.outpipe ≠ none → q'.incomplete = []) → ∃ q', outq' = some q' ∧
        q'.parts = q.parts ++ ([] : List (List Msg)).flatten ∧
        (p'.outpipe ≠ none → q'.incomplete = []) := by
    intro q q' _ hq' hparts hinc
    exact ⟨q', hq', by simpa using hparts, hinc⟩
  have hinq : inq' = inq := by
    cases h <;> rfl
  rw [hinq]
  refine ⟨rfl, rfl, fun _ => rfl, fun q hq => ?_, by simp, fun _ => rfl⟩
  cases h with
  | close delay hq' hs => grind [YPipe.parts_closing]
  | linger hq' hs => grind [YPipe.parts_closing]
  | giveUp hs => exact hmoves q q hq hq rfl fun hne => absurd rfl hne
  | ignore delay hs =>
    refine hmoves q q hq hq rfl fun hne => ?_
    rcases hs with hs | hs | hs
    · exact hclosed q hs hq
    · exact absurd (hnone (by rw [hs]; rfl)) hne
    · exact absurd (hnone (by rw [hs]; rfl)) hne

end Pipe

/-! ## The history of a pair -/

def PairOp.keepsPipes : PairOp → Bool
  | .hiccup _ => false
  | _ => true

namespace PipePair

def accepts (p : PipePair) (x : Side) : Bool := !p.dead x && (p.pipe x).checkWrite.1

def obtains (p : PipePair) (x : Side) : Option Msg :=
  if p.dead x then none
  else
    match p.deref (p.pipe x).inpipe with
    | .error _ => none
    | .ok inq =>
      match (p.pipe x).read inq with
      | .error _ => none
      | .ok (msg, _) => msg

end PipePair

structure Traffic where
  pair : PipePair
  completed : Side → List (List Msg)
  current : Side → List Msg
  obtained : Side → List Msg

namespace Traffic

def init (hwms : Side → Nat) (delays : Side → Bool) : Traffic :=
  ⟨.init hwms delays, fun _ => [], fun _ => [], fun _ => []⟩

def noted (t : Traffic) (x : Side) (sent : List (List Msg)) (current got : List Msg)
    (pair : PipePair) : Traffic where
  pair := pair
  completed := Function.update t.completed x (t.completed x ++ sent)
  current := Function.update t.current x current
  obtained := Function.update t.obtained x (t.obtained x ++ got)

def noteWrite (t : Traffic) (x : Side) (msg : Msg) (pair : PipePair) : Traffic :=
  if !t.pair.accepts x then t.noted x [] (t.current x) [] pair
  else if msg.more then t.noted x [] (t.current x ++ [msg]) [] pair
  else t.noted x [t.current x ++ [msg]] [] [] pair

def note (t : Traffic) (pair : PipePair) : PairOp → Traffic
  | .write x flags data => t.noteWrite x ⟨false, flags, data⟩ pair
  | .read x => t.noted x [] (t.current x) (t.pair.obtains x).toList pair
  | .rollback x | .terminate x _ => t.noted x [] [] [] pair
  | _ => { t with pair := pair }

def step (t : Traffic) (op : PairOp) : Except Fault Traffic :=
  match t.pair.step op with
  | .error e => .error e
  | .ok pair => .ok (t.note pair op)

structure Carries (gone : Bool) (pipe : Option UPipe) (writer : Pipe) (completed : List (List Msg))
    (current obtained : List Msg) : Prop where
  inOrder : obtained <+: completed.flatten
  parts : ∀ q, gone = false → pipe = some q → completed.flatten = obtained ++ q.parts
  unfinished : ∀ q, writer.outpipe ≠ none → pipe = some q → q.incomplete = current
  plain : ∀ m ∈ current, m.isDelimiter = false
  closed : writer.state = .terminated → current = []

namespace Carries

variable {gone : Bool} {pipe pipe' : Option UPipe} {writer writer' : Pipe}
  {completed sent : List (List Msg)} {current current' obtained got : List Msg}

theorem read {inq inq' : UPipe} (h : Carries false (some inq) writer completed current obtained)
    (hgot : inq.parts = got ++ inq'.parts) (hkept : inq'.incomplete = inq.incomplete) :
    Carries false (some inq') writer completed current (obtained ++ got) := by
  have hparts := h.parts inq rfl rfl
  rw [hgot, ← List.append_assoc] at hparts
  refine ⟨⟨_, hparts.symm⟩, ?_, ?_, h.plain, h.closed⟩
  · rintro q - ⟨⟩
    exact hparts
  · grind [h.unfinished]

theorem write {q q' : UPipe} (h : Carries gone (some q) writer completed current obtained)
    (hsent : q'.parts = q.parts ++ sent.flatten)
    (hcurrent : writer'.outpipe ≠ none → q'.incomplete = current')
    (hplain : ∀ m ∈ current', m.isDelimiter = false)
    (hclosed : writer'.state = .terminated → current' = []) :
    Carries gone (some q') writer' (completed ++ sent) current' obtained := by
  refine ⟨?_, ?_, ?_, hplain, hclosed⟩
  · grind [h.inOrder]
  · grind [h.parts]
  · rintro q hout ⟨⟩
    exact hcurrent hout

theorem weaken {gone' : Bool} (h : Carries gone pipe writer completed current obtained)
    (hpipe : gone' = false → gone = false ∧ pipe' = pipe)
    (hout : writer'.outpipe ≠ none → writer.outpipe ≠ none ∧ pipe' = pipe)
    (hplain : ∀ m ∈ current', m.isDelimiter = false)
    (hcurrent : writer'.outpipe ≠ none → current' = current)
    (hclosed : writer'.state = .terminated → current' = []) :
    Carries gone' pipe' writer' completed current' obtained := by
  refine ⟨h.inOrder, fun q hgone hq => ?_, fun q hne hq => ?_, hplain, hclosed⟩
  · grind [h.parts]
  · grind [h.unfinished]

end Carries

structure Inv (t : Traffic) : Prop where
  pair : PipePair.Inv t.pair
  calm : ∀ x, hiccups (t.pair.inbox x) = []
  carries : ∀ x, Carries (t.pair.dead x.other) (t.pair.reading x.other) (t.pair.pipe x)
    (t.completed x) (t.current x) (t.obtained x.other)

theorem inv_init (hwms : Side → Nat) (delays : Side → Bool) : Inv (init hwms delays) := by
  refine ⟨PipePair.inv_init hwms delays, fun _ => rfl, fun x => ?_⟩
  have hinit : ∀ q, (init hwms delays).pair.reading x.other = some q → q = YPipe.init := by
    intro q hq
    cases x <;> exact (Option.some.inj hq).symm
  refine ⟨List.prefix_rfl, fun q _ hq => ?_, fun q _ hq => ?_, by simp [init], fun _ => rfl⟩
  · rw [hinit q hq]
    rfl
  · rw [hinit q hq]
    rfl

namespace Inv

variable {t : Traffic} {x : Side}
variable {sent : List (List Msg)} {cmds rest : List Command} {current got : List Msg} {i : Nat}
variable {outq' : Option UPipe} {pipe : Pipe} {p' : PipePair} {inq inq' q : UPipe}

theorem attached (hI : Inv t) (hout : (t.pair.pipe x).outpipe ≠ none) :
    t.pair.dead x.other = false ∧ (t.pair.pipe x).outpipe = (t.pair.pipe x.other).inpipe := by
  have hack : t.pair.acked x = false := by
    rw [← Bool.not_eq_true, ← hI.pair.out x]
    exact hout
  have halive := hI.pair.peer_alive hack
  exact ⟨halive, hI.pair.attached halive hack (hI.calm x)⟩

theorem reading_of_outq (hI : Inv t) (hq : (t.pair.pipe x).outpipe.bind t.pair.heap = some q) :
    (t.pair.pipe x).outpipe ≠ none ∧ t.pair.reading x.other = some q := by
  have hne : (t.pair.pipe x).outpipe ≠ none := by
    intro hn
    rw [hn] at hq
    cases hq
  refine ⟨hne, ?_⟩
  rw [PipePair.reading, ← (hI.attached hne).2]
  exact hq

theorem current_eq (hI : Inv t)
    (hq : (t.pair.pipe x).outpipe.bind t.pair.heap = some q) : q.incomplete = t.current x := by
  obtain ⟨hne, hreading⟩ := hI.reading_of_outq hq
  exact (hI.carries x).unfinished q hne hreading

theorem called (hI : Inv t) (halive : t.pair.dead x = false) {outq : Option UPipe} {ends : Bool}
    {asked : Side → Bool}
    (hin : (t.pair.pipe x).inpipe = some i) (hinq : t.pair.heap i = some inq)
    (houtq : (t.pair.pipe x).outpipe.bind t.pair.heap = outq)
    (hcalls : Pipe.Calls (t.pair.pipe x) inq outq ends pipe inq' outq' cmds)
    (hmoves : Pipe.Moves inq outq pipe inq' outq' sent current got) :
    Inv (t.noted x sent current got (t.pair.afterCall x i inq' outq' pipe cmds asked)) := by
  have hself : (t.pair.afterCall x i inq' outq' pipe cmds asked).reading x = some inq' :=
    hI.pair.reading_self halive hin hcalls.inpipe_eq
  have hreading : t.pair.reading x = some inq := by
    simp [PipePair.reading, hin, hinq]
  have hdir := hI.carries x
  have hdir' := hI.carries x.other
  rw [Side.other_other, hreading, halive] at hdir'
  refine ⟨hI.pair.called halive hinq houtq hcalls, (Side.forall_iff x).2 ⟨?_, ?_⟩,
    (Side.forall_iff x).2 ⟨?_, ?_⟩⟩
  · simpa [noted] using hI.calm x
  · simpa [noted, hcalls.hiccups_eq] using hI.calm x.other
  · simp only [noted, PipePair.afterCall_dead, PipePair.afterCall_pipe_self, Function.update_self,
      ne_eq, Side.other_ne, not_false_eq_true, Function.update_of_ne]
    by_cases hne : (t.pair.pipe x).outpipe = none
    · -- nothing can be sent any more
      have hnone : outq = none := by
        rw [← houtq, hne]
        rfl
      have hout : pipe.outpipe = none := by
        rcases hcalls.keeps with hk | hk
        · rw [hk.1, hne]
        · exact hk.1
      rw [hmoves.idle hnone, List.append_nil]
      refine hdir.weaken (fun halive' => ⟨halive', ?_⟩) (fun h => absurd hout h) hmoves.plain
        (fun h => absurd hout h) hmoves.closed
      obtain ⟨j, -, hj, -⟩ := hI.pair.inq halive'
      exact hI.pair.reading_unfed halive halive' hin (by rw [hne, hj]; simp)
    · obtain ⟨halive', hsame⟩ := hI.attached hne
      obtain ⟨j, q, hj, -, hq, -⟩ := hI.pair.inq halive'
      have hread : t.pair.reading x.other = some q := by
        simp [PipePair.reading, hj, hq]
      have houtq' : outq = some q := by
        rw [← houtq, hsame, hj, Option.bind_some, hq]
      obtain ⟨q', rfl, hsent, hcurrent⟩ := hmoves.sent q houtq'
      rw [PipePair.Inv.reading_fed (by simp [hj]) hsame]
      rw [hread] at hdir
      exact hdir.write hsent hcurrent hmoves.plain hmoves.closed
  · simp only [noted, Side.other_other, PipePair.afterCall_dead, PipePair.afterCall_pipe_other,
      Function.update_self, ne_eq, Side.other_ne, not_false_eq_true, Function.update_of_ne, hself,
      halive]
    exact hdir'.read hmoves.got hmoves.kept

theorem unmoved (hI : Inv t) (hinv : PipePair.Inv p') (hcalm : ∀ x, hiccups (p'.inbox x) = [])
    (hreading : ∀ x, p'.dead x = false →
      t.pair.dead x = false ∧ p'.reading x = t.pair.reading x)
    (hout : ∀ x, (p'.pipe x).outpipe ≠ none → (t.pair.pipe x).outpipe ≠ none)
    (hstate : ∀ x, (p'.pipe x).state = .terminated → (t.pair.pipe x).state = .terminated) :
    Inv { t with pair := p' } := by
  refine ⟨hinv, hcalm, fun x => ?_⟩
  refine (hI.carries x).weaken (hreading x.other) (fun hne => ⟨hout x hne, ?_⟩)
    (hI.carries x).plain (fun _ => rfl) (fun hs => (hI.carries x).closed (hstate x hs))
  have hack : p'.acked x = false := by
    rw [← Bool.not_eq_true, ← hinv.out x]
    exact hne
  exact (hreading x.other (hinv.peer_alive hack)).2

theorem processed (hI : Inv t) (hinv : PipePair.Inv
      ({ t.pair with inbox := Function.update t.pair.inbox x rest }.after x pipe cmds))
    (hrest : hiccups rest = []) (hcmds : hiccups cmds = [])
    (hin : pipe.inpipe = (t.pair.pipe x).inpipe)
    (hout : pipe.outpipe ≠ none → (t.pair.pipe x).outpipe ≠ none)
    (hstate : pipe.state = .terminated → (t.pair.pipe x).state = .terminated) :
    Inv { t with
      pair := { t.pair with inbox := Function.update t.pair.inbox x rest }.after x pipe cmds } := by
  refine hI.unmoved hinv ((Side.forall_iff x).2 ⟨by simpa using hrest, ?_⟩) (fun y halive => ⟨halive, ?_⟩)
    ((Side.forall_iff x).2 ⟨by simpa using hout, by simp⟩)
    ((Side.forall_iff x).2 ⟨by simpa using hstate, by simp⟩)
  · simpa [hcmds] using hI.calm x.other
  · revert y
    refine (Side.forall_iff x).2 ⟨fun _ => ?_, fun _ => ?_⟩
    · exact PipePair.reading_eq (by simpa using hin) fun _ _ => rfl
    · exact PipePair.reading_eq (by simp) fun _ _ => rfl

theorem departed (hI : Inv t)
    (hinv : PipePair.Inv (t.pair.departed x rest i pipe cmds)) (hrest : hiccups rest = [])
    (halive : t.pair.dead x = false) (hin : (t.pair.pipe x).inpipe = some i)
    (hleaves : Pipe.Leaves (t.pair.pipe x) pipe cmds) :
    Inv { t with pair := t.pair.departed x rest i pipe cmds } := by
  have hcmds : hiccups cmds = [] := by
    cases hleaves <;> rfl
  have hout : pipe.outpipe ≠ none → (t.pair.pipe x).outpipe ≠ none := by
    cases hleaves with
    | quietly => exact id
    | acking => exact fun h => absurd rfl h
  have hstate : pipe.state = (t.pair.pipe x).state := by
    cases hleaves <;> rfl
  refine hI.unmoved hinv ((Side.forall_iff x).2 ⟨?_, ?_⟩) ((Side.forall_iff x).2 ⟨?_, fun hd => ?_⟩)
    ((Side.forall_iff x).2 ⟨?_, ?_⟩) ((Side.forall_iff x).2 ⟨?_, ?_⟩)
  · simpa [PipePair.departed] using hrest
  · simpa [PipePair.departed, hcmds] using hI.calm x.other
  · simp [PipePair.departed]
  · -- the peer reads from another pipe than the one that goes with `x`
    have halive' : t.pair.dead x.other = false := by
      simpa [PipePair.departed] using hd
    refine ⟨halive', PipePair.reading_eq (by simp [PipePair.departed]) fun j hj => ?_⟩
    have hne := hI.pair.in_ne_in halive halive' hin hj
    simp [PipePair.departed, hne]
  · simpa [PipePair.departed] using hout
  · simp [PipePair.departed]
  · simp [PipePair.departed, hstate]
  · simp [PipePair.departed]

theorem process (hI : Inv t) (h : PipePair.Processes t.pair x p') :
    Inv { t with pair := p' } := by
  have hinv := hI.pair.effect h.effect
  have hcalm := hI.calm x
  cases h with
  | idle => exact hI
  | @activateRead rest hbox =>
    obtain ⟨b, hb⟩ := (t.pair.pipe x).processActivateRead_eq
    rw [hbox, hiccups_activateRead] at hcalm
    rw [hb] at hinv ⊢
    exact hI.processed hinv hcalm rfl rfl id id
  | @activateWrite n rest hbox =>
    obtain ⟨b, hb⟩ := (t.pair.pipe x).processActivateWrite_eq n
    rw [hbox, hiccups_activateWrite] at hcalm
    rw [hb] at hinv ⊢
    exact hI.processed hinv hcalm rfl rfl id id
  | @replace h o rest hbox hout =>
    rw [hbox, hiccups_hiccup] at hcalm
    cases hcalm
  | @pipeTerm rest pipe cmds hbox hhears =>
    rw [hbox, hiccups_pipeTerm] at hcalm
    refine hI.processed hinv hcalm hhears.hiccups_eq hhears.inpipe_eq (fun hne => ?_) fun hs => ?_
    · rcases hhears.keeps with hk | hk
      · rwa [hk.1] at hne
      · exact absurd hk.1 hne
    · cases hhears <;> exact absurd hs (by simp)
  | @pipeTermAck rest i pipe cmds hbox hin hleaves =>
    rw [hbox, hiccups_pipeTermAck] at hcalm
    exact hI.departed hinv hcalm (hI.pair.alive_of_inbox hbox) hin hleaves

theorem noted_self (pair : PipePair) :
    t.noted x [] (t.current x) [] pair = { t with pair := pair } := by
  simp [noted]

theorem idle (hI : Inv t) (hplain : ∀ m ∈ current, m.isDelimiter = false)
    (hout : (t.pair.pipe x).outpipe ≠ none → current = t.current x)
    (hclosed : (t.pair.pipe x).state = .terminated → current = []) :
    Inv (t.noted x [] current [] t.pair) := by
  refine ⟨hI.pair, hI.calm, (Side.forall_iff x).2 ⟨?_, ?_⟩⟩
  · have h := hI.carries x
    simp only [noted, Function.update_self, ne_eq, Side.other_ne, not_false_eq_true,
      Function.update_of_ne, List.append_nil]
    exact h.weaken (fun hgone => ⟨hgone, rfl⟩) (fun hne => ⟨hne, rfl⟩) hplain hout hclosed
  · have h := hI.carries x.other
    simp only [noted, Side.other_other, Function.update_self, ne_eq, Side.other_ne,
      not_false_eq_true, Function.update_of_ne, List.append_nil] at h ⊢
    exact h

theorem outpipe_of_dead (hI : Inv t) (hdead : t.pair.dead x = true) :
    (t.pair.pipe x).outpipe = none := by
  rw [hI.pair.out x]
  simp [PipePair.acked, hdead]

theorem inbound (hI : Inv t) (halive : t.pair.dead x = false)
    (hin : (t.pair.pipe x).inpipe = some i) (hinq : t.pair.heap i = some inq)
    (hcalls : Pipe.Calls (t.pair.pipe x) inq ((t.pair.pipe x).outpipe.bind t.pair.heap) false pipe
      inq' ((t.pair.pipe x).outpipe.bind t.pair.heap) cmds)
    (hgot : inq.parts = got ++ inq'.parts) (hkept : inq'.incomplete = inq.incomplete) :
    Inv (t.noted x [] (t.current x) got (t.pair.afterCall x i inq'
      ((t.pair.pipe x).outpipe.bind t.pair.heap) pipe cmds t.pair.asked)) :=
  hI.called halive hin hinq rfl hcalls
    (.inbound hgot hkept (fun _ hq => hI.current_eq hq) (hI.carries x).plain
      fun hs => (hI.carries x).closed (hcalls.terminated hs))

theorem read (hI : Inv t) (x : Side) : ∃ t', t.step (.read x) = .ok t' ∧ Inv t' := by
  cases halive : t.pair.dead x with
  | true =>
    refine ⟨t.noted x [] (t.current x) [] t.pair, ?_,
      hI.idle (hI.carries x).plain (fun _ => rfl) (hI.carries x).closed⟩
    simp [step, PipePair.step, PipePair.read, PipePair.inbound, halive, note, PipePair.obtains]
  | false =>
    obtain ⟨i, inq, hin, -, hinq, hgood⟩ := hI.pair.inq halive
    obtain ⟨msg, pipe, inq', cmds, hm, hcalls⟩ :=
      Pipe.read_calls (p := t.pair.pipe x) ((t.pair.pipe x).outpipe.bind t.pair.heap) hgood
    obtain ⟨hgot, hkept⟩ := Pipe.read_parts hgood.wf hm
    refine ⟨_, ?_, hI.inbound halive hin hinq hcalls hgot hkept⟩
    have hstep : t.pair.step (.read x) = .ok (t.pair.afterCall x i inq'
        ((t.pair.pipe x).outpipe.bind t.pair.heap) pipe cmds t.pair.asked) := by
      simp only [PipePair.step, PipePair.read]
      exact hI.pair.inbound_ok halive hin hinq (by simp only [hm])
    have hobtains : t.pair.obtains x = msg := by
      simp [PipePair.obtains, halive, PipePair.deref, hin, hinq, hm]
    simp only [step, hstep, note, hobtains]

theorem checkRead (hI : Inv t) (x : Side) : ∃ t', t.step (.checkRead x) = .ok t' ∧ Inv t' := by
  cases halive : t.pair.dead x with
  | true =>
    refine ⟨t, ?_, hI⟩
    simp [step, PipePair.step, PipePair.checkRead, PipePair.inbound, halive, note]
  | false =>
    obtain ⟨i, inq, hin, -, hinq, hgood⟩ := hI.pair.inq halive
    obtain ⟨b, pipe, inq', cmds, hm, hcalls⟩ :=
      Pipe.checkRead_calls (p := t.pair.pipe x) ((t.pair.pipe x).outpipe.bind t.pair.heap) hgood
    obtain ⟨hparts, hkept⟩ := Pipe.checkRead_parts hgood.wf hm
    have hgot : inq.parts = [] ++ inq'.parts := hparts.symm
    refine ⟨_, ?_, hI.inbound halive hin hinq hcalls hgot hkept⟩
    have hstep : t.pair.step (.checkRead x) = .ok (t.pair.afterCall x i inq'
        ((t.pair.pipe x).outpipe.bind t.pair.heap) pipe cmds t.pair.asked) := by
      simp only [PipePair.step, PipePair.checkRead]
      exact hI.pair.inbound_ok halive hin hinq (by simp only [hm])
    simp only [step, hstep, note, noted_self]

theorem outbound (hI : Inv t) (halive : t.pair.dead x = false)
    (hin : (t.pair.pipe x).inpipe = some i) (hinq : t.pair.heap i = some inq)
    (hcalls : Pipe.Calls (t.pair.pipe x) inq ((t.pair.pipe x).outpipe.bind t.pair.heap) false pipe
      inq outq' cmds)
    (hidle : (t.pair.pipe x).outpipe.bind t.pair.heap = none → sent = [])
    (hsent : ∀ q, (t.pair.pipe x).outpipe.bind t.pair.heap = some q → q.Good →
      q.incomplete = t.current x → ∃ q', outq' = some q' ∧
        q'.parts = q.parts ++ sent.flatten ∧ q'.incomplete = current)
    (hplain : ∀ m ∈ current, m.isDelimiter = false)
    (hclosed : (t.pair.pipe x).state = .terminated → current = []) :
    Inv (t.noted x sent current [] (t.pair.afterCall x i inq outq' pipe cmds t.pair.asked)) := by
  refine hI.called halive hin hinq rfl hcalls ⟨rfl, rfl, hidle, fun q hq => ?_, hplain,
    fun hs => hclosed (hcalls.terminated hs)⟩
  obtain ⟨q', hq', hparts, hinc⟩ := hsent q hq ((hI.pair.ready halive).good q hq) (hI.current_eq hq)
  exact ⟨q', hq', hparts, fun _ => hinc⟩

theorem write (hI : Inv t) (x : Side) (flags : UInt8) (data : List UInt8) :
    ∃ t', t.step (.write x flags data) = .ok t' ∧ Inv t' := by
  generalize hmsg : (⟨false, flags, data⟩ : Msg) = msg
  have hd : msg.isDelimiter = false := by
    rw [← hmsg]
  have hkeep := (hI.carries x).plain
  cases halive : t.pair.dead x with
  | true =>
    refine ⟨t.noted x [] (t.current x) [] t.pair, ?_,
      hI.idle hkeep (fun _ => rfl) (hI.carries x).closed⟩
    simp [step, PipePair.step, PipePair.write, PipePair.outbound, halive, note, noteWrite,
      PipePair.accepts]
  | false =>
    obtain ⟨i, inq, hin, -, hinq, -⟩ := hI.pair.inq halive
    have hready := hI.pair.ready halive
    obtain ⟨b, pipe, outq', hm, hcalls⟩ := Pipe.write_calls inq hd
      fun hs => mt hready.null.1 (hready.attached (Or.inl hs))
    obtain ⟨hb, hrefused, haccepted⟩ := Pipe.write_result hm
    have hstep : t.pair.step (.write x flags data) =
        .ok (t.pair.afterCall x i inq outq' pipe [] t.pair.asked) := by
      simp only [PipePair.step, PipePair.write, hmsg]
      exact hI.pair.outbound_ok halive t.pair.asked hinq (by simp only [hm])
    have haccepts : t.pair.accepts x = b := by
      rw [PipePair.accepts, halive, hb]
      rfl
    simp only [step, hstep, note, hmsg, noteWrite, haccepts]
    cases b with
    | false =>
      refine ⟨_, rfl, hI.outbound halive hin hinq hcalls (fun _ => rfl) (fun q hq _ hcur => ?_) hkeep
        (hI.carries x).closed⟩
      exact ⟨q, (hrefused rfl).trans hq, by simp, hcur⟩
    | true =>
      obtain ⟨q, hq, hq'⟩ := haccepted rfl
      have hs : (t.pair.pipe x).state = .active := by
        obtain ⟨-, -, hs, -⟩ := Pipe.checkWrite_true (p := t.pair.pipe x) (Prod.ext hb.symm rfl)
        exact hs
      have hopen : (t.pair.pipe x).state ≠ .terminated := by
        rw [hs]
        simp
      have hplain : ∀ m ∈ t.current x ++ [msg], m.isDelimiter = false := by grind
      cases hmore : msg.more with
      | true =>
        refine ⟨_, rfl, hI.outbound halive hin hinq hcalls (fun _ => rfl)
          (fun q₀ hq₀ hgood hcur => ?_) hplain fun h => absurd h hopen⟩
        cases hq.symm.trans hq₀
        obtain ⟨hparts, hinc⟩ := YPipe.parts_write_true hgood.wf msg
        rw [hmore] at hq'
        exact ⟨_, hq', by simpa using hparts, by rw [hinc, hcur]⟩
      | false => grind [hI.outbound, YPipe.parts_write_false]

theorem checkWrite (hI : Inv t) (x : Side) : ∃ t', t.step (.checkWrite x) = .ok t' ∧ Inv t' := by
  cases halive : t.pair.dead x with
  | true =>
    refine ⟨t, ?_, hI⟩
    simp [step, PipePair.step, PipePair.checkWrite, PipePair.outbound, halive, note]
  | false =>
    obtain ⟨i, inq, hin, -, hinq, -⟩ := hI.pair.inq halive
    have hstep : t.pair.step (.checkWrite x) = .ok (t.pair.afterCall x i inq
        ((t.pair.pipe x).outpipe.bind t.pair.heap) (t.pair.pipe x).checkWrite.2 []
        t.pair.asked) := by
      simp only [PipePair.step, PipePair.checkWrite]
      exact hI.pair.outbound_ok halive t.pair.asked hinq rfl
    refine ⟨_, ?_, hI.outbound halive hin hinq Pipe.checkWrite_calls (fun _ => rfl)
      (fun q hq _ hcur => ⟨q, hq, by simp, hcur⟩) (hI.carries x).plain (hI.carries x).closed⟩
    simp only [step, hstep, note, noted_self]

theorem flush (hI : Inv t) (x : Side) : ∃ t', t.step (.flush x) = .ok t' ∧ Inv t' := by
  cases halive : t.pair.dead x with
  | true =>
    refine ⟨t, ?_, hI⟩
    simp [step, PipePair.step, PipePair.flush, PipePair.outbound, halive, note]
  | false =>
    obtain ⟨i, inq, hin, -, hinq, -⟩ := hI.pair.inq halive
    have hstep : t.pair.step (.flush x) = .ok (t.pair.afterCall x i inq
        ((t.pair.pipe x).flush ((t.pair.pipe x).outpipe.bind t.pair.heap)).1 (t.pair.pipe x)
        ((t.pair.pipe x).flush ((t.pair.pipe x).outpipe.bind t.pair.heap)).2 t.pair.asked) := by
      simp only [PipePair.step, PipePair.flush]
      exact hI.pair.outbound_ok halive t.pair.asked hinq rfl
    refine ⟨_, ?_, hI.outbound halive hin hinq Pipe.flush_calls (fun _ => rfl)
      (fun q hq hgood hcur => ?_) (hI.carries x).plain (hI.carries x).closed⟩
    · simp only [step, hstep, note, noted_self]
    · grind [YPipe.parts_flush, hgood.wf, Pipe.flush_result]

theorem rollback (hI : Inv t) (x : Side) : ∃ t', t.step (.rollback x) = .ok t' ∧ Inv t' := by
  cases halive : t.pair.dead x with
  | true =>
    have hout := hI.outpipe_of_dead halive
    refine ⟨t.noted x [] [] [] t.pair, ?_,
      hI.idle (by simp) (fun h => absurd hout h) (fun _ => rfl)⟩
    simp [step, PipePair.step, PipePair.rollback, PipePair.outbound, halive, note]
  | false =>
    obtain ⟨i, inq, hin, -, hinq, -⟩ := hI.pair.inq halive
    obtain ⟨outq', hm, hcalls⟩ :=
      Pipe.rollback_calls (t.pair.pipe x) inq (hI.pair.ready halive).good
    have hstep : t.pair.step (.rollback x) =
        .ok (t.pair.afterCall x i inq outq' (t.pair.pipe x) [] t.pair.asked) := by
      simp only [PipePair.step, PipePair.rollback]
      exact hI.pair.outbound_ok halive t.pair.asked hinq (by simp only [hm])
    refine ⟨_, ?_, hI.outbound halive hin hinq hcalls (fun _ => rfl)
      (fun q hq hgood hcur => ?_) (by simp) fun _ => rfl⟩
    · simp only [step, hstep, note]
    · grind [YPipe.parts_rolledBack, hgood.wf, Pipe.rollback_eq]

theorem terminate (hI : Inv t) (x : Side) (delay : Bool) :
    ∃ t', t.step (.terminate x delay) = .ok t' ∧ Inv t' := by
  cases halive : t.pair.dead x with
  | true =>
    have hout := hI.outpipe_of_dead halive
    refine ⟨t.noted x [] [] [] t.pair, ?_,
      hI.idle (by simp) (fun h => absurd hout h) (fun _ => rfl)⟩
    simp [step, PipePair.step, PipePair.terminate, halive, note]
  | false =>
    obtain ⟨i, inq, hin, -, hinq, -⟩ := hI.pair.inq halive
    have hready := hI.pair.ready halive
    obtain ⟨pipe, outq', cmds, hm, hcalls⟩ :=
      Pipe.terminate_calls inq delay hready.good hready.null hready.attached
    have hstep : t.pair.step (.terminate x delay) =
        .ok (t.pair.afterCall x i inq outq' pipe cmds
          (Function.update t.pair.asked x true)) := by
      simp only [PipePair.step, PipePair.terminate, halive, Bool.false_eq_true, if_false]
      exact hI.pair.outbound_ok halive _ hinq hm
    refine ⟨t.noted x [] [] [] (t.pair.afterCall x i inq outq' pipe cmds
      (Function.update t.pair.asked x true)), ?_,
      hI.called halive hin hinq rfl hcalls (hcalls.moves_end hready.good ?_ ?_)⟩
    · simp only [step, hstep, note]
    · intro hack
      rw [hI.pair.out x]
      simp [PipePair.acked, hack]
    · intro q hs hq
      rw [hI.current_eq hq, (hI.carries x).closed hs]

theorem step (hI : Inv t) (op : PairOp) (hop : op.keepsPipes = true) :
    ∃ t', t.step op = .ok t' ∧ Inv t' := by
  cases op with
  | write x flags data => exact hI.write x flags data
  | checkWrite x => exact hI.checkWrite x
  | read x => exact hI.read x
  | checkRead x => exact hI.checkRead x
  | flush x => exact hI.flush x
  | rollback x => exact hI.rollback x
  | terminate x delay => exact hI.terminate x delay
  | hiccup x => exact absurd hop (by simp [PairOp.keepsPipes])
  | process x =>
    obtain ⟨p', hp', hprocesses⟩ := hI.pair.process_processes (x := x)
    exact ⟨_, by simp only [Traffic.step, PipePair.step, hp', note], hI.process hprocesses⟩

end Inv

/-- **Whole messages.** -/
theorem delivers_whole_messages (hwms : Side → Nat) (delays : Side → Bool) (ops : List PairOp)
    (hops : ∀ op ∈ ops, op.keepsPipes = true) :
    ∃ t, run step (init hwms delays) ops = .ok t ∧ ∀ x,
      (∀ q, t.pair.dead x.other = false → t.pair.reading x.other = some q →
        t.obtained x.other ++ q.readable <+: (t.completed x).flatten) ∧
      t.obtained x.other <+: (t.completed x).flatten ∧
      (∀ q, (t.pair.pipe x).outpipe.bind t.pair.heap = some q →
        ∃ q', Pipe.rollback (some q) = .ok (some q') ∧ q.queue = q'.queue ++ t.current x ∧
          ∀ m ∈ t.current x, m.more = true) := by
  obtain ⟨t, ht, hI⟩ :=
    run_safe_of (fun t op (hI : Inv t) hop => hI.step op hop) ops _ (inv_init hwms delays) hops
  refine ⟨t, ht, fun x => ⟨fun q halive hq => ?_, (hI.carries x).inOrder, fun q hq => ?_⟩⟩
  · obtain ⟨i, q₀, hin, -, hq₀, hgood⟩ := hI.pair.inq halive
    have hsame : q₀ = q := by grind [PipePair.reading]
    subst hsame
    rw [(hI.carries x).parts q₀ halive hq]
    exact List.prefix_append_right_inj _ |>.2 hgood.wf.readable_le_parts
  · have hcur := hI.current_eq hq
    obtain ⟨o, -, hheap⟩ := Option.bind_eq_some_iff.1 hq
    have hgood := hI.pair.owns.good o q hheap
    refine ⟨q.rolledBack, Pipe.rollback_eq hgood, ?_, ?_⟩
    · rw [← hcur]
      exact q.ready_append_incomplete.symm
    · rw [← hcur]
      exact hgood.more

def messageAndHalf : List PairOp :=
  [.write .left 1 [1], .write .left 0 [2], .write .left 1 [3], .flush .left, .read .right,
    .rollback .left, .terminate .left false, .read .right, .read .right]

theorem messageAndHalf_delivered :
    (∀ op ∈ messageAndHalf, op.keepsPipes = true) ∧
      ∃ t, run step (init (fun _ => 0) (fun _ => true)) messageAndHalf = .ok t ∧
        t.obtained .right <+: (t.completed .left).flatten := by
  have hops : ∀ op ∈ messageAndHalf, op.keepsPipes = true := by
    decide
  obtain ⟨t, ht, h⟩ := delivers_whole_messages (fun _ => 0) (fun _ => true) messageAndHalf hops
  exact ⟨hops, t, ht, (h .left).2.1⟩

end Traffic

end Libxs
