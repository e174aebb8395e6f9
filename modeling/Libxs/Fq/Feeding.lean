import Libxs.SocketBase.Events
import Mathlib.Data.List.Chain

/-! # A fair queue whose pipes stay -/

namespace Libxs

variable {α : Type} [DecidableEq α]

/-! ## What is read from a pipe without a delimiter -/

theorem YPipe.read_queue {β : Type} (q : YPipe β) : q.queue = q.read.1.toList ++ q.read.2.queue := by
  have hq := checkRead_queue q
  unfold YPipe.read
  grind

theorem Endpoint.read_plain {e e' : Endpoint} {msg : Option Msg}
    (hplain : ∀ m ∈ e.inq.queue, m.isDelimiter = false) (h : e.read = .ok (msg, e')) :
    e.inq.queue = msg.toList ++ e'.inq.queue ∧ e'.pipe.state = e.pipe.state := by
  have hqueue := e.inq.read_queue
  unfold Endpoint.read Pipe.read at h
  split at h
  · cases h
  next hp =>
    cases h
    split at hp
    · cases hp
      exact ⟨rfl, rfl⟩
    · grind

theorem Endpoint.processActivateRead_keeps {e e' : Endpoint} {sink : Bool}
    (h : e.processActivateRead = (sink, e')) : e'.inq = e.inq ∧ e'.pipe.state = e.pipe.state := by
  obtain rfl : e.processActivateRead.2 = e' := by rw [h]
  refine ⟨rfl, ?_⟩
  simp only [Endpoint.processActivateRead, Pipe.processActivateRead]
  split <;> rfl

namespace Fq

def cameFrom (p : α) (fetched : List (α × Msg)) : List Msg :=
  (fetched.filter fun a => a.1 = p).map Prod.snd

theorem cameFrom_append (p : α) (l l' : List (α × Msg)) :
    cameFrom p (l ++ l') = cameFrom p l ++ cameFrom p l' := by
  simp [cameFrom]

def entry (r : Option (Msg × α)) : List (α × Msg) := (r.map Prod.swap).toList

theorem recvLoop_queues : ∀ (count : Nat) {fq fq' : Fq α} {ends ends' : Ends α} {r : Option (Msg × α)},
    (∀ p, ∀ m ∈ (ends p).inq.queue, m.isDelimiter = false) →
    recvLoop count fq ends = .ok (r, fq', ends') →
    ∀ p, (ends p).inq.queue = cameFrom p (entry r) ++ (ends' p).inq.queue ∧
      (ends' p).pipe.state = (ends p).pipe.state := by
  intro count
  induction count with
  | zero =>
    intro fq fq' ends ends' r _ h p
    simp only [recvLoop] at h
    cases h
    exact ⟨rfl, rfl⟩
  | succ count ih =>
    intro fq fq' ends ends' r hplain h p
    unfold recvLoop at h
    split at h
    · cases h
    next pipe hget =>
      split at h
      · cases h
      next msg e hread =>
        obtain ⟨hqueue, hstate⟩ := Endpoint.read_plain (hplain pipe) hread
        cases h
        grind [cameFrom, entry]
      next e hread =>
        obtain ⟨hqueue, hstate⟩ := Endpoint.read_plain (hplain pipe) hread
        have hsame : ∀ x, (Function.update ends pipe e x).inq.queue = (ends x).inq.queue ∧
            (Function.update ends pipe e x).pipe.state = (ends x).pipe.state := by
          intro x
          grind
        grind

theorem recvLoop_untouched {p : α} : ∀ (count : Nat) {fq fq' : Fq α} {ends ends' : Ends α}
    {r : Option (Msg × α)}, fq.pipes.WF → ¬ fq.attached p →
    recvLoop count fq ends = .ok (r, fq', ends') → ends' p = ends p := by
  intro count
  induction count with
  | zero => grind [recvLoop]
  | succ count ih =>
    intro fq fq' ends ends' r hwf hp h
    unfold recvLoop at h
    split at h
    · cases h
    next pipe hget =>
      have hne : p ≠ pipe := by
        rintro rfl
        exact hp (ArrayT.mem_of_get hget)
      split at h
      · cases h
      · simp only [Except.ok.injEq, Prod.mk.injEq] at h
        rw [← h.2.2, Function.update_of_ne hne]
      · grind [attached_deactivate]

structure Feeding (fq : Fq α) (ends : Ends α) (fed : α → List Msg) (fetched : List (α × Msg)) : Prop
    extends Supplied Grammar.any () fq ends where
  waiting : ∀ p, ¬ fq.attached p → (ends p).inq.Inbound false ∧ (ends p).pipe.inActive = true ∧
    (ends p).refusedRead = false
  reads : ∀ p, (ends p).pipe.state = .active
  plain : ∀ p, ∀ m ∈ (ends p).inq.queue, m.isDelimiter = false
  stream : ∀ p, fed p = cameFrom p fetched ++ (ends p).inq.queue
  whole : fetched.IsChain fun a b => a.2.more = true → b.1 = a.1
  more : fq.more = (fetched.getLast?.elim false fun a => a.2.more)
  source : fq.more = true → ∀ a ∈ fetched.getLast?, fq.pipes.get fq.current = some a.1

variable {fq : Fq α} {ends : Ends α} {fed : α → List Msg} {fetched : List (α × Msg)}

theorem feeding_init (hfresh : ∀ p, (ends p).inq = YPipe.init ∧ (ends p).pipe.state = .active ∧
    (ends p).pipe.inActive = true ∧ (ends p).refusedRead = false) :
    Feeding init ends (fun _ => []) [] where
  toSupplied := supplied_init ends
  waiting p _ := ⟨(hfresh p).1 ▸ YPipe.inbound_init, (hfresh p).2.2⟩
  reads p := (hfresh p).2.1
  plain p m hm := by simp [(hfresh p).1, YPipe.init] at hm
  stream p := by simp [cameFrom, (hfresh p).1, YPipe.init]
  whole := .nil
  more := rfl
  source h := absurd h (by simp [init])

theorem Feeding.continues (h : Feeding fq ends fed fetched) : fq.Continues ends := by
  intro hmore p hp
  obtain ⟨p', -, hget, hact⟩ := h.current hmore
  obtain rfl : p' = p := Option.some.inj (hget.symm.trans hp)
  simp [Endpoint.canRead, hact, Pipe.reads, h.reads p']

theorem Feeding.recvpipe (h : Feeding fq ends fed fetched) :
    ∃ r fq' ends', fq.recvpipe ends = .ok (r, fq', ends') ∧
      Feeding fq' ends' fed (fetched ++ entry r) ∧ (r = none → fq.more = false) ∧
      (∀ msg p, r = some (msg, p) → fq'.backlog ends' < fq.backlog ends) := by
  obtain ⟨r, q', fq', ends', hrun, hrec, hsupplied, -⟩ := h.toSupplied.recvpipe h.continues
  have hqueues := recvLoop_queues _ h.plain hrun
  -- the part is in place: it continues the message of the last one, or there is none to continue
  have hlog : (fetched ++ entry r).IsChain (fun a b => a.2.more = true → b.1 = a.1) ∧
      fq'.more = ((fetched ++ entry r).getLast?.elim false fun a => a.2.more) ∧
      (fq'.more = true → ∀ a ∈ (fetched ++ entry r).getLast?, fq'.pipes.get fq'.current = some a.1) := by
    cases r with
    | none =>
      obtain ⟨hidle, hidle', -⟩ := hrec.nothing rfl
      simp only [entry, Option.map_none, Option.toList_none, List.append_nil]
      exact ⟨h.whole, hidle'.trans (hidle ▸ h.more), fun hm => absurd (hm.symm.trans hidle') (by simp)⟩
    | some r =>
      obtain ⟨msg, p⟩ := r
      obtain ⟨-, hmore, hsame, hnext, -⟩ := hrec.part msg p rfl
      simp only [entry, Option.map_some, Prod.swap_prod_mk, Option.toList_some]
      refine ⟨List.isChain_append.2 ⟨h.whole, List.isChain_singleton _, fun a ha b hb hlast => ?_⟩,
        by simpa using hmore, fun hm a ha => ?_⟩
      · obtain rfl : (p, msg) = b := by simpa using hb
        have hmid : fq.more = true := by rw [h.more, Option.mem_def.1 ha]; exact hlast
        exact Option.some.inj ((hsame hmid).symm.trans (h.source hmid a ha))
      · grind
  refine ⟨r, fq', ends', hrun, ⟨hsupplied, fun p hp => ?_, fun p => (hqueues p).2.trans (h.reads p),
    fun p m hm => h.plain p m ((hqueues p).1 ▸ List.mem_append_right _ hm), fun p => ?_, hlog.1, hlog.2.1,
    hlog.2.2⟩, fun hr => (hrec.nothing hr).1, fun msg p hr => (hrec.part msg p hr).2.2.2.2⟩
  · have hnot : ¬ fq.attached p := mt (hrec.attached p).2 hp
    rw [recvLoop_untouched _ h.bounded.part.wf hnot hrun]
    exact h.waiting p hnot
  · rw [cameFrom_append, List.append_assoc, ← (hqueues p).1]
    exact h.stream p

end Fq

/-! ## What happens on the pipes -/

inductive PipeFeed (α : Type) where
  | attach (pipe : α)
  | processActivateRead (pipe : α)
  | peerWrite (pipe : α) (flags : UInt8) (data : List UInt8)
  | peerFlush (pipe : α)

namespace PipeFeed

def step (fq : Fq α) (ends : Ends α) : PipeFeed α → Except Fault (Fq α × Ends α)
  | .attach pipe =>
    if fq.attached pipe then .ok (fq, ends)
    else
      match fq.attach pipe with
      | .error err => .error err
      | .ok fq => .ok (fq, ends)
  | .processActivateRead pipe =>
    if fq.attached pipe then
      match (ends pipe).processActivateRead with
      | (false, e) => .ok (fq, Function.update ends pipe e)
      | (true, e) =>
        match fq.activated pipe with
        | .error err => .error err
        | .ok fq => .ok (fq, Function.update ends pipe e)
    else .ok (fq, ends)
  | .peerWrite pipe flags data =>
    .ok (fq, Function.update ends pipe ((ends pipe).peerWrite ⟨false, flags, data⟩))
  | .peerFlush pipe => .ok (fq, Function.update ends pipe (ends pipe).peerFlush)

def written (p : α) : PipeFeed α → List Msg
  | .peerWrite pipe flags data => if pipe = p then [⟨false, flags, data⟩] else []
  | _ => []

end PipeFeed

namespace Fq

variable {fq : Fq α} {ends : Ends α} {fed : α → List Msg} {fetched : List (α × Msg)}

theorem Feeding.moved (h : Feeding fq ends fed fetched) {fq' : Fq α} {ends' : Ends α} {written : α → List Msg}
    (hsupplied : fq'.Supplied Grammar.any () ends') (hsame : fq.SameSource fq')
    (hwaiting : ∀ p, ¬ fq'.attached p → (ends' p).inq.Inbound false ∧ (ends' p).pipe.inActive = true ∧
      (ends' p).refusedRead = false)
    (hreads : ∀ p, (ends' p).pipe.state = (ends p).pipe.state)
    (hplain : ∀ p, ∀ m ∈ written p, m.isDelimiter = false)
    (hqueue : ∀ p, (ends' p).inq.queue = (ends p).inq.queue ++ written p) :
    Feeding fq' ends' (fun p => fed p ++ written p) fetched where
  toSupplied := hsupplied
  waiting := hwaiting
  reads p := (hreads p).trans (h.reads p)
  plain p m hm := by grind [h.plain]
  stream p := by rw [hqueue p, ← List.append_assoc, ← h.stream p]
  whole := h.whole
  more := hsame.1.trans h.more
  source hm a ha := by
    have hm' := hsame.1.symm.trans hm
    exact (hsame.2 hm').trans (h.source hm' a ha)

theorem Feeding.setEnd (h : Feeding fq ends fed fetched) {p : α} {e : Endpoint} {written : α → List Msg}
    (hin : ∀ mid, (ends p).inq.Inbound mid → e.inq.Inbound mid) (hpipe : e.pipe = (ends p).pipe)
    (hrefused : e.refusedRead = (ends p).refusedRead) (hplain : ∀ x, ∀ m ∈ written x, m.isDelimiter = false)
    (hqueue : ∀ x, (Function.update ends p e x).inq.queue = (ends x).inq.queue ++ written x) :
    Feeding fq (Function.update ends p e) (fun x => fed x ++ written x) fetched := by
  have hintake : fq.Intake Grammar.any () (Function.update ends p e) :=
    h.toIntake.setEnd (fun _ mid _ hc => (hin mid hc.toInbound).content) fun ha => hpipe ▸ ha
  have htracks : fq.Tracks readWatch (Function.update ends p e) :=
    Endpoint.StaysClosed.tracks ⟨by rw [hpipe], fun hr => by rw [hpipe]; exact hr, hrefused⟩ h.tracks
  refine h.moved ⟨hintake, htracks⟩ ⟨rfl, fun _ => rfl⟩ (fun x hx => ?_) (fun x => ?_) hplain hqueue
  · grind [h.waiting]
  · grind

theorem Feeding.step (h : Feeding fq ends fed fetched) (op : PipeFeed α) :
    ∃ fq' ends', op.step fq ends = .ok (fq', ends') ∧
      Feeding fq' ends' (fun p => fed p ++ op.written p) fetched := by
  have hnothing : ∀ p : α, ∀ m ∈ ([] : List Msg), m.isDelimiter = false := by simp
  cases op with
  | attach p =>
    by_cases hp : fq.attached p
    · exact ⟨fq, ends, if_pos hp, by simpa [PipeFeed.written] using h⟩
    · obtain ⟨hinbound, hact, href⟩ := h.waiting p hp
      obtain ⟨r, hrot, -, htracks⟩ := h.tracks.attach hp href (by simp [readWatch, hact])
      have hr : fq.attach p = .ok { fq with toRotor := r } := by simp [attach, withRotor, hrot]
      obtain ⟨hintake, hsame⟩ := h.toIntake.attach hp hinbound.content hr
      rw [Function.update_eq_self] at hintake htracks
      have hatt := (attached_attach h.bounded.part.wf hp hr).2
      refine ⟨_, ends, by simp [PipeFeed.step, hp, hr], h.moved ⟨hintake, htracks⟩ hsame (fun x hx => ?_)
        (fun _ => rfl) hnothing fun x => (List.append_nil _).symm⟩
      exact h.waiting x (mt (fun hx' => (hatt x).2 (.inl hx')) hx)
  | processActivateRead p =>
    by_cases hp : fq.attached p
    · rcases hact : (ends p).processActivateRead with ⟨_ | _, e⟩
      · obtain rfl := Endpoint.processActivateRead_false hact
        refine ⟨fq, ends, by simp [PipeFeed.step, hp, hact], by simpa [PipeFeed.written] using h⟩
      · obtain ⟨hin, hin', href⟩ := Endpoint.processActivateRead_true hact
        obtain ⟨r, hrot, -, htracks⟩ := h.tracks.activated hp hin href (by simp [readWatch, hin'])
        have hr : fq.activated p = .ok { fq with toRotor := r } := by simp [activated, withRotor, hrot]
        obtain ⟨hintake, hsame⟩ := h.toIntake.activated hp hact hr
        have hatt := (attached_activated h.bounded.part.wf hr).2
        have hend := Endpoint.processActivateRead_keeps hact
        refine ⟨_, _, by simp [PipeFeed.step, hp, hact, hr], h.moved ⟨hintake, htracks⟩ hsame (fun x hx => ?_)
          (fun x => ?_) hnothing fun x => ?_⟩
        · have hne : x ≠ p := by
            rintro rfl
            exact hx ((hatt x).2 hp)
          rw [Function.update_of_ne hne]
          exact h.waiting x (mt (hatt x).2 hx)
        · grind
        · grind [PipeFeed.written]
    · exact ⟨fq, ends, if_neg hp, by simpa [PipeFeed.written] using h⟩
  | peerWrite p flags data =>
    refine ⟨fq, _, rfl, h.setEnd (fun mid hin => hin.write fun hd => absurd hd (by simp)) rfl rfl
      (fun x m hm => ?_) fun x => ?_⟩
    · grind [PipeFeed.written]
    · by_cases hxp : x = p
      · simp [hxp, Endpoint.peerWrite, PipeFeed.written]
      · simp [hxp, Ne.symm hxp, PipeFeed.written]
  | peerFlush p =>
    refine ⟨fq, _, rfl, h.setEnd (fun mid hin => hin.flush) rfl rfl hnothing fun x => ?_⟩
    by_cases hxp : x = p
    · simp [hxp, Endpoint.peerFlush, PipeFeed.written]
    · simp [hxp, PipeFeed.written]

end Fq

end Libxs
