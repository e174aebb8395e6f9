import Libxs.Pipe.Hiccup

/-! # Connections within the process -/

namespace Libxs

structure InprocOptions where
  sndhwm : Nat
  rcvhwm : Nat
  identity : List UInt8
  sendIdentity : Bool
  recvIdentity : Bool
  sndhwm_lt : sndhwm < 2 ^ 31
  rcvhwm_lt : rcvhwm < 2 ^ 31

def InprocOptions.message (o : InprocOptions) : Msg := ⟨false, Msg.identityFlag, o.identity⟩

theorem InprocOptions.more_message (o : InprocOptions) : o.message.more = false := by
  show (Msg.identityFlag &&& Msg.moreFlag != 0) = false
  decide

namespace PipePair

variable {a hwm n : Nat} {x : Side} {q : UPipe} {p : PipePair}

def hwmSum (sndhwm rcvhwm : Nat) : Except Fault Nat :=
  if sndhwm = 0 ∨ rcvhwm = 0 then .ok 0
  else if sndhwm + rcvhwm < 2 ^ 31 then .ok (sndhwm + rcvhwm)
  else .error .signedOverflow

def inprocPair (o : Side → InprocOptions) (delays : Side → Bool) : Except Fault PipePair :=
  match hwmSum (o .left).sndhwm (o .right).rcvhwm with
  | .error e => .error e
  | .ok sndhwm =>
    match hwmSum (o .right).sndhwm (o .left).rcvhwm with
    | .error e => .error e
    | .ok rcvhwm => .ok (init (fun | .left => sndhwm | .right => rcvhwm) delays)

def writeIdentity (o : InprocOptions) (x : Side) (p : PipePair) : Except Fault PipePair :=
  if !o.sendIdentity then .ok p
  else if (p.pipe x).checkWrite.1 then p.write x o.message
  else .error .assertFailed

def flushFirst (pipes : List PipePair) (new : PipePair) : Except Fault (List PipePair × PipePair) :=
  match pipes with
  | [] => (new.flush .left).map ([], ·)
  | p :: pipes => (p.flush .left).map (· :: pipes, new)

def introduce (own peer : InprocOptions) (pipes : List PipePair) (new : PipePair) :
    Except Fault (List PipePair × PipePair) :=
  match writeIdentity own .left new with
  | .error e => .error e
  | .ok new =>
    match if own.sendIdentity then flushFirst pipes new else .ok (pipes, new) with
    | .error e => .error e
    | .ok (pipes, new) =>
      match writeIdentity peer .right new with
      | .error e => .error e
      | .ok new => if peer.sendIdentity then (new.flush .right).map (pipes, ·) else .ok (pipes, new)

def inprocConnect (o : Side → InprocOptions) (delays : Side → Bool) (pipes : List PipePair) :
    Except Fault (List PipePair × PipePair) :=
  match inprocPair o delays with
  | .error e => .error e
  | .ok new => introduce (o .left) (o .right) pipes new

/-! ## Watermarks -/

def Admits (p : PipePair) (x : Side) (n : Nat) : Prop :=
  ∃ ops p' q, (∀ op ∈ ops, op.flows = true) ∧ run step p ops = .ok p' ∧
    p'.reading x.other = some q ∧ q.complete = n

structure WritesTo (x : Side) (a : Nat) (q : UPipe) (p : PipePair) : Prop where
  active : (p.pipe x).outActive = true ∧ (p.pipe x).state = .active ∧ p.dead x = false
  outpipe : (p.pipe x).outpipe = some a
  inpipe : (p.pipe x.other).inpipe = some a
  heap : p.heap a = some q

theorem WritesTo.reading (h : WritesTo x a q p) : p.reading x.other = some q := by
  simp [PipePair.reading, h.inpipe, h.heap]

theorem WritesTo.write (h : WritesTo x a q p) (hroom : (p.pipe x).full = false) {msg : Msg}
    (hmore : msg.more = false) : (p.pipe x).checkWrite.1 = true ∧ p.write x msg = .ok
      { p with
        heap := Function.update p.heap a (some (q.write msg false))
        pipe := Function.update p.pipe x
          { p.pipe x with msgsWritten := ((p.pipe x).msgsWritten + 1) % 2 ^ 64 } } := by
  obtain ⟨hout, hstate, halive⟩ := h.active
  have hcheck : (p.pipe x).checkWrite = (true, p.pipe x) := by
    simp [Pipe.checkWrite, hout, hstate, hroom]
  refine ⟨by rw [hcheck], ?_⟩
  simp [PipePair.write, outbound, halive, h.outpipe, derefOut, h.heap, Pipe.write, hcheck, hmore, store,
    after]

theorem WritesTo.flush (h : WritesTo x a q p) : ∃ inbox, p.flush x = .ok
    { p with heap := Function.update p.heap a (some q.flush.2), inbox := inbox } := by
  obtain ⟨-, hstate, halive⟩ := h.active
  simp only [PipePair.flush, outbound, halive, h.outpipe, derefOut, h.heap, Pipe.flush, hstate]
  cases q.flush with
  | mk awake q' => cases awake <;> simp [store, after]

def Filled (hwm : Nat) (x : Side) (n : Nat) (p : PipePair) : Prop :=
  ((p.pipe x).hwm = hwm ∧ (p.pipe x).msgsWritten = n % 2 ^ 64 ∧ (p.pipe x).peersMsgsRead = 0) ∧
    ∃ a q, WritesTo x a q p ∧ q.complete = n

theorem Filled.write (h : Filled hwm x n p) (hlt : hwm < 2 ^ 64) (hroom : hwm = 0 ∨ n < hwm) :
    ∃ p', step p (.write x 0 []) = .ok p' ∧ Filled hwm x (n + 1) p' := by
  obtain ⟨⟨hhwm, hwritten, hread⟩, a, q, hq, hcomplete⟩ := h
  have hfull : (p.pipe x).full = false := by
    simp only [Pipe.full, Pipe.sub64, hhwm, hwritten, hread]
    grind
  obtain ⟨-, hstep⟩ := hq.write hfull (show (⟨false, 0, []⟩ : Msg).more = false from rfl)
  refine ⟨_, hstep, by simp [hhwm, hwritten, hread], a, q.write ⟨false, 0, []⟩ false, ?_, ?_⟩
  · exact ⟨by simpa using hq.active, by simpa using hq.outpipe, by simpa using hq.inpipe, by simp⟩
  · rw [YPipe.complete_write, hcomplete]
    rfl

theorem writesTo_init (hwms : Side → Nat) (delays : Side → Bool) (x : Side) :
    WritesTo x (match x with | .left => 1 | .right => 0) .init (init hwms delays) := by
  cases x <;> exact ⟨⟨rfl, rfl, rfl⟩, rfl, rfl, rfl⟩

theorem admits_iff (hwms : Side → Nat) (delays : Side → Bool) (x : Side) (hlt : hwms x < 2 ^ 64)
    (n : Nat) : Admits (init hwms delays) x n ↔ hwms x = 0 ∨ n ≤ hwms x := by
  constructor
  · rintro ⟨ops, p, q, hops, hrun, hq, rfl⟩
    by_cases h0 : hwms x = 0
    · exact Or.inl h0
    · obtain ⟨-, q', hq', c, ht⟩ := run_tracks (Nat.pos_of_ne_zero h0) hlt hops hrun
      cases hq.symm.trans hq'
      have := c.outstanding_le
      have := ht.queue
      omega
  · intro hroom
    suffices h : ∃ p, run step (init hwms delays) (List.replicate n (.write x 0 [])) = .ok p ∧
        Filled (hwms x) x n p by
      obtain ⟨p, hrun, hfilled⟩ := h
      obtain ⟨-, a, q, hq, hcomplete⟩ := hfilled
      refine ⟨_, p, q, fun op hop => ?_, hrun, hq.reading, hcomplete⟩
      rw [List.eq_of_mem_replicate hop]
      rfl
    induction n with
    | zero =>
      exact ⟨_, rfl, by cases x <;> exact ⟨rfl, rfl, rfl⟩, _, _, writesTo_init hwms delays x, rfl⟩
    | succ n ih =>
      obtain ⟨p, hrun, hfilled⟩ := ih (by omega)
      obtain ⟨p', hstep, hfilled'⟩ := hfilled.write hlt (by omega)
      refine ⟨p', ?_, hfilled'⟩
      rw [List.replicate_succ', run_append hrun]
      exact run_cons_ok hstep

def ExactWatermarks (o : Side → InprocOptions) (p : PipePair) : Prop :=
  ∀ x n, Admits p x n ↔ ((o x).sndhwm = 0 ∨ (o x.other).rcvhwm = 0) ∨
    n ≤ (o x).sndhwm + (o x.other).rcvhwm

theorem hwmSum_ok {a b h : Nat} (hsum : hwmSum a b = .ok h) :
    h < 2 ^ 64 ∧ ∀ n, (h = 0 ∨ n ≤ h ↔ (a = 0 ∨ b = 0) ∨ n ≤ a + b) := by
  unfold hwmSum at hsum
  split_ifs at hsum <;> cases hsum <;> grind

theorem hwmSum_isOk (a b : Nat) : (∃ h, hwmSum a b = .ok h) ↔ a = 0 ∨ b = 0 ∨ a + b < 2 ^ 31 := by
  unfold hwmSum
  split_ifs <;> grind

/-- **Watermarks of inproc connections are exact if and only if the sums do not overflow.** -/
theorem inproc_watermarks (o : Side → InprocOptions) (delays : Side → Bool) :
    ((∃ p, inprocPair o delays = .ok p ∧ ExactWatermarks o p) ↔
      ∀ x, (o x).sndhwm = 0 ∨ (o x.other).rcvhwm = 0 ∨ (o x).sndhwm + (o x.other).rcvhwm < 2 ^ 31) ∧
      ∀ h, 0 < h → 1 ≤ Pipe.computeLwm h ∧ Pipe.computeLwm h ≤ h := by
  refine ⟨?_, fun h => Pipe.computeLwm_bounds⟩
  simp only [Side.forall_iff .left, ← hwmSum_isOk, Side.other, inprocPair]
  constructor
  · rintro ⟨p, hp, -⟩
    split at hp
    · cases hp
    · split at hp
      · cases hp
      · exact ⟨⟨_, ‹_›⟩, _, ‹_›⟩
  · rintro ⟨⟨a, ha⟩, b, hb⟩
    simp only [ha, hb]
    refine ⟨_, rfl, fun x n => ?_⟩
    rw [admits_iff]
    · cases x
      · exact (hwmSum_ok ha).2 n
      · exact (hwmSum_ok hb).2 n
    · cases x
      · exact (hwmSum_ok ha).1
      · exact (hwmSum_ok hb).1

theorem inproc_watermark_overflows :
    inprocPair (fun _ => ⟨2 ^ 30, 2 ^ 30, [], false, false, by decide, by decide⟩) (fun _ => true) =
      .error .signedOverflow := rfl

/-! ## Identities -/

def received (p : PipePair) (x : Side) : Option Msg :=
  match p.reading x with
  | none => none
  | some q =>
    match (p.pipe x).read q with
    | .error _ => none
    | .ok (msg, _) => msg

def HandsOver (o : Side → InprocOptions) (p : PipePair) : Prop :=
  (∀ x, (o x).sendIdentity = true → (o x.other).recvIdentity = true →
      p.received x.other = some (o x).message) ∧
    ∀ x, (o x).recvIdentity = false → ∀ q, p.reading x = some q → ∀ m ∈ q.queue, m.isIdentity = false

def addr : Side → Nat
  | .left => 1
  | .right => 0

def Carries (c : Side → UPipe) (p : PipePair) : Prop :=
  ∀ x, WritesTo x (addr x) (c x) p ∧ (p.pipe x).inActive = true

variable {c : Side → UPipe}

theorem carries_init (hwms : Side → Nat) (delays : Side → Bool) :
    Carries (fun _ => .init) (init hwms delays) := by
  intro x
  cases x <;> exact ⟨⟨⟨rfl, rfl, rfl⟩, rfl, rfl, rfl⟩, rfl⟩

theorem Carries.update {p' : PipePair} (h : Carries c p) (hdead : p'.dead = p.dead)
    (hheap : p'.heap = Function.update p.heap (addr x) (some q))
    (hpipe : ∀ y, (p'.pipe y).outActive = (p.pipe y).outActive ∧ (p'.pipe y).state = (p.pipe y).state ∧
      (p'.pipe y).outpipe = (p.pipe y).outpipe ∧ (p'.pipe y).inpipe = (p.pipe y).inpipe ∧
      (p'.pipe y).inActive = (p.pipe y).inActive) :
    Carries (Function.update c x q) p' := by
  intro y
  obtain ⟨hw, hin⟩ := h y
  obtain ⟨h1, h2, h3, -, h5⟩ := hpipe y
  refine ⟨⟨by rw [h1, h2, hdead]; exact hw.active, h3.trans hw.outpipe,
    (hpipe y.other).2.2.2.1.trans hw.inpipe, ?_⟩, h5.trans hin⟩
  rw [hheap]
  cases x <;> cases y <;> first | rfl | exact hw.heap

def announced (o : InprocOptions) (flushed : Bool) : UPipe :=
  if o.sendIdentity then
    if flushed then (YPipe.init.write o.message false).flush.2 else YPipe.init.write o.message false
  else .init

theorem announced_read (o : InprocOptions) (flushed : Bool) :
    (announced o flushed).read.1 = if o.sendIdentity && flushed then some o.message else none := by
  unfold announced
  cases o.sendIdentity <;> cases flushed <;> rfl

theorem announced_queue (o : InprocOptions) (flushed : Bool) :
    (announced o flushed).queue = if o.sendIdentity then [o.message] else [] := by
  unfold announced
  cases o.sendIdentity <;> cases flushed <;> rfl

theorem Carries.received (h : Carries c p) (x : Side) (hplain : ∀ m, (c x).read.1 = some m →
    m.isDelimiter = false) : p.received x.other = (c x).read.1 := by
  obtain ⟨-, hstate, -⟩ := (h x.other).1.active
  simp only [PipePair.received, (h x).1.reading, Pipe.read, (h x.other).2, Pipe.reads, hstate]
  rcases hr : (c x).read with ⟨_ | m, q'⟩
  · simp
  · simp [hplain m (by rw [hr])]

theorem Carries.writeIdentity (h : Carries c p) (hx : c x = .init) (hroom : (p.pipe x).full = false)
    (o : InprocOptions) : ∃ p', writeIdentity o x p = .ok p' ∧ p'.pipe x.other = p.pipe x.other ∧
      Carries (Function.update c x (announced o false)) p' := by
  unfold PipePair.writeIdentity announced
  cases o.sendIdentity with
  | false => exact ⟨p, rfl, rfl, by simpa [← hx] using h⟩
  | true =>
    obtain ⟨hcheck, hwrite⟩ := (h x).1.write hroom o.more_message
    refine ⟨_, by rw [if_neg (by simp), if_pos hcheck]; exact hwrite, by simp, ?_⟩
    refine h.update rfl (by simp [hx]) fun y => ?_
    by_cases hy : y = x
    · subst hy
      simp
    · simp [hy]

theorem Carries.flush (h : Carries c p) (x : Side) : ∃ p', p.flush x = .ok p' ∧ p'.pipe = p.pipe ∧
    Carries (Function.update c x (c x).flush.2) p' := by
  obtain ⟨inbox, hflush⟩ := (h x).1.flush
  exact ⟨_, hflush, rfl, h.update rfl rfl fun y => ⟨rfl, rfl, rfl, rfl, rfl⟩⟩

theorem full_init (hwms : Side → Nat) (delays : Side → Bool) (x : Side) :
    ((init hwms delays).pipe x).full = false := by
  have h : ∀ hwm, (decide (0 < hwm) && Pipe.sub64 0 0 == hwm) = false := by
    rw [show Pipe.sub64 0 0 = 0 from rfl]
    grind
  cases x <;> exact h _

def Reached (p : PipePair) : Prop := ∃ hwms delays ops, run step (init hwms delays) ops = .ok p

theorem Reached.flush (h : Reached p) (x : Side) : ∃ p', p.flush x = .ok p' := by
  obtain ⟨hwms, delays, ops, hrun⟩ := h
  obtain ⟨p₁, hrun₁, hI⟩ := run_safe (fun _ op => step_safe op) ops _ (inv_init hwms delays)
  cases hrun.symm.trans hrun₁
  obtain ⟨p', hstep, -⟩ := step_safe (.flush x) hI
  exact ⟨p', hstep⟩

theorem Carries.introduce (hwms : Side → Nat) (delays : Side → Bool) (own peer : InprocOptions)
    {pipes : List PipePair} (hpipes : ∀ p ∈ pipes, Reached p) :
    ∃ pipes' new, introduce own peer pipes (init hwms delays) = .ok (pipes', new) ∧
      Carries (fun | .left => announced own pipes.isEmpty | .right => announced peer true) new := by
  obtain ⟨p₁, hw₁, hp₁, hc₁⟩ := (carries_init hwms delays).writeIdentity rfl
    (full_init hwms delays .left) own
  obtain ⟨pipes', p₂, hw₂, hp₂, hc₂⟩ : ∃ pipes' p₂,
      (if own.sendIdentity then flushFirst pipes p₁ else .ok (pipes, p₁)) = .ok (pipes', p₂) ∧
        p₂.pipe = p₁.pipe ∧
        Carries (Function.update (fun _ => .init) .left (announced own pipes.isEmpty)) p₂ := by
    cases hsend : own.sendIdentity with
    | false => exact ⟨_, p₁, rfl, rfl, by simpa [announced, hsend] using hc₁⟩
    | true =>
      cases pipes with
      | nil =>
        obtain ⟨p₂, hflush, hp₂, hc₂⟩ := hc₁.flush .left
        exact ⟨[], p₂, by simp [flushFirst, hflush, Except.map], hp₂,
          by simpa [announced, hsend] using hc₂⟩
      | cons p pipes =>
        obtain ⟨p', hflush⟩ := (hpipes p (by simp)).flush .left
        exact ⟨p' :: pipes, p₁, by simp [flushFirst, hflush, Except.map], rfl,
          by simpa [announced, hsend] using hc₁⟩
  obtain ⟨p₃, hw₃, -, hc₃⟩ := hc₂.writeIdentity (x := .right) rfl
    (by rw [hp₂]; exact (congrArg Pipe.full hp₁).trans (full_init hwms delays .right)) peer
  simp only [PipePair.introduce, hw₁, hw₂, hw₃]
  cases hsend : peer.sendIdentity with
  | false =>
    refine ⟨pipes', p₃, rfl, ?_⟩
    convert hc₃ using 2 with y
    cases y <;> simp [announced, hsend]
  | true =>
    obtain ⟨p₄, hflush, -, hc₄⟩ := hc₃.flush .right
    refine ⟨pipes', p₄, by simp [hflush, Except.map], ?_⟩
    convert hc₄ using 2 with y
    cases y <;> simp [announced, hsend]

/-- **Identities are handed over exactly if those that are sent are expected**, and the connecting
    socket had no pipe before or does not send its own. -/
theorem inproc_identities (o : Side → InprocOptions) (delays : Side → Bool) (pipes : List PipePair)
    (hpipes : ∀ p ∈ pipes, Reached p) (hsum : ∀ x, (o x).sndhwm = 0 ∨ (o x.other).rcvhwm = 0 ∨
      (o x).sndhwm + (o x.other).rcvhwm < 2 ^ 31) :
    ∃ pipes' new, inprocConnect o delays pipes = .ok (pipes', new) ∧
      (HandsOver o new ↔ (∀ x, (o x).sendIdentity = true → (o x.other).recvIdentity = true) ∧
        ((o .left).sendIdentity = true → pipes = [])) := by
  simp only [Side.forall_iff .left, ← hwmSum_isOk, Side.other] at hsum
  obtain ⟨⟨a, ha⟩, b, hb⟩ := hsum
  simp only [inprocConnect, inprocPair, ha, hb]
  obtain ⟨pipes', new, hnew, hc⟩ := Carries.introduce (fun | .left => a | .right => b) delays (o .left)
    (o .right) hpipes
  refine ⟨pipes', new, hnew, ?_⟩
  have hplain : ∀ (o : InprocOptions) flushed m, (announced o flushed).read.1 = some m →
      m.isDelimiter = false := by
    intro o flushed m hm
    rw [announced_read] at hm
    split at hm <;> cases hm
    rfl
  have hright := (hc.received .left (hplain _ _)).trans (announced_read ..)
  have hleft := (hc.received .right (hplain _ _)).trans (announced_read ..)
  have hidentity : ∀ o : InprocOptions, o.message.isIdentity = true := fun o => by
    show (Msg.identityFlag &&& Msg.identityFlag != 0) = true
    decide
  have hqueue : ∀ x (o' : InprocOptions) flushed, new.reading x = some (announced o' flushed) →
      ((∀ q, new.reading x = some q → ∀ m ∈ q.queue, m.isIdentity = false) ↔
        o'.sendIdentity = false) := by
    intro x o' flushed hq
    simp only [hq, Option.some.injEq, forall_eq', announced_queue]
    cases o'.sendIdentity <;> simp [hidentity]
  have hqright := hqueue .right _ _ (hc .left).1.reading
  have hqleft := hqueue .left _ _ (hc .right).1.reading
  simp only [HandsOver, Side.forall_iff .left, Side.other] at hright hleft ⊢
  rw [hright, hleft, hqright, hqleft]
  cases (o .left).sendIdentity <;> cases (o .right).sendIdentity <;>
    cases (o .left).recvIdentity <;> cases (o .right).recvIdentity <;> cases pipes <;> simp

def requester (identity : List UInt8) : InprocOptions := ⟨0, 0, identity, true, true, by decide, by decide⟩

theorem inproc_identities_first : ∃ pipes' new,
    inprocConnect (fun _ => requester [7]) (fun _ => true) [] = .ok (pipes', new) ∧
      HandsOver (fun _ => requester [7]) new := by
  obtain ⟨pipes', new, hnew, hiff⟩ := inproc_identities (fun _ => requester [7]) (fun _ => true) []
    (fun _ h => absurd h List.not_mem_nil) fun _ => Or.inl rfl
  exact ⟨pipes', new, hnew, hiff.2 ⟨fun _ _ => rfl, fun _ => rfl⟩⟩

theorem inproc_identity_lost : ∃ pipes new pipes' new' new'',
    inprocConnect (fun _ => requester [7]) (fun _ => true) [] = .ok (pipes, new) ∧
      inprocConnect (fun _ => requester [7]) (fun _ => true) (pipes ++ [new]) = .ok (pipes', new') ∧
      new'.received .right = none ∧
      inprocConnect (fun | .left => requester [7] | .right => ⟨0, 0, [], false, false, by decide,
        by decide⟩) (fun _ => true) [] = .ok ([], new'') ∧
      (new''.received .right).map Msg.isIdentity = some true :=
  ⟨_, _, _, _, _, rfl, rfl, rfl, rfl, rfl⟩

end PipePair

end Libxs
