import Libxs.RoundTrip

/-! # Stream engines

One direction of a connection of two `stream_engine_t`; bytes in flight are in the receiver's feed. -/

namespace Libxs

structure StreamOptions where
  legacyProtocol : Bool
  spService : Nat
  spPattern : Nat
  spVersion : Nat
  spRole : Nat
  spComplement : Nat

def spGetHeader (service pattern version role : Nat) : List UInt8 :=
  [0, 0x53, 0x50, 0, UInt8.ofNat (service >>> 8), UInt8.ofNat service, UInt8.ofNat pattern,
    UInt8.ofNat ((version &&& 0xf) <<< 4 ||| (role &&& 0xf))]

def StreamOptions.outHeader (o : StreamOptions) : List UInt8 :=
  spGetHeader o.spService o.spPattern o.spVersion o.spRole

def StreamOptions.desiredHeader (o : StreamOptions) : List UInt8 :=
  spGetHeader o.spService o.spPattern o.spVersion o.spComplement

structure StreamOut where
  encoder : Encoder
  source : Source
  outdata : List UInt8
  headerSent : Bool
  pollout : Bool
  plugged : Bool

namespace StreamOut

-- `none` is the failure of a system call, after which `error` unplugs the engine
def write (s : StreamOut) (moreData : Bool) : Option Nat → List UInt8 × StreamOut
  | none => ([], { s with plugged := false })
  | some nbytes =>
    (s.outdata.take nbytes, { s with
      outdata := s.outdata.drop nbytes
      pollout := s.pollout && (moreData || s.outdata.drop nbytes != []) })

def outData (s : StreamOut) (nbytes : Option Nat) : Except Fault (List UInt8 × StreamOut) :=
  if s.outdata = [] then
    match s.encoder.getData s.source none with
    | .error e => .error e
    | .ok (batch, encoder, source) =>
      if batch.data = [] then
        .ok ([], { s with encoder := encoder, source := source, pollout := false })
      else
        .ok ({ s with encoder := encoder, source := source, outdata := batch.data }.write
          batch.more nbytes)
  else .ok (s.write true nbytes)

def outEvent (o : StreamOptions) (s : StreamOut) (hbytes nbytes : Option Nat) :
    Except Fault (List UInt8 × StreamOut) :=
  if o.legacyProtocol || s.headerSent then s.outData nbytes
  else if hbytes.getD 0 < 8 then
    .ok (o.outHeader.take (hbytes.getD 0), { s with plugged := false })
  else
    match { s with headerSent := true }.outData nbytes with
    | .error e => .error e
    | .ok (bytes, s) => .ok (o.outHeader ++ bytes, s)

end StreamOut

structure StreamIn where
  feed : Feed
  header : List UInt8
  headerReceived : Bool
  pollin : Bool
  plugged : Bool

namespace StreamIn

def inData (malloc : Nat → Bool) (i : StreamIn) (nbytes : Option Nat) : Except Fault StreamIn :=
  match i.feed.step malloc (.inEvent (nbytes.getD 0)) with
  | .error e => .error e
  | .ok feed =>
    let malformed := feed.returned.getLast? == some none
    .ok { i with
      feed := feed
      pollin := i.pollin && (malformed || feed.insize == 0)
      plugged := !(malformed || i.feed.insize == 0 && nbytes.isNone) }

def inEvent (malloc : Nat → Bool) (o : StreamOptions) (i : StreamIn) (hbytes nbytes : Option Nat) :
    Except Fault StreamIn :=
  if o.legacyProtocol || i.headerReceived then i.inData malloc nbytes
  else
    match hbytes with
    | none => .ok { i with plugged := false }
    | some hbytes =>
      let hbytes := min hbytes (8 - i.header.length)
      let i := { i with
        header := i.header ++ i.feed.rest.take hbytes
        feed := { i.feed with rest := i.feed.rest.drop hbytes } }
      if i.header.length < 8 then .ok i
      else if i.header ≠ o.desiredHeader then .ok { i with plugged := false }
      else { i with headerReceived := true }.inData malloc nbytes

def arrive (i : StreamIn) (bytes : List UInt8) : StreamIn :=
  { i with feed := { i.feed with rest := i.feed.rest ++ bytes } }

end StreamIn

structure StreamLink where
  out : StreamOut
  inn : StreamIn

inductive StreamOp where
  | outEvent (activate : Bool) (hbytes nbytes : Option Nat)
  | inEvent (activate : Bool) (hbytes nbytes : Option Nat)
  | terminate (sender : Bool)

/-- No system call fails (the header is written at once) and nobody terminates the engine. -/
def StreamOp.Sound : StreamOp → Prop
  | .outEvent _ hbytes nbytes => 8 ≤ hbytes.getD 0 ∧ nbytes.isSome = true
  | .inEvent _ hbytes nbytes => hbytes.isSome = true ∧ nbytes.isSome = true
  | .terminate _ => False

namespace StreamLink

def init (outBatch inBatch maxmsgsize : Nat) (source : Source) (answers : List Answer) :
    StreamLink where
  out := ⟨.init outBatch, source, [], false, true, true⟩
  inn := ⟨.init inBatch maxmsgsize answers [], [], false, true, true⟩

def step (malloc : Nat → Bool) (o i : StreamOptions) (l : StreamLink) :
    StreamOp → Except Fault StreamLink
  | .outEvent activate hbytes nbytes =>
    if l.out.plugged && (activate || l.out.pollout) then
      match { l.out with pollout := true }.outEvent o hbytes nbytes with
      | .error e => .error e
      | .ok (bytes, out) => .ok ⟨out, l.inn.arrive bytes⟩
    else .ok l
  | .inEvent activate hbytes nbytes =>
    if l.inn.plugged && (activate || l.inn.pollin) then
      match { l.inn with pollin := true }.inEvent malloc i hbytes nbytes with
      | .error e => .error e
      | .ok inn => .ok { l with inn := inn }
    else .ok l
  | .terminate true => .ok { l with out := { l.out with plugged := false } }
  | .terminate false => .ok { l with inn := { l.inn with plugged := false } }

end StreamLink

/-! ## What a peer can have sent -/

namespace StreamOptions

variable {malloc : Nat → Bool} {max : Nat} {o i : StreamOptions} {ms : List Msg}
variable {sent more : List UInt8}

def greeting (o : StreamOptions) : List UInt8 := if o.legacyProtocol then [] else o.outHeader

def expected (i : StreamOptions) : List UInt8 := if i.legacyProtocol then [] else i.desiredHeader

theorem next_nil (m : Msg) (rest : List UInt8) : (frames max).next [] ≠ .item m rest := by
  simp [frames, nextFrame, lengthField]

theorem nextFrame_zero (max : Nat) (bytes : List UInt8) :
    nextFrame max (0 :: bytes) = .malformed := by
  simp [nextFrame, lengthField]

theorem flatMap_frame_ne (hms : ∀ m ∈ ms, m.size + 1 < 2 ^ 64 ∧ m.size ≤ max)
    (bytes : List UInt8) : ms.flatMap Msg.frame ≠ 0 :: bytes := by
  intro h
  cases ms with
  | nil => cases h
  | cons m ms =>
    obtain ⟨hfits, hmax⟩ := hms m List.mem_cons_self
    have hnext := nextFrame_frame m hfits hmax (ms.flatMap Msg.frame)
    rw [← List.flatMap_cons, h, nextFrame_zero] at hnext
    cases hnext

theorem not_malformed_flatMap_frame (hms : ∀ m ∈ ms, m.size + 1 < 2 ^ 64 ∧ m.size ≤ max) :
    ¬ (frames max).Malformed (ms.flatMap Msg.frame) := by
  rw [Framer.Malformed, ((items_flatMap_frame ms hms).items_of_stop next_nil).2]
  simp [frames, nextFrame, lengthField]

theorem nothing_in_header (h : sent <+: 0 :: more) :
    (frames max).AtStarts (Affordable malloc max) sent ∧ (frames max).items sent = [] := by
  cases sent with
  | nil =>
    exact ⟨(Framer.atStarts_iff_of_stop next_nil).2 (affordable_of_none rfl),
      (Framer.split_of_stop next_nil).1⟩
  | cons b bytes =>
    obtain ⟨rfl, -⟩ := List.cons_prefix_cons.1 h
    have hstop : ∀ m rest, (frames max).next (0 :: bytes) ≠ .item m rest := fun m rest h =>
      absurd ((nextFrame_zero max bytes).symm.trans h) (by simp)
    exact ⟨(Framer.atStarts_iff_of_stop hstop).2 ((affordable_iff rfl).2 (Or.inl rfl)),
      (Framer.split_of_stop hstop).1⟩

theorem payload
    (hms : ∀ m ∈ ms, m.size + 1 < 2 ^ 64 ∧ m.size ≤ max ∧ Msg.Allocates malloc m.size)
    (h : i.expected ++ sent <+: o.greeting ++ ms.flatMap Msg.frame) :
    (frames max).AtStarts (Affordable malloc max) sent ∧
      (o.greeting = i.expected → sent <+: ms.flatMap Msg.frame) ∧
      (o.greeting ≠ i.expected → (frames max).items sent = []) := by
  by_cases heq : o.greeting = i.expected
  · rw [heq, List.prefix_append_right_inj] at h
    obtain ⟨more, hmore⟩ := h
    have hall := atStarts_affordable_flatMap ms hms
    rw [← hmore] at hall
    exact ⟨atStarts_affordable_of_append hall, fun _ => ⟨more, hmore⟩, fun hne => absurd heq hne⟩
  · suffices hnone : (frames max).AtStarts (Affordable malloc max) sent ∧
        (frames max).items sent = [] from
      ⟨hnone.1, fun hsame => absurd hsame heq, fun _ => hnone.2⟩
    unfold greeting expected at h heq
    cases ho : o.legacyProtocol <;> cases hi : i.legacyProtocol <;>
      simp only [ho, hi, if_true, Bool.false_eq_true, if_false, List.nil_append] at h heq
    · -- both headers have eight bytes
      obtain ⟨more, hmore⟩ := h
      rw [List.append_assoc] at hmore
      exact absurd (List.append_inj_left hmore rfl).symm heq
    · exact nothing_in_header h
    · obtain ⟨more, hmore⟩ := h
      exact absurd hmore.symm (flatMap_frame_ne (fun m hm => ⟨(hms m hm).1, (hms m hm).2.1⟩) _)
    · exact absurd trivial heq

end StreamOptions

/-! ## The two ends -/

namespace StreamOut

variable {o : StreamOptions} {full sent : List UInt8} {s : StreamOut}

def unsent (o : StreamOptions) (s : StreamOut) : List UInt8 :=
  (if o.legacyProtocol || s.headerSent then [] else o.outHeader) ++
    (s.outdata ++ (s.encoder.pending ++ s.source.wire))

structure Inv (o : StreamOptions) (full sent : List UInt8) (s : StreamOut) : Prop where
  fits : s.source.Fits
  started : sent <+: full
  bytes : s.plugged = true → sent ++ s.unsent o = full
  polls : s.pollout = false → s.outdata = []

theorem Inv.write (h : Inv o full sent s) (hplugged : s.plugged = true)
    (hgreeted : (o.legacyProtocol || s.headerSent) = true) (hpolls : s.pollout = true)
    (moreData : Bool) (nbytes : Option Nat) :
    Inv o full (sent ++ (s.write moreData nbytes).1) (s.write moreData nbytes).2 := by
  cases nbytes with
  | none =>
    refine ⟨h.fits, ?_, fun hp => absurd hp Bool.false_ne_true, h.polls⟩
    exact (List.append_nil sent).symm ▸ h.started
  | some n =>
    have hbytes : sent ++ s.outdata.take n ++ (s.write moreData (some n)).2.unsent o = full := by
      rw [← h.bytes hplugged]
      simp only [StreamOut.write, unsent, hgreeted, if_true, List.nil_append, List.append_assoc]
      rw [← List.append_assoc (s.outdata.take n), List.take_append_drop]
    refine ⟨h.fits, ⟨_, hbytes⟩, fun _ => hbytes, fun hp => ?_⟩
    show s.outdata.drop n = []
    simp only [StreamOut.write, hpolls, Bool.true_and, Bool.or_eq_false_iff] at hp
    simpa using hp.2

theorem write_plugged {nbytes : Option Nat} (hsome : nbytes.isSome = true) (moreData : Bool) :
    (s.write moreData nbytes).2.plugged = s.plugged := by
  obtain ⟨n, rfl⟩ := Option.isSome_iff_exists.1 hsome
  rfl

theorem Inv.outData (h : Inv o full sent s) (hplugged : s.plugged = true)
    (hgreeted : (o.legacyProtocol || s.headerSent) = true) (hpolls : s.pollout = true)
    (nbytes : Option Nat) :
    ∃ bytes s', s.outData nbytes = .ok (bytes, s') ∧ Inv o full (sent ++ bytes) s' ∧
      (nbytes.isSome = true → s'.plugged = true) := by
  unfold StreamOut.outData
  by_cases hnil : s.outdata = []
  · obtain ⟨batch, encoder, source, hget, hmoves⟩ := s.encoder.getData_spec h.fits none
    have hfull : sent ++ (batch.data ++ (encoder.pending ++ source.wire)) = full := by
      rw [hmoves.bytes, ← h.bytes hplugged]
      simp only [unsent, hgreeted, if_true, hnil, List.nil_append]
    rw [if_pos hnil]
    simp only [hget]
    by_cases hdata : batch.data = []
    · rw [if_pos hdata]
      refine ⟨_, _, rfl, ⟨hmoves.fits, ?_, fun _ => ?_, fun _ => hnil⟩, fun _ => hplugged⟩
      · exact (List.append_nil sent).symm ▸ h.started
      · rw [← hfull, hdata]
        simp only [unsent, hgreeted, if_true, hnil, List.nil_append, List.append_nil]
    · rw [if_neg hdata]
      have hfilled : Inv o full sent
          { s with encoder := encoder, source := source, outdata := batch.data } := by
        refine ⟨hmoves.fits, h.started, fun _ => ?_, fun hp => ?_⟩
        · simp only [unsent, hgreeted, if_true, List.nil_append, hfull]
        · exact absurd (hpolls.symm.trans hp) (by simp)
      exact ⟨_, _, rfl, hfilled.write hplugged hgreeted hpolls batch.more nbytes,
        fun hsome => (write_plugged hsome _).trans hplugged⟩
  · rw [if_neg hnil]
    exact ⟨_, _, rfl, h.write hplugged hgreeted hpolls true nbytes,
      fun hsome => (write_plugged hsome _).trans hplugged⟩

theorem Inv.outEvent (h : Inv o full sent s) (hplugged : s.plugged = true)
    (hpolls : s.pollout = true) (hbytes nbytes : Option Nat) :
    ∃ bytes s', s.outEvent o hbytes nbytes = .ok (bytes, s') ∧ Inv o full (sent ++ bytes) s' ∧
      (8 ≤ hbytes.getD 0 → nbytes.isSome = true → s'.plugged = true) := by
  unfold StreamOut.outEvent
  by_cases hgreeted : (o.legacyProtocol || s.headerSent) = true
  · rw [if_pos hgreeted]
    obtain ⟨bytes, s', hs', hinv, hstays⟩ := h.outData hplugged hgreeted hpolls nbytes
    exact ⟨bytes, s', hs', hinv, fun _ => hstays⟩
  · have hfull := h.bytes hplugged
    rw [unsent, if_neg hgreeted] at hfull
    rw [if_neg hgreeted]
    by_cases hless : hbytes.getD 0 < 8
    · rw [if_pos hless]
      refine ⟨_, _, rfl, ⟨h.fits, ?_, fun hp => absurd hp Bool.false_ne_true, h.polls⟩,
        fun hmore => absurd hless (Nat.not_lt.2 hmore)⟩
      refine ⟨o.outHeader.drop (hbytes.getD 0) ++ (s.outdata ++ (s.encoder.pending ++ s.source.wire)),
        ?_⟩
      rw [List.append_assoc, ← List.append_assoc (List.take _ _), List.take_append_drop, hfull]
    · rw [if_neg hless]
      have hnow : Inv o full (sent ++ o.outHeader) { s with headerSent := true } := by
        refine ⟨h.fits, ⟨_, (List.append_assoc _ _ _).trans hfull⟩, fun _ => ?_, h.polls⟩
        rw [← hfull]
        simp only [unsent, Bool.or_true, if_true, List.nil_append, List.append_assoc]
      obtain ⟨bytes, s', hs', hinv, hstays⟩ := hnow.outData hplugged (Bool.or_true _) hpolls nbytes
      rw [List.append_assoc] at hinv
      exact ⟨_, s', by rw [hs'], hinv, fun _ => hstays⟩

end StreamOut

theorem Feed.Inv.arrive {malloc : Nat → Bool} {max : Nat} {stream : List UInt8} {f : Feed}
    (h : f.Inv malloc max stream) (bytes : List UInt8) :
    Feed.Inv malloc max (stream ++ bytes) { f with rest := f.rest ++ bytes } where
  bytes := by rw [← h.bytes, List.append_assoc]
  left := Nat.le_trans h.left (by simp)
  answers := h.answers
  state := by
    cases h.state with
    | alive htracks hwaits hcounts => exact .alive htracks hwaits hcounts
    | dead hgave hcounts => exact .dead (hgave.append bytes) hcounts

namespace StreamIn

variable {malloc : Nat → Bool} {max batch : Nat} {answers : List Answer} {o : StreamOptions}
variable {sent : List UInt8} {i : StreamIn}

inductive State (malloc : Nat → Bool) (max batch : Nat) (answers : List Answer) (o : StreamOptions)
    (sent : List UInt8) (i : StreamIn) : Prop where
  | waits {bytes : List UInt8} (hgreeted : (o.legacyProtocol || i.headerReceived) = false)
      (hopen : i.plugged = true → i.header.length < 8)
      (hsent : i.header ++ bytes = sent) (hfeed : i.feed = .init batch max answers bytes)
  | receives {bytes : List UInt8} (hgreeted : (o.legacyProtocol || i.headerReceived) = true)
      (hsent : o.expected ++ bytes = sent) (hfeed : i.feed.Inv malloc max bytes)

structure Inv (malloc : Nat → Bool) (max batch : Nat) (answers : List Answer) (o : StreamOptions)
    (sent : List UInt8) (i : StreamIn) : Prop where
  polls : i.pollin = false → 0 < i.feed.insize
  state : State malloc max batch answers o sent i

theorem State.congr {i' : StreamIn} (h : State malloc max batch answers o sent i)
    (hfeed : i'.feed = i.feed) (hheader : i'.header = i.header)
    (hreceived : i'.headerReceived = i.headerReceived)
    (hplugged : i'.plugged = true → i.plugged = true) :
    State malloc max batch answers o sent i' := by
  cases h with
  | waits hgreeted hopen hsent hinit =>
    exact .waits (hreceived ▸ hgreeted) (fun hp => hheader ▸ hopen (hplugged hp)) (hheader ▸ hsent)
      (hfeed.trans hinit)
  | receives hgreeted hsent hinv => exact .receives (hreceived ▸ hgreeted) hsent (hfeed ▸ hinv)

theorem Inv.arrive (h : Inv malloc max batch answers o sent i) (more : List UInt8) :
    Inv malloc max batch answers o (sent ++ more) (i.arrive more) := by
  refine ⟨h.polls, ?_⟩
  cases h.state with
  | waits hgreeted hopen hsent hfeed =>
    refine .waits hgreeted hopen (by rw [← hsent, List.append_assoc]; rfl) ?_
    simp only [StreamIn.arrive, hfeed]
    rfl
  | receives hgreeted hsent hfeed =>
    exact .receives hgreeted (by rw [← hsent, List.append_assoc]) (hfeed.arrive more)

theorem inData_ok {bytes : List UInt8} (hfeed : i.feed.Inv malloc max bytes)
    (hall : (frames max).AtStarts (Affordable malloc max) bytes) (hpolls : i.pollin = true)
    (nbytes : Option Nat) :
    ∃ i', i.inData malloc nbytes = .ok i' ∧ i'.feed.Inv malloc max bytes ∧
      i'.headerReceived = i.headerReceived ∧ (i'.pollin = false → 0 < i'.feed.insize) ∧
      (nbytes.isSome = true → ¬ (frames max).Malformed bytes → i'.plugged = true) := by
  rcases hfeed.step (.inEvent (nbytes.getD 0)) with ⟨e, -, hstarves⟩ | ⟨feed, hstep, hinv, -⟩
  · exact absurd hstarves (not_starves hall)
  · simp only [inData, hstep]
    refine ⟨_, rfl, hinv, rfl, fun hp => ?_, fun hsome hgood => ?_⟩
    · rw [hpolls, Bool.true_and, Bool.or_eq_false_iff] at hp
      exact Nat.pos_of_ne_zero (beq_eq_false_iff_ne.1 hp.2)
    · have halive : feed.returned.getLast? ≠ some none := fun hlast =>
        hgood ((hinv.follows hall).dead (List.mem_of_getLast? hlast)).2.2
      simp [halive, hsome]

theorem Inv.inEvent (h : Inv malloc max batch answers o sent i) (hno : .failed ∉ answers)
    (hplugged : i.plugged = true) (hpolls : i.pollin = true)
    (hall : ∀ bytes, o.expected ++ bytes = sent →
      (frames max).AtStarts (Affordable malloc max) bytes) (hbytes nbytes : Option Nat) :
    ∃ i', i.inEvent malloc o hbytes nbytes = .ok i' ∧ Inv malloc max batch answers o sent i' ∧
      (hbytes.isSome = true → nbytes.isSome = true → (∃ bytes, sent <+: o.expected ++ bytes) →
        (∀ bytes, o.expected ++ bytes = sent → ¬ (frames max).Malformed bytes) →
        i'.plugged = true) := by
  unfold StreamIn.inEvent
  cases h.state with
  | receives hgreeted hsent hfeed =>
    rw [if_pos hgreeted]
    obtain ⟨i', hi', hfeed', hsame, hpolls', hstays⟩ :=
      inData_ok hfeed (hall _ hsent) hpolls nbytes
    exact ⟨i', hi', ⟨hpolls', .receives (by rw [hsame, hgreeted]) hsent hfeed'⟩,
      fun _ hsome _ hgood => hstays hsome (hgood _ hsent)⟩
  | @waits bytes hgreeted hopen hsent hfeed =>
    rw [if_neg (by simp [hgreeted])]
    cases hbytes with
    | none =>
      exact ⟨_, rfl, ⟨h.polls, .waits hgreeted (fun hp => absurd hp Bool.false_ne_true) hsent
        hfeed⟩, fun hsome => absurd hsome Bool.false_ne_true⟩
    | some n =>
      simp only [hfeed, Feed.init]
      generalize hk : min n (8 - i.header.length) = k
      have hsent' : i.header ++ bytes.take k ++ bytes.drop k = sent := by
        rw [List.append_assoc, List.take_append_drop, hsent]
      have htrue : i.pollin = false → 0 < 0 := fun hp => absurd (hpolls.symm.trans hp) (by simp)
      have hexpected : o.expected = o.desiredHeader := by
        rw [StreamOptions.expected, (Bool.or_eq_false_iff.1 hgreeted).1]
        rfl
      by_cases hmore : (i.header ++ bytes.take k).length < 8
      · rw [if_pos hmore]
        exact ⟨_, rfl, ⟨htrue, .waits hgreeted (fun _ => hmore) hsent' rfl⟩, fun _ _ _ _ => hplugged⟩
      · rw [if_neg hmore]
        by_cases hdesired : i.header ++ bytes.take k = o.desiredHeader
        · rw [if_neg (not_not_intro hdesired)]
          rw [hdesired, ← hexpected] at hsent'
          obtain ⟨i', hi', hfeed', hsame, hpolls', hstays⟩ := inData_ok
            (i := ⟨Feed.init batch max answers (bytes.drop k), i.header ++ bytes.take k, true,
              i.pollin, i.plugged⟩) (Feed.inv_init hno) (hall _ hsent') hpolls nbytes
          exact ⟨i', hi', ⟨hpolls', .receives (by rw [hsame, Bool.or_true]) hsent' hfeed'⟩,
            fun _ hsome _ hgood => hstays hsome (hgood _ hsent')⟩
        · rw [if_pos hdesired]
          refine ⟨_, rfl, ⟨htrue, .waits hgreeted (fun hp => absurd hp Bool.false_ne_true) hsent'
            rfl⟩, fun _ _ hsame _ => absurd ?_ hdesired⟩
          -- eight bytes of what begins with the expected header are that header
          obtain ⟨more, rest, heq⟩ := hsame
          rw [← hsent', hexpected, List.append_assoc] at heq
          have hopen' := hopen hplugged
          refine List.append_inj_left heq ?_
          rw [List.length_append, List.length_take] at hmore ⊢
          show _ = 8
          omega

end StreamIn

namespace StreamLink

variable {malloc : Nat → Bool} {max outBatch inBatch : Nat} {o i : StreamOptions}
variable {source : Source} {answers : List Answer} {l : StreamLink}

def Inv (malloc : Nat → Bool) (max inBatch : Nat) (o i : StreamOptions) (source : Source)
    (answers : List Answer) (l : StreamLink) : Prop :=
  ∃ sent, l.out.Inv o (o.greeting ++ source.wire) sent ∧ l.inn.Inv malloc max inBatch answers i sent

theorem inv_init (hfits : source.Fits) (hno : .failed ∉ answers) :
    Inv malloc max inBatch o i source answers (init outBatch inBatch max source answers) := by
  refine ⟨[], ⟨hfits, List.nil_prefix, fun _ => ?_, fun hp => absurd hp (by simp [init])⟩,
    fun hp => absurd hp (by simp [init]), ?_⟩
  · simp [StreamOut.unsent, init, StreamOptions.greeting, Encoder.pending, Encoder.init]
  · cases hi : i.legacyProtocol with
    | true =>
      exact .receives (by simp [hi]) (by simp [StreamOptions.expected, hi]) (Feed.inv_init hno)
    | false => exact .waits (by simp [hi, init]) (fun _ => by simp [init]) rfl rfl

def Connected (l : StreamLink) : Prop := l.out.plugged = true ∧ l.inn.plugged = true

section

variable (hsource : ∀ m ∈ source.messages,
  m.size + 1 < 2 ^ 64 ∧ m.size ≤ max ∧ Msg.Allocates malloc m.size)
include hsource

theorem Inv.step (hno : .failed ∉ answers) (h : Inv malloc max inBatch o i source answers l)
    (op : StreamOp) :
    ∃ l', l.step malloc o i op = .ok l' ∧ Inv malloc max inBatch o i source answers l' ∧
      (o.greeting = i.expected → op.Sound → l.Connected → l'.Connected) := by
  obtain ⟨sent, hout, hinn⟩ := h
  cases op with
  | outEvent activate hbytes nbytes =>
    simp only [StreamLink.step]
    by_cases hon : (l.out.plugged && (activate || l.out.pollout)) = true
    · have hplugged := (Bool.and_eq_true_iff.1 hon).1
      have hasked : StreamOut.Inv o (o.greeting ++ source.wire) sent
          { l.out with pollout := true } :=
        ⟨hout.fits, hout.started, hout.bytes, fun hp => absurd hp (by simp)⟩
      obtain ⟨bytes, out, hev, hinv, hstays⟩ := hasked.outEvent hplugged rfl hbytes nbytes
      simp only [if_pos hon, hev]
      exact ⟨_, rfl, ⟨sent ++ bytes, hinv, hinn.arrive bytes⟩,
        fun _ hsound hcon => ⟨hstays hsound.1 hsound.2, hcon.2⟩⟩
    · rw [if_neg hon]
      exact ⟨l, rfl, ⟨sent, hout, hinn⟩, fun _ _ hcon => hcon⟩
  | inEvent activate hbytes nbytes =>
    simp only [StreamLink.step]
    by_cases hon : (l.inn.plugged && (activate || l.inn.pollin)) = true
    · have hasked : StreamIn.Inv malloc max inBatch answers i sent
          { l.inn with pollin := true } :=
        ⟨fun hp => absurd hp (by simp), hinn.state.congr rfl rfl rfl id⟩
      obtain ⟨inn, hev, hinv, hstays⟩ := hasked.inEvent hno (Bool.and_eq_true_iff.1 hon).1 rfl
        (fun bytes hb => (StreamOptions.payload hsource (hb ▸ hout.started)).1) hbytes nbytes
      simp only [if_pos hon, hev]
      refine ⟨_, rfl, ⟨sent, hout, hinv⟩, fun hgreet hsound hcon => ⟨hcon.1, ?_⟩⟩
      refine hstays hsound.1 hsound.2 ⟨_, hgreet ▸ hout.started⟩ fun bytes hb hbad => ?_
      obtain ⟨more, hmore⟩ := (StreamOptions.payload hsource (hb ▸ hout.started)).2.1 hgreet
      exact StreamOptions.not_malformed_flatMap_frame (fun m hm => ⟨(hsource m hm).1, (hsource m hm).2.1⟩)
        (hmore ▸ hbad.append more)
    · rw [if_neg hon]
      exact ⟨l, rfl, ⟨sent, hout, hinn⟩, fun _ _ hcon => hcon⟩
  | terminate sender =>
    cases sender with
    | true =>
      exact ⟨_, rfl, ⟨sent, ⟨hout.fits, hout.started, fun hp => absurd hp Bool.false_ne_true,
        hout.polls⟩, hinn⟩, fun _ hsound => absurd hsound id⟩
    | false =>
      exact ⟨_, rfl, ⟨sent, hout, hinn.polls, hinn.state.congr rfl rfl rfl fun hp => nomatch hp⟩,
        fun _ hsound => absurd hsound id⟩

theorem Inv.accepted (h : Inv malloc max inBatch o i source answers l) :
    (o.greeting = i.expected →
      l.inn.feed.session.accepted.map Msg.content <+: source.messages.map Msg.content ∧
      (l.Connected → l.out.unsent o = [] → l.inn.feed.Finished →
        l.inn.feed.session.accepted.map Msg.content = source.messages.map Msg.content)) ∧
    (o.greeting ≠ i.expected → l.inn.feed.session.accepted = []) := by
  obtain ⟨sent, hout, hinn⟩ := h
  cases hinn.state with
  | @waits bytes hgreeted hopen hsent hfeed =>
    have hnone : l.inn.feed.session.accepted = [] := by rw [hfeed]; rfl
    refine ⟨fun hgreet => ⟨by simp [hnone], fun hcon hunsent hfin => ?_⟩, fun _ => hnone⟩
    -- the header has arrived with everything else
    have hrest : bytes = [] := by
      have hrest := hfin.2.1
      rwa [hfeed] at hrest
    have hbytes := congrArg List.length (hout.bytes hcon.1)
    rw [hunsent, ← hsent, hrest, hgreet, StreamOptions.expected,
      (Bool.or_eq_false_iff.1 hgreeted).1, List.append_nil, List.append_nil, List.length_append]
      at hbytes
    have hshort := hopen hcon.2
    rw [hbytes] at hshort
    exact absurd hshort (Nat.not_lt.2 (Nat.le_add_right 8 _))
  | @receives bytes _ hsent hfeed =>
    obtain ⟨hall, hsame, hother⟩ := StreamOptions.payload hsource (hsent ▸ hout.started)
    have hfollows := hfeed.follows hall
    have hcontent := content_items_flatMap_frame fun m hm => ⟨(hsource m hm).1, (hsource m hm).2.1⟩
    refine ⟨fun hgreet => ⟨?_, fun hcon hunsent hfin => ?_⟩, fun hne => ?_⟩
    · obtain ⟨more, hmore⟩ := hsame hgreet
      rw [← hcontent, ← hmore]
      exact (hfollows.started.trans ((frames max).items_append bytes more)).map Msg.content
    · have hbytes := hout.bytes hcon.1
      rw [hunsent, List.append_nil, ← hsent, hgreet] at hbytes
      rw [← hcontent, ← (hfollows.finished hfin).1, List.append_cancel_left hbytes]
      rfl
    · have hnil := hfollows.started
      rwa [hother hne, List.prefix_nil] at hnil

end

/-- **A connection loses nothing.** Whatever the reads and writes transfer, a session gets the messages
    of a peer with the expected header from the first one on, all of them once nothing is under way,
    and none of another peer; without a failure the connection stays, and no bytes get stuck. -/
theorem connection_lossless (malloc : Nat → Bool) (outBatch inBatch max : Nat) (o i : StreamOptions)
    (source : Source)
    (hsource : ∀ m ∈ source.messages,
      m.size + 1 < 2 ^ 64 ∧ m.size ≤ max ∧ Msg.Allocates malloc m.size)
    (answers : List Answer) (hno : .failed ∉ answers) (ops : List StreamOp) :
    ∃ l, run (step malloc o i) (init outBatch inBatch max source answers) ops = .ok l ∧
      (o.greeting = i.expected →
        l.inn.feed.session.accepted.map Msg.content <+: source.messages.map Msg.content ∧
        (l.Connected → l.out.unsent o = [] → l.inn.feed.Finished →
          l.inn.feed.session.accepted.map Msg.content = source.messages.map Msg.content) ∧
        ((∀ op ∈ ops, op.Sound) → l.Connected)) ∧
      (o.greeting ≠ i.expected → l.inn.feed.session.accepted = []) ∧
      (l.out.pollout = false → l.out.outdata = []) ∧
      (l.inn.pollin = false → 0 < l.inn.feed.insize) := by
  let Undisturbed : Prop := o.greeting = i.expected ∧ ∀ op ∈ ops, op.Sound
  have hstep : ∀ l op, Inv malloc max inBatch o i source answers l ∧ (Undisturbed → l.Connected) →
      op ∈ ops → ∃ l', l.step malloc o i op = .ok l' ∧
        Inv malloc max inBatch o i source answers l' ∧ (Undisturbed → l'.Connected) := by
    intro l op hI hop
    obtain ⟨l', hl', hinv, hstays⟩ := hI.1.step hsource hno op
    exact ⟨l', hl', hinv, fun hall => hstays hall.1 (hall.2 op hop) (hI.2 hall)⟩
  obtain ⟨l, hrun, h, hcon⟩ := run_safe_of hstep ops (init outBatch inBatch max source answers)
    ⟨inv_init (fun m hm => (hsource m hm).1) hno, fun _ => ⟨rfl, rfl⟩⟩ fun _ hop => hop
  have hall := h.accepted hsource
  obtain ⟨sent, hout, hinn⟩ := h
  exact ⟨l, hrun, fun hgreet => ⟨(hall.1 hgreet).1, (hall.1 hgreet).2, fun hs => hcon ⟨hgreet, hs⟩⟩,
    hall.2, hout.polls, hinn.polls⟩

def reqOptions : StreamOptions := ⟨false, 0, 3, 3, 1, 2⟩

def repOptions : StreamOptions := ⟨false, 0, 3, 3, 2, 1⟩

def requestOps : List StreamOp :=
  [.outEvent false (some 8) (some 2), .inEvent false (some 5) (some 9),
    .inEvent false (some 3) (some 1), .outEvent true (some 8) (some 9),
    .outEvent true (some 8) (some 9), .inEvent true (some 0) (some 9), .inEvent true (some 0) (some 9)]

theorem connection_lossless_request :
    ∃ l, run (step (fun _ => true) reqOptions repOptions) (init 8192 8192 100 twoParts [.again])
      requestOps = .ok l ∧ l.Connected ∧
      l.inn.feed.session.accepted.map Msg.content = [([97], true), ([], false)] := by
  obtain ⟨l, hrun, hsame, -⟩ := connection_lossless (fun _ => true) 8192 8192 100 reqOptions
    repOptions twoParts (by decide) [.again] (by decide) requestOps
  have hends : (run (step (fun _ => true) reqOptions repOptions)
      (init 8192 8192 100 twoParts [.again]) requestOps).map
        (fun l => l.inn.feed.session.accepted.map Msg.content) =
      .ok [([97], true), ([], false)] := rfl
  rw [hrun] at hends
  refine ⟨l, hrun, (hsame rfl).2.2 ?_, Except.ok.inj hends⟩
  simp [requestOps, StreamOp.Sound]

end StreamLink

end Libxs
