import Libxs.SessionBase
import Libxs.Pipe.Framing

/-! # Where a new connection takes over -/

namespace Libxs

namespace SessionBase

/-! ## What the next engine should find -/

def afterMessage : Bool → List Msg → List Msg
  | false, ms => ms
  | true, [] => []
  | true, m :: ms => afterMessage m.more ms

def fromPipe : Option Endpoint → Option Msg
  | none => none
  | some pipe =>
    match pipe.read with
    | .error _ => none
    | .ok (msg, _) => msg

def readAll (s : SessionBase) : List (Option Endpoint) → Except Fault (List (Option Msg))
  | [] => .ok []
  | pipe :: pipes =>
    match read { s with pipe := pipe } .init with
    | .error e => .error e
    | .ok (msg, s) =>
      match readAll s pipes with
      | .error e => .error e
      | .ok msgs => .ok (msg :: msgs)

def identityMsg (s : SessionBase) : Msg := ⟨false, 0, s.options.identity⟩

structure Reconnects (before : Endpoint) (begun : Bool) (s : SessionBase) : Prop where
  boundary : ∃ e ∈ s.pipe, e.inq.Inbound false ∧
    e.inq.ready <:+ afterMessage begun before.inq.ready
  identity : s.options.sendIdentity = true → ∀ pipe pipes,
    s.readAll (pipe :: pipes) = .ok (some s.identityMsg :: pipes.map fromPipe)

/-! ## Reads of a connection -/

variable {s s' : SessionBase} {e : Endpoint}

theorem readAll_pipe (pipes : List (Option Endpoint)) : ∀ s : SessionBase,
    (s.options.sendIdentity && !s.identitySent) = false →
    s.readAll pipes = .ok (pipes.map fromPipe) := by
  induction pipes with
  | nil => exact fun _ _ => rfl
  | cons pipe pipes ih =>
    intro s hs
    have hrest : ∀ t : SessionBase, t.options = s.options → t.identitySent = s.identitySent →
        t.readAll pipes = .ok (pipes.map fromPipe) := by
      intro t ho hi
      exact ih t (by rw [ho, hi]; exact hs)
    simp only [readAll, read, hs, Bool.false_eq_true, if_false]
    cases pipe with
    | none => simp [hrest { s with pipe := none } rfl rfl, fromPipe]
    | some e =>
      rcases e.read_cases with ⟨msg, e', hread, -⟩ | ⟨e', hread, -⟩
      · grind [fromPipe]
      · grind [fromPipe]

theorem readAll_identity (hsend : s.options.sendIdentity = true) (hsent : s.identitySent = false)
    (pipe : Option Endpoint) (pipes : List (Option Endpoint)) :
    s.readAll (pipe :: pipes) = .ok (some s.identityMsg :: pipes.map fromPipe) := by
  have hpipes := readAll_pipe pipes
    { s with pipe := pipe, identitySent := true, incompleteIn := false } (by simp)
  simp [readAll, read, hsend, hsent, Msg.init, Msg.more, hpipes, identityMsg]

theorem readAll_no_identity (hsent : s.identitySent = true) : s.readAll [none] = .ok [none] :=
  readAll_pipe [none] s (by simp [hsent])

/-! ## The loop of `clean_pipes` -/

theorem cleanLoop_idle {fuel : Nat} (h : s.incompleteIn = false) : cleanLoop fuel s = .ok s := by
  cases fuel <;> simp [cleanLoop, h]

theorem cleanLoop_identity (h : s.incompleteIn = true) (hsend : s.options.sendIdentity = true)
    (hsent : s.identitySent = false) :
    cleanLoop 2 s = .ok { s with identitySent := true, incompleteIn := false } := by
  simp [cleanLoop, h, read, hsend, hsent, Msg.init, Msg.more]

theorem cleanLoop_part (h : s.incompleteIn = true) (hsend : s.options.sendIdentity = false)
    (hpipe : s.pipe = some e) {m : Msg} {e' : Endpoint} (hread : e.read = .ok (some m, e')) :
    cleanLoop 2 s = if m.more then .error .assertFailed
      else .ok { s with pipe := some e', incompleteIn := m.more } := by
  simp [cleanLoop, h, read, hsend, hpipe, hread]

theorem cleanLoop_refused (h : s.incompleteIn = true) (hsend : s.options.sendIdentity = false)
    (hpipe : s.pipe = some e) (hcan : e.canRead = false) : cleanLoop 2 s = .error .outOfFuel := by
  have hnone : ∀ e : Endpoint, e.canRead = false → ∃ e', e.read = .ok (none, e') ∧
      e'.canRead = false := by
    intro e he
    rcases e.read_cases with ⟨-, -, -, hc, -⟩ | ⟨e', hread, hc, -⟩
    · exact absurd (he.symm.trans hc) (by simp)
    · exact ⟨e', hread, hc⟩
  obtain ⟨e', hread, hcan'⟩ := hnone e hcan
  obtain ⟨e'', hread', -⟩ := hnone e' hcan'
  simp [cleanLoop, h, read, hsend, hpipe, hread, hread']

/-! ## `detach` -/

def resume (s : SessionBase) : Except Fault SessionBase :=
  match s.detached.pipe with
  | none => .ok s.detached
  | some pipe =>
    match pipe.checkRead with
    | .error e => .error e
    | .ok (_, pipe) => .ok { s.detached with pipe := some pipe }

theorem detach_eq (s : SessionBase) :
    s.detach = match cleanPipes { s with identitySent := false, identityRecvd := false } with
      | .error e => .error e
      | .ok s => s.resume := rfl

theorem hiccup_inq (e : Endpoint) : e.hiccup.inq = e.inq ∨ e.hiccup.inq = YPipe.init := by
  unfold Endpoint.hiccup
  split
  · exact Or.inl rfl
  · exact Or.inr rfl

theorem detached_keeps (s : SessionBase) :
    s.detached.options = s.options ∧ s.detached.identitySent = s.identitySent := by
  unfold detached
  split <;> exact ⟨rfl, rfl⟩

theorem resume_keeps (h : s.resume = .ok s') :
    s'.options = s.options ∧ s'.identitySent = s.identitySent := by
  unfold resume at h
  split at h
  · cases h
    exact s.detached_keeps
  · split at h
    · cases h
    · cases h
      exact s.detached_keeps

theorem resume_spec (hpipe : s.pipe = some e) (hin : e.inq.Inbound false) :
    ∃ s' e', s.resume = .ok s' ∧ s'.pipe = some e' ∧ e'.inq.Inbound false ∧
      e'.inq.ready <:+ e.inq.ready := by
  obtain ⟨e₁, hpipe₁, hin₁, hsuffix₁⟩ : ∃ e₁, s.detached.pipe = some e₁ ∧ e₁.inq.Inbound false ∧
      e₁.inq.ready <:+ e.inq.ready := by
    unfold detached
    split
    · refine ⟨e.hiccup, by simp [hpipe], ?_⟩
      rcases hiccup_inq e with hq | hq
      · rw [hq]
        exact ⟨hin, List.suffix_refl _⟩
      · rw [hq]
        exact ⟨YPipe.inbound_init, List.nil_suffix⟩
    · exact ⟨e, hpipe, hin, List.suffix_refl _⟩
  obtain ⟨b, e', hcheck, hin', hsuffix'⟩ := Endpoint.checkRead_suffix hin₁
  refine ⟨{ s.detached with pipe := some e' }, e', ?_, rfl, hin', hsuffix'.trans hsuffix₁⟩
  simp only [resume, hpipe₁, hcheck]

theorem detach_loop (hpipe : s.pipe = some e) (hout : e.outq.Good) :
    ∃ t e', s.detach = (match cleanLoop 2 t with
        | .error e => .error e
        | .ok s => s.resume) ∧
      t.pipe = some e' ∧ e'.inq = e.inq ∧ e'.canRead = e.canRead ∧ t.options = s.options ∧
      t.incompleteIn = s.incompleteIn ∧ t.identitySent = false := by
  have hgood : ∀ q, e.outPtr = some q → q.Good := by grind [Endpoint.outPtr]
  obtain ⟨outq, hback, -⟩ := Pipe.rollback_calls e.pipe e.inq hgood
  refine ⟨{ s with pipe := some (e.setOut outq).flush, identitySent := false, identityRecvd := false },
    (e.setOut outq).flush, ?_, rfl, ?_, ?_, rfl, rfl, rfl⟩
  · simp only [detach_eq, cleanPipes, hpipe, Endpoint.rollback, hback]
  · simp [Endpoint.flush]
  · simp [Endpoint.flush, Endpoint.canRead]

theorem reconnects_of_resume (begun : Bool) {t : SessionBase} {e₁ : Endpoint}
    (hpipe : t.pipe = some e₁) (hin : e₁.inq.Inbound false) (hrest : e₁.inq.ready = afterMessage begun e.inq.ready)
    (hsent : t.identitySent = false) : ∃ s', t.resume = .ok s' ∧ s'.Reconnects e begun := by
  obtain ⟨s', e', hresume, hpipe', hin', hsuffix⟩ := resume_spec hpipe hin
  obtain ⟨-, hsent'⟩ := resume_keeps hresume
  refine ⟨s', hresume, ⟨e', hpipe', hin', hrest ▸ hsuffix⟩, fun hsend => ?_⟩
  exact readAll_identity hsend (hsent'.trans hsent)

/-- **A session can go on with a new connection** exactly if no message was begun, or if a single part
    is missing, the pipe is still read and no identity is to be sent. -/
theorem reconnects_iff (hpipe : s.pipe = some e) (hin : e.inq.Inbound s.incompleteIn)
    (hout : e.outq.Good) :
    (∃ s', s.detach = .ok s' ∧ s'.Reconnects e s.incompleteIn) ↔
      s.incompleteIn = false ∨ s.options.sendIdentity = false ∧ e.canRead = true ∧
        ∃ m ∈ e.inq.ready.head?, m.more = false := by
  obtain ⟨t, e₁, hdetach, hpipe₁, hinq, hcan, hoptions, hbegun, hsent⟩ := detach_loop hpipe hout
  rw [hdetach]
  cases hb : s.incompleteIn with
  | false =>
    rw [hb] at hin hbegun
    rw [cleanLoop_idle hbegun]
    have hdone := reconnects_of_resume (e := e) false hpipe₁ (hinq ▸ hin)
      (by rw [hinq, afterMessage]) hsent
    exact iff_of_true hdone (Or.inl rfl)
  | true =>
    rw [hb] at hin hbegun
    simp only [Bool.true_eq_false, false_or]
    cases hsend : s.options.sendIdentity with
    | true =>
      rw [cleanLoop_identity hbegun (hoptions ▸ hsend) hsent]
      refine iff_of_false ?_ (by simp)
      rintro ⟨s', hresume, hre⟩
      obtain ⟨ho, hs⟩ := resume_keeps hresume
      have hfirst := hre.identity (by rw [ho, ← hsend, ← hoptions]) none []
      rw [readAll_no_identity hs] at hfirst
      simp at hfirst
    | false =>
      have hsend₁ : t.options.sendIdentity = false := hoptions ▸ hsend
      obtain ⟨r, e₂, hread, hreads, -⟩ := Endpoint.read_reads (e := e₁) (hinq ▸ hin.good.wf)
      obtain ⟨hin₂, hpart⟩ := Endpoint.read_inbound (hinq ▸ hin) hread
      cases hc : e.canRead with
      | false =>
        rw [cleanLoop_refused hbegun hsend₁ hpipe₁ (hcan.trans hc)]
        simp
      | true =>
        have hsome := hpart rfl (hcan.trans hc)
        cases hreads with
        | @part m hc₁ hc₂ hplain hflushed hready =>
          rw [cleanLoop_part hbegun hsend₁ hpipe₁ hread, ← hinq, hready]
          cases hm : m.more with
          | true => simp [hm]
          | false =>
            simp only [Bool.false_eq_true, if_false]
            have hdone := reconnects_of_resume (e := e) true
              (t := { t with pipe := some e₂, incompleteIn := false }) rfl
              (by simpa [hm] using hin₂)
              (by rw [← hinq, hready, afterMessage, hm, afterMessage]) hsent
            exact iff_of_true hdone (by simp [hm])
        | delimiter | empty | refused => simp at hsome

def holding (options : Options) (parts : List Bool) : SessionBase :=
  { init options true with
    pipe := some ((parts.map fun more => ⟨false, if more then Msg.moreFlag else 0, []⟩).foldl
      Endpoint.peerWrite (.init 0 0 true)).peerFlush }

def afterReads : Nat → SessionBase → SessionBase
  | 0, s => s
  | n + 1, s =>
    match s.read .init with
    | .error _ => s
    | .ok (_, s) => afterReads n s

def Options.push : Options := ⟨.push, [], false, false, 3⟩

theorem reconnects_lastPart :
    ∃ e, (afterReads 1 (holding Options.push [true, false])).pipe = some e ∧
      ∃ s', (afterReads 1 (holding Options.push [true, false])).detach = .ok s' ∧
        s'.Reconnects e true := by
  refine ⟨_, rfl, ?_⟩
  exact (reconnects_iff (s := afterReads 1 (holding Options.push [true, false])) rfl (by decide)
    ⟨by decide, by decide⟩).2 (Or.inr ⟨rfl, rfl, _, rfl, rfl⟩)

theorem begunMessage_breaks :
    (∃ s', (afterReads 2 (holding (.req [1] 3) [true, false])).detach = .ok s' ∧
        s'.readAll [none] = .ok [none] ∧ s'.pipe.map (·.inq.ready) = some [⟨false, 0, []⟩]) ∧
      (afterReads 1 (holding Options.push [true, true, false])).detach = .error .assertFailed :=
  ⟨⟨_, rfl, rfl, rfl⟩, rfl⟩

/-! ## Where the hypotheses come from -/

def Consistent (s : SessionBase) : Prop :=
  ∀ e ∈ s.pipe, e.inq.Inbound s.incompleteIn ∧ e.outq.Good

def IdentityFirst (s : SessionBase) : Prop :=
  s.options.sendIdentity = true → s.identitySent = false → s.incompleteIn = false

theorem Consistent.read (h : s.Consistent) (hfirst : s.IdentityFirst) {msg : Msg} {r : Option Msg}
    (hread : s.read msg = .ok (r, s')) : s'.Consistent ∧ s'.IdentityFirst := by
  unfold SessionBase.read at hread
  by_cases hid : (s.options.sendIdentity && !s.identitySent) = true
  · obtain ⟨hsend, hsent⟩ : s.options.sendIdentity = true ∧ s.identitySent = false := by
      simpa using hid
    have hidle := hfirst hsend hsent
    rw [if_pos hid] at hread
    split at hread
    · cases hread
    · simp only [Except.ok.injEq, Prod.mk.injEq] at hread
      rw [← hread.2]
      exact ⟨fun e he => by simpa [hidle] using h e he, fun _ _ => rfl⟩
  · have hlater : ∀ begun pipe, IdentityFirst { s with pipe := pipe, incompleteIn := begun } := by
      intro begun pipe hsend hsent
      exact absurd (by simpa using ⟨hsend, hsent⟩) hid
    rw [if_neg hid] at hread
    cases hpipe : s.pipe with
    | none => grind
    | some e =>
      obtain ⟨hin, hout⟩ := h e hpipe
      obtain ⟨m, e', hr, -, hkept, -⟩ := Endpoint.read_reads hin.good.wf
      obtain ⟨hin', -⟩ := Endpoint.read_inbound hin hr
      cases m with
      | none =>
        simp only [hpipe, hr, Except.ok.injEq, Prod.mk.injEq] at hread
        rw [← hread.2]
        refine ⟨fun e₁ he₁ => ?_, hlater _ _⟩
        simp only [Option.mem_def, Option.some.injEq] at he₁
        exact he₁ ▸ ⟨hin', hkept ▸ hout⟩
      | some m =>
        simp only [hpipe, hr, Except.ok.injEq, Prod.mk.injEq] at hread
        rw [← hread.2]
        refine ⟨fun e₁ he₁ => ?_, hlater _ _⟩
        simp only [Option.mem_def, Option.some.injEq] at he₁
        exact he₁ ▸ ⟨hin', hkept ▸ hout⟩

end SessionBase

end Libxs
