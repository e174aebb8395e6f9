import Libxs.Pipe.Endpoint

/-! # `session_base_t`: between the engine and the pipe

`src/session_base.cpp` as an engine sees it. -/

namespace Libxs

inductive SocketType where
  | pair | pub | sub | req | rep | xreq | xrep | pull | push | xpub | xsub
  | surveyor | respondent | xsurveyor | xrespondent
deriving DecidableEq, Repr

structure Options where
  type : SocketType
  identity : List UInt8
  sendIdentity : Bool
  recvIdentity : Bool
  spVersion : Int
deriving DecidableEq, Repr

def Options.req (identity : List UInt8) (spVersion : Int) : Options where
  type := .req
  identity := identity
  sendIdentity := true
  recvIdentity := true
  spVersion := spVersion

structure SessionBase where
  options : Options
  connect : Bool
  pipe : Option Endpoint
  incompleteIn : Bool
  identitySent : Bool
  identityRecvd : Bool

namespace SessionBase

def init (options : Options) (connect : Bool) : SessionBase where
  options := options
  connect := connect
  pipe := none
  incompleteIn := false
  identitySent := false
  identityRecvd := false

def read (s : SessionBase) (msg : Msg) : Except Fault (Option Msg × SessionBase) :=
  if s.options.sendIdentity && !s.identitySent then
    if msg.more then .error .assertFailed
    else
      .ok (some ⟨false, 0, s.options.identity⟩,
        { s with identitySent := true, incompleteIn := false })
  else
    match s.pipe with
    | none => .ok (none, s)
    | some pipe =>
      match pipe.read with
      | .error e => .error e
      | .ok (none, pipe) => .ok (none, { s with pipe := some pipe })
      | .ok (some msg, pipe) =>
        .ok (some msg, { s with pipe := some pipe, incompleteIn := msg.more })

def markIdentity (s : SessionBase) (msg : Msg) : Msg × SessionBase :=
  if s.options.recvIdentity && !s.identityRecvd then
    ({ msg with flags := msg.flags ||| Msg.identityFlag }, { s with identityRecvd := true })
  else (msg, s)

def write (s : SessionBase) (msg : Msg) : Except Fault (Bool × Msg × SessionBase) :=
  match s.markIdentity msg with
  | (msg, s) =>
    match s.pipe with
    | none => .ok (false, msg, s)
    | some pipe =>
      match pipe.write msg with
      | .error e => .error e
      | .ok (true, pipe) => .ok (true, .init, { s with pipe := some pipe })
      | .ok (false, pipe) => .ok (false, msg, { s with pipe := some pipe })

def flush (s : SessionBase) : SessionBase := { s with pipe := s.pipe.map Endpoint.flush }

def cleanLoop : Nat → SessionBase → Except Fault SessionBase
  | 0, s => if s.incompleteIn then .error .outOfFuel else .ok s
  | fuel + 1, s =>
    if s.incompleteIn then
      match s.read .init with
      | .error e => .error e
      | .ok (some _, s) =>
        -- `read` returns 0 on success: this is the branch of `if (!read (&msg))`
        if s.incompleteIn then .error .assertFailed else .ok s
      | .ok (none, s) => cleanLoop fuel s
    else .ok s

def cleanPipes (s : SessionBase) : Except Fault SessionBase :=
  match s.pipe with
  | none => .ok s
  | some pipe =>
    match pipe.rollback with
    | .error e => .error e
    | .ok pipe => cleanLoop 2 { s with pipe := some pipe.flush }

def detached (s : SessionBase) : SessionBase :=
  if s.connect && (s.options.type == .sub || s.options.type == .xsub) then
    { s with pipe := s.pipe.map Endpoint.hiccup }
  else s

def detach (s : SessionBase) : Except Fault SessionBase :=
  match cleanPipes { s with identitySent := false, identityRecvd := false } with
  | .error e => .error e
  | .ok s =>
    let s := s.detached
    -- just in case there is only a delimiter in the pipe
    match s.pipe with
    | none => .ok s
    | some pipe =>
      match pipe.checkRead with
      | .error e => .error e
      | .ok (_, pipe) => .ok { s with pipe := some pipe }

/-! ## What the calls leave alone -/

structure Keeps (s s' : SessionBase) : Prop where
  options : s'.options = s.options
  connect : s'.connect = s.connect
  pipe : s'.pipe.isSome = s.pipe.isSome

theorem Keeps.refl (s : SessionBase) : Keeps s s := ⟨rfl, rfl, rfl⟩

theorem Keeps.trans {s₁ s₂ s₃ : SessionBase} (h : Keeps s₁ s₂) (h' : Keeps s₂ s₃) : Keeps s₁ s₃ :=
  ⟨h'.options.trans h.options, h'.connect.trans h.connect, h'.pipe.trans h.pipe⟩

variable {s s' : SessionBase} {msg : Msg}

theorem read_keeps {r : Option Msg} (h : s.read msg = .ok (r, s')) : s.Keeps s' := by
  unfold read at h
  split at h
  · split at h
    · cases h
    · cases h
      exact ⟨rfl, rfl, rfl⟩
  · cases hpipe : s.pipe with
    | none =>
      simp only [hpipe] at h
      cases h
      exact .refl s
    | some pipe =>
      rcases pipe.read_cases with ⟨msg', e, hread, -⟩ | ⟨e, hread, -⟩
      all_goals
        simp only [hpipe, hread] at h
        cases h
        exact ⟨rfl, rfl, by rw [hpipe]; rfl⟩

theorem cleanLoop_keeps : ∀ (fuel : Nat) (s : SessionBase), cleanLoop fuel s = .ok s' →
    s.Keeps s' := by
  intro fuel
  induction fuel with
  | zero =>
    intro s h
    simp only [cleanLoop] at h
    split at h
    · cases h
    · exact (Except.ok.injEq _ _ ▸ h : s = s') ▸ .refl s
  | succ fuel ih =>
    intro s h
    simp only [cleanLoop] at h
    split at h
    · split at h
      · cases h
      next hread =>
        split at h
        · cases h
        · cases h
          exact read_keeps hread
      next hread => exact (read_keeps hread).trans (ih _ h)
    · simp only [Except.ok.injEq] at h
      exact h ▸ .refl s

theorem cleanPipes_keeps (h : s.cleanPipes = .ok s') : s.Keeps s' := by
  unfold cleanPipes at h
  split at h
  · cases h
    exact .refl s
  next hpipe =>
    split at h
    · cases h
    · have hloop := cleanLoop_keeps _ _ h
      exact ⟨hloop.options, hloop.connect, hloop.pipe.trans (by rw [hpipe]; rfl)⟩

theorem detached_base_keeps (s : SessionBase) : s.Keeps s.detached := by
  unfold detached
  split
  · exact ⟨rfl, rfl, Option.isSome_map⟩
  · exact .refl s

theorem detach_keeps (h : s.detach = .ok s') : s.Keeps s' := by
  unfold detach at h
  cases hclean : cleanPipes { s with identitySent := false, identityRecvd := false } with
  | error e => simp [hclean] at h
  | ok t =>
    have ht : s.Keeps t.detached := by
      have hkept := (cleanPipes_keeps hclean).trans t.detached_base_keeps
      exact ⟨hkept.options, hkept.connect, hkept.pipe⟩
    simp only [hclean] at h
    split at h
    · cases h
      exact ht
    next hpipe =>
      split at h
      · cases h
      · cases h
        exact ht.trans ⟨rfl, rfl, by rw [hpipe]; rfl⟩

theorem write_keeps {ok : Bool} {msg' : Msg} (h : s.write msg = .ok (ok, msg', s')) :
    s.Keeps s' := by
  obtain ⟨msg₁, t, hmark, hkept⟩ : ∃ msg₁ t, s.markIdentity msg = (msg₁, t) ∧ s.Keeps t := by
    unfold markIdentity
    split <;> exact ⟨_, _, rfl, rfl, rfl, rfl⟩
  simp only [write, hmark] at h
  split at h
  · cases h
    exact hkept
  next hpipe =>
    split at h
    · cases h
    all_goals
      cases h
      exact hkept.trans ⟨rfl, rfl, by rw [hpipe]; rfl⟩

/-! ## Pipes that can be written to -/

def Sound (s : SessionBase) : Prop := ∀ pipe ∈ s.pipe, pipe.Sound
deriving Decidable

theorem Sound.write (h : s.Sound) (msg : Msg) :
    ∃ ok msg' s', s.write msg = .ok (ok, msg', s') ∧ s'.options = s.options ∧ s'.Sound := by
  obtain ⟨msg', t, hmark, hpipe, hoptions⟩ : ∃ msg' t, s.markIdentity msg = (msg', t) ∧
      t.pipe = s.pipe ∧ t.options = s.options := by
    unfold markIdentity
    split <;> exact ⟨_, _, rfl, rfl, rfl⟩
  simp only [SessionBase.write, hmark, hpipe]
  cases hp : s.pipe with
  | none => grind [Sound]
  | some pipe =>
    obtain ⟨e, he, hsound⟩ := (h pipe hp).write msg'
    cases hacc : pipe.accepts
    all_goals
      rw [hacc] at he
      simp only [he]
      exact ⟨_, _, _, rfl, hoptions, by simpa [Sound] using hsound⟩

end SessionBase

end Libxs
