import Libxs.ReqSession.Proofs

/-! # A reply that meets a full pipe -/

namespace Libxs

def ReqState.takes (version : Int) : ReqState → Msg → Option ReqState
  | .reqid, m => if m.flags = Msg.moreFlag ∧ m.size = 4 then some .bottom else none
  | .bottom, m => if m.flags = Msg.moreFlag ∧ m.size = 0 then some .body else none
  | .body, m =>
    if m.flags = Msg.moreFlag then some .body else if m.flags = 0 then some .bottom else none
  | .identity, m => if m.flags = 0 then some (first version) else none

namespace ReqSession

variable {s s' : ReqSession} {m m' : Msg}

theorem write_takes (s : ReqSession) (m : Msg) :
    s.write m =
      match ReqState.takes s.options.spVersion s.state m with
      | none => .ok (some .efault, m, s)
      | some state => s.pass state m := by
  unfold write
  cases s.state with
  | identity =>
    simp only [ReqState.takes, ReqState.first]
    split <;> rfl
  | reqid =>
    simp only [ReqState.takes]
    split <;> rfl
  | bottom =>
    simp only [ReqState.takes]
    split <;> rfl
  | body =>
    simp only [ReqState.takes]
    split
    · rfl
    · split <;> rfl

/-! ## Which parts fit twice -/

theorem takes_again {version : Int} {state next : ReqState}
    (h : ReqState.takes version state m = some next) :
    ReqState.takes version next m =
      if m.flags = Msg.moreFlag ∧ state ≠ .reqid then some next else none := by
  have hmore : (0 : UInt8) ≠ Msg.moreFlag := by decide
  cases state with
  | identity => grind [ReqState.takes, ReqState.first]
  | reqid => grind [ReqState.takes]
  | bottom => grind [ReqState.takes]
  | body => grind [ReqState.takes]

theorem takes_identity (version : Int) (state : ReqState) {m : Msg}
    (h : m.flags &&& Msg.identityFlag ≠ 0) : ReqState.takes version state m = none := by
  have hmore : m.flags ≠ Msg.moreFlag := by
    rintro he
    exact h (by rw [he]; decide)
  have hlast : m.flags ≠ 0 := by
    rintro he
    exact h (by rw [he]; decide)
  cases state <;> simp [ReqState.takes, hmore, hlast]

/-! ## The first attempt and the second -/

def ExpectsIdentity (s : ReqSession) : Prop :=
  s.options.recvIdentity = true ∧ s.identityRecvd = false
deriving Decidable

def reopened (s : ReqSession) (pipe : Endpoint) (incompleteIn identitySent : Bool) : ReqSession :=
  { s with pipe := some pipe, incompleteIn := incompleteIn, identitySent := identitySent }

theorem markIdentity_of_not {base : SessionBase}
    (h : ¬ (base.options.recvIdentity = true ∧ base.identityRecvd = false)) (m : Msg) :
    base.markIdentity m = (m, base) := by
  unfold SessionBase.markIdentity
  rw [if_neg]
  simpa using h

theorem markIdentity_of_expects {base : SessionBase}
    (h : base.options.recvIdentity = true ∧ base.identityRecvd = false) (m : Msg) :
    base.markIdentity m =
      ({ m with flags := m.flags ||| Msg.identityFlag }, { base with identityRecvd := true }) := by
  unfold SessionBase.markIdentity
  rw [if_pos]
  simpa using h

theorem pass_eagain {state : ReqState} (h : s.pass state m = .ok (some .eagain, m', s')) :
    s'.state = state ∧ s'.options = s.options ∧ s'.connect = s.connect ∧
      m' = (s.toSessionBase.markIdentity m).1 ∧
      s'.identityRecvd = (s.toSessionBase.markIdentity m).2.identityRecvd := by
  obtain ⟨hoptions, hconnect, hpipe⟩ :
      (s.toSessionBase.markIdentity m).2.options = s.options ∧
      (s.toSessionBase.markIdentity m).2.connect = s.connect ∧
      (s.toSessionBase.markIdentity m).2.pipe = s.pipe := by
    unfold SessionBase.markIdentity
    split <;> exact ⟨rfl, rfl, rfl⟩
  unfold pass SessionBase.write at h
  generalize s.toSessionBase.markIdentity m = marked at *
  obtain ⟨msg, base⟩ := marked
  simp only at h hoptions hconnect hpipe ⊢
  rw [hpipe] at h
  cases hp : s.pipe with
  | none => grind
  | some pipe => grind

theorem pass_reopened (s : ReqSession) (state : ReqState) (m : Msg) {pipe : Endpoint}
    (hsound : pipe.Sound) (hroom : pipe.accepts = true) (incompleteIn identitySent : Bool) :
    ∃ t, (s.reopened pipe incompleteIn identitySent).pass state m = .ok (none, .init, t) := by
  have hpipe : ((s.reopened pipe incompleteIn identitySent).toSessionBase.markIdentity m).2.pipe =
      some pipe := by
    unfold SessionBase.markIdentity
    split <;> rfl
  unfold pass SessionBase.write
  generalize (s.reopened pipe incompleteIn identitySent).toSessionBase.markIdentity m = marked at *
  obtain ⟨msg, base⟩ := marked
  simp only at hpipe ⊢
  obtain ⟨pipe', hw, -⟩ := hsound.write msg
  rw [hroom] at hw
  simp only [hpipe, hw, if_true]
  exact ⟨_, rfl⟩

def Resumes (s : ReqSession) (m : Msg) (s' : ReqSession) (m' : Msg) : Prop :=
  ∀ (pipe : Endpoint) (incompleteIn identitySent : Bool), pipe.Sound → pipe.accepts = true →
    ∃ m'' t, (s'.reopened pipe incompleteIn identitySent).write m' = .ok (none, m'', t) ∧
      (s.reopened pipe incompleteIn identitySent).write m = .ok (none, m'', t)

def Fails (s' : ReqSession) (m' : Msg) : Prop :=
  ∀ (pipe : Endpoint) (incompleteIn identitySent : Bool),
    (s'.reopened pipe incompleteIn identitySent).write m' =
      .ok (some .efault, m', s'.reopened pipe incompleteIn identitySent)

theorem Fails.not_resumes (h : Fails s' m') : ¬ Resumes s m s' m' := by
  intro hresumes
  obtain ⟨m'', t, hw, -⟩ := hresumes (.init 0 0 true) false false (by decide) (by decide)
  rw [h] at hw
  cases hw

/-- **Which replies survive back-pressure.** -/
theorem resumes_after_backPressure_iff (h : s.write m = .ok (some .eagain, m', s')) :
    (Resumes s m s' m' ↔
        m.flags = Msg.moreFlag ∧ s.state ≠ .reqid ∧ ¬ s.ExpectsIdentity) ∧
      (Resumes s m s' m' ∨ Fails s' m') := by
  rw [write_takes] at h
  cases htakes : ReqState.takes s.options.spVersion s.state m with
  | none => simp [htakes] at h
  | some next =>
    simp only [htakes] at h
    obtain ⟨hstate, hoptions, hconnect, hmsg, hrecvd⟩ := pass_eagain h
    have hversion : s'.options.spVersion = s.options.spVersion := by rw [hoptions]
    have hagain : ∀ pipe i d, (s'.reopened pipe i d).write m' =
        match ReqState.takes s.options.spVersion next m' with
        | none => .ok (some .efault, m', s'.reopened pipe i d)
        | some state => (s'.reopened pipe i d).pass state m' := by
      intro pipe i d
      rw [write_takes]
      show (match ReqState.takes s'.options.spVersion s'.state m' with
        | none => _
        | some state => _) = _
      rw [hversion, hstate]
    by_cases hid : s.ExpectsIdentity
    · -- the identity bit is in the message now
      have hmark : m'.flags &&& Msg.identityFlag ≠ 0 := by
        rw [hmsg, markIdentity_of_expects hid]
        have hall : ∀ b : UInt8, (b ||| Msg.identityFlag) &&& Msg.identityFlag ≠ 0 := by
          intro b
          have hb : ∀ v : BitVec 8, (v ||| 64) &&& 64 ≠ 0 := by decide
          intro he
          exact hb b.toBitVec (by simpa [Msg.identityFlag] using congrArg UInt8.toBitVec he)
        exact hall m.flags
      have hfails : Fails s' m' := by
        intro pipe i d
        rw [hagain, takes_identity _ _ hmark]
      exact ⟨⟨fun hr => absurd hr hfails.not_resumes, fun hc => absurd hid hc.2.2⟩, Or.inr hfails⟩
    · rw [markIdentity_of_not hid] at hmsg hrecvd
      subst hmsg
      have htwice := takes_again htakes
      by_cases hfits : m'.flags = Msg.moreFlag ∧ s.state ≠ .reqid
      · rw [if_pos hfits] at htwice
        have hresumes : Resumes s m' s' m' := by
          intro pipe i d hsound hroom
          have hsame : ∀ state, (s'.reopened pipe i d).pass state m' =
              (s.reopened pipe i d).pass state m' := by
            intro state
            have hbase : (s'.reopened pipe i d).toSessionBase =
                (s.reopened pipe i d).toSessionBase := by
              simp only [reopened, hoptions, hconnect, hrecvd]
            simp only [pass, hbase]
          obtain ⟨t, ht⟩ := pass_reopened s next m' hsound hroom i d
          refine ⟨.init, t, ?_, ?_⟩
          · rw [hagain, htwice]
            exact (hsame next).trans ht
          · rw [write_takes]
            show (match ReqState.takes s.options.spVersion s.state m' with
              | none => _
              | some state => _) = _
            rw [htakes]
            exact ht
        exact ⟨⟨fun _ => ⟨hfits.1, hfits.2, hid⟩, fun _ => hresumes⟩, Or.inl hresumes⟩
      · rw [if_neg hfits] at htwice
        have hfails : Fails s' m' := by
          intro pipe i d
          rw [hagain, htwice]
        exact ⟨⟨fun hr => absurd hr hfails.not_resumes, fun hc => absurd ⟨hc.1, hc.2.1⟩ hfits⟩,
          Or.inr hfails⟩

def narrow : ReqSession :=
  ⟨{ SessionBase.init (.req [] 3) true with pipe := some (.init 0 1 true) }, .identity⟩

def full : Endpoint :=
  { Endpoint.init 0 1 true with pipe := { (Endpoint.init 0 1 true).pipe with msgsWritten := 1 } }

def inBody : ReqSession :=
  ⟨{ SessionBase.init (.req [] 3) true with pipe := some full, identityRecvd := true }, .body⟩

theorem body_resumes_after_backPressure :
    ∃ s, inBody.write ⟨false, Msg.moreFlag, [5]⟩ =
        .ok (some .eagain, ⟨false, Msg.moreFlag, [5]⟩, s) ∧
      Resumes inBody ⟨false, Msg.moreFlag, [5]⟩ s ⟨false, Msg.moreFlag, [5]⟩ := by
  obtain ⟨s, h⟩ : ∃ s, inBody.write ⟨false, Msg.moreFlag, [5]⟩ =
      .ok (some .eagain, ⟨false, Msg.moreFlag, [5]⟩, s) := ⟨_, rfl⟩
  exact ⟨s, h, (resumes_after_backPressure_iff h).1.2 ⟨rfl, by decide, by decide⟩⟩

theorem requestId_lost_to_backPressure :
    ∃ s₁ s₂ t₁ t₂, narrow.write ⟨false, 0, []⟩ = .ok (none, .init, s₁) ∧
      s₁.write ⟨false, Msg.moreFlag, [0, 0, 0, 1]⟩ =
        .ok (some .eagain, ⟨false, Msg.moreFlag, [0, 0, 0, 1]⟩, s₂) ∧
      (s₂.reopened (.init 0 0 true) false false).write ⟨false, Msg.moreFlag, [0, 0, 0, 1]⟩ =
        .ok (some .efault, ⟨false, Msg.moreFlag, [0, 0, 0, 1]⟩, t₁) ∧
      (s₁.reopened (.init 0 0 true) false false).write ⟨false, Msg.moreFlag, [0, 0, 0, 1]⟩ =
        .ok (none, .init, t₂) :=
  ⟨_, _, _, _, rfl, rfl, rfl, rfl⟩

end ReqSession

end Libxs
