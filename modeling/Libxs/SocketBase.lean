import Libxs.Fq

/-! # `socket_base_t`: a socket among its pipes -/

namespace Libxs

variable {σ α : Type} [DecidableEq α]

structure Sink (σ α : Type) where
  fq : σ → Fq α
  xattachPipe : σ → α → Except Fault σ
  xreadActivated : σ → α → Except Fault σ
  xwriteActivated : σ → α → Except Fault σ
  xterminated : σ → α → Except Fault σ

def Endpoint.Fresh (e : Endpoint) : Prop :=
  e.pipe.state = .active ∧ e.pipe.outpipe.isSome = true ∧ e.pipe.inActive = true ∧
    e.pipe.outActive = true ∧ e.pipe.WithinHwm
deriving Decidable

inductive PipeEvent (α : Type) where
  | attach (pipe : α) (e : Endpoint)
  | terminated (pipe : α)
  | processActivateRead (pipe : α)
  | processActivateWrite (pipe : α) (msgsRead : Nat)
  | processPipeTerm (pipe : α)
  | terminate (pipe : α) (delay : Bool)
  | peerWrite (pipe : α) (msg : Msg)
  | peerFlush (pipe : α)
  | peerRollback (pipe : α)
  | peerRead (pipe : α)

def PipeEvent.step (S : Sink σ α) (s : σ) (ends : Ends α) :
    PipeEvent α → Except Fault (σ × Ends α)
  | .attach pipe e =>
    if (S.fq s).attached pipe ∨ ¬ e.Fresh then .ok (s, ends)
    else
      match S.xattachPipe s pipe with
      | .error err => .error err
      | .ok s =>
        .ok (s, Function.update ends pipe { e with refusedRead := false, refusedWrite := false })
  | .terminated pipe =>
    if (S.fq s).attached pipe then
      match S.xterminated s pipe with
      | .error err => .error err
      | .ok s => .ok (s, ends)
    else .ok (s, ends)
  | .processActivateRead pipe =>
    if (S.fq s).attached pipe then
      match (ends pipe).processActivateRead with
      | (false, e) => .ok (s, Function.update ends pipe e)
      | (true, e) =>
        match S.xreadActivated s pipe with
        | .error err => .error err
        | .ok s => .ok (s, Function.update ends pipe e)
    else .ok (s, ends)
  | .processActivateWrite pipe msgsRead =>
    if (S.fq s).attached pipe ∧ (ends pipe).pipe.Advances msgsRead then
      match (ends pipe).processActivateWrite msgsRead with
      | (false, e) => .ok (s, Function.update ends pipe e)
      | (true, e) =>
        match S.xwriteActivated s pipe with
        | .error err => .error err
        | .ok s => .ok (s, Function.update ends pipe e)
    else .ok (s, ends)
  | .processPipeTerm pipe =>
    match (ends pipe).processPipeTerm with
    | .error err => .error err
    | .ok e => .ok (s, Function.update ends pipe e)
  | .terminate pipe delay =>
    match (ends pipe).terminate delay with
    | .error err => .error err
    | .ok e => .ok (s, Function.update ends pipe e)
  | .peerWrite pipe msg => .ok (s, Function.update ends pipe ((ends pipe).peerWrite msg))
  | .peerFlush pipe => .ok (s, Function.update ends pipe (ends pipe).peerFlush)
  | .peerRollback pipe =>
    match (ends pipe).peerRollback with
    | .error err => .error err
    | .ok e => .ok (s, Function.update ends pipe e)
  | .peerRead pipe => .ok (s, Function.update ends pipe (ends pipe).peerRead)

/-! ## What an event does -/

inductive PipeEvent.Steps (S : Sink σ α) (s : σ) (ends : Ends α) :
    PipeEvent α → σ → Ends α → Prop where
  | ignored {ev : PipeEvent α} : Steps S s ends ev s ends
  | attach {pipe : α} {e : Endpoint} {s' : σ} : ¬ (S.fq s).attached pipe → e.Fresh →
      S.xattachPipe s pipe = .ok s' →
      Steps S s ends (.attach pipe e) s'
        (Function.update ends pipe { e with refusedRead := false, refusedWrite := false })
  | terminated {pipe : α} {s' : σ} : (S.fq s).attached pipe → S.xterminated s pipe = .ok s' →
      Steps S s ends (.terminated pipe) s' ends
  | readActivated {pipe : α} {e : Endpoint} {s' : σ} : (S.fq s).attached pipe →
      (ends pipe).processActivateRead = (true, e) → S.xreadActivated s pipe = .ok s' →
      Steps S s ends (.processActivateRead pipe) s' (Function.update ends pipe e)
  | writeActivated {pipe : α} {n : Nat} {e : Endpoint} {s' : σ} : (S.fq s).attached pipe →
      (ends pipe).pipe.Advances n → (ends pipe).processActivateWrite n = (true, e) →
      S.xwriteActivated s pipe = .ok s' →
      Steps S s ends (.processActivateWrite pipe n) s' (Function.update ends pipe e)
  | writeReported {pipe : α} {n : Nat} {e : Endpoint} : (S.fq s).attached pipe →
      (ends pipe).pipe.Advances n → (ends pipe).processActivateWrite n = (false, e) →
      Steps S s ends (.processActivateWrite pipe n) s (Function.update ends pipe e)
  | processPipeTerm {pipe : α} {e : Endpoint} : (ends pipe).processPipeTerm = .ok e →
      Steps S s ends (.processPipeTerm pipe) s (Function.update ends pipe e)
  | terminate {pipe : α} {delay : Bool} {e : Endpoint} : (ends pipe).terminate delay = .ok e →
      Steps S s ends (.terminate pipe delay) s (Function.update ends pipe e)
  | peerWrite {pipe : α} {msg : Msg} :
      Steps S s ends (.peerWrite pipe msg) s (Function.update ends pipe ((ends pipe).peerWrite msg))
  | peerFlush {pipe : α} :
      Steps S s ends (.peerFlush pipe) s (Function.update ends pipe (ends pipe).peerFlush)
  | peerRollback {pipe : α} {e : Endpoint} : (ends pipe).peerRollback = .ok e →
      Steps S s ends (.peerRollback pipe) s (Function.update ends pipe e)
  | peerRead {pipe : α} :
      Steps S s ends (.peerRead pipe) s (Function.update ends pipe (ends pipe).peerRead)

theorem PipeEvent.steps {S : Sink σ α} {s s' : σ} {ends ends' : Ends α} {ev : PipeEvent α}
    (h : ev.step S s ends = .ok (s', ends')) : ev.Steps S s ends s' ends' := by
  cases ev with
  | attach pipe e =>
    simp only [step] at h
    split at h
    · obtain ⟨rfl, rfl⟩ := by simpa using h
      exact .ignored
    next hg =>
      rw [not_or, not_not] at hg
      cases hs : S.xattachPipe s pipe with
      | error err => simp [hs] at h
      | ok s₁ =>
        simp only [hs] at h
        cases h
        exact .attach hg.1 hg.2 hs
  | terminated pipe =>
    simp only [step] at h
    split at h
    next hp =>
      cases hs : S.xterminated s pipe with
      | error err => simp [hs] at h
      | ok s₁ =>
        simp only [hs] at h
        cases h
        exact .terminated hp hs
    · obtain ⟨rfl, rfl⟩ := by simpa using h
      exact .ignored
  | processActivateRead pipe =>
    simp only [step] at h
    split at h
    next hp =>
      rcases hact : (ends pipe).processActivateRead with ⟨_ | _, e⟩
      · simp only [hact] at h
        cases h
        obtain rfl := Endpoint.processActivateRead_false hact
        rw [Function.update_eq_self]
        exact .ignored
      · cases hs : S.xreadActivated s pipe with
        | error err => simp [hact, hs] at h
        | ok s₁ =>
          simp only [hact, hs] at h
          cases h
          exact .readActivated hp hact hs
    · obtain ⟨rfl, rfl⟩ := by simpa using h
      exact .ignored
  | processActivateWrite pipe n =>
    simp only [step] at h
    split at h
    next hp =>
      rcases hact : (ends pipe).processActivateWrite n with ⟨_ | _, e⟩
      · simp only [hact] at h
        cases h
        exact .writeReported hp.1 hp.2 hact
      · cases hs : S.xwriteActivated s pipe with
        | error err => simp [hact, hs] at h
        | ok s₁ =>
          simp only [hact, hs] at h
          cases h
          exact .writeActivated hp.1 hp.2 hact hs
    · obtain ⟨rfl, rfl⟩ := by simpa using h
      exact .ignored
  | processPipeTerm pipe =>
    cases hs : (ends pipe).processPipeTerm with
    | error err => simp [step, hs] at h
    | ok e =>
      simp only [step, hs] at h
      cases h
      exact .processPipeTerm hs
  | terminate pipe delay =>
    cases hs : (ends pipe).terminate delay with
    | error err => simp [step, hs] at h
    | ok e =>
      simp only [step, hs] at h
      cases h
      exact .terminate hs
  | peerWrite pipe msg =>
    obtain ⟨rfl, rfl⟩ := by simpa [step] using h
    exact .peerWrite
  | peerFlush pipe =>
    obtain ⟨rfl, rfl⟩ := by simpa [step] using h
    exact .peerFlush
  | peerRollback pipe =>
    cases hs : (ends pipe).peerRollback with
    | error err => simp [step, hs] at h
    | ok e =>
      simp only [step, hs] at h
      cases h
      exact .peerRollback hs
  | peerRead pipe =>
    obtain ⟨rfl, rfl⟩ := by simpa [step] using h
    exact .peerRead

end Libxs
