import Libxs.SocketBase.Outbound
import Libxs.XRep
import Libxs.XRespondent

/-! # The table of a router -/

namespace Libxs

variable {κ α : Type} [DecidableEq κ]

namespace Router

def pipeAt (s : Router κ α) (key : κ) : Option α := (s.outpipes.lookup key).map OutPipe.pipe

variable {s t : Router κ α} {k k' : κ} {p : α} {blob : κ → List UInt8}

theorem pipeAt_eq_none : s.pipeAt k = none ↔ k ∉ s.outpipes := by
  rw [pipeAt, Option.map_eq_none_iff, AList.lookup_eq_none]

theorem pipeAt_of_lookup {out : OutPipe α} (h : s.outpipes.lookup k = some out) :
    s.pipeAt k = some out.pipe := by
  rw [pipeAt, h, Option.map_some]

theorem pipeAt_insert {active : Bool} (h : t.outpipes = s.outpipes.insert k ⟨p, active⟩) :
    t.pipeAt = Function.update s.pipeAt k (some p) := by
  funext x
  unfold pipeAt
  rw [h]
  by_cases hx : x = k
  · subst hx
    simp
  · simp [hx]

theorem pipeAt_erase (h : t.outpipes = s.outpipes.erase k) :
    t.pipeAt = Function.update s.pipeAt k none := by
  funext x
  unfold pipeAt
  rw [h]
  by_cases hx : x = k
  · subst hx
    simp
  · simp [hx]

theorem pipeAt_flag {out : OutPipe α} {active : Bool} (hk : s.outpipes.lookup k = some out)
    (h : t.outpipes = s.outpipes.insert k { out with active := active }) : t.pipeAt = s.pipeAt := by
  rw [pipeAt_insert h, ← pipeAt_of_lookup hk, Function.update_eq_self]

structure Table (blob : κ → List UInt8) (s : Router κ α) : Prop where
  wf : s.fq.pipes.WF
  attached : ∀ p, s.fq.attached p ↔ ∃ k, s.pipeAt k = some p
  unique : ∀ {k k' : κ} {p : α}, s.pipeAt k = some p → s.pipeAt k' = some p → k = k'
  identity : ∀ {k : κ} {p : α}, s.pipeAt k = some p → blob k = s.identity p

theorem table_init (nextPeerId : UInt32) : (init nextPeerId : Router κ α).Table blob where
  wf := ArrayT.wf_empty
  attached p := by simp [init, Fq.init, Rotor.init, Rotor.attached, ArrayT.empty, pipeAt]
  unique h := absurd h (by simp [pipeAt, init])
  identity h := absurd h (by simp [pipeAt, init])

theorem Table.congr (h : s.Table blob) (hwf : t.fq.pipes.WF)
    (hatt : ∀ x, t.fq.attached x ↔ s.fq.attached x) (htab : t.pipeAt = s.pipeAt)
    (hid : t.identity = s.identity) : t.Table blob where
  wf := hwf
  attached x := by rw [hatt x, h.attached x, htab]
  unique := by
    rw [htab]
    exact h.unique
  identity := by
    rw [htab, hid]
    exact h.identity

variable [DecidableEq α]

theorem Table.added (h : s.Table blob) (hp : ¬ s.fq.attached p) (hk : s.pipeAt k = none)
    (hwf : t.fq.pipes.WF) (hatt : ∀ x, t.fq.attached x ↔ s.fq.attached x ∨ x = p)
    (htab : t.pipeAt = Function.update s.pipeAt k (some p))
    (hid : t.identity = Function.update s.identity p (blob k)) : t.Table blob := by
  have hnew : ∀ k' x, t.pipeAt k' = some x ↔
      (k' = k ∧ x = p) ∨ (k' ≠ k ∧ x ≠ p ∧ s.pipeAt k' = some x) := fun k' x => by
    rw [htab]
    grind [h.attached]
  refine ⟨hwf, fun x => ?_, fun {k₁ k₂ x} h₁ h₂ => ?_, fun {k' x} hx => ?_⟩
  · rw [hatt x, h.attached x]
    constructor
    · rintro (⟨k', hx⟩ | rfl)
      · refine ⟨k', (hnew k' x).2 (Or.inr ⟨fun hc => ?_, fun hc => ?_, hx⟩)⟩
        · rw [hc, hk] at hx
          cases hx
        · exact hp ((h.attached p).2 ⟨k', hc ▸ hx⟩)
      · exact ⟨k, (hnew k x).2 (Or.inl ⟨rfl, rfl⟩)⟩
    · grind
  · grind [h.unique]
  · rw [hid]
    grind [h.identity]

omit [DecidableEq α] in
theorem Table.removed (h : s.Table blob) (hk : s.pipeAt k = some p) (hwf : t.fq.pipes.WF)
    (hatt : ∀ x, t.fq.attached x ↔ s.fq.attached x ∧ x ≠ p)
    (htab : t.pipeAt = Function.update s.pipeAt k none) (hid : t.identity = s.identity) :
    t.Table blob := by
  have hold : ∀ k' x, t.pipeAt k' = some x ↔ s.pipeAt k' = some x ∧ x ≠ p := fun k' x => by
    rw [htab]
    grind [h.unique]
  refine ⟨hwf, fun x => ?_, fun h₁ h₂ => ?_, fun hx => ?_⟩
  · rw [hatt x, h.attached x]
    exact ⟨fun ⟨⟨k', hx⟩, hxp⟩ => ⟨k', (hold k' x).2 ⟨hx, hxp⟩⟩,
      fun ⟨k', hx⟩ => ⟨⟨k', ((hold k' x).1 hx).1⟩, ((hold k' x).1 hx).2⟩⟩
  · exact h.unique ((hold _ _).1 h₁).1 ((hold _ _).1 h₂).1
  · rw [hid]
    exact h.identity ((hold _ _).1 hx).1

theorem Table.renamed (h : s.Table blob) (hk : s.pipeAt k = some p) (hk' : s.pipeAt k' = none)
    (hfq : t.fq = s.fq)
    (htab : t.pipeAt = Function.update (Function.update s.pipeAt k none) k' (some p))
    (hid : t.identity = Function.update s.identity p (blob k')) : t.Table blob := by
  have hne : k ≠ k' := fun hc => by
    rw [hc, hk'] at hk
    cases hk
  have hnew : ∀ x y, t.pipeAt x = some y ↔
      (x = k' ∧ y = p) ∨ (x ≠ k' ∧ y ≠ p ∧ s.pipeAt x = some y) := fun x y => by
    rw [htab]
    by_cases hx : x = k'
    · subst hx
      simp [eq_comm]
    · rw [Function.update_of_ne hx]
      grind [h.unique]
  refine ⟨hfq ▸ h.wf, fun y => ?_, fun {k₁ k₂ y} h₁ h₂ => ?_, fun {x y} hy => ?_⟩
  · rw [hfq, h.attached y]
    constructor
    · rintro ⟨x, hx⟩
      by_cases hyp : y = p
      · exact ⟨k', (hnew k' y).2 (Or.inl ⟨rfl, hyp⟩)⟩
      · refine ⟨x, (hnew x y).2 (Or.inr ⟨fun hc => ?_, hyp, hx⟩)⟩
        rw [hc, hk'] at hx
        cases hx
    · grind
  · grind [h.unique]
  · rw [hid]
    grind [h.identity]

/-! ## Finding an entry -/

theorem entryOf_some {x : Σ _ : κ, OutPipe α} (h : s.entryOf p = some x) :
    s.outpipes.lookup x.1 = some x.2 ∧ s.pipeAt x.1 = some p := by
  have hmem : x ∈ s.outpipes.entries := List.mem_of_find?_eq_some h
  have hpipe : x.2.pipe = p := by simpa using List.find?_some h
  have hlook : s.outpipes.lookup x.1 = some x.2 := AList.mem_lookup_iff.2 hmem
  exact ⟨hlook, hpipe ▸ pipeAt_of_lookup hlook⟩

theorem exists_entryOf (h : s.pipeAt k = some p) : ∃ x, s.entryOf p = some x := by
  obtain ⟨out, hlook, hp⟩ := Option.map_eq_some_iff.1 h
  cases he : s.entryOf p with
  | some x => exact ⟨x, rfl⟩
  | none =>
    have hnot := List.find?_eq_none.1 he ⟨k, out⟩ (AList.mem_lookup_iff.1 hlook)
    exact absurd hp (by simpa using hnot)

theorem Table.entryOf (h : s.Table blob) (hk : s.pipeAt k = some p) :
    ∃ out, s.entryOf p = some ⟨k, out⟩ ∧ s.outpipes.lookup k = some out := by
  obtain ⟨⟨k', out⟩, hx⟩ := exists_entryOf hk
  obtain ⟨hlook, hk'⟩ := entryOf_some hx
  obtain rfl := h.unique hk hk'
  exact ⟨out, hx, hlook⟩

omit [DecidableEq α] in
theorem register_ok (h : s.register k p = .ok t) :
    s.pipeAt k = none ∧ t = { s with outpipes := s.outpipes.insert k ⟨p, true⟩ } := by
  unfold register at h
  split at h
  · cases h
  next hk =>
    rw [Except.ok.injEq] at h
    exact ⟨pipeAt_eq_none.2 hk, h.symm⟩

theorem Table.xterminated (h : s.Table blob) (hp : s.fq.attached p) (hr : s.xterminated p = .ok t) :
    t.Table blob := by
  unfold Router.xterminated at hr
  split at hr
  · cases hr
  next fq hfq =>
    split at hr
    · cases hr
    next x hx =>
      cases hr
      obtain ⟨hwf, hatt⟩ := Fq.attached_terminated h.wf hp hfq
      exact h.removed (entryOf_some hx).2 hwf hatt (pipeAt_erase rfl) rfl

theorem Table.xreadActivated (h : s.Table blob) (hr : s.xreadActivated p = .ok t) :
    t.Table blob := by
  unfold Router.xreadActivated at hr
  split at hr
  · cases hr
  next fq hfq =>
    cases hr
    obtain ⟨hwf, hatt⟩ := Fq.attached_activated h.wf hfq
    exact h.congr hwf hatt rfl rfl

theorem xwriteActivated_ok (hr : s.xwriteActivated p = .ok t) :
    ∃ k out, s.outpipes.lookup k = some out ∧ out.pipe = p ∧ out.active = false ∧
      t = { s with outpipes := s.outpipes.insert k { out with active := true } } := by
  unfold xwriteActivated at hr
  split at hr
  · cases hr
  next x hx =>
    split at hr
    · cases hr
    next hact =>
      rw [Except.ok.injEq] at hr
      obtain ⟨hlook, hpipe⟩ := entryOf_some hx
      rw [pipeAt_of_lookup hlook, Option.some.injEq] at hpipe
      exact ⟨x.1, x.2, hlook, hpipe, by simpa using hact, hr.symm⟩

theorem Table.xwriteActivated (h : s.Table blob) (hr : s.xwriteActivated p = .ok t) :
    t.Table blob := by
  obtain ⟨k, out, hlook, -, -, rfl⟩ := xwriteActivated_ok hr
  exact h.congr h.wf (fun _ => Iff.rfl) (pipeAt_flag hlook rfl) rfl

end Router

/-! ## Attaching -/

namespace XRep

variable [DecidableEq α] {s t : XRep α} {p : α}

theorem xattachPipe_ok (h : s.xattachPipe p = .ok t) :
    ∃ fq, s.fq.attach p = .ok fq ∧ s.pipeAt (autoId s.nextPeerId) = none ∧
      t = { s with fq := fq, nextPeerId := s.nextPeerId + 1,
                   outpipes := s.outpipes.insert (autoId s.nextPeerId) ⟨p, true⟩,
                   identity := Function.update s.identity p (autoId s.nextPeerId) } := by
  simp only [xattachPipe] at h
  split at h
  · cases h
  next s₁ hs₁ =>
    obtain ⟨hk, rfl⟩ := Router.register_ok hs₁
    split at h
    · cases h
    next fq hfq =>
      rw [Except.ok.injEq] at h
      exact ⟨fq, hfq, hk, h.symm⟩

theorem table_xattachPipe (h : s.Table id) (hp : ¬ s.fq.attached p) (hr : s.xattachPipe p = .ok t) :
    t.Table id := by
  obtain ⟨fq, hfq, hk, rfl⟩ := xattachPipe_ok hr
  obtain ⟨hwf, hatt⟩ := Fq.attached_attach h.wf hp hfq
  exact h.added hp hk hwf hatt (Router.pipeAt_insert rfl) rfl

theorem changeIdentity_ok {id : List UInt8} (h : s.changeIdentity p id = .ok t) :
    ∃ k, s.pipeAt k = some p ∧ t = { s with
      outpipes := (s.outpipes.erase k).insert id ⟨p, true⟩,
      identity := Function.update s.identity p id } := by
  unfold changeIdentity at h
  split at h
  · cases h
  next x hx => exact ⟨x.1, (Router.entryOf_some hx).2, (Router.register_ok h).2⟩

theorem table_changed {k k₀ : List UInt8} (h : s.Table id) (hk : s.pipeAt k = none)
    (hk₀ : s.pipeAt k₀ = some p) :
    Router.Table id ({ s with outpipes := (s.outpipes.erase k₀).insert k ⟨p, true⟩,
                              identity := Function.update s.identity p k } : XRep α) := by
  refine h.renamed hk₀ hk rfl ?_ rfl
  rw [Router.pipeAt_insert (s := { s with outpipes := s.outpipes.erase k₀ }) rfl,
    Router.pipeAt_erase (s := s) rfl]

end XRep

namespace XRespondent

variable [DecidableEq α] {s t : XRespondent α} {p : α}

theorem xattachPipe_ok (h : s.xattachPipe p = .ok t) :
    ∃ fq, s.fq.attach p = .ok fq ∧ s.pipeAt s.nextPeerId = none ∧
      t = { s with fq := fq, nextPeerId := s.nextPeerId + 1,
                   outpipes := s.outpipes.insert s.nextPeerId ⟨p, true⟩,
                   identity := Function.update s.identity p (putUint32 s.nextPeerId) } := by
  unfold xattachPipe at h
  grind [Router.register_ok]

theorem table_xattachPipe (h : s.Table putUint32) (hp : ¬ s.fq.attached p)
    (hr : s.xattachPipe p = .ok t) : t.Table putUint32 := by
  obtain ⟨fq, hfq, hk, rfl⟩ := xattachPipe_ok hr
  obtain ⟨hwf, hatt⟩ := Fq.attached_attach h.wf hp hfq
  exact h.added hp hk hwf hatt (Router.pipeAt_insert rfl) rfl

end XRespondent

end Libxs
