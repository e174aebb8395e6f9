import Libxs.Req
import Libxs.SocketBase.Events
import Mathlib.Data.List.TakeWhile

/-! # A request gets its own reply -/

namespace Libxs

variable {α : Type} [DecidableEq α]

def identities : Grammar Bool where
  start := false
  next := fun mid m => if m.isIdentity && (mid || m.more) then none else some m.more
  closes := by
    intro q q' m h hm
    split at h
    · cases h
    · rw [Option.some.injEq] at h
      exact h.symm.trans hm

theorem identities_next {q q' : Bool} {m : Msg} (h : identities.next q m = some q') :
    q' = m.more ∧ (m.isIdentity = true → q = false ∧ m.more = false) := by
  simp only [identities] at h
  grind

namespace Lb

variable {ends ends' : Ends α} {lb' : Lb α}

theorem sendLoop_sameInbound : ∀ (count : Nat) {lb lb' : Lb α} {ends ends' : Ends α} {msg : Msg}
    {r : Option α}, sendLoop count lb ends msg = .ok (r, lb', ends') →
    ∀ x, (ends x).SameInbound (ends' x) := by
  intro count
  induction count with
  | zero =>
    intro lb lb' ends ends' msg r h x
    simp only [sendLoop, Except.ok.injEq, Prod.mk.injEq] at h
    rw [← h.2.2]
    exact .refl _
  | succ count ih =>
    intro lb lb' ends ends' msg r h
    simp only [sendLoop] at h
    cases hget : lb.pipes.get lb.current with
    | none => simp [hget] at h
    | some p =>
      simp only [hget] at h
      cases hw : (ends p).write msg with
      | error err => simp [hw] at h
      | ok w =>
        obtain ⟨ok, e⟩ := w
        have hsame := Endpoint.sameInbound_write hw
        cases ok with
        | true =>
          simp only [hw, Except.ok.injEq, Prod.mk.injEq] at h
          rw [← h.2.2]
          exact sameInbound_update hsame
        | false =>
          simp only [hw] at h
          split at h
          · cases h
          · cases hde : lb.sendDeactivate with
            | error err => simp [hde] at h
            | ok lb₁ =>
              simp only [hde] at h
              exact fun x => (sameInbound_update hsame x).trans (ih h x)

theorem send_sameInbound {lb : Lb α} {msg : Msg} {r : SendResult α}
    (h : lb.send ends msg = .ok (r, lb', ends')) (x : α) : (ends x).SameInbound (ends' x) := by
  unfold send at h
  split at h
  · simp only [Except.ok.injEq, Prod.mk.injEq] at h
    rw [← h.2.2]
    exact .refl _
  · cases hl : sendLoop lb.active lb ends msg with
    | error err => simp [hl] at h
    | ok w =>
      obtain ⟨ok, lb₁, ends₁⟩ := w
      have hsame := sendLoop_sameInbound _ hl
      cases ok with
      | none => grind
      | some p =>
        simp only [hl] at h
        split at h <;> simp only [Except.ok.injEq, Prod.mk.injEq] at h <;> rw [← h.2.2]
        · exact hsame x
        · exact (hsame x).trans (sameInbound_update (Endpoint.sameInbound_flush _) x)

theorem hasOutLoop_sameInbound : ∀ (count : Nat) {lb lb' : Lb α} {ends ends' : Ends α} {r : Bool},
    hasOutLoop count lb ends = .ok (r, lb', ends') → ∀ x, (ends x).SameInbound (ends' x) := by
  intro count
  induction count with
  | zero =>
    intro lb lb' ends ends' r h x
    simp only [hasOutLoop, Except.ok.injEq, Prod.mk.injEq] at h
    rw [← h.2.2]
    exact .refl _
  | succ count ih =>
    intro lb lb' ends ends' r h
    simp only [hasOutLoop] at h
    cases hget : lb.pipes.get lb.current with
    | none => simp [hget] at h
    | some p =>
      simp only [hget] at h
      rcases hw : (ends p).checkWrite with ⟨_ | _, e⟩
      · have hsame := Endpoint.sameInbound_checkWrite hw
        simp only [hw] at h
        cases hde : lb.withRotor lb.toRotor.deactivate with
        | error err => simp [hde] at h
        | ok lb₁ =>
          simp only [hde] at h
          exact fun x => (sameInbound_update hsame x).trans (ih h x)
      · simp only [hw, Except.ok.injEq, Prod.mk.injEq] at h
        rw [← h.2.2]
        exact sameInbound_update (Endpoint.sameInbound_checkWrite hw)

theorem hasOut_sameInbound {lb : Lb α} {r : Bool}
    (h : lb.hasOut ends = .ok (r, lb', ends')) (x : α) : (ends x).SameInbound (ends' x) := by
  unfold hasOut at h
  split at h
  · simp only [Except.ok.injEq, Prod.mk.injEq] at h
    rw [← h.2.2]
    exact .refl _
  · exact hasOutLoop_sameInbound _ h x

end Lb

/-! ## Receiving through `xreq_t` -/

namespace XReq

variable {mid : Bool}

def Ready (mid : Bool) (x : XReq α × Ends α) : Prop :=
  x.1.fq.Supplied identities x.1.fq.more x.2 ∧
    x.1.fq.more = x.1.prefetched.elim mid Msg.more

def Receives (mid : Bool) (x : XReq α × Ends α) : Prop := Ready mid x ∧ x.1.fq.Continues x.2

theorem recvLoop_spec : ∀ (fuel : Nat) (s : XReq α) (ends : Ends α),
    s.fq.Supplied identities s.fq.more ends → s.fq.Continues ends → s.fq.backlog ends < fuel →
    ∃ r fq' ends', recvLoop fuel s ends = .ok (r, { s with fq := fq' }, ends') ∧
      fq'.Supplied identities fq'.more ends' ∧ fq'.Continues ends' ∧
      (r = none → s.fq.more = false ∧ fq'.more = false ∧ fq'.active = 0) ∧
      ∀ m, r = some m → fq'.more = m.more ∧ fq'.backlog ends' < s.fq.backlog ends := by
  intro fuel
  induction fuel with
  | zero => exact fun s ends _ _ h => absurd h (by omega)
  | succ fuel ih =>
    intro s ends h hc hfuel
    obtain ⟨r, q', fq', ends', hrun, hrec, hsup, hcont⟩ := h.recvpipe hc
    simp only [recvLoop, hrun]
    cases r with
    | none =>
      obtain ⟨hmore, hmore', hact, -⟩ := hrec.nothing rfl
      have hq : q' = fq'.more := by
        have := hrec.place
        simpa [Grammar.step, hmore, hmore'] using this.symm
      exact ⟨none, fq', ends', rfl, hq ▸ hsup, hcont, fun _ => ⟨hmore, hmore', hact⟩,
        fun _ hm => absurd hm (by simp)⟩
    | some r =>
      obtain ⟨msg, p⟩ := r
      obtain ⟨-, hmore, -, -, hless⟩ := hrec.part msg p rfl
      obtain ⟨hq, hid⟩ := identities_next hrec.place
      have hsup' : fq'.Supplied identities fq'.more ends' := by
        rw [hmore, ← hq]
        exact hsup
      cases hmsg : msg.isIdentity with
      | true =>
        -- an identity ends its message, so nothing of a message was skipped
        obtain ⟨hidle, hlast⟩ := hid hmsg
        obtain ⟨r, fq₁, ends₁, hloop, hsup₁, hcont₁, hnone, hsome⟩ :=
          ih { s with fq := fq' } ends' hsup' hcont (by simp only; omega)
        refine ⟨r, fq₁, ends₁, by simpa [hmsg] using hloop, hsup₁, hcont₁, fun hr => ⟨hidle, (hnone hr).2⟩,
          fun m hr => ?_⟩
        obtain ⟨h1, h2⟩ := hsome m hr
        exact ⟨h1, by simp only at h2; omega⟩
      | false =>
        refine ⟨some msg, fq', ends', by simp [hmsg], hsup', hcont,
          fun hr => absurd hr (by simp), fun m hr => ?_⟩
        rw [Option.some.injEq] at hr
        exact ⟨hr ▸ hmore, hless⟩

theorem supply_recv {x : XReq α × Ends α} (h : Receives mid x) :
    (∃ m x', supply.recv x = .ok (some m, x') ∧ Receives m.more x' ∧ supply.left x' < supply.left x) ∨
      mid = false ∧ ∃ x', supply.recv x = .ok (none, x') ∧ Receives false x' ∧
        supply.recv x' = .ok (none, x') := by
  obtain ⟨s, ends⟩ := x
  obtain ⟨⟨hsup, hmid⟩, hc⟩ := h
  cases hpre : s.prefetched with
  | some m =>
    refine Or.inl ⟨m, ({ s with prefetched := none }, ends), by simp [supply, xrecv, hpre],
      ⟨⟨hsup, by simpa [supply, hpre] using hmid⟩, hc⟩, by simp [supply, hpre]⟩
  | none =>
    obtain ⟨r, fq', ends', hloop, hsup', hcont, hnone, hsome⟩ :=
      recvLoop_spec (s.fq.backlog ends + 1) s ends hsup hc (by omega)
    cases r with
    | none =>
      obtain ⟨hidle, hidle', hact⟩ := hnone rfl
      refine Or.inr ⟨by simpa [hpre, hidle] using hmid.symm, ({ s with fq := fq' }, ends'),
        by simp [supply, xrecv, hpre, hloop], ⟨⟨hsup', by simp [hpre, hidle']⟩, hcont⟩, ?_⟩
      simp [supply, xrecv, hpre, recvLoop, Fq.recvpipe, hact, Fq.recvLoop]
    | some m =>
      obtain ⟨hmore, hless⟩ := hsome m rfl
      refine Or.inl ⟨m, ({ s with fq := fq' }, ends'), by simp [supply, xrecv, hpre, hloop],
        ⟨⟨hsup', by simpa [supply, hpre] using hmore⟩, hcont⟩,
        by simpa [supply, hpre] using hless⟩

theorem supply_sound : (supply : Supply Fault (XReq α × Ends α) Msg).Sound Receives :=
  ⟨supply_recv⟩

theorem xhasIn_spec {s : XReq α} {ends : Ends α} (h : Ready mid (s, ends))
    (hc : s.fq.Continues ends) :
    ∃ r s' ends', s.xhasIn ends = .ok (r, s', ends') ∧ Ready mid (s', ends') := by
  cases hpre : s.prefetched with
  | some m => exact ⟨true, s, ends, by simp only [xhasIn, hpre], h⟩
  | none =>
    obtain ⟨r, fq', ends', hloop, hsup', -, hnone, hsome⟩ :=
      recvLoop_spec (s.fq.backlog ends + 1) s ends h.1 hc (by omega)
    have hmid : s.fq.more = mid := by simpa [hpre] using h.2
    cases r with
    | none =>
      obtain ⟨hidle, hidle', -⟩ := hnone rfl
      refine ⟨false, { s with fq := fq' }, ends', by simp only [xhasIn, xrecv, hpre, hloop],
        hsup', ?_⟩
      simp [hpre, hidle', ← hmid, hidle]
    | some m =>
      refine ⟨true, { s with fq := fq', prefetched := some m }, ends',
        by simp only [xhasIn, xrecv, hpre, hloop], hsup', ?_⟩
      simpa using (hsome m rfl).1

theorem not_readable_of_nothing {x x' : XReq α × Ends α} (h : Receives mid x)
    (hr : supply.recv x = .ok (none, x')) : ∀ p, x'.1.fq.attached p → ¬ (x'.2 p).Readable := by
  obtain ⟨s, ends⟩ := x
  cases hpre : s.prefetched with
  | some m => simp [supply, xrecv, hpre] at hr
  | none =>
    obtain ⟨r, fq', ends', hloop, hsup', -, hnone, -⟩ :=
      recvLoop_spec (s.fq.backlog ends + 1) s ends h.1.1 h.2 (by omega)
    simp only [supply, xrecv, hpre, hloop] at hr
    cases hr
    exact hsup'.not_readable (hnone rfl).2.2

end XReq

/-! ## Looking for the reply -/

namespace Req

def isBottom (m : Msg) : Bool := m.more && m.size == 0

def isReply (id : UInt32) : List Msg → Bool
  | a :: b :: _ => a.isId id && isBottom b
  | _ => false

def Skippable (id : UInt32) (m : List Msg) : Prop :=
  2 ≤ m.length ∧ ∀ a ∈ m.head?, a.isId id = false
deriving Decidable

def withBase (s : Req α) (x : XReq α × Ends α) : Req α := { s with toXReq := x.1 }

variable {s : Req α} {ends : Ends α} {mid : Bool}
variable {skipped : List (List Msg)} {rest : List Msg}

theorem recvPart_of_recv {r : Option Msg} {x : XReq α × Ends α}
    (h : XReq.supply.recv (s.toXReq, ends) = .ok (r, x)) :
    s.recvPart ends = .ok (r, s.withBase x, x.2) := by
  simp only [recvPart, h, withBase]

theorem discard_spec (h : XReq.Receives mid (s.toXReq, ends)) {m : List Msg}
    (hp : XReq.supply.parts (s.toXReq, ends) = m ++ rest) (hm : Whole Msg.more m) :
    ∃ x, s.discard ends = .ok (.retry, s.withBase x, x.2) ∧ XReq.Receives false x ∧
      XReq.supply.parts x = rest ∧ XReq.supply.left x < XReq.supply.left (s.toXReq, ends) := by
  have hlen := XReq.supply_sound.length_parts _ h hp
  rw [List.length_append] at hlen
  obtain ⟨x, hd, hok, hparts, hlt⟩ := XReq.supply_sound.drain_whole .assertFailed .outOfFuel
    (n := XReq.supply.left (s.toXReq, ends) + 1) h hp hm (by omega)
  exact ⟨x, by simp only [discard, hd, withBase], hok, hparts, hlt⟩

theorem recvEnvelope_nothing (h : XReq.Receives mid (s.toXReq, ends))
    (hp : XReq.supply.parts (s.toXReq, ends) = []) :
    ∃ x, s.recvEnvelope ends = .ok (.again, s.withBase x, x.2) ∧ XReq.Receives false x ∧
      XReq.supply.parts x = [] ∧ ∀ p, x.1.fq.attached p → ¬ (x.2 p).Readable := by
  obtain ⟨-, x, hr, hok, hparts⟩ := XReq.supply_sound.recv_nil h hp
  exact ⟨x, by simp only [recvEnvelope, recvPart_of_recv hr], hok, hparts,
    XReq.not_readable_of_nothing h hr⟩

theorem recvEnvelope_skip (hv : 3 ≤ s.spVersion) (h : XReq.Receives false (s.toXReq, ends))
    {m : List Msg} (hp : XReq.supply.parts (s.toXReq, ends) = m ++ rest)
    (hm : Whole Msg.more m) (hs : Skippable s.requestId m) :
    ∃ x, s.recvEnvelope ends = .ok (.retry, s.withBase x, x.2) ∧ XReq.Receives false x ∧
      XReq.supply.parts x = rest ∧ XReq.supply.left x < XReq.supply.left (s.toXReq, ends) := by
  obtain ⟨a, m, rfl⟩ := List.exists_cons_of_ne_nil hm.ne_nil
  obtain ⟨x, hr, hok, hparts, hlt⟩ := XReq.supply_sound.recv_cons h hp
  have hmore : a.more = true := by
    by_contra hlast
    rw [Bool.not_eq_true] at hlast
    have hlen := hs.1
    rw [(whole_cons_last hlast).1 hm] at hlen
    exact absurd hlen (by simp)
  obtain ⟨x', hd, hok', hparts', hlt'⟩ := discard_spec (s := s.withBase x) hok hparts
    ((whole_cons_more hmore).1 hm)
  refine ⟨x', ?_, hok', hparts', hlt'.trans hlt⟩
  have hid : (!a.more || a.size != 4 || getUint32 a.data != (s.withBase x).requestId) = true :=
    Msg.isId_eq_false.1 (hs.2 a rfl)
  have hv' : 3 ≤ (s.withBase x).spVersion := hv
  simp only [recvEnvelope, recvPart_of_recv hr, if_pos hv', hid, if_true]
  exact hd

theorem recvEnvelope_reply (hv : 3 ≤ s.spVersion) (h : XReq.Receives false (s.toXReq, ends))
    {a b : Msg} (hp : XReq.supply.parts (s.toXReq, ends) = a :: b :: rest)
    (ha : a.isId s.requestId = true) (hb : isBottom b = true) :
    ∃ x, s.recvEnvelope ends =
        .ok (.done, { s.withBase x with requestId := s.requestId + 1 }, x.2) ∧
      XReq.Receives true x ∧ XReq.supply.parts x = rest := by
  obtain ⟨x, hr, hok, hparts, -⟩ := XReq.supply_sound.recv_cons h hp
  obtain ⟨x', hr', hok', hparts', -⟩ := XReq.supply_sound.recv_cons hok hparts
  have hid : (!a.more || a.size != 4 || getUint32 a.data != (s.withBase x).requestId) = false := by
    rw [← Bool.not_eq_true]
    exact fun hc => absurd (Msg.isId_eq_false.2 hc) (by simp [withBase, ha])
  have hbot : (!b.more || b.size != 0) = false := by grind [isBottom]
  have hv' : 3 ≤ (s.withBase x).spVersion := hv
  have hmore : b.more = true := by grind
  refine ⟨x', ?_, hmore ▸ hok', hparts'⟩
  have hpart : ({ s.withBase x with requestId := (s.withBase x).requestId + 1 } : Req α).recvPart x.2 =
      .ok (some b, { s.withBase x' with requestId := s.requestId + 1 }, x'.2) :=
    recvPart_of_recv (s := { s.withBase x with requestId := s.requestId + 1 }) hr'
  simp only [recvEnvelope, recvPart_of_recv hr, if_pos hv', hid, Bool.false_eq_true, if_false, hpart,
    recvBottom, hbot]

theorem retryLoop_skip : ∀ (skipped : List (List Msg)) {fuel : Nat} {s : Req α} {ends : Ends α}
    {rest : List Msg}, 3 ≤ s.spVersion → XReq.Receives false (s.toXReq, ends) →
    XReq.supply.parts (s.toXReq, ends) = skipped.flatten ++ rest →
    (∀ m ∈ skipped, Whole Msg.more m ∧ Skippable s.requestId m) →
    XReq.supply.left (s.toXReq, ends) < fuel →
    ∃ x fuel', retryLoop fuel s ends = retryLoop (fuel' + 1) (s.withBase x) x.2 ∧
      XReq.Receives false x ∧ XReq.supply.parts x = rest := by
  intro skipped
  induction skipped with
  | nil =>
    intro fuel s ends rest _ h hp _ hfuel
    obtain ⟨fuel, rfl⟩ : ∃ fuel', fuel = fuel' + 1 := ⟨fuel - 1, by omega⟩
    exact ⟨(s.toXReq, ends), fuel, rfl, h, by simpa using hp⟩
  | cons m skipped ih =>
    intro fuel s ends rest hv h hp hskip hfuel
    obtain ⟨hm, hs⟩ := hskip m (by simp)
    rw [List.flatten_cons, List.append_assoc] at hp
    obtain ⟨x, hround, hok, hparts, hlt⟩ := recvEnvelope_skip hv h hp hm hs
    obtain ⟨fuel, rfl⟩ : ∃ fuel', fuel = fuel' + 1 := ⟨fuel - 1, by omega⟩
    obtain ⟨x', fuel', hloop, hok', hparts'⟩ := ih (s := s.withBase x) hv hok hparts
      (fun m' hm' => hskip m' (by simp [hm'])) (show XReq.supply.left x < fuel by omega)
    refine ⟨x', fuel', ?_, hok', hparts'⟩
    rw [retryLoop, hround]
    exact hloop

theorem recvBody_spec (h : XReq.Receives true (s.toXReq, ends)) :
    ∃ m rest x, XReq.supply.parts (s.toXReq, ends) = m :: rest ∧
      s.recvBody ends = .ok (.ok m,
        if m.more then s.withBase x
        else { s.withBase x with receivingReply := false, messageBegins := true }, x.2) ∧
      XReq.Receives m.more x ∧ XReq.supply.parts x = rest := by
  cases hp : XReq.supply.parts (s.toXReq, ends) with
  | nil => exact absurd (XReq.supply_sound.recv_nil h hp).1 (by simp)
  | cons m rest =>
    obtain ⟨x, hr, hok, hparts, -⟩ := XReq.supply_sound.recv_cons h hp
    refine ⟨m, rest, x, rfl, ?_, hok, hparts⟩
    simp only [recvBody, recvPart_of_recv hr]
    split <;> rfl

theorem xrecv_nothing (hv : 3 ≤ s.spVersion) (hr : s.receivingReply = true)
    (hb : s.messageBegins = true) (h : XReq.Receives false (s.toXReq, ends))
    (hp : XReq.supply.parts (s.toXReq, ends) = skipped.flatten)
    (hskip : ∀ m ∈ skipped, Whole Msg.more m ∧ Skippable s.requestId m) :
    ∃ x, s.xrecv ends = .ok (.error .eagain, s.withBase x, x.2) ∧ XReq.Receives false x ∧
      XReq.supply.parts x = [] ∧ ∀ p, x.1.fq.attached p → ¬ (x.2 p).Readable := by
  rw [← List.append_nil skipped.flatten] at hp
  obtain ⟨x, fuel, hloop, hok, hparts⟩ := retryLoop_skip skipped hv h hp hskip (Nat.lt_succ_self _)
  obtain ⟨x', hround, hok', hparts', hnone⟩ := recvEnvelope_nothing (s := s.withBase x) hok hparts
  refine ⟨x', ?_, hok', hparts', hnone⟩
  have hend : retryLoop (fuel + 1) (s.withBase x) x.2 = .ok (false, s.withBase x', x'.2) := by
    rw [retryLoop, hround]
    rfl
  simp only [xrecv, hr, hb, hloop, hend, Bool.not_true, Bool.false_eq_true, if_false, if_true]

theorem xrecv_reply (hv : 3 ≤ s.spVersion) (hr : s.receivingReply = true)
    (hb : s.messageBegins = true) (h : XReq.Receives false (s.toXReq, ends))
    {a b : Msg}
    (hp : XReq.supply.parts (s.toXReq, ends) = skipped.flatten ++ a :: b :: rest)
    (hskip : ∀ m ∈ skipped, Whole Msg.more m ∧ Skippable s.requestId m)
    (hid : a.isId s.requestId = true) (hbot : isBottom b = true) :
    ∃ m body x, rest = m :: body ∧
      s.xrecv ends = .ok (.ok m,
        if m.more then { s.withBase x with requestId := s.requestId + 1, messageBegins := false }
        else { s.withBase x with requestId := s.requestId + 1, receivingReply := false }, x.2) ∧
      XReq.Receives m.more x ∧ XReq.supply.parts x = body := by
  obtain ⟨x, fuel, hloop, hok, hparts⟩ := retryLoop_skip skipped hv h hp hskip (Nat.lt_succ_self _)
  obtain ⟨x₁, hround, hok₁, hparts₁⟩ := recvEnvelope_reply (s := s.withBase x) hv hok hparts hid hbot
  have hend : retryLoop (fuel + 1) (s.withBase x) x.2 = .ok (true,
      { s.withBase x₁ with requestId := s.requestId + 1, messageBegins := false }, x₁.2) := by
    rw [retryLoop, hround]
    rfl
  obtain ⟨m, body, x', hrest, hbody, hok', hparts'⟩ := recvBody_spec
    (s := { s.withBase x₁ with requestId := s.requestId + 1, messageBegins := false }) hok₁
  refine ⟨m, body, x', hparts₁.symm.trans hrest, ?_, hok', hparts'⟩
  simp only [xrecv, hr, hb, hloop, hend, Bool.not_true, Bool.false_eq_true, if_false, if_true, hbody]
  cases m.more
  · simp [withBase, hb]
  · simp [withBase]

end Req

namespace ReqSystem

def parts (s : ReqSystem α) : List Msg := XReq.supply.parts (s.req.toXReq, s.ends)

def Keeps (s : ReqSystem α) : ReqOp α → Prop
  | .event ev => ev.Keeps identities s.req.fq s.ends
  | .xrecv =>
    s.req.fq.Continues s.ends ∧
      (s.req.receivingReply = true → s.req.messageBegins = true →
        ∀ m ∈ (messages Msg.more s.parts).takeWhile (fun m => !Req.isReply s.asked m),
          Req.Skippable s.asked m)
  | .xhasIn => s.req.fq.Continues s.ends
  | _ => True

instance (s : ReqSystem α) (op : ReqOp α) : Decidable (s.Keeps op) := by
  unfold Keeps; split <;> infer_instance

structure Inv (s : ReqSystem α) : Prop where
  version : 3 ≤ s.req.spVersion
  ready : XReq.Ready (s.req.receivingReply && !s.req.messageBegins) (s.req.toXReq, s.ends)
  asked : s.req.receivingReply = s.req.messageBegins → s.asked = s.req.requestId

theorem inv_init {spVersion : Int} (hv : 3 ≤ spVersion) (requestId : UInt32) :
    (init spVersion requestId : ReqSystem α).Inv where
  version := hv
  ready := ⟨Fq.supplied_init _, rfl⟩
  asked _ := rfl

variable {s : ReqSystem α}
variable {ends : Ends α} {req : Req α} {asked id : UInt32}

theorem Inv.skipped (h : s.Inv) (hk : s.Keeps .xrecv) (hr : s.req.receivingReply = true)
    (hb : s.req.messageBegins = true) {skipped later : List (List Msg)}
    (hmsgs : messages Msg.more s.parts = skipped ++ later)
    (hnot : ∀ m ∈ skipped, Req.isReply s.asked m = false) :
    XReq.Receives false (s.req.toXReq, s.ends) ∧ s.parts = skipped.flatten ++ later.flatten ∧
      (∀ m ∈ skipped, Whole Msg.more m ∧ Req.Skippable s.req.requestId m) ∧
      ∀ m ∈ later, Whole Msg.more m := by
  have hready := h.ready
  simp only [hr, hb, Bool.not_true, Bool.and_false] at hready
  have hrec : XReq.Receives false (s.req.toXReq, s.ends) := ⟨hready, hk.1⟩
  obtain ⟨hflat, hwhole⟩ := (XReq.supply_sound.parts_frames hrec).messages_spec
  change (messages Msg.more s.parts).flatten = s.parts at hflat
  change ∀ m ∈ messages Msg.more s.parts, Whole Msg.more m at hwhole
  rw [hmsgs] at hflat hwhole
  refine ⟨hrec, by rw [← List.flatten_append]; exact hflat.symm, fun m hm => ?_,
    fun m hm => hwhole m (by simp [hm])⟩
  refine ⟨hwhole m (by simp [hm]), ?_⟩
  rw [← h.asked (hr.trans hb.symm)]
  apply hk.2 hr hb m
  rw [hmsgs, List.takeWhile_append_of_pos (fun m hm => by simp [hnot m hm])]
  exact List.mem_append_left _ hm

def Answered (s : ReqSystem α) : Prop :=
  ∀ skipped later : List (List Msg), messages Msg.more s.parts = skipped ++ later →
    (∀ m ∈ skipped, Req.isReply s.asked m = false) →
    (later = [] → ∃ req ends, s.req.xrecv s.ends = .ok (.error .eagain, req, ends) ∧
      parts ⟨req, ends, s.asked⟩ = [] ∧ (∀ p, req.fq.attached p → ¬ (ends p).Readable) ∧
      req.receivingReply = true ∧ req.messageBegins = true) ∧
    ∀ reply rest, later = reply :: rest → Req.isReply s.asked reply = true →
      ∃ a b m body req ends, reply = a :: b :: m :: body ∧
        s.req.xrecv s.ends = .ok (.ok m, req, ends) ∧
        parts ⟨req, ends, s.asked⟩ = body ++ rest.flatten ∧
        req.receivingReply = m.more ∧ req.messageBegins = !m.more

theorem isReply_cases {m : List Msg} (h : Req.isReply id m = true) :
    ∃ a b rest, m = a :: b :: rest ∧ a.isId id = true ∧ Req.isBottom b = true := by
  unfold Req.isReply at h
  grind

theorem whole_reply {a b : Msg} {rest : List Msg} (ha : a.isId id = true)
    (hb : Req.isBottom b = true) (h : Whole Msg.more (a :: b :: rest)) : Whole Msg.more rest := by
  simp only [Msg.isId, Req.isBottom, Bool.and_eq_true] at ha hb
  exact (whole_cons_more hb.1).1 ((whole_cons_more ha.1.1).1 h)

theorem Inv.answered (h : s.Inv) (hk : s.Keeps .xrecv) (hr : s.req.receivingReply = true)
    (hb : s.req.messageBegins = true) : s.Answered := by
  intro skipped later hmsgs hnot
  obtain ⟨hrec, hparts, hskip, hwhole⟩ := h.skipped hk hr hb hmsgs hnot
  refine ⟨?_, ?_⟩
  · rintro rfl
    obtain ⟨x, hx, -, hnone, hempty⟩ := Req.xrecv_nothing h.version hr hb hrec
      (by simpa [parts] using hparts) hskip
    exact ⟨_, _, hx, hnone, hempty, hr, hb⟩
  · rintro reply rest rfl hreply
    obtain ⟨a, b, body, rfl, ha, hbot⟩ := isReply_cases hreply
    have hbody := whole_reply ha hbot (hwhole (a :: b :: body) (by simp))
    obtain ⟨c, body, rfl⟩ := List.exists_cons_of_ne_nil hbody.ne_nil
    have hid := ha
    rw [h.asked (hr.trans hb.symm)] at hid
    rw [List.flatten_cons] at hparts
    obtain ⟨m, body', x, hcons, hx, -, hrest⟩ := Req.xrecv_reply h.version hr hb hrec hparts hskip hid
      hbot
    rw [List.append_eq, List.cons_append, List.cons.injEq] at hcons
    obtain ⟨rfl, rfl⟩ := hcons
    refine ⟨a, b, c, body, _, _, rfl, hx, ?_, ?_⟩ <;> cases hm : c.more
    · simpa [hm, parts, Req.withBase] using hrest
    · simpa [hm, parts, Req.withBase] using hrest
    · simp [Req.withBase, hb]
    · simp [Req.withBase, hr]

theorem Inv.recvBody (h : s.Inv) (hc : s.req.fq.Continues s.ends)
    (hr : s.req.receivingReply = true) (hb : s.req.messageBegins = false) :
    ∃ m rest x, s.parts = m :: rest ∧
      s.req.xrecv s.ends = .ok (.ok m,
        if m.more then s.req.withBase x
        else { s.req.withBase x with receivingReply := false, messageBegins := true }, x.2) ∧
      XReq.Receives m.more x ∧ XReq.supply.parts x = rest := by
  have hready := h.ready
  simp only [hr, hb, Bool.not_false, Bool.and_true] at hready
  obtain ⟨m, rest, x, hp, hx, hok, hparts⟩ := Req.recvBody_spec ⟨hready, hc⟩
  refine ⟨m, rest, x, hp, ?_, hok, hparts⟩
  simp only [Req.xrecv, hr, hb, Bool.not_true, Bool.false_eq_true, if_false]
  exact hx

/-! ### The invariant -/

theorem inv_of_base {x : XReq α × Ends α}
    (hreq : req.toXReq = x.1) (hends : ends = x.2) (hv : 3 ≤ req.spVersion)
    (hready : XReq.Ready (req.receivingReply && !req.messageBegins) x)
    (hasked : req.receivingReply = req.messageBegins → asked = req.requestId) :
    Inv ⟨req, ends, asked⟩ := by
  refine ⟨hv, ?_, hasked⟩
  simp only [hreq, hends]
  exact hready

theorem Inv.xrecv (h : s.Inv) (hk : s.Keeps .xrecv) :
    ∃ r req ends, s.req.xrecv s.ends = .ok (r, req, ends) ∧ Inv ⟨req, ends, s.asked⟩ := by
  cases hr : s.req.receivingReply with
  | false => exact ⟨.error .efsm, s.req, s.ends, by simp [Req.xrecv, hr], h⟩
  | true =>
    cases hb : s.req.messageBegins with
    | false =>
      obtain ⟨m, rest, x, -, hx, hok, -⟩ := h.recvBody hk.1 hr hb
      refine ⟨_, _, _, hx, ?_⟩
      cases hm : m.more with
      | true =>
        exact inv_of_base rfl rfl h.version (by simpa [Req.withBase, hr, hb, hm] using hok.1)
          fun he => absurd he (by simp [Req.withBase, hr, hb])
      | false =>
        exact inv_of_base rfl rfl h.version (by simpa [Req.withBase, hm] using hok.1)
          fun he => absurd he (by simp [Req.withBase])
    | true =>
      -- the messages up to the reply, and the reply itself if there is one
      have hcut := (List.takeWhile_append_dropWhile
        (p := fun m => !Req.isReply s.asked m) (l := messages Msg.more s.parts)).symm
      have hnot : ∀ m ∈ (messages Msg.more s.parts).takeWhile
          (fun m => !Req.isReply s.asked m), Req.isReply s.asked m = false := fun m hm => by
        simpa using List.mem_takeWhile_imp hm
      obtain ⟨hrec, hparts, hskip, hwhole⟩ := h.skipped hk hr hb hcut hnot
      cases hdrop : (messages Msg.more s.parts).dropWhile (fun m => !Req.isReply s.asked m) with
      | nil =>
        rw [hdrop, List.flatten_nil, List.append_nil] at hparts
        obtain ⟨x, hx, hok, -⟩ := Req.xrecv_nothing h.version hr hb hrec hparts hskip
        exact ⟨_, _, _, hx, inv_of_base rfl rfl h.version
          (by simpa [Req.withBase, hr, hb] using hok.1) fun he => h.asked he⟩
      | cons reply rest =>
        have hreply : Req.isReply s.asked reply = true := by
          have := List.head_dropWhile_not (fun m => !Req.isReply s.asked m)
            (l := messages Msg.more s.parts) (by simp [hdrop])
          simpa [hdrop] using this
        obtain ⟨a, b, body, rfl, ha, hbot⟩ := isReply_cases hreply
        have hid := ha
        rw [h.asked (hr.trans hb.symm)] at hid
        rw [hdrop, List.flatten_cons] at hparts
        obtain ⟨m, body', x, -, hx, hok, -⟩ := Req.xrecv_reply h.version hr hb hrec hparts hskip
          hid hbot
        refine ⟨_, _, _, hx, ?_⟩
        cases hm : m.more with
        | true =>
          exact inv_of_base rfl rfl h.version
            (by simpa [Req.withBase, hr, hm] using hok.1)
            fun he => absurd he (by simp [Req.withBase, hr])
        | false =>
          exact inv_of_base rfl rfl h.version (by simpa [Req.withBase, hm] using hok.1)
            fun he => absurd he (by simp [Req.withBase, hb])

theorem Inv.xhasIn (h : s.Inv) (hc : s.req.fq.Continues s.ends) :
    ∃ r req ends, s.req.xhasIn s.ends = .ok (r, req, ends) ∧ Inv ⟨req, ends, s.asked⟩ := by
  unfold Req.xhasIn
  cases hr : (!s.req.receivingReply) with
  | true => exact ⟨false, s.req, s.ends, by rw [if_pos rfl], h⟩
  | false =>
    obtain ⟨r, x, ends, hx, hready⟩ := XReq.xhasIn_spec h.ready hc
    refine ⟨r, { s.req with toXReq := x }, ends, ?_, h.version, hready, h.asked⟩
    rw [if_neg (by simp), hx]

theorem Inv.sent (h : s.Inv) (lb : Lb α)
    (hbase : req.toXReq = { s.req.toXReq with lb := lb }) (hv : req.spVersion = s.req.spVersion)
    (hsame : ∀ x, (s.ends x).SameInbound (ends x))
    (hmid : (req.receivingReply && !req.messageBegins) =
      (s.req.receivingReply && !s.req.messageBegins))
    (hasked : req.receivingReply = req.messageBegins → asked = req.requestId) :
    Inv ⟨req, ends, asked⟩ := by
  refine ⟨by rw [hv]; exact h.version, ?_, hasked⟩
  simp only [XReq.Ready, hbase, hmid]
  exact ⟨h.ready.1.sent hsame, h.ready.2⟩

end ReqSystem

namespace Req

structure Sent (s : Req α) (ends : Ends α) (s' : Req α) (ends' : Ends α) : Prop where
  base : ∃ lb, s'.toXReq = { s.toXReq with lb := lb }
  version : s'.spVersion = s.spVersion
  id : s'.requestId = s.requestId
  same : ∀ x, (ends x).SameInbound (ends' x)

omit [DecidableEq α] in
theorem Sent.trans {s₁ s₂ s₃ : Req α} {ends₁ ends₂ ends₃ : Ends α} (h : Sent s₁ ends₁ s₂ ends₂)
    (h' : Sent s₂ ends₂ s₃ ends₃) : Sent s₁ ends₁ s₃ ends₃ := by
  obtain ⟨lb, hlb⟩ := h.base
  obtain ⟨lb', hlb'⟩ := h'.base
  exact ⟨⟨lb', by rw [hlb', hlb]⟩, h'.version.trans h.version, h'.id.trans h.id,
    fun x => (h.same x).trans (h'.same x)⟩

variable {s s' : Req α} {ends ends' : Ends α}
variable {r : Except Errno Unit} {msg : Msg} {x x' : XReq α} {p : α}

theorem sent_sendPart {r : SendResult α} (h : s.sendPart ends msg = .ok (r, s', ends')) :
    Sent s ends s' ends' ∧ s'.receivingReply = s.receivingReply ∧
      s'.messageBegins = s.messageBegins := by
  unfold sendPart XReq.xsend at h
  cases hs : s.lb.send ends msg with
  | error err => simp [hs] at h
  | ok w =>
    simp only [hs] at h
    cases h
    exact ⟨⟨⟨_, rfl⟩, rfl, rfl, Lb.send_sameInbound hs⟩, rfl, rfl⟩

theorem sent_sendBottom {r : Bool} (h : s.sendBottom ends = .ok (r, s', ends')) :
    Sent s ends s' ends' ∧ s'.receivingReply = s.receivingReply ∧
      s'.messageBegins = (!r && s.messageBegins) := by
  unfold sendBottom at h
  cases hs : s.sendPart ends bottomPart with
  | error err => simp [hs] at h
  | ok w =>
    obtain ⟨r', s₁, ends₁⟩ := w
    obtain ⟨hsent, hrecv, hbegin⟩ := sent_sendPart hs
    cases r' <;> simp only [hs, Except.ok.injEq, Prod.mk.injEq] at h <;>
      obtain ⟨rfl, rfl, rfl⟩ := h
    · exact ⟨hsent, hrecv, by simpa using hbegin⟩
    · exact ⟨⟨hsent.base, hsent.version, hsent.id, hsent.same⟩, hrecv, by simp⟩
    · exact ⟨⟨hsent.base, hsent.version, hsent.id, hsent.same⟩, hrecv, by simp⟩

theorem sent_sendEnvelope {r : Bool} (h : s.sendEnvelope ends = .ok (r, s', ends')) :
    Sent s ends s' ends' ∧ s'.receivingReply = s.receivingReply ∧
      s'.messageBegins = (!r && s.messageBegins) := by
  unfold sendEnvelope at h
  split at h
  · cases hs : s.sendPart ends (Msg.idPart s.requestId) with
    | error err => simp [hs] at h
    | ok w =>
      obtain ⟨r', s₁, ends₁⟩ := w
      obtain ⟨hsent, hrecv, hbegin⟩ := sent_sendPart hs
      cases r' with
      | again => grind
      | dropped =>
        simp only [hs] at h
        obtain ⟨hsent', hrecv', hbegin'⟩ := sent_sendBottom h
        exact ⟨hsent.trans hsent', hrecv'.trans hrecv, by rw [hbegin', hbegin]⟩
      | written p =>
        simp only [hs] at h
        obtain ⟨hsent', hrecv', hbegin'⟩ := sent_sendBottom h
        exact ⟨hsent.trans hsent', hrecv'.trans hrecv, by rw [hbegin', hbegin]⟩
  · exact sent_sendBottom h

theorem sent_sendBody (h : s.sendBody ends msg = .ok (r, s', ends')) :
    Sent s ends s' ends' ∧ (s'.receivingReply = s.receivingReply ∧
        s'.messageBegins = s.messageBegins ∨ s'.receivingReply = true ∧ s'.messageBegins = true) := by
  unfold sendBody at h
  cases hs : s.sendPart ends msg with
  | error err => simp [hs] at h
  | ok w =>
    obtain ⟨r', s₁, ends₁⟩ := w
    obtain ⟨hsent, hrecv, hbegin⟩ := sent_sendPart hs
    cases r' <;> simp only [hs] at h <;> try split at h
    all_goals
      cases h
    · exact ⟨hsent, Or.inl ⟨hrecv, hbegin⟩⟩
    · exact ⟨hsent, Or.inl ⟨hrecv, hbegin⟩⟩
    · exact ⟨⟨hsent.base, hsent.version, hsent.id, hsent.same⟩, Or.inr ⟨rfl, rfl⟩⟩
    · exact ⟨hsent, Or.inl ⟨hrecv, hbegin⟩⟩
    · exact ⟨⟨hsent.base, hsent.version, hsent.id, hsent.same⟩, Or.inr ⟨rfl, rfl⟩⟩

theorem sent_xsend (hr : s.receivingReply = false) (h : s.xsend ends msg = .ok (r, s', ends')) :
    Sent s ends s' ends' ∧ (s'.receivingReply = true → s'.messageBegins = true) := by
  simp only [xsend, hr, Bool.false_eq_true, if_false] at h
  have hdone : ∀ {s₁ : Req α} {ends₁ : Ends α}, Sent s ends s₁ ends₁ → s₁.receivingReply = false →
      s₁.sendBody ends₁ msg = .ok (r, s', ends') →
      Sent s ends s' ends' ∧ (s'.receivingReply = true → s'.messageBegins = true) := by
    intro s₁ ends₁ hsent hr₁ hbody
    obtain ⟨hsent', hrest⟩ := sent_sendBody hbody
    refine ⟨hsent.trans hsent', fun hc => ?_⟩
    grind
  split at h
  · cases hs : s.sendEnvelope ends with
    | error err => simp [hs] at h
    | ok w =>
      obtain ⟨r', s₁, ends₁⟩ := w
      obtain ⟨hsent, hrecv, hbegin⟩ := sent_sendEnvelope hs
      grind
  · exact hdone ⟨⟨s.lb, rfl⟩, rfl, rfl, fun _ => .refl _⟩ hr h

/-! ### Events -/

omit [DecidableEq α] in
theorem base_ok {f : XReq α → α → Except Fault (XReq α)} (h : base f s p = .ok s') :
    f s.toXReq p = .ok s'.toXReq ∧ s' = { s with toXReq := s'.toXReq } := by
  unfold base at h
  grind

theorem xattachPipe_ok (h : x.xattachPipe p = .ok x') :
    x.fq.attach p = .ok x'.fq ∧ x'.prefetched = x.prefetched := by
  unfold XReq.xattachPipe at h
  grind

theorem xterminated_ok (h : x.xterminated p = .ok x') :
    x.fq.terminated p = .ok x'.fq ∧ x'.prefetched = x.prefetched := by
  unfold XReq.xterminated at h
  grind

theorem xreadActivated_ok (h : x.xreadActivated p = .ok x') :
    x.fq.activated p = .ok x'.fq ∧ x'.prefetched = x.prefetched := by
  unfold XReq.xreadActivated at h
  grind

theorem xwriteActivated_ok (h : x.xwriteActivated p = .ok x') :
    x'.fq = x.fq ∧ x'.prefetched = x.prefetched := by
  unfold XReq.xwriteActivated at h
  grind

theorem sink_queues : (sink : Sink (Req α) α).Queues where
  attach h := (xattachPipe_ok (base_ok h).1).1
  readActivated h := (xreadActivated_ok (base_ok h).1).1
  writeActivated h := (xwriteActivated_ok (base_ok h).1).1
  terminated h := (xterminated_ok (base_ok h).1).1

theorem steps_base {ev : PipeEvent α} (h : ev.Steps sink s ends s' ends') :
    s' = { s with toXReq := s'.toXReq } ∧ s'.prefetched = s.prefetched := by
  cases h with
  | attach _ _ hr => exact ⟨(base_ok hr).2, (xattachPipe_ok (base_ok hr).1).2⟩
  | terminated _ hr => exact ⟨(base_ok hr).2, (xterminated_ok (base_ok hr).1).2⟩
  | readActivated _ _ hr => exact ⟨(base_ok hr).2, (xreadActivated_ok (base_ok hr).1).2⟩
  | writeActivated _ _ _ hr => exact ⟨(base_ok hr).2, (xwriteActivated_ok (base_ok hr).1).2⟩
  | _ => exact ⟨rfl, rfl⟩

end Req

namespace ReqSystem

variable {s : ReqSystem α}

theorem Inv.event (h : s.Inv) {ev : PipeEvent α} {req : Req α} {ends : Ends α}
    (hk : ev.Keeps identities s.req.fq s.ends)
    (hs : ev.step Req.sink s.req s.ends = .ok (req, ends)) : Inv ⟨req, ends, s.asked⟩ := by
  have hsteps := PipeEvent.steps hs
  obtain ⟨hsup, hsame⟩ := hsteps.supplied Req.sink_queues (G := identities) (q := s.req.fq.more)
    h.ready.1 hk
  obtain ⟨hreq, hpre⟩ := Req.steps_base hsteps
  have hmore : req.fq.more = s.req.fq.more := hsame.1
  refine ⟨by rw [hreq]; exact h.version, ⟨?_, ?_⟩, fun he => ?_⟩
  · simp only [hmore]
    exact hsup
  · have hmid := h.ready.2
    simp only at hmid
    simp only [hmore, hpre, hmid]
    rw [hreq]
  · rw [hreq] at he ⊢
    exact h.asked he

theorem Inv.step {s' : ReqSystem α} (h : s.Inv) {op : ReqOp α} (hk : s.Keeps op)
    (hs : s.step op = .ok s') : s'.Inv := by
  cases op with
  | event ev =>
    simp only [ReqSystem.step] at hs
    split at hs
    · cases hs
    next hev =>
      cases hs
      exact h.event hk hev
  | xsend msg =>
    simp only [ReqSystem.step] at hs
    split at hs
    · cases hs
    next hsend =>
      cases hs
      cases hr : s.req.receivingReply with
      | true =>
        simp only [Req.xsend, hr, if_true] at hsend
        cases hsend
        exact h
      | false =>
        obtain ⟨hsent, hbegin⟩ := Req.sent_xsend hr hsend
        obtain ⟨lb, hlb⟩ := hsent.base
        refine h.sent lb hlb hsent.version hsent.same ?_ fun _ => ?_
        · grind
        · grind [hsent.id, h.asked]
  | xrecv =>
    obtain ⟨r, req, ends, hx, hinv⟩ := h.xrecv hk
    simp only [ReqSystem.step, hx] at hs
    cases hs
    exact hinv
  | xhasIn =>
    obtain ⟨r, req, ends, hx, hinv⟩ := h.xhasIn hk
    simp only [ReqSystem.step, hx] at hs
    cases hs
    exact hinv
  | xhasOut =>
    simp only [ReqSystem.step] at hs
    split at hs
    · cases hs
    next hout =>
      cases hs
      unfold Req.xhasOut XReq.xhasOut at hout
      split at hout
      · cases hout
        exact h
      · cases hlb : s.req.lb.hasOut s.ends with
        | error err => simp [hlb] at hout
        | ok w =>
          simp only [hlb] at hout
          cases hout
          refine h.sent w.2.1 ?_ ?_ (Lb.hasOut_sameInbound hlb) ?_ h.asked <;> rfl

/-- **Replies are matched to requests.** -/
theorem reply_matched (spVersion : Int) (hv : 3 ≤ spVersion) (requestId : UInt32)
    (ops : List (ReqOp α)) (s : ReqSystem α)
    (hmeets : RunMeets step Keeps (init spVersion requestId) ops)
    (hrun : run step (init spVersion requestId) ops = .ok s) :
    (s.req.receivingReply = false →
        s.req.xrecv s.ends = .ok (.error .efsm, s.req, s.ends)) ∧
      (s.req.receivingReply = true → s.req.messageBegins = true → s.Keeps .xrecv → s.Answered) ∧
      (s.req.receivingReply = true → s.req.messageBegins = false → s.req.fq.Continues s.ends →
        ∃ m rest req ends, s.parts = m :: rest ∧ s.req.xrecv s.ends = .ok (.ok m, req, ends) ∧
          parts ⟨req, ends, s.asked⟩ = rest ∧ req.receivingReply = m.more ∧
          req.messageBegins = !m.more) ∧
      (s.req.fq.Continues s.ends → ∃ r, s.req.xhasIn s.ends = .ok r) := by
  have h : s.Inv := run_invariant (fun _ _ _ hI hk hs => Inv.step hI hk hs) ops _ s
    (inv_init hv requestId) hmeets hrun
  refine ⟨fun hr => by simp [Req.xrecv, hr], fun hr hb hk => h.answered hk hr hb,
    fun hr hb hc => ?_, fun hc => ?_⟩
  · obtain ⟨m, rest, x, hp, hx, -, hparts⟩ := h.recvBody hc hr hb
    refine ⟨m, rest, _, _, hp, hx, ?_⟩
    grind [parts, Req.withBase]
  · obtain ⟨r, req, ends, hx, -⟩ := h.xhasIn hc
    exact ⟨_, hx⟩

def part (flags : UInt8) (data : List UInt8) : Msg := ⟨false, flags, data⟩

def peerSends (p : Nat) (parts : List Msg) : List (ReqOp Nat) :=
  parts.map (fun m => .event (.peerWrite p m)) ++ [.event (.peerFlush p)]

def asking : List (ReqOp Nat) :=
  [.event (.attach 0 (.init 0 0 true)), .event (.attach 1 (.init 0 0 true)), .xsend (part 0 [1])]

def theReply : List Msg := [part 1 [0, 0, 0, 7], part 1 [], part 0 [2]]

def staleReply : List (ReqOp Nat) :=
  asking ++ peerSends 0 [part 64 [9]] ++ peerSends 0 [part 1 [0, 0, 0, 6], part 1 [], part 0 [3]] ++
    peerSends 1 theReply

set_option maxRecDepth 8000 in
theorem staleReply_answered :
    RunMeets step Keeps (init 3 7) staleReply ∧
      ∃ s, run step (init 3 7) staleReply = .ok s ∧ s.Keeps .xrecv ∧ s.Answered ∧
        (s.req.xrecv s.ends).map Prod.fst = .ok (.ok (part 0 [2])) := by
  have hmeets : RunMeets step Keeps (init 3 7) staleReply := by decide
  obtain ⟨s, hs⟩ : ∃ s, run step (init 3 7) staleReply = .ok s := ⟨_, rfl⟩
  have hfacts : (run step (init 3 7) staleReply).map
      (fun s => (s.req.receivingReply, s.req.messageBegins, decide (s.Keeps .xrecv),
        (s.req.xrecv s.ends).map Prod.fst)) = .ok (true, true, true, .ok (.ok (part 0 [2]))) := by
    decide
  rw [hs] at hfacts
  simp only [Except.map, Except.ok.injEq, Prod.mk.injEq, decide_eq_true_eq] at hfacts
  obtain ⟨hr, hb, hk, hx⟩ := hfacts
  exact ⟨hmeets, s, hs, hk, (reply_matched 3 (by decide) 7 staleReply s hmeets hs).2.1 hr hb hk, hx⟩

def straggler : List (ReqOp Nat) := asking ++ peerSends 0 [part 0 [3]] ++ peerSends 1 theReply

def forgery : List (ReqOp Nat) :=
  asking ++ peerSends 0 [part 1 [0, 0, 0, 7], part 1 [5], part 0 []] ++ peerSends 1 theReply

def lonePart : List (ReqOp Nat) := asking ++ peerSends 0 [part 0 [3]]

set_option maxRecDepth 8000 in
theorem straggler_loses_reply :
    (∃ s, run step (init 3 7) straggler = .ok s ∧
        messages Msg.more s.parts = [[part 0 [3]], theReply] ∧
        Req.isReply s.asked theReply = true ∧
        (s.req.xrecv s.ends).map Prod.fst = .ok (.error .eagain)) ∧
      (∃ s, run step (init 3 7) forgery = .ok s ∧
        messages Msg.more s.parts = [[part 1 [0, 0, 0, 7], part 1 [5], part 0 []], theReply] ∧
        Req.isReply s.asked theReply = true ∧
        (s.req.xrecv s.ends).map Prod.fst = .ok (.error .eagain)) ∧
      ∃ s, run step (init 3 7) lonePart = .ok s ∧
        (s.req.xrecv s.ends).map Prod.fst = .error .assertFailed :=
  ⟨⟨_, rfl, by decide, by decide, by decide⟩, ⟨_, rfl, by decide, by decide, by decide⟩,
    ⟨_, rfl, by decide⟩⟩

end ReqSystem

end Libxs
