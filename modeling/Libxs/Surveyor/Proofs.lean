import Libxs.Dist.Proofs
import Libxs.SocketBase.Outbound
import Libxs.Surveyor
import Mathlib.Data.List.Chain

/-! # Surveys and their responses -/

namespace Libxs

variable {α : Type} [DecidableEq α]

/-! ## Sending parts -/

theorem Endpoint.Sound.sent_sameInbound {e : Endpoint} (h : e.Sound) (msg : Msg) :
    e.SameInbound (e.sent msg) := by
  obtain ⟨e', he, -⟩ := h.write msg
  have hw := Endpoint.sameInbound_write he
  unfold Endpoint.sent
  rw [he]
  cases e.accepts with
  | false => exact hw
  | true =>
    simp only
    split
    · exact hw
    · exact hw.trans (Endpoint.sameInbound_flush e')

namespace Dist

structure Serves (d : Dist α) (ends : Ends α) : Prop where
  layered : d.Layered (fun x => d.pipes.index x < d.matching) (fun x => d.pipes.index x < d.active)
    (fun x => d.pipes.index x < d.eligible)
  sound : ∀ p, d.attached p → (ends p).Sound
  stalled : ∀ p, d.attached p → (ends p).Stalled → ¬ d.pipes.index p < d.eligible

variable {d d' : Dist α} {ends ends' : Ends α} {p : α}
variable {e : Endpoint}

omit [DecidableEq α] in
theorem serves_of_layered {M A E : α → Prop} (h : d.Layered M A E)
    (hsound : ∀ p, d.attached p → (ends p).Sound)
    (hstalled : ∀ p, d.attached p → (ends p).Stalled → ¬ E p) : d.Serves ends where
  layered := h.self
  sound := hsound
  stalled p hp hst hlt := hstalled p hp hst ((h.eligible.mem_iff p hp).1 hlt)

omit [DecidableEq α] in
theorem serves_init (ends : Ends α) : (init : Dist α).Serves ends :=
  ⟨layered_init _ _ _, fun _ hp => absurd hp (by simp [attached, init, ArrayT.empty]),
    fun _ hp => absurd hp (by simp [attached, init, ArrayT.empty])⟩

omit [DecidableEq α] in
theorem Serves.sameOutbound (h : d.Serves ends) (hsame : ∀ x, (ends x).SameOutbound (ends' x)) :
    d.Serves ends' :=
  ⟨h.layered, fun x hx => (hsame x).sound (h.sound x hx),
    fun x hx hst => h.stalled x hx ((hsame x).stalled hst)⟩

theorem Serves.attach (h : d.Serves ends) (hp : ¬ d.attached p) (he : e.Sound)
    (hst : ¬ e.Stalled) (hr : d.attach p = .ok d') :
    d'.Serves (Function.update ends p e) ∧ ∀ x, d'.attached x ↔ d.attached x ∨ x = p := by
  obtain ⟨d₁, hd, hlay, hatt, -⟩ := h.layered.attach hp
  rw [hd, Except.ok.injEq] at hr
  subst hr
  refine ⟨serves_of_layered hlay (fun x hx => ?_) fun x hx hs hE => ?_, hatt⟩
  · grind [h.sound]
  · by_cases hxp : x = p
    · subst hxp
      exact hst (by simpa using hs)
    · rw [Function.update_of_ne hxp] at hs
      exact h.stalled x (((hatt x).1 hx).resolve_right hxp) hs (hE.resolve_left hxp)

theorem Serves.activated (h : d.Serves ends) (hp : d.attached p) (hst : (ends p).Stalled)
    (he : e.Sound) (hst' : ¬ e.Stalled) (hr : d.activated p = .ok d') :
    d'.Serves (Function.update ends p e) ∧ ∀ x, d'.attached x ↔ d.attached x := by
  obtain ⟨d₁, hd, hlay, hatt, -⟩ := h.layered.activated hp (h.stalled p hp hst)
  rw [hd, Except.ok.injEq] at hr
  subst hr
  refine ⟨serves_of_layered hlay (fun x hx => ?_) fun x hx hs hE => ?_, hatt⟩
  · grind [h.sound]
  · by_cases hxp : x = p
    · subst hxp
      exact hst' (by simpa using hs)
    · rw [Function.update_of_ne hxp] at hs
      exact h.stalled x ((hatt x).1 hx) hs (hE.resolve_left hxp)

theorem Serves.terminated (h : d.Serves ends) (hp : d.attached p) (hr : d.terminated p = .ok d') :
    d'.Serves ends ∧ ∀ x, d'.attached x ↔ d.attached x ∧ x ≠ p := by
  obtain ⟨d₁, hd, hlay, hatt, -⟩ := h.layered.terminated hp
  rw [hd, Except.ok.injEq] at hr
  subst hr
  exact ⟨serves_of_layered hlay (fun x hx => h.sound x ((hatt x).1 hx).1)
    fun x hx => h.stalled x ((hatt x).1 hx).1, hatt⟩

theorem Serves.sendToAll (h : d.Serves ends) (msg : Msg) :
    ∃ d' ends', d.sendToAll ends msg = .ok (d', ends') ∧ d'.Serves ends' ∧
      (∀ x, d'.attached x ↔ d.attached x) ∧ ∀ x, (ends x).SameInbound (ends' x) := by
  obtain ⟨d', ends', hsend, hlay, hatt, -, hsent, hrest⟩ := h.layered.sendToAll h.sound msg
  have hcases : ∀ x, (d.attached x ∧ d.pipes.index x < d.active ∧ ends' x = (ends x).sent msg) ∨
      (¬ (d.attached x ∧ d.pipes.index x < d.active) ∧ ends' x = ends x) := fun x => by
    grind
  refine ⟨d', ends', hsend, serves_of_layered hlay (fun x hx => ?_) fun x hx hst hE => ?_, hatt,
    fun x => ?_⟩
  · rcases hcases x with ⟨hx', -, he⟩ | ⟨-, he⟩
    · exact he ▸ (h.sound x hx').sent msg
    · exact he ▸ h.sound x ((hatt x).1 hx)
  · rcases hcases x with ⟨hx', hlt, he⟩ | ⟨-, he⟩
    · -- the pipe got the part, or refused it and is not eligible any more
      obtain ⟨hstate, -, hacc, -⟩ := (h.sound x hx').sent_ok msg
      rw [Endpoint.Stalled, he, hstate] at hst
      have hout := hacc hst.1
      rw [hE.2 hlt, hst.2] at hout
      cases hout
    · exact h.stalled x ((hatt x).1 hx) (he ▸ hst) hE.1
  · rcases hcases x with ⟨hx', -, he⟩ | ⟨-, he⟩
    · exact he ▸ (h.sound x hx').sent_sameInbound msg
    · exact he ▸ .refl _

end Dist

/-! ## Receiving parts -/

namespace XSurveyor

variable {mid : Bool} {r : Option Msg} {x : XSurveyor α × Ends α}

structure Ready (mid : Bool) (x : XSurveyor α × Ends α) : Prop where
  intake : x.1.fq.Intake Grammar.any () x.2
  more : x.1.fq.more = mid
  continues : x.1.fq.Continues x.2

theorem xrecv_spec (h : Ready mid x) : ∃ r fq ends, x.1.fq.recvpipe x.2 = .ok (r, fq, ends) ∧
      Fq.Received Grammar.any () x.1.fq x.2 r () fq ends ∧
      supply.recv x = .ok (r.map Prod.fst,
        { x.1 with fq := fq, received := x.1.received ++ r.toList }, ends) ∧
      fq.Intake Grammar.any () ends ∧ fq.Continues ends := by
  obtain ⟨r, q, fq, ends, hrun, hrec⟩ := h.intake.recvpipe h.continues
  refine ⟨r, fq, ends, hrun, hrec, ?_, hrec.intake h.intake.place⟩
  cases r <;> simp [supply, xrecv, hrun]

theorem supply_ready : (supply : Supply Fault (XSurveyor α × Ends α) Msg).Sound Ready where
  recv := by
    rintro mid ⟨s, ends⟩ h
    obtain ⟨r, fq, ends', -, hrec, hx, hintake, hcont⟩ := xrecv_spec h
    cases r with
    | none =>
      obtain ⟨hidle, hidle', hact, -⟩ := hrec.nothing rfl
      refine Or.inr ⟨h.more.symm.trans hidle, _, hx, ⟨hintake, hidle', hcont⟩, ?_⟩
      simp [supply, xrecv, Fq.recvpipe, hact, Fq.recvLoop]
    | some r =>
      obtain ⟨-, hmore, -, -, hless⟩ := hrec.part r.1 r.2 rfl
      exact Or.inl ⟨r.1, _, hx, ⟨hintake, hmore, hcont⟩, hless⟩

structure Sourced (x : XSurveyor α × Ends α) : Prop where
  chain : x.1.received.IsChain (fun a b => a.1.more = true → a.2 = b.2)
  current : ∀ a ∈ x.1.received.getLast?, a.1.more = x.1.fq.more ∧
    (a.1.more = true → x.1.fq.pipes.get x.1.fq.current = some a.2)

theorem Sourced.recv {x' : XSurveyor α × Ends α} (h : Sourced x)
    (hx : Ready mid x) (hr : supply.recv x = .ok (r, x')) : Sourced x' := by
  obtain ⟨part, fq, ends, -, hrec, hx', -, -⟩ := xrecv_spec hx
  rw [hr, Except.ok.injEq, Prod.mk.injEq] at hx'
  obtain ⟨-, rfl⟩ := hx'
  cases part with
  | none =>
    obtain ⟨hidle, hidle', -, -⟩ := hrec.nothing rfl
    refine ⟨by simpa using h.chain, fun a ha => ?_⟩
    obtain ⟨hmore, -⟩ := h.current a (by simpa using ha)
    simp only [hidle] at hmore
    exact ⟨hmore.trans hidle'.symm, fun hc => absurd (hmore.symm.trans hc) (by simp)⟩
  | some part =>
    obtain ⟨-, hmore, hcur, hnext, -⟩ := hrec.part part.1 part.2 rfl
    refine ⟨List.isChain_append.2 ⟨h.chain, .singleton _, fun a ha b hb hm => ?_⟩, fun a ha => ?_⟩
    · grind [h.current]
    · grind

structure Follows (x₀ x : XSurveyor α × Ends α) : Prop where
  dist : x.1.dist = x₀.1.dist
  outbound : ∀ p, (x₀.2 p).SameOutbound (x.2 p)
  attached : ∀ p, x.1.fq.attached p ↔ x₀.1.fq.attached p
  moved : ∃ l, x.1.received = x₀.1.received ++ l ∧
    l.map Prod.fst ++ supply.parts x = supply.parts x₀

theorem Follows.refl (x : XSurveyor α × Ends α) : Follows x x :=
  ⟨rfl, fun _ => .refl _, fun _ => Iff.rfl, [], by simp, rfl⟩

theorem Follows.recv {x₀ x' : XSurveyor α × Ends α}
    (h : Follows x₀ x) (hx : Ready mid x) (hr : supply.recv x = .ok (r, x')) : Follows x₀ x' := by
  obtain ⟨part, fq, ends, -, hrec, hx', -, -⟩ := xrecv_spec hx
  rw [hr, Except.ok.injEq, Prod.mk.injEq] at hx'
  obtain ⟨rfl, hx'⟩ := hx'
  obtain ⟨l, hlog, hparts⟩ := h.moved
  refine ⟨by rw [hx']; exact h.dist, fun p => ?_, fun p => ?_, l ++ part.toList, ?_, ?_⟩
  · rw [hx']
    exact (h.outbound p).trans (hrec.sameOutbound p)
  · rw [hx']
    exact (hrec.attached p).trans (h.attached p)
  · rw [hx', hlog, List.append_assoc]
  · rw [← hparts, List.map_append, List.append_assoc]
    congr 1
    cases part with
    | none =>
      obtain ⟨-, x₁, hr₁, -, hnil⟩ := supply_ready.recv_nil hx (by rw [Supply.parts, Supply.upcoming_nothing hr])
      rw [hr, Except.ok.injEq, Prod.mk.injEq] at hr₁
      rw [hr₁.2, hnil, Supply.parts, Supply.upcoming_nothing hr]
      rfl
    | some part => exact (supply_ready.parts_some hx hr).2.2.symm

def Receives (x₀ : XSurveyor α × Ends α) (mid : Bool) (x : XSurveyor α × Ends α) : Prop :=
  Ready mid x ∧ Sourced x ∧ Follows x₀ x

theorem Receives.log {x₀ : XSurveyor α × Ends α} {c rest : List Msg}
    (h : Receives x₀ mid x) (hp : supply.parts x₀ = c ++ rest) (hx : supply.parts x = rest) :
    ∃ l, x.1.received = x₀.1.received ++ l ∧ l.map Prod.fst = c ∧
      l.IsChain (fun a b => a.1.more = true → a.2 = b.2) := by
  obtain ⟨l, hlog, hparts⟩ := h.2.2.moved
  rw [hp, hx] at hparts
  have hchain := h.2.1.chain
  rw [hlog] at hchain
  exact ⟨l, hlog, List.append_cancel_right hparts, (List.isChain_append.1 hchain).2.1⟩

theorem supply_sound (x₀ : XSurveyor α × Ends α) :
    (supply : Supply Fault (XSurveyor α × Ends α) Msg).Sound (Receives x₀) :=
  supply_ready.and fun hx h hr => ⟨h.1.recv hx hr, h.2.recv hx hr⟩

end XSurveyor

omit [DecidableEq α] in
theorem sourced_whole : ∀ {l : List (Msg × α)},
    l.IsChain (fun a b => a.1.more = true → a.2 = b.2) → Whole Msg.more (l.map Prod.fst) →
    ∃ p, l = (l.map Prod.fst).map (·, p) := by
  intro l
  induction l with
  | nil => exact fun _ h => absurd h id
  | cons a l ih =>
    intro hc hw
    cases hm : a.1.more with
    | false =>
      have hnil : l = [] := by simpa using (whole_cons_last hm).1 hw
      exact ⟨a.2, by simp [hnil]⟩
    | true =>
      obtain ⟨hhead, htail⟩ := List.isChain_cons.1 hc
      obtain ⟨p, hp⟩ := ih htail ((whole_cons_more hm).1 hw)
      have hpipe : a.2 = p := by
        cases l with
        | nil => exact absurd ((whole_cons_more hm).1 hw) id
        | cons b l => grind
      refine ⟨p, ?_⟩
      rw [List.map_cons, List.map_cons, ← hp, ← hpipe]

namespace Surveyor

open XSurveyor (supply supply_sound Receives Ready)

def withBase (s : Surveyor α) (x : XSurveyor α × Ends α) : Surveyor α := { s with toXSurveyor := x.1 }

def Shaped (id : UInt32) (parts : List Msg) : Prop :=
  ∀ m ∈ (messages Msg.more parts).head?, ∀ a ∈ m.head?, a.isId id = true → m.length = 2
deriving Decidable

def Wide (parts : List Msg) : Prop := ∀ m ∈ (messages Msg.more parts).head?, 2 ≤ m.length
deriving Decidable

variable {s s' : Surveyor α} {ends ends' : Ends α} {x₀ : XSurveyor α × Ends α} {mid : Bool} {now : Nat}
variable {rest : List Msg} {a : Msg}

theorem recvPart_of_recv {r : Option Msg} {x : XSurveyor α × Ends α}
    (h : supply.recv (s.toXSurveyor, ends) = .ok (r, x)) :
    s.recvPart ends = .ok (r, s.withBase x, x.2) := by
  simp only [recvPart, h, withBase]

theorem recvResponse_nothing (h : Receives x₀ mid (s.toXSurveyor, ends))
    (hp : supply.parts (s.toXSurveyor, ends) = []) :
    ∃ x, s.recvResponse ends now =
        .ok (.error (if now ≥ s.timeout then .etimedout else .eagain), s.withBase x, x.2) ∧
      Receives x₀ false x ∧ supply.parts x = [] := by
  obtain ⟨-, x, hr, hok, hparts⟩ := (supply_sound x₀).recv_nil h hp
  exact ⟨x, by simp only [recvResponse, recvPart_of_recv hr, withBase], hok, hparts⟩

theorem recvResponse_response (h : Receives x₀ mid (s.toXSurveyor, ends)) {b : Msg}
    (hp : supply.parts (s.toXSurveyor, ends) = a :: b :: rest)
    (ha : a.isId s.surveyId = true) :
    ∃ x, s.recvResponse ends now = .ok (.ok b, s.withBase x, x.2) ∧ Receives x₀ b.more x ∧
      supply.parts x = rest := by
  obtain ⟨x, hr, hok, hparts, -⟩ := (supply_sound x₀).recv_cons h hp
  obtain ⟨x', hr', hok', hparts', -⟩ := (supply_sound x₀).recv_cons hok hparts
  have hid : (!a.more || a.size != 4 || getUint32 a.data != (s.withBase x).surveyId) ≠ true :=
    fun hc => absurd (Msg.isId_eq_false.2 hc) (by simp [withBase, ha])
  refine ⟨x', ?_, hok', hparts'⟩
  rw [recvResponse, recvPart_of_recv hr]
  simp only [if_neg hid]
  rw [recvPart_of_recv (s := s.withBase x) hr']
  rfl

theorem recvResponse_discard (h : Receives x₀ mid (s.toXSurveyor, ends))
    {m : List Msg} (hp : supply.parts (s.toXSurveyor, ends) = a :: (m ++ rest))
    (ha : a.isId s.surveyId = false) (hm : Whole Msg.more m) :
    ∃ x, s.recvResponse ends now = .ok (.error .eagain, s.withBase x, x.2) ∧ Receives x₀ false x ∧
      supply.parts x = rest := by
  obtain ⟨x, hr, hok, hparts, -⟩ := (supply_sound x₀).recv_cons h hp
  have hlen := (supply_sound x₀).length_parts _ hok hparts
  rw [List.length_append] at hlen
  obtain ⟨x', hd, hok', hparts', -⟩ := (supply_sound x₀).drain_whole .assertFailed .outOfFuel
    (n := supply.left x + 1) hok hparts hm (by omega)
  have hid : (!a.more || a.size != 4 || getUint32 a.data != (s.withBase x).surveyId) = true :=
    Msg.isId_eq_false.1 ha
  have hdis : (s.withBase x).discard x.2 = .ok (s.withBase x', x'.2) := by
    simp only [discard, withBase, hd]
  refine ⟨x', ?_, hok', hparts'⟩
  simp only [recvResponse, recvPart_of_recv hr, hid, if_true, hdis]

theorem recvResponse_lone (h : Receives x₀ mid (s.toXSurveyor, ends))
    (hp : supply.parts (s.toXSurveyor, ends) = [a]) (ha : a.isId s.surveyId = false) :
    s.recvResponse ends now = .error .assertFailed := by
  obtain ⟨x, hr, hok, hparts, -⟩ := (supply_sound x₀).recv_cons h hp
  obtain ⟨-, x', hr', -⟩ := (supply_sound x₀).recv_nil hok hparts
  have hid : (!a.more || a.size != 4 || getUint32 a.data != (s.withBase x).surveyId) = true :=
    Msg.isId_eq_false.1 ha
  have hdis : (s.withBase x).discard x.2 = .error .assertFailed := by
    simp only [discard, withBase, Supply.drain, hr']
  simp only [recvResponse, recvPart_of_recv hr, hid, if_true, hdis]

inductive Outcome (s : Surveyor α) (ends : Ends α) (now : Nat) : Prop where
  | nothing {x : XSurveyor α × Ends α} :
      s.recvResponse ends now =
        .ok (.error (if now ≥ s.timeout then .etimedout else .eagain), s.withBase x, x.2) →
      Receives (s.toXSurveyor, ends) false x → x.1.received = s.received →
      supply.parts (s.toXSurveyor, ends) = [] → Outcome s ends now
  | response {x : XSurveyor α × Ends α} {a b : Msg} {p : α} :
      s.recvResponse ends now = .ok (.ok b, s.withBase x, x.2) →
      Receives (s.toXSurveyor, ends) false x → x.1.received = s.received ++ [(a, p), (b, p)] →
      a.isId s.surveyId = true → b.more = false → Outcome s ends now
  | dropped {x : XSurveyor α × Ends α} {l : List (Msg × α)} :
      s.recvResponse ends now = .ok (.error .eagain, s.withBase x, x.2) →
      Receives (s.toXSurveyor, ends) false x → x.1.received = s.received ++ l →
      Frames Msg.more false (l.map Prod.fst) →
      (Wide (supply.parts (s.toXSurveyor, ends)) →
        ∃ m p, Whole Msg.more m ∧ l = m.map (·, p)) → Outcome s ends now
  | failed : s.recvResponse ends now = .error .assertFailed →
      ¬ Wide (supply.parts (s.toXSurveyor, ends)) → Outcome s ends now

theorem outcome (hr : Ready false (s.toXSurveyor, ends))
    (hs : XSurveyor.Sourced (s.toXSurveyor, ends))
    (hshape : Shaped s.surveyId (supply.parts (s.toXSurveyor, ends))) : Outcome s ends now := by
  have h : Receives (s.toXSurveyor, ends) false (s.toXSurveyor, ends) := ⟨hr, hs, .refl _⟩
  rcases (supply_sound (s.toXSurveyor, ends)).parts_frames h |>.cases with
    hnil | ⟨m, rest, hp, hm, hrest⟩
  · obtain ⟨x, hx, hok, hparts⟩ := recvResponse_nothing h hnil
    obtain ⟨l, hlog, hl, -⟩ := hok.log (c := []) hnil hparts
    rw [List.map_eq_nil_iff] at hl
    exact .nothing hx hok (by simpa [hl] using hlog) hnil
  · obtain ⟨a, m, rfl⟩ := List.exists_cons_of_ne_nil hm.ne_nil
    have hfirst : messages Msg.more (supply.parts (s.toXSurveyor, ends)) =
        (a :: m) :: messages Msg.more rest := by
      rw [hp]
      exact messages_append hm rest
    cases ha : a.isId s.surveyId with
    | true =>
      have hlen : (a :: m).length = 2 := hshape (a :: m) (by simp [hfirst]) a rfl ha
      obtain ⟨b, rfl⟩ := List.length_eq_one_iff.1 (by simpa using hlen)
      have hmore : a.more = true := by
        simp only [Msg.isId, Bool.and_eq_true] at ha
        exact ha.1.1
      have hb : b.more = false := by
        by_contra hc
        rw [Bool.not_eq_false] at hc
        exact (whole_cons_more hc).1 ((whole_cons_more hmore).1 hm)
      obtain ⟨x, hx, hok, hparts⟩ := recvResponse_response h hp ha
      rw [hb] at hok
      obtain ⟨l, hlog, hl, hchain⟩ := hok.log (c := [a, b]) hp hparts
      obtain ⟨p, hpipe⟩ := sourced_whole hchain (by rw [hl]; exact hm)
      exact .response hx hok (by rw [hlog, hpipe, hl]; rfl) ha hb
    | false =>
      cases hmore : a.more with
      | true =>
        have hm' := (whole_cons_more hmore).1 hm
        obtain ⟨x, hx, hok, hparts⟩ := recvResponse_discard h hp ha hm'
        obtain ⟨l, hlog, hl, hchain⟩ := hok.log (c := a :: m) hp hparts
        obtain ⟨p, hpipe⟩ := sourced_whole hchain (by rw [hl]; exact hm)
        exact .dropped hx hok hlog (by rw [hl]; exact Whole.frames hm)
          fun _ => ⟨a :: m, p, hm, by rw [hpipe, hl]⟩
      | false =>
        -- a message of one part takes the next one with it
        obtain rfl := (whole_cons_last hmore).1 hm
        have hwide : ¬ Wide (supply.parts (s.toXSurveyor, ends)) := fun hw =>
          absurd (hw [a] (by simp [hfirst])) (by simp)
        rcases hrest.cases with rfl | ⟨m', rest', rfl, hm', -⟩
        · exact .failed (recvResponse_lone h hp ha) hwide
        · obtain ⟨x, hx, hok, hparts⟩ := recvResponse_discard (m := m') h hp ha hm'
          obtain ⟨l, hlog, hl, -⟩ := hok.log (c := a :: m') hp hparts
          refine .dropped hx hok hlog ?_ fun hw => absurd hw hwide
          rw [hl]
          exact Frames.append (l := [a]) (Whole.frames hm') (Whole.frames hm)

end Surveyor

namespace Surveyor

variable {s s' : Surveyor α} {ends ends' : Ends α}
variable {x x' : XSurveyor α} {p : α}

omit [DecidableEq α] in
theorem base_ok {f : XSurveyor α → α → Except Fault (XSurveyor α)} (h : base f s p = .ok s') :
    f s.toXSurveyor p = .ok s'.toXSurveyor ∧ s' = { s with toXSurveyor := s'.toXSurveyor } := by
  unfold base at h
  grind

theorem xattachPipe_ok (h : x.xattachPipe p = .ok x') :
    x.fq.attach p = .ok x'.fq ∧ x.dist.attach p = .ok x'.dist ∧ x'.received = x.received := by
  unfold XSurveyor.xattachPipe at h
  grind

theorem xterminated_ok (h : x.xterminated p = .ok x') :
    x.fq.terminated p = .ok x'.fq ∧ x.dist.terminated p = .ok x'.dist ∧ x'.received = x.received := by
  unfold XSurveyor.xterminated at h
  grind

theorem xreadActivated_ok (h : x.xreadActivated p = .ok x') :
    x.fq.activated p = .ok x'.fq ∧ x'.dist = x.dist ∧ x'.received = x.received := by
  unfold XSurveyor.xreadActivated at h
  grind

theorem xwriteActivated_ok (h : x.xwriteActivated p = .ok x') :
    x'.fq = x.fq ∧ x.dist.activated p = .ok x'.dist ∧ x'.received = x.received := by
  unfold XSurveyor.xwriteActivated at h
  grind

theorem sink_queues : (sink : Sink (Surveyor α) α).Queues where
  attach h := (xattachPipe_ok (base_ok h).1).1
  readActivated h := (xreadActivated_ok (base_ok h).1).1
  writeActivated h := (xwriteActivated_ok (base_ok h).1).1
  terminated h := (xterminated_ok (base_ok h).1).1

theorem outboundStep_base (h : PipeEvent.OutboundStep sink s ends s' ends') :
    s' = { s with toXSurveyor := s'.toXSurveyor } ∧ s'.received = s.received := by
  cases h with
  | attach _ _ _ _ hr => exact ⟨(base_ok hr).2, (xattachPipe_ok (base_ok hr).1).2.2⟩
  | terminated _ hr => exact ⟨(base_ok hr).2, (xterminated_ok (base_ok hr).1).2.2⟩
  | readActivated _ hr => exact ⟨(base_ok hr).2, (xreadActivated_ok (base_ok hr).1).2.2⟩
  | activated _ _ _ hr => exact ⟨(base_ok hr).2, (xwriteActivated_ok (base_ok hr).1).2.2⟩
  | _ => exact ⟨rfl, rfl⟩

end Surveyor

namespace SurveyorSystem

open Surveyor (Shaped Wide)
open XSurveyor (supply Receives)

def parts (s : SurveyorSystem α) : List Msg := supply.parts (s.surveyor.toXSurveyor, s.ends)

structure Inv (s : SurveyorSystem α) : Prop where
  ready : XSurveyor.Ready false (s.surveyor.toXSurveyor, s.ends)
  sourced : XSurveyor.Sourced (s.surveyor.toXSurveyor, s.ends)
  frames : Frames Msg.more false (s.surveyor.received.map Prod.fst)
  serves : s.surveyor.dist.Serves s.ends
  attached : ∀ p, s.surveyor.dist.attached p ↔ s.surveyor.fq.attached p

theorem inv_init (surveyTimeout : Int) (surveyId : UInt32) :
    (init surveyTimeout surveyId : SurveyorSystem α).Inv where
  ready := ⟨Fq.intake_init _, rfl, fun h =>
    absurd h (by simp [init, Surveyor.init, XSurveyor.init, Fq.init])⟩
  sourced := ⟨.nil, fun _ h => absurd h (by simp [init, Surveyor.init, XSurveyor.init])⟩
  frames := rfl
  serves := Dist.serves_init _
  attached _ := Iff.rfl

variable {s s' t : SurveyorSystem α}
variable {ends : Ends α} {r : Except Errno Msg} {now : Nat} {surveyor : Surveyor α}
variable {op : SurveyorOp α}

theorem Inv.received (h : s.Inv) {x : XSurveyor α × Ends α} {l : List (Msg × α)}
    (hx : Receives (s.surveyor.toXSurveyor, s.ends) false x)
    (hlog : x.1.received = s.surveyor.received ++ l) (hl : Frames Msg.more false (l.map Prod.fst))
    (hbase : t.surveyor.toXSurveyor = x.1) (hends : t.ends = x.2) : t.Inv := by
  obtain ⟨hready, hsourced, hfollows⟩ := hx
  refine ⟨?_, ?_, ?_, ?_, ?_⟩ <;> rw [hbase] <;> try rw [hends]
  · exact hready
  · exact hsourced
  · rw [hlog, List.map_append]
    exact Frames.append hl h.frames
  · rw [hfollows.dist]
    exact h.serves.sameOutbound hfollows.outbound
  · intro p
    rw [hfollows.dist]
    exact (h.attached p).trans (hfollows.attached p).symm

theorem Inv.sent (h : s.Inv) {d : Dist α} (hd : d.Serves ends)
    (hatt : ∀ x, d.attached x ↔ s.surveyor.dist.attached x)
    (hsame : ∀ x, (s.ends x).SameInbound (ends x))
    (hbase : t.surveyor.toXSurveyor = { s.surveyor.toXSurveyor with dist := d })
    (hends : t.ends = ends) : t.Inv := by
  refine ⟨?_, ?_, ?_, ?_, ?_⟩ <;> rw [hbase] <;> try rw [hends]
  · exact ⟨h.ready.intake.sent hsame, h.ready.more, h.ready.continues.sent hsame⟩
  · exact ⟨h.sourced.chain, h.sourced.current⟩
  · exact h.frames
  · exact hd
  · exact fun p => (hatt p).trans (h.attached p)

theorem serves_outboundStep (hwf : s.surveyor.fq.pipes.WF)
    (hserves : s.surveyor.dist.Serves s.ends)
    (hsame : ∀ p, s.surveyor.dist.attached p ↔ s.surveyor.fq.attached p)
    (hs : PipeEvent.OutboundStep Surveyor.sink s.surveyor s.ends surveyor ends) :
    surveyor.dist.Serves ends ∧ ∀ p, surveyor.dist.attached p ↔ surveyor.fq.attached p := by
  cases hs with
  | same hout => exact ⟨hserves.sameOutbound hout, hsame⟩
  | @attach p e _ hp hsound hst _ hr =>
    obtain ⟨hfq, hdist, -⟩ := Surveyor.xattachPipe_ok (Surveyor.base_ok hr).1
    obtain ⟨hserves', hatt⟩ := hserves.attach (fun hc => hp ((hsame p).1 hc)) hsound hst hdist
    have hatt' := (Fq.attached_attach hwf hp hfq).2
    exact ⟨hserves', fun x => by rw [hatt x, hatt' x, hsame x]⟩
  | @terminated p _ hp hr =>
    obtain ⟨hfq, hdist, -⟩ := Surveyor.xterminated_ok (Surveyor.base_ok hr).1
    obtain ⟨hserves', hatt⟩ := hserves.terminated ((hsame p).2 hp) hdist
    have hatt' := (Fq.attached_terminated hwf hp hfq).2
    exact ⟨hserves', fun x => by rw [hatt x, hatt' x, hsame x]⟩
  | readActivated _ hr hout =>
    obtain ⟨hfq, hdist, -⟩ := Surveyor.xreadActivated_ok (Surveyor.base_ok hr).1
    have hatt' := (Fq.attached_activated hwf hfq).2
    rw [hdist]
    exact ⟨hserves.sameOutbound hout, fun x => (hsame x).trans (hatt' x).symm⟩
  | @activated p n e _ hp _ hact hr =>
    obtain ⟨hfq, hdist, -⟩ := Surveyor.xwriteActivated_ok (Surveyor.base_ok hr).1
    obtain ⟨hst, hst', hsound⟩ := Endpoint.not_stalled_of_activated hact
    have hd := (hsame p).2 hp
    obtain ⟨hserves', hatt⟩ := hserves.activated hd hst (hsound (hserves.sound p hd)) hst' hdist
    rw [hfq]
    exact ⟨hserves', fun x => (hatt x).trans (hsame x)⟩
  | @reported p n e hp _ hact =>
    obtain ⟨hst, hsound⟩ := Endpoint.stalled_of_reported hact
    refine ⟨⟨hserves.layered, fun x hx => ?_, fun x hx hs => ?_⟩, hsame⟩
    · grind [hserves.sound]
    · by_cases hxp : x = p
      · subst hxp
        exact hserves.stalled x hx (hst (by simpa using hs))
      · exact hserves.stalled x hx (by simpa [hxp] using hs)

theorem Inv.event (h : s.Inv) {ev : PipeEvent α}
    (hk : ev.Conforms Grammar.any s.surveyor.fq s.ends)
    (hs : ev.step Surveyor.sink s.surveyor s.ends = .ok (surveyor, ends)) :
    Inv ⟨surveyor, ends⟩ ∧
      surveyor = { s.surveyor with toXSurveyor := surveyor.toXSurveyor } ∧
      surveyor.received = s.surveyor.received := by
  have hsteps := PipeEvent.steps hs
  obtain ⟨hintake, hsame⟩ := hsteps.intake Surveyor.sink_queues h.ready.intake hk
  obtain ⟨hbase, hlog⟩ := Surveyor.outboundStep_base hsteps.outboundStep
  obtain ⟨hserves, hatt⟩ :=
    serves_outboundStep h.ready.intake.bounded.part.wf h.serves h.attached hsteps.outboundStep
  have hmore : surveyor.fq.more = false := hsame.1.trans h.ready.more
  refine ⟨⟨⟨hintake, hmore, fun hm => absurd (hmore.symm.trans hm) (by simp)⟩,
    ⟨by simpa only [hlog] using h.sourced.chain, fun a ha => ?_⟩,
    by simpa only [hlog] using h.frames, hserves, hatt⟩, hbase, hlog⟩
  -- no message is being read
  obtain ⟨hlast, -⟩ := h.sourced.current a (by simpa only [hlog] using ha)
  have ha' : a.1.more = false := hlast.trans h.ready.more
  exact ⟨ha'.trans hmore.symm, fun hc => absurd (ha'.symm.trans hc) (by simp)⟩

theorem xsend_sent (h : s.surveyor.dist.Serves s.ends) (msg : Msg) (sndmore : Bool) (now : Nat) :
    ∃ r surveyor d ends, s.surveyor.xsend s.ends msg sndmore now = .ok (r, surveyor, ends) ∧
      surveyor.toXSurveyor = { s.surveyor.toXSurveyor with dist := d } ∧ d.Serves ends ∧
      (∀ x, d.attached x ↔ s.surveyor.dist.attached x) ∧
      (∀ x, (s.ends x).SameInbound (ends x)) ∧ surveyor.prefetched = s.surveyor.prefetched ∧
      ((sndmore || msg.more) = true → surveyor = s.surveyor) := by
  unfold Surveyor.xsend
  cases hmore : sndmore || msg.more with
  | true =>
    exact ⟨_, s.surveyor, s.surveyor.dist, s.ends, rfl, rfl, h, fun _ => Iff.rfl,
      fun x => .refl _, rfl, fun _ => rfl⟩
  | false =>
    obtain ⟨d₁, ends₁, hs₁, hserves₁, hatt₁, hsame₁⟩ :=
      h.sendToAll (Msg.idPart (s.surveyor.surveyId + 1))
    obtain ⟨d₂, ends₂, hs₂, hserves₂, hatt₂, hsame₂⟩ := hserves₁.sendToAll msg
    simp only [Bool.false_eq_true, if_false, XSurveyor.xsend, hs₁, hs₂]
    exact ⟨_, _, d₂, ends₂, rfl, rfl, hserves₂, fun x => (hatt₂ x).trans (hatt₁ x),
      fun x => (hsame₁ x).trans (hsame₂ x), rfl, fun hc => absurd hc (by simp)⟩

theorem Inv.xsend (h : s.Inv) (msg : Msg) (sndmore : Bool) (now : Nat) :
    ∃ r surveyor ends, s.surveyor.xsend s.ends msg sndmore now = .ok (r, surveyor, ends) ∧
      Inv ⟨surveyor, ends⟩ ∧ surveyor.received = s.surveyor.received ∧
      surveyor.prefetched = s.surveyor.prefetched ∧
      ((sndmore || msg.more) = true → surveyor = s.surveyor) := by
  obtain ⟨r, surveyor, d, ends, hx, hbase, hserves, hatt, hsame, hpre, hrefused⟩ :=
    xsend_sent h.serves msg sndmore now
  exact ⟨r, surveyor, ends, hx, h.sent hserves hatt hsame hbase rfl, by rw [hbase], hpre, hrefused⟩

def Reading (s : SurveyorSystem α) : Prop :=
  s.surveyor.receivingResponses = true ∧ s.surveyor.prefetched = none
deriving Decidable

omit [DecidableEq α] in
theorem reading_cases (s : SurveyorSystem α) : s.Reading ∨ s.surveyor.receivingResponses = false ∨
    s.surveyor.receivingResponses = true ∧ ∃ m, s.surveyor.prefetched = some m := by
  unfold Reading
  cases s.surveyor.receivingResponses <;> cases s.surveyor.prefetched <;> simp

theorem Reading.xrecv (h : s.Reading) (now : Nat) :
    s.surveyor.xrecv s.ends now = s.surveyor.recvResponse s.ends now := by
  simp only [Surveyor.xrecv, h.1, h.2, Bool.not_true, Bool.false_eq_true, if_false]

theorem Inv.outcome (h : s.Inv) (hshape : Shaped s.surveyor.surveyId s.parts) (now : Nat) :
    Surveyor.Outcome s.surveyor s.ends now :=
  Surveyor.outcome h.ready h.sourced hshape

theorem Inv.congr (h : s.Inv) (hbase : t.surveyor.toXSurveyor = s.surveyor.toXSurveyor)
    (hends : t.ends = s.ends) : t.Inv := by
  refine ⟨?_, ?_, ?_, ?_, ?_⟩ <;> rw [hbase] <;> try rw [hends]
  · exact h.ready
  · exact h.sourced
  · exact h.frames
  · exact h.serves
  · exact h.attached

/-! ### Responses belong to the latest survey -/

def Response (id : UInt32) (log : List (Msg × α)) (m : Msg) : Prop :=
  ∃ before a p, log = before ++ [(a, p), (m, p)] ∧ Frames Msg.more false (before.map Prod.fst) ∧
    a.isId id = true ∧ m.more = false

def Current (s : SurveyorSystem α) : Prop :=
  ∀ m ∈ s.surveyor.prefetched, Response s.surveyor.surveyId s.surveyor.received m

def Keeps (s : SurveyorSystem α) : SurveyorOp α → Prop
  | .event ev => ev.Conforms Grammar.any s.surveyor.fq s.ends
  | .xsend msg sndmore _ => (sndmore || msg.more) = false → s.surveyor.prefetched = none
  | .xrecv _ => s.Reading → Shaped s.surveyor.surveyId s.parts
  | .xhasIn _ => s.Reading → Shaped s.surveyor.surveyId s.parts
  | .setTimeout _ => True

instance (s : SurveyorSystem α) (op : SurveyorOp α) : Decidable (s.Keeps op) := by
  unfold Keeps; split <;> infer_instance

theorem Inv.recvResponse (h : s.Inv) (hshape : Shaped s.surveyor.surveyId s.parts)
    (hr : s.surveyor.recvResponse s.ends now = .ok (r, surveyor, ends)) :
    Inv ⟨surveyor, ends⟩ ∧ surveyor.surveyId = s.surveyor.surveyId ∧
      surveyor.prefetched = s.surveyor.prefetched ∧
      ∀ m, r = .ok m → Response s.surveyor.surveyId surveyor.received m := by
  cases h.outcome hshape now with
  | nothing hx hrec hlog _ =>
    simp only [hx] at hr
    cases hr
    exact ⟨h.received hrec (hlog.trans (List.append_nil _).symm) rfl rfl rfl, rfl, rfl,
      fun m hm => absurd hm (by simp)⟩
  | @response x a b p hx hrec hlog ha hb =>
    simp only [hx] at hr
    cases hr
    have hmore : a.more = true := by
      simp only [Msg.isId, Bool.and_eq_true] at ha
      exact ha.1.1
    have hl : Frames Msg.more false ([(a, p), (b, p)].map Prod.fst) := by
      simp [Frames, hb]
    refine ⟨h.received hrec hlog hl rfl rfl, rfl, rfl, fun m hm => ?_⟩
    obtain rfl : b = m := by simpa using hm
    exact ⟨_, a, p, hlog, h.frames, ha, hb⟩
  | dropped hx hrec hlog hl _ =>
    simp only [hx] at hr
    cases hr
    exact ⟨h.received hrec hlog hl rfl rfl, rfl, rfl, fun m hm => absurd hm (by simp)⟩
  | failed hx _ =>
    rw [hx] at hr
    cases hr

theorem Inv.xrecv (h : s.Inv) (hk : s.Reading → Shaped s.surveyor.surveyId s.parts)
    (hr : s.surveyor.xrecv s.ends now = .ok (r, surveyor, ends)) :
    Inv ⟨surveyor, ends⟩ ∧ (surveyor.prefetched = none ∨ surveyor = s.surveyor) ∧
      ∀ m, r = .ok m → Response s.surveyor.surveyId surveyor.received m ∨
        s.surveyor.prefetched = some m ∧ surveyor.received = s.surveyor.received := by
  rcases s.reading_cases with hread | hno | ⟨hyes, m, hm⟩
  · rw [hread.xrecv] at hr
    obtain ⟨hinv, -, hpre, hresp⟩ := h.recvResponse (hk hread) hr
    exact ⟨hinv, Or.inl (hpre.trans hread.2), fun m hm => Or.inl (hresp m hm)⟩
  · simp only [Surveyor.xrecv, hno, Bool.not_false, if_true] at hr
    cases hr
    exact ⟨h, Or.inr rfl, fun m hm => absurd hm (by simp)⟩
  · simp only [Surveyor.xrecv, hyes, hm, Bool.not_true, Bool.false_eq_true, if_false,
      Except.ok.injEq, Prod.mk.injEq] at hr
    obtain ⟨rfl, rfl, rfl⟩ := hr
    refine ⟨h.congr rfl rfl, Or.inl rfl, fun m' hm' => Or.inr ⟨?_, rfl⟩⟩
    rw [hm, ← Except.ok.inj hm']

theorem Inv.xhasIn (h : s.Inv) (hk : s.Reading → Shaped s.surveyor.surveyId s.parts) {r : Bool}
    (hr : s.surveyor.xhasIn s.ends now = .ok (r, surveyor, ends)) :
    Inv ⟨surveyor, ends⟩ ∧ (surveyor = s.surveyor ∨
      ∀ m ∈ surveyor.prefetched, Response surveyor.surveyId surveyor.received m) := by
  rcases s.reading_cases with hread | hno | ⟨hyes, m, hm⟩
  · simp only [Surveyor.xhasIn, hread.1, hread.2, Bool.not_true, Bool.false_eq_true, if_false,
      hread.xrecv] at hr
    cases hx : s.surveyor.recvResponse s.ends now with
    | error err => simp [hx] at hr
    | ok w =>
      obtain ⟨r', surveyor', ends'⟩ := w
      obtain ⟨hinv, hid, hpre, hresp⟩ := h.recvResponse (hk hread) hx
      cases r' with
      | error err =>
        cases err <;> simp only [hx, Except.ok.injEq, Prod.mk.injEq, reduceCtorEq] at hr
        obtain ⟨-, rfl, rfl⟩ := hr
        refine ⟨hinv, Or.inr fun m hm => ?_⟩
        rw [hpre, hread.2] at hm
        cases hm
      | ok b =>
        simp only [hx] at hr
        cases hr
        refine ⟨hinv.congr rfl rfl, Or.inr fun m hm => ?_⟩
        obtain rfl : b = m := by simpa using hm
        simp only [hid]
        exact hresp b rfl
  · simp only [Surveyor.xhasIn, hno, Bool.not_false, if_true] at hr
    cases hr
    exact ⟨h, Or.inl rfl⟩
  · simp only [Surveyor.xhasIn, hyes, hm, Bool.not_true, Bool.false_eq_true, if_false,
      Except.ok.injEq, Prod.mk.injEq] at hr
    obtain ⟨-, rfl, rfl⟩ := hr
    exact ⟨h, Or.inl rfl⟩

theorem step_current (h : s.Inv ∧ s.Current) (hk : s.Keeps op)
    (hs : s.step op = .ok s') : s'.Inv ∧ s'.Current := by
  obtain ⟨h, hcur⟩ := h
  cases op with
  | event ev =>
    simp only [step] at hs
    split at hs
    · cases hs
    next surveyor ends hev =>
      cases hs
      obtain ⟨hinv, hbase, hlog⟩ := h.event hk hev
      refine ⟨hinv, fun m hm => ?_⟩
      simp only [hlog]
      rw [hbase] at hm ⊢
      exact hcur m hm
  | setTimeout t =>
    rw [step, Except.ok.injEq] at hs
    subst hs
    exact ⟨h.congr rfl rfl, hcur⟩
  | xsend msg sndmore now =>
    obtain ⟨r, surveyor, ends, hx, hinv, hlog, hpre, hsame⟩ := h.xsend msg sndmore now
    simp only [step, hx] at hs
    cases hs
    refine ⟨hinv, fun m hm => ?_⟩
    cases hmore : sndmore || msg.more with
    | true =>
      simp only [hsame hmore] at hm ⊢
      exact hcur m hm
    | false =>
      rw [hpre, hk hmore] at hm
      cases hm
  | xrecv now =>
    simp only [step] at hs
    split at hs
    · cases hs
    next hx =>
      cases hs
      obtain ⟨hinv, hpre, -⟩ := h.xrecv hk hx
      refine ⟨hinv, fun m hm => ?_⟩
      rcases hpre with hnone | rfl
      · rw [hnone] at hm
        cases hm
      · exact hcur m hm
  | xhasIn now =>
    simp only [step] at hs
    split at hs
    · cases hs
    next hx =>
      cases hs
      obtain ⟨hinv, rfl | hresp⟩ := h.xhasIn hk hx
      · exact ⟨hinv, hcur⟩
      · exact ⟨hinv, hresp⟩

/-- **Responses belong to the latest survey.** -/
theorem responses_current (surveyTimeout : Int) (surveyId : UInt32) (ops : List (SurveyorOp α))
    (s : SurveyorSystem α)
    (hmeets : RunMeets step Keeps (init surveyTimeout surveyId) ops)
    (hrun : run step (init surveyTimeout surveyId) ops = .ok s) (now : Nat)
    (hk : s.Keeps (.xrecv now)) (m : Msg) (surveyor : Surveyor α) (ends : Ends α)
    (hrecv : s.surveyor.xrecv s.ends now = .ok (.ok m, surveyor, ends)) :
    Response s.surveyor.surveyId surveyor.received m := by
  have h : s.Inv ∧ s.Current := run_invariant (fun _ _ _ hI hk hs => step_current hI hk hs) ops _ s
    ⟨inv_init surveyTimeout surveyId, fun m hm => absurd hm (by simp [init, Surveyor.init])⟩
    hmeets hrun
  rcases (h.1.xrecv hk hrecv).2.2 m rfl with hresp | ⟨hpre, hlog⟩
  · exact hresp
  · rw [hlog]
    exact h.2 m hpre

def peerSends (p : Nat) (parts : List Msg) : List (SurveyorOp Nat) :=
  parts.map (fun m => .event (.peerWrite p m)) ++ [.event (.peerFlush p)]

def body (data : List UInt8) : Msg := ⟨false, 0, data⟩

def surveying : List (SurveyorOp Nat) :=
  [.event (.attach 0 (.init 0 0 true)), .xsend (body [1]) false 100]

def lateResponse : List (SurveyorOp Nat) :=
  surveying ++ peerSends 0 [Msg.idPart 7, body [3]] ++ peerSends 0 [Msg.idPart 8, body [4]] ++
    [.xhasIn 100, .xhasIn 101]

set_option maxRecDepth 8000 in
theorem lateResponse_current :
    RunMeets step Keeps (init 0 7) lateResponse ∧
      ∃ s surveyor ends, run step (init 0 7) lateResponse = .ok s ∧
        s.surveyor.xrecv s.ends 102 = .ok (.ok (body [4]), surveyor, ends) ∧
        Response 8 surveyor.received (body [4]) := by
  have hmeets : RunMeets step Keeps (init 0 7) lateResponse := by decide
  obtain ⟨s, hs⟩ : ∃ s, run step (init 0 7) lateResponse = .ok s := ⟨_, rfl⟩
  have hfacts : (run step (init 0 7) lateResponse).map
      (fun s => (s.surveyor.surveyId, decide (s.Keeps (.xrecv 102)),
        (s.surveyor.xrecv s.ends 102).map Prod.fst)) = .ok (8, true, .ok (.ok (body [4]))) := by
    decide
  rw [hs] at hfacts
  simp only [Except.map, Except.ok.injEq, Prod.mk.injEq, decide_eq_true_eq] at hfacts
  obtain ⟨hid, hk, hx⟩ := hfacts
  cases hr : s.surveyor.xrecv s.ends 102 with
  | error err => simp [hr] at hx
  | ok w =>
    obtain ⟨r, surveyor, ends⟩ := w
    obtain rfl : r = .ok (body [4]) := by simpa [hr] using hx
    refine ⟨hmeets, s, surveyor, ends, hs, hr, ?_⟩
    rw [← hid]
    exact responses_current 0 7 lateResponse s hmeets hs 102 hk _ surveyor ends hr

def pollThenSend : List (SurveyorOp Nat) :=
  surveying ++ peerSends 0 [Msg.idPart 8, body [4]] ++ [.xhasIn 100, .xsend (body [2]) false 101]

def longResponse : List (SurveyorOp Nat) :=
  surveying ++ peerSends 0 [Msg.idPart 8, { body [4] with flags := Msg.moreFlag }, body [5]]

omit [DecidableEq α] in
theorem Response.head {id : UInt32} {log : List (Msg × α)} {m : Msg} (h : Response id log m) :
    m.more = false ∧ (log.reverse[1]?).map (fun a => a.1.isId id) = some true := by
  obtain ⟨before, a, p, rfl, -, ha, hm⟩ := h
  exact ⟨hm, by simp [ha]⟩

set_option maxRecDepth 8000 in
theorem pollThenSend_returns_old :
    (∃ s surveyor ends, run step (init 0 7) pollThenSend = .ok s ∧
        s.surveyor.surveyId = 9 ∧
        s.surveyor.xrecv s.ends 102 = .ok (.ok (body [4]), surveyor, ends) ∧
        surveyor.received = [(Msg.idPart 8, 0), (body [4], 0)] ∧
        ¬ Response 9 surveyor.received (body [4])) ∧
      ∃ s m surveyor ends, run step (init 0 7) longResponse = .ok s ∧
        s.surveyor.xrecv s.ends 102 = .ok (.ok m, surveyor, ends) ∧ m.more = true ∧
        ¬ Response 8 surveyor.received m := by
  exact ⟨⟨_, _, _, rfl, rfl, rfl, rfl, fun h => absurd h.head.2 (by decide)⟩,
    ⟨_, _, _, _, rfl, rfl, rfl, fun h => absurd h.head.1 (by decide)⟩⟩

/-! ### No assertion fails -/

def Consumes (s s' : SurveyorSystem α) : Prop :=
  ∃ l, s'.surveyor.received = s.surveyor.received ++ l ∧
    (l = [] ∨ ∃ m p, Whole Msg.more m ∧ l = m.map (·, p))

def Endures (s : SurveyorSystem α) : SurveyorOp α → Prop
  | .event ev => ev.Conforms Grammar.any s.surveyor.fq s.ends
  | .xrecv _ => s.Reading → Shaped s.surveyor.surveyId s.parts ∧ Wide s.parts
  | .xhasIn now => s.Reading → (Shaped s.surveyor.surveyId s.parts ∧ Wide s.parts) ∧
      (s.parts = [] → now < s.surveyor.timeout)
  | _ => True

instance (s : SurveyorSystem α) (op : SurveyorOp α) : Decidable (s.Endures op) := by
  unfold Endures; split <;> infer_instance

theorem Inv.reads (h : s.Inv) (hshape : Shaped s.surveyor.surveyId s.parts) (hwide : Wide s.parts)
    (now : Nat) : ∃ r surveyor ends,
      s.surveyor.recvResponse s.ends now = .ok (r, surveyor, ends) ∧ s.Consumes ⟨surveyor, ends⟩ ∧
      ∀ err, r = .error err → err = .eagain ∨ s.parts = [] ∧ s.surveyor.timeout ≤ now := by
  cases h.outcome hshape now with
  | nothing hx _ hlog hnil =>
    refine ⟨_, _, _, hx, ⟨[], hlog.trans (List.append_nil _).symm, Or.inl rfl⟩, fun err he => ?_⟩
    rw [Except.error.injEq] at he
    split at he
    next hlate => exact Or.inr ⟨hnil, hlate⟩
    · exact Or.inl he.symm
  | @response x a b p hx _ hlog ha hb =>
    refine ⟨_, _, _, hx, ⟨_, hlog, Or.inr ⟨[a, b], p, ?_, rfl⟩⟩, fun err he => absurd he (by simp)⟩
    simp only [Msg.isId, Bool.and_eq_true] at ha
    exact (whole_cons_more ha.1.1).2 ((whole_cons_last hb).2 rfl)
  | dropped hx _ hlog _ hone =>
    refine ⟨_, _, _, hx, ⟨_, hlog, Or.inr (hone hwide)⟩, fun err he => Or.inl ?_⟩
    simpa using he.symm
  | failed _ hnot => exact absurd hwide hnot

theorem Inv.xrecv_endures (h : s.Inv) (hk : s.Endures (.xrecv now)) :
    ∃ s', s.step (.xrecv now) = .ok s' ∧ s.Consumes s' := by
  have hsame : s.Consumes s := ⟨[], by simp, Or.inl rfl⟩
  rcases s.reading_cases with hread | hno | ⟨hyes, m, hm⟩
  · obtain ⟨r, surveyor, ends, hx, hcons, -⟩ := h.reads (hk hread).1 (hk hread).2 now
    exact ⟨⟨surveyor, ends⟩, by simp only [step, hread.xrecv, hx], hcons⟩
  · exact ⟨s, by simp [step, Surveyor.xrecv, hno], hsame⟩
  · exact ⟨⟨{ s.surveyor with prefetched := none }, s.ends⟩,
      by simp [step, Surveyor.xrecv, hyes, hm], hsame⟩

theorem Inv.xhasIn_endures (h : s.Inv) (hk : s.Endures (.xhasIn now)) :
    ∃ s', s.step (.xhasIn now) = .ok s' ∧ s.Consumes s' := by
  have hsame : s.Consumes s := ⟨[], by simp, Or.inl rfl⟩
  rcases s.reading_cases with hread | hno | ⟨hyes, m, hm⟩
  · obtain ⟨⟨hshape, hwide⟩, htime⟩ := hk hread
    obtain ⟨r, surveyor, ends, hx, hcons, herr⟩ := h.reads hshape hwide now
    simp only [step, Surveyor.xhasIn, hread.1, hread.2, Bool.not_true, Bool.false_eq_true, if_false,
      hread.xrecv, hx]
    cases r with
    | ok b => exact ⟨_, rfl, hcons⟩
    | error err =>
      have heagain : err = .eagain := (herr err rfl).resolve_right fun hc => by
        have := htime hc.1
        omega
      subst heagain
      exact ⟨_, rfl, hcons⟩
  · exact ⟨s, by simp [step, Surveyor.xhasIn, hno], hsame⟩
  · exact ⟨s, by simp [step, Surveyor.xhasIn, hyes, hm], hsame⟩

theorem Inv.step_endures (h : s.Inv) (hk : s.Endures op) (hs : s.step op = .ok s') : s'.Inv := by
  cases op with
  | event ev =>
    simp only [step] at hs
    split at hs
    · cases hs
    next hev =>
      cases hs
      exact (h.event hk hev).1
  | setTimeout t =>
    simp only [step] at hs
    cases hs
    exact h.congr rfl rfl
  | xsend msg sndmore now =>
    obtain ⟨r, surveyor, ends, hx, hinv, -⟩ := h.xsend msg sndmore now
    simp only [step, hx] at hs
    cases hs
    exact hinv
  | xrecv now =>
    simp only [step] at hs
    split at hs
    · cases hs
    next hx =>
      cases hs
      exact (h.xrecv (fun hr => (hk hr).1) hx).1
  | xhasIn now =>
    simp only [step] at hs
    split at hs
    · cases hs
    next hx =>
      cases hs
      exact (h.xhasIn (fun hr => (hk hr).1.1) hx).1

/-- **No message and no passage of time aborts a surveyor.** -/
theorem surveyor_endures (surveyTimeout : Int) (surveyId : UInt32) (ops : List (SurveyorOp α))
    (s : SurveyorSystem α)
    (hmeets : RunMeets step Endures (init surveyTimeout surveyId) ops)
    (hrun : run step (init surveyTimeout surveyId) ops = .ok s) :
    (∀ msg sndmore now, ∃ s', s.step (.xsend msg sndmore now) = .ok s' ∧
        s'.surveyor.received = s.surveyor.received) ∧
      (∀ now, s.Endures (.xrecv now) → ∃ s', s.step (.xrecv now) = .ok s' ∧ s.Consumes s') ∧
      ∀ now, s.Endures (.xhasIn now) → ∃ s', s.step (.xhasIn now) = .ok s' ∧ s.Consumes s' := by
  have h : s.Inv := run_invariant (fun _ _ _ hI hk hs => Inv.step_endures hI hk hs) ops _ s
    (inv_init surveyTimeout surveyId) hmeets hrun
  refine ⟨fun msg sndmore now => ?_, fun now hk => h.xrecv_endures hk, fun now hk => h.xhasIn_endures hk⟩
  obtain ⟨r, surveyor, ends, hx, -, hlog, -⟩ := h.xsend msg sndmore now
  exact ⟨⟨surveyor, ends⟩, by simp only [step, hx], hlog⟩

set_option maxRecDepth 8000 in
theorem lateResponse_endures :
    RunMeets step Endures (init 50 7) lateResponse ∧
      ∃ s s', run step (init 50 7) lateResponse = .ok s ∧
        s.step (.xhasIn 149) = .ok s' ∧ s.Consumes s' := by
  have hmeets : RunMeets step Endures (init 50 7) lateResponse := by decide
  obtain ⟨s, hs⟩ : ∃ s, run step (init 50 7) lateResponse = .ok s := ⟨_, rfl⟩
  have hk : (run step (init 50 7) lateResponse).map
      (fun s => decide (s.Endures (.xhasIn 149))) = .ok true := by
    decide
  rw [hs] at hk
  simp only [Except.map, Except.ok.injEq, decide_eq_true_eq] at hk
  obtain ⟨s', hstep, hcons⟩ := (surveyor_endures 50 7 lateResponse s hmeets hs).2.2 149 hk
  exact ⟨hmeets, s, s', hs, hstep, hcons⟩

def lonePart : List (SurveyorOp Nat) := surveying ++ peerSends 0 [body [3]]

set_option maxRecDepth 8000 in
theorem surveyor_aborts :
    (∃ s, run step (init 0 7) lonePart = .ok s ∧
        s.surveyor.xrecv s.ends 100 = .error .assertFailed) ∧
      (∃ s surveyor ends,
        run step (init 0 7) (lonePart ++ peerSends 0 [Msg.idPart 8, body [4]]) = .ok s ∧
        s.surveyor.xrecv s.ends 100 = .ok (.error .eagain, surveyor, ends) ∧
        surveyor.received = [(body [3], 0), (Msg.idPart 8, 0), (body [4], 0)]) ∧
      (∃ s, run step (init 50 7) surveying = .ok s ∧
        (s.surveyor.xhasIn s.ends 149).map Prod.fst = .ok false ∧
        s.surveyor.xhasIn s.ends 150 = .error .assertFailed) ∧
      ∃ s, run step (init (-1) 7) surveying = .ok s ∧
        s.surveyor.xhasIn s.ends 100 = .error .assertFailed := by
  exact ⟨⟨_, rfl, rfl⟩, ⟨_, _, _, rfl, rfl, rfl⟩, ⟨_, rfl, rfl, rfl⟩, ⟨_, rfl, rfl⟩⟩

end SurveyorSystem

end Libxs
