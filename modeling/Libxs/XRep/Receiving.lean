import Libxs.Router.Live
import Libxs.XRep.Routing

/-! # What `xrep_t` receives -/

namespace Libxs

variable {α Q : Type} [DecidableEq α] {G : Grammar Q} {q q' : Q}

namespace XRep

open Router (Live)

variable {s t u : XRep α} {ends ends' : Ends α} {p : α}

structure Announces (G : Grammar Q) : Prop where
  alone : ∀ {q q' : Q} {m : Msg}, G.next q m = some q' → m.isIdentity = true →
    q = G.start ∧ m.more = false
  mid : ∀ {q q' : Q} {m : Msg}, G.next q m = some q' → m.more = true → q' ≠ G.start

def Announceable (G : Grammar Q) (k : List UInt8) : Prop :=
  ∃ m q, G.next G.start m = some q ∧ m.isIdentity = true ∧ m.size ≠ 0 ∧ m.data = k

def Quiet (s : XRep α) (ends : Ends α) : Prop :=
  ∀ p ∈ s.fq.pipes.items, (ends p).Stalled →
    ∀ m ∈ (ends p).inq.queue, m.isIdentity = true → m.size = 0
deriving Decidable

structure Renamed (G : Grammar Q) (s t : XRep α) : Prop where
  eq : t = { s with fq := t.fq, outpipes := t.outpipes, identity := t.identity }
  keys : ∀ k, t.pipeAt k ≠ none → s.pipeAt k ≠ none ∨ Announceable G k

omit [DecidableEq α] in
theorem Renamed.refl (s : XRep α) : Renamed G s s := ⟨rfl, fun _ h => Or.inl h⟩

omit [DecidableEq α] in
theorem Renamed.trans (h : Renamed G s t) (h' : Renamed G t u) : Renamed G s u :=
  ⟨by rw [h'.eq, h.eq], fun k hk => (h'.keys k hk).elim (h.keys k) Or.inr⟩

omit [DecidableEq α] in
theorem renamed_read (s : XRep α) (fq : Fq α) : Renamed G s { s with fq := fq } :=
  ⟨rfl, fun _ h => Or.inl h⟩

/-! ## One identity -/

omit [DecidableEq α] in
theorem quiet_of_sameOutbound (h : s.Quiet ends) (hatt : ∀ x, t.fq.attached x → s.fq.attached x)
    (hout : ∀ x, (ends x).SameOutbound (ends' x))
    (hqueue : ∀ x, (ends' x).inq.queue ⊆ (ends x).inq.queue) : t.Quiet ends' :=
  fun x hx hs m hm => h x (hatt x hx) ((hout x).stalled hs) m (hqueue x hm)

theorem live_recvpipe (h : Live id s ends) {fq : Fq α} {r : Option (Msg × α)}
    (hr : s.fq.recvpipe ends = .ok (r, fq, ends')) : Live id ({ s with fq := fq } : XRep α) ends' := by
  obtain ⟨-, hatt, hreads, -⟩ := Fq.recvLoop_reads _ h.table.wf hr
  have hout : ∀ x, (ends x).SameOutbound (ends' x) := fun x => Endpoint.sameOutbound_reads (hreads x)
  refine ⟨h.toSending.receives (.read h.table hr), fun x hx => ?_, fun x => ?_, fun k out hk hs => ?_⟩
  · exact (hout x).sound (h.sound x ((hatt x).1 hx))
  · rw [Endpoint.reads_outq (hreads x)]
    exact h.good x
  · exact h.stalled k out hk ((hout _).stalled hs)

theorem quiet_recvpipe (h : Live id s ends) (hq : s.Quiet ends) {fq : Fq α}
    {r : Option (Msg × α)} (hr : s.fq.recvpipe ends = .ok (r, fq, ends')) :
    Quiet ({ s with fq := fq } : XRep α) ends' := by
  obtain ⟨-, hatt, hreads, -⟩ := Fq.recvLoop_reads _ h.table.wf hr
  exact quiet_of_sameOutbound hq (fun x hx => (hatt x).1 hx)
    (fun x => Endpoint.sameOutbound_reads (hreads x)) fun x => Endpoint.reads_queue (hreads x)

theorem exists_processIdentity (h : Live id s ends) (hp : s.fq.attached p)
    (hidle : s.moreIn = false) (hreads : (ends p).pipe.reads = true) (msg : Msg) :
    ∃ t ends', s.processIdentity ends p msg = .ok (t, ends') := by
  unfold processIdentity
  rw [if_neg (by simp [hidle])]
  split
  · exact ⟨_, _, rfl⟩
  · split
    · obtain ⟨e, he⟩ := Endpoint.exists_terminate (h.sound p hp) (h.good p) hreads
      exact ⟨_, _, by simp only [he]; rfl⟩
    next hfree =>
      obtain ⟨k, hk⟩ := (h.table.attached p).1 hp
      obtain ⟨out, hx, hlook⟩ := h.table.entryOf hk
      -- the new key is free, and stays so when the old one is given up
      have hfree' : msg.data ∉ s.outpipes.erase k := fun hc => hfree (AList.mem_erase.1 hc).2
      obtain ⟨t, ht⟩ : ∃ t, s.changeIdentity p msg.data = .ok t :=
        ⟨_, by simp only [changeIdentity, hx, Router.register, hfree', if_false]; rfl⟩
      exact ⟨_, _, by simp only [ht]; rfl⟩

variable {msg : Msg}

theorem Identified.live (h : Live id s ends) (hst : (ends p).Stalled → msg.size = 0)
    (hi : Identified s ends p msg t ends') : Live id t ends' := by
  have hreceives := hi.receives h.table
  have hsending := h.toSending.receives hreceives
  cases hi with
  | anonymous _ => exact h
  | taken _ he =>
    have hout := hreceives.outbound
    exact ⟨hsending, fun x hx => (hout x).sound (h.sound x hx),
      outq_good_update h.good (Endpoint.terminate_good (h.good p) he),
      fun k out hk hs => h.stalled k out hk ((hout _).stalled hs)⟩
  | @changed k hsize _ hpk =>
    refine ⟨hsending, h.sound, h.good, fun k₁ out₁ hk₁ hs => ?_⟩
    by_cases hkk : k₁ = msg.data
    · grind [AList.lookup_insert]
    · grind [AList.lookup_insert_ne, AList.lookup_erase, AList.lookup_erase_ne, h.stalled]

theorem Identified.inbound (hi : Identified s ends p msg t ends') :
    t.fq = s.fq ∧ ∃ e, ends' = Function.update ends p e ∧ e.inq = (ends p).inq ∧
      e.pipe.inActive = (ends p).pipe.inActive := by
  cases hi with
  | anonymous _ => grind
  | @taken e _ he =>
    obtain ⟨hclosed, hinq⟩ := Endpoint.staysClosed_terminate he
    exact ⟨rfl, e, rfl, hinq, hclosed.inActive⟩
  | changed _ _ _ => grind

theorem Identified.quiet (h : s.Table id) (hq : s.Quiet ends)
    (hi : Identified s ends p msg t ends') : t.Quiet ends' := by
  have hout := (hi.receives h).outbound
  obtain ⟨hfq, e, rfl, hinq, -⟩ := hi.inbound
  refine quiet_of_sameOutbound hq (fun x hx => hfq ▸ hx) hout fun x => ?_
  grind

theorem Identified.renamed (hann : msg.size ≠ 0 → Announceable G msg.data)
    (hi : Identified s ends p msg t ends') : Renamed G s t := by
  cases hi with
  | anonymous _ => exact .refl s
  | taken _ _ => exact .refl s
  | changed hsize _ _ =>
    refine ⟨rfl, fun k hk => ?_⟩
    grind [Router.pipeAt_eq_none, AList.mem_insert, AList.mem_erase]

/-! ## Up to the next part -/

structure Receptive (s : XRep α) (ends : Ends α) : Prop where
  continues : s.fq.Continues ends
  quiet : s.Quiet ends

instance (s : XRep α) (ends : Ends α) : Decidable (s.Receptive ends) :=
  decidable_of_iff (s.fq.Continues ends ∧ s.Quiet ends)
    ⟨fun h => ⟨h.1, h.2⟩, fun h => ⟨h.continues, h.quiet⟩⟩

structure Took (G : Grammar Q) (q : Q) (s : XRep α) (ends : Ends α) (pipe : α) (msg : Msg) (q' : Q)
    (t : XRep α) (ends' : Ends α) : Prop where
  attached : t.fq.attached pipe
  plain : msg.isIdentity = false
  place : G.next q msg = some q'
  more : t.fq.more = msg.more
  source : s.fq.more = true → s.fq.pipes.get s.fq.current = some pipe
  current : msg.more = true → t.fq.pipes.get t.fq.current = some pipe
  less : t.fq.backlog ends' < s.fq.backlog ends

theorem intake_identified (hG : Announces G) {fq : Fq α} {q₁ : Q}
    (hmid : s.fq.more = true → q ≠ G.start) (hid : msg.isIdentity = true)
    (hrec : Fq.Received G q s.fq ends (some (msg, p)) q₁ fq ends')
    (hintake : fq.Intake G q₁ ends') {ends'' : Ends α}
    (hi : Identified ({ s with fq := fq } : XRep α) ends' p msg t ends'') :
    Renamed G s t ∧ q₁ = q ∧ s.fq.more = false ∧ t.fq.more = false ∧ t.fq.Intake G q ends'' ∧
      t.fq.backlog ends'' < s.fq.backlog ends := by
  have hplace : G.next q msg = some q₁ := hrec.place
  obtain ⟨rfl, hlast⟩ := hG.alone hplace hid
  obtain ⟨-, hmore, -, -, hless⟩ := hrec.part msg p rfl
  rw [hlast] at hmore
  obtain rfl : q₁ = G.start := G.closes hplace hlast
  have hidle : s.fq.more = false := by
    by_contra hc
    exact hmid (by simpa using hc) rfl
  have hren := hi.renamed (G := G) fun hsize => ⟨msg, _, hplace, hid, hsize, rfl⟩
  obtain ⟨hfq, e, rfl, hinq, hin⟩ := hi.inbound
  have hfq : t.fq = fq := hfq
  have hback : fq.backlog (Function.update ends' p e) ≤ fq.backlog ends' :=
    Fq.backlog_le fun x => Fq.ready_length_update (by rw [hinq]) x
  rw [hfq]
  exact ⟨(renamed_read s fq).trans hren, rfl, hidle, hmore,
    hintake.setOutbound hinq hin, by omega⟩

theorem recvLoop_ok (hG : Announces G) : ∀ (fuel : Nat) {s t : XRep α} {ends ends' : Ends α} {q : Q}
    {r : Option Msg}, s.fq.Intake G q ends → (s.fq.more = true → q ≠ G.start) →
    recvLoop fuel s ends = .ok (r, t, ends') →
    ∃ (u : XRep α) (q' : Q), u.fq.Intake G q' ends' ∧ Renamed G s u ∧
      ((r = none ∧ t = u ∧ s.fq.more = false ∧ u.fq.more = false ∧ u.fq.active = 0 ∧ q' = q) ∨
        ∃ p msg, r = some (u.deliver p msg).1 ∧ t = (u.deliver p msg).2.note [.received p msg] ∧
          Took G q s ends p msg q' u ends') := by
  intro fuel
  induction fuel with
  | zero => exact fun _ _ hr => absurd hr (by simp [recvLoop])
  | succ fuel ih =>
    intro s t ends ends' q r hintake hmid hr
    simp only [recvLoop] at hr
    split at hr
    · cases hr
    next fq ends₁ hrun =>
      cases hr
      obtain ⟨q₁, hrec⟩ := hintake.received hrun
      obtain ⟨hidle, hidle', hact, -⟩ := hrec.nothing rfl
      refine ⟨{ s with fq := fq }, q₁, (hrec.intake hintake.place).1, renamed_read s fq,
        Or.inl ⟨rfl, rfl, hidle, hidle', hact, ?_⟩⟩
      simpa [Grammar.step] using hrec.place.symm
    next msg p fq ends₁ hrun =>
      obtain ⟨q₁, hrec⟩ := hintake.received hrun
      obtain ⟨hintake₁, -⟩ := hrec.intake hintake.place
      obtain ⟨hatt, hmore₁, hsource, hcur, hless⟩ := hrec.part msg p rfl
      split at hr
      next hid =>
        split at hr
        · cases hr
        next s₂ ends₂ hproc =>
          obtain ⟨hren, rfl, hidle, hidle₂, hintake₂, hless₂⟩ := intake_identified hG hmid hid
            hrec hintake₁ (processIdentity_identified hproc)
          obtain ⟨u, q', hintake', hren', hres⟩ := ih hintake₂
            (fun hm => absurd (hidle₂.symm.trans hm) (by simp)) hr
          refine ⟨u, q', hintake', hren.trans hren', ?_⟩
          rcases hres with ⟨hnone, ht, -, hrest⟩ | ⟨p', msg', hsome, ht, htook⟩
          · exact Or.inl ⟨hnone, ht, hidle, hrest⟩
          · exact Or.inr ⟨p', msg', hsome, ht, { htook with
              source := fun hm => absurd (hidle.symm.trans hm) (by simp)
              less := htook.less.trans hless₂ }⟩
      next hid =>
        cases hr
        exact ⟨{ s with fq := fq }, q₁, hintake₁, renamed_read s fq, Or.inr ⟨p, msg, rfl, rfl,
          (hrec.attached p).2 hatt, by simpa using hid, hrec.place, hmore₁, hsource,
          fun hm => (hcur hm).2.1, hless⟩⟩

theorem exists_recvLoop (hG : Announces G) : ∀ (fuel : Nat) {s : XRep α} {ends : Ends α} {q : Q},
    Live id s ends → s.fq.Intake G q ends → (s.fq.more = true → q ≠ G.start) →
    s.fq.Continues ends → (s.fq.more = false → s.Quiet ends) → s.moreIn = s.fq.more →
    s.fq.backlog ends < fuel →
    ∃ (r : Option Msg) (t : XRep α) (ends' : Ends α), recvLoop fuel s ends = .ok (r, t, ends') ∧
      Live id t ends' ∧ t.fq.Continues ends' := by
  intro fuel
  induction fuel with
  | zero => exact fun _ _ _ _ _ _ hf => absurd hf (by omega)
  | succ fuel ih =>
    intro s ends q hlive hintake hmid hcont hquiet hmore hfuel
    obtain ⟨r, q₁, fq₁, ends₁, hrun, hrec⟩ := hintake.recvpipe hcont
    obtain ⟨hintake₁, hcont₁⟩ := hrec.intake hintake.place
    have hlive₁ := live_recvpipe hlive hrun
    simp only [recvLoop, hrun]
    cases r with
    | none => grind
    | some r =>
      obtain ⟨msg, p⟩ := r
      cases hid : msg.isIdentity with
      | false =>
        obtain ⟨hfq, hout, hident, hcur, hmoreOut, -⟩ :=
          Router.deliver_fields ({ s with fq := fq₁ } : XRep α) p msg
        refine ⟨_, (Router.deliver ({ s with fq := fq₁ } : XRep α) p msg).2.note [.received p msg],
          ends₁, by simp only [hid, Bool.false_eq_true, if_false]; rfl,
          hlive₁.congr hfq hout hident hcur hmoreOut, fun hm x hx => ?_⟩
        simp only [Router.note, hfq] at hm hx
        exact hcont₁ hm x hx
      | true =>
        -- an identity is a message of its own, so that no pipe with one waits for its peer
        have hidle : s.fq.more = false := by
          by_contra hc
          exact hmid (by simpa using hc) (hG.alone hrec.place hid).1
        have hquiet := hquiet hidle
        have hquiet₁ := quiet_recvpipe hlive hquiet hrun
        obtain ⟨hatt, -⟩ := hrec.part msg p rfl
        obtain ⟨-, -, -, hpart⟩ := Fq.recvLoop_reads _ hlive.table.wf hrun
        obtain ⟨-, e, hreads, hread⟩ := hpart msg p rfl
        have hcan : (ends₁ p).canRead = true := by
          rcases e.read_cases with ⟨_, _, hr, -, hc, -⟩ | ⟨_, hr, -⟩ <;> rw [hread] at hr
          · cases hr
            exact hc
          · cases hr
        have hst : (ends₁ p).Stalled → msg.size = 0 := fun hs => by
          have hs₀ := (hrec.sameOutbound p).stalled hs
          exact hquiet p hatt hs₀ msg
            (Endpoint.reads_queue hreads ((Endpoint.read_queue hread).2 msg rfl)) hid
        simp only [Endpoint.canRead, Bool.and_eq_true] at hcan
        obtain ⟨t, ends₂, hproc⟩ := exists_processIdentity hlive₁
          ((hrec.attached p).2 hatt) (hmore.trans hidle) hcan.2 msg
        have hi := processIdentity_identified hproc
        obtain ⟨hren, rfl, -, hidle₂, hintake₂, hless₂⟩ := intake_identified hG hmid hid hrec
          hintake₁ hi
        simp only [hid, hproc, if_true]
        refine ih (hi.live hlive₁ hst) hintake₂
          (fun hm => absurd (hidle₂.symm.trans hm) (by simp))
          (fun hm => absurd (hidle₂.symm.trans hm) (by simp))
          (fun _ => hi.quiet hlive₁.table hquiet₁) ?_ (by omega)
        rw [hidle₂, hren.eq]
        exact hmore.trans hidle

structure Placed (G : Grammar Q) (q : Q) (s : XRep α) (ends : Ends α) : Prop where
  intake : s.fq.Intake G q ends
  mid : s.fq.more = true → q ≠ G.start
  more : s.prefetched = .nothing → s.moreIn = s.fq.more
  ahead : s.prefetched ≠ .nothing → s.moreIn = false ∧ s.prefetchedMsg.more = s.fq.more

inductive Gets (G : Grammar Q) (q : Q) (s : XRep α) (ends : Ends α) :
    Option Msg → Q → XRep α → Ends α → Prop where
  | prefetchedId : s.prefetched = .idAndBody →
      Gets G q s ends (some (Router.idPart s.prefetchedId)) q { s with prefetched := .body } ends
  | prefetchedBody : s.prefetched = .body →
      Gets G q s ends (some s.prefetchedMsg) q
        { s with prefetchedMsg := Msg.init, moreIn := s.prefetchedMsg.more, prefetched := .nothing }
        ends
  | nothing {u : XRep α} {ends' : Ends α} : s.prefetched = .nothing → s.moreIn = false →
      Renamed G s u → u.fq.more = false → u.fq.active = 0 → Gets G q s ends none q u ends'
  | first {u : XRep α} {ends' : Ends α} {p : α} {msg : Msg} {q' : Q} : s.prefetched = .nothing →
      s.moreIn = false → Renamed G s u → Took G q s ends p msg q' u ends' →
      Gets G q s ends (some (Router.idPart (u.identity p))) q'
        (({ u with prefetchedMsg := msg, prefetched := .body } : XRep α).note [.received p msg]) ends'
  | next {u : XRep α} {ends' : Ends α} {p : α} {msg : Msg} {q' : Q} : s.prefetched = .nothing →
      s.moreIn = true → Renamed G s u → Took G q s ends p msg q' u ends' →
      Gets G q s ends (some msg) q'
        (({ u with moreIn := msg.more } : XRep α).note [.received p msg]) ends'

theorem Placed.xrecv (hG : Announces G) (h : Placed G q s ends) {r : Option Msg}
    (hr : s.xrecv ends = .ok (r, t, ends')) :
    ∃ q', Gets G q s ends r q' t ends' ∧ Placed G q' t ends' := by
  unfold XRep.xrecv Router.takePrefetched at hr
  cases hpre : s.prefetched with
  | idAndBody =>
    have hahead := h.ahead (by simp [hpre])
    simp only [hpre] at hr
    cases hr
    exact ⟨q, .prefetchedId hpre, h.intake, h.mid, fun hc => absurd hc (by simp), fun _ => hahead⟩
  | body =>
    have hahead := h.ahead (by simp [hpre])
    simp only [hpre] at hr
    cases hr
    exact ⟨q, .prefetchedBody hpre, h.intake, h.mid, fun _ => hahead.2, fun hc => absurd rfl hc⟩
  | nothing =>
    have hmore := h.more hpre
    simp only [hpre] at hr
    obtain ⟨u, q', hintake, hren, hres⟩ := recvLoop_ok hG _ h.intake h.mid hr
    have hupre : u.prefetched = .nothing := by
      rw [hren.eq]
      exact hpre
    have humore : u.moreIn = s.moreIn := by rw [hren.eq]
    rcases hres with ⟨rfl, rfl, hidle, hidle', hact, rfl⟩ | ⟨p, msg, rfl, rfl, htook⟩
    · refine ⟨q', .nothing hpre (hmore.trans hidle) hren hidle' hact, hintake,
        fun hc => absurd (hidle'.symm.trans hc) (by simp), fun _ => ?_, fun hc => absurd hupre hc⟩
      rw [humore, hmore, hidle, hidle']
    · have hmid : u.fq.more = true → q' ≠ G.start := fun hm =>
        hG.mid htook.place (htook.more ▸ hm)
      cases hm : s.moreIn with
      | true =>
        have hdel : u.deliver p msg = (msg, { u with moreIn := msg.more }) := by
          simp [Router.deliver, humore, hm]
        rw [hdel]
        exact ⟨q', .next hpre hm hren htook, hintake, hmid, fun _ => htook.more.symm,
          fun hc => absurd hupre hc⟩
      | false =>
        have hdel : u.deliver p msg = (Router.idPart (u.identity p),
            { u with prefetchedMsg := msg, prefetched := .body }) := by
          simp [Router.deliver, Router.deliverFirst, humore, hm]
        rw [hdel]
        exact ⟨q', .first hpre hm hren htook, hintake, hmid,
          fun hc => absurd hc (by simp [Router.note]),
          fun _ => ⟨humore.trans hm, htook.more.symm⟩⟩

theorem xhasIn_ok {r : Bool} (hr : s.xhasIn ends = .ok (r, t, ends')) :
    (t = s ∧ ends' = ends) ∨
      (s.prefetched = .nothing ∧ s.moreIn = false ∧ s.xrecv ends = .ok (none, t, ends')) ∨
      ∃ m u, s.prefetched = .nothing ∧ s.moreIn = false ∧ s.xrecv ends = .ok (some m, u, ends') ∧
        t = { u with prefetchedId := m.data, prefetched := .idAndBody } := by
  unfold xhasIn Router.xhasIn at hr
  split at hr
  · grind
  next hm =>
    rw [Bool.not_eq_true] at hm
    split at hr
    · grind
    next hpre => grind

theorem Placed.ahead_of_gets {m : Msg} (h : Placed G q' t ends') (hpre : s.prefetched = .nothing)
    (hm : s.moreIn = false) (hg : Gets G q s ends (some m) q' t ends') :
    Placed G q' { t with prefetchedId := m.data, prefetched := .idAndBody } ends' := by
  have hahead := h.ahead (by
    cases hg with
    | prefetchedId hc => exact absurd (hpre.symm.trans hc) (by simp)
    | prefetchedBody hc => exact absurd (hpre.symm.trans hc) (by simp)
    | first _ _ _ _ => simp [Router.note]
    | next _ hc _ _ => exact absurd (hm.symm.trans hc) (by simp))
  exact ⟨h.intake, h.mid, fun hc => absurd hc (by simp), fun _ => hahead⟩

structure Ready (G : Grammar Q) (q : Q) (s : XRep α) (ends : Ends α) : Prop
    extends Placed G q s ends where
  live : Live id s ends

theorem Ready.xrecv (hG : Announces G) (h : Ready G q s ends) (hc : s.fq.Continues ends)
    (hq : s.fq.more = false → s.Quiet ends) :
    ∃ (r : Option Msg) (q' : Q) (t : XRep α) (ends' : Ends α), s.xrecv ends = .ok (r, t, ends') ∧
      Gets G q s ends r q' t ends' ∧ Ready G q' t ends' ∧ t.fq.Continues ends' := by
  obtain ⟨r, t, ends', hx, hlive, hcont⟩ : ∃ (r : Option Msg) (t : XRep α) (ends' : Ends α),
      s.xrecv ends = .ok (r, t, ends') ∧ Live id t ends' ∧ t.fq.Continues ends' := by
    unfold XRep.xrecv Router.takePrefetched
    cases hpre : s.prefetched with
    | idAndBody => exact ⟨_, _, ends, rfl, h.live.congr rfl rfl rfl rfl rfl, hc⟩
    | body => exact ⟨_, _, ends, rfl, h.live.congr rfl rfl rfl rfl rfl, hc⟩
    | nothing => exact exists_recvLoop hG _ h.live h.intake h.mid hc hq (h.more hpre) (by omega)
  obtain ⟨q', hgets, hplaced⟩ := h.toPlaced.xrecv hG hx
  exact ⟨r, q', t, ends', hx, hgets, ⟨hplaced, hlive⟩, hcont⟩

theorem Ready.xhasIn (hG : Announces G) (h : Ready G q s ends) (ho : s.Receptive ends) :
    ∃ (r : Bool) (t : XRep α) (ends' : Ends α), s.xhasIn ends = .ok (r, t, ends') ∧
      Live id t ends' := by
  unfold XRep.xhasIn Router.xhasIn
  cases hm : s.moreIn with
  | true => exact ⟨true, s, ends, by simp, h.live⟩
  | false =>
    by_cases hpre : s.prefetched = .nothing
    · obtain ⟨r, q', t, ends', hx, -, hready, -⟩ := h.xrecv hG ho.continues fun _ => ho.quiet
      simp only [hpre, ne_eq, not_true_eq_false, if_false, Bool.false_eq_true, hx]
      cases r with
      | none => exact ⟨false, t, ends', rfl, hready.live⟩
      | some m => exact ⟨true, _, ends', rfl, hready.live.congr rfl rfl rfl rfl rfl⟩
    · exact ⟨true, s, ends, by simp [hpre], h.live⟩

end XRep

end Libxs
