import Libxs.Own.Invariant

/-! # The shutdown of a tree of objects -/

namespace Libxs

namespace OwnSystem

variable {α τ : Type} [LinearOrder α] {tid : α → τ} {s : OwnSystem α τ} {x : α}
variable {wire : List (Envelope α τ)} {o : Own α} {c : α}

/-! ## Steps of one object -/

theorem Inv.create (h : Inv tid s) (hx : s.life x = .unborn) :
    Inv tid { s with life := Function.update s.life x .alive } := by
  have hlife : ∀ c, Function.update s.life x .alive c = .destroyed ↔ s.life c = .destroyed := fun c => by
    grind
  refine { h with reports := fun c => ?_, acked := fun c hc => ?_, unborn := fun c hc => ?_,
                  destroyed := fun c hc => h.destroyed c ((hlife c).1 hc) }
  · simp only [hlife]
    exact h.reports c
  · exact (hlife c).2 (h.acked c hc)
  · grind [h.unborn]

theorem Inv.local (h : Inv tid s)
    {sent processed reserved events : α → Nat} (hx : s.life x ≠ .destroyed)
    (howner : o.owner = (s.objs x).owner) (howned : o.owned = (s.objs x).owned)
    (hterm : o.terminating = (s.objs x).terminating)
    (hbalance : o.termAcks - events x = (s.objs x).termAcks - s.events x)
    (hcounts : o.Counts (sent x) (processed x))
    (hothers : ∀ c, c ≠ x → sent c = s.sent c ∧ processed c = s.processed c ∧ events c = s.events c)
    (hterms : ∀ c, wire.countP (termTo c) = s.wire.countP (termTo c))
    (hreports : ∀ c, wire.filter (fromChild c) = s.wire.filter (fromChild c))
    (hseqs : ∀ c, sent c = processed c + reserved c + wire.countP (seqTo c)) :
    Inv tid { s with
      objs := Function.update s.objs x o, wire := wire, sent := sent, processed := processed,
      reserved := reserved, events := events } := by
  have howners := proj_kept Own.owner howner
  have howneds := proj_kept Own.owned howned
  have hterms' := proj_kept Own.terminating hterm
  refine ⟨?_, ?_, fun c => ?_, fun c => ?_, h.acked, fun c hc => ?_, fun c => ?_, hseqs, fun c hc => ?_⟩
  · simpa only [howners, howneds, hterms'] using h.asks
  · have : (fun y => (Function.update s.objs x o y).termAcks - (events y : Int)) =
        fun y => (s.objs y).termAcks - (s.events y : Int) := by
      funext y
      grind
    simp only [howners, this]
    exact h.awaits
  · simp only [howners, hterms', hterms]
    exact h.inFlight c
  · simp only [howners, hreports]
    exact h.reports c
  · simp only [howners, hterms']
    exact h.unborn c hc
  · grind [h.counts]
  · have hcx : c ≠ x := fun hcx => hx (hcx ▸ hc)
    simpa [hcx, (hothers c hcx).1, (hothers c hcx).2.1] using h.destroyed c hc

theorem Inv.announce (h : Inv tid s) (hx : s.life x ≠ .destroyed) :
    Inv tid { s.countSent x with reserved := Function.update s.reserved x (s.reserved x + 1) } := by
  unfold countSent
  refine h.local hx rfl rfl rfl rfl ?_ (fun c hc => by simp [hc]) (fun _ => rfl) (fun _ => rfl)
    fun c => ?_
  · simp only [Function.update_self]
    exact (h.counts x).incSeqnum
  · have := h.seqs c
    grind

theorem Inv.send (h : Inv tid s) (hx : 0 < s.reserved x) (source : τ) (kind : SeqCommand) :
    Inv tid { s with
      reserved := Function.update s.reserved x (s.reserved x - 1)
      wire := s.wire ++ [⟨source, x, .seq kind⟩] } := by
  have hlife : s.life x ≠ .destroyed := fun hd => by
    have := (h.unreachable hd).1
    omega
  have hlocal : Inv tid { s with
      objs := Function.update s.objs x (s.objs x)
      wire := s.wire ++ [⟨source, x, .seq kind⟩]
      reserved := Function.update s.reserved x (s.reserved x - 1) } :=
    h.local hlife rfl rfl rfl rfl (h.counts x)
    (fun _ _ => ⟨rfl, rfl, rfl⟩) (fun c => by simp [termTo, isTermTo]) (fun c => by simp [fromChild])
    fun c => by
      have := h.seqs c
      grind [seqTo]
  simpa using hlocal

theorem Inv.register (h : Inv tid s) (hx : s.life x ≠ .destroyed) (count : Nat) :
    Inv tid { s with
      objs := Function.update s.objs x ((s.objs x).registerTermAcks count)
      events := Function.update s.events x (s.events x + count) } :=
  h.local hx rfl rfl rfl (by simp only [Own.registerTermAcks, Function.update_self]; omega)
    ⟨(h.counts x).sent, (h.counts x).processed⟩ (fun c hc => by simp [hc]) (fun _ => rfl) (fun _ => rfl) h.seqs

theorem Inv.occurred (h : Inv tid s) (hx : s.life x ≠ .destroyed) (hpos : 0 < s.events x) :
    Inv tid { s with
      objs := Function.update s.objs x { s.objs x with termAcks := (s.objs x).termAcks - 1 }
      events := Function.update s.events x (s.events x - 1) } :=
  h.local hx rfl rfl rfl (by simp; omega) ⟨(h.counts x).sent, (h.counts x).processed⟩
    (fun c hc => by simp [hc]) (fun _ => rfl) (fun _ => rfl) h.seqs

theorem Inv.request (h : Inv tid s) (hx : s.life x ≠ .destroyed) {o : α}
    (ho : (s.objs x).owner = some o) :
    Inv tid { s with wire := s.wire ++ [⟨tid x, o, .termReq x⟩] } := by
  refine { h with inFlight := fun c => ?_, reports := fun c => ?_, seqs := fun c => ?_ }
  · simpa [termTo, isTermTo] using h.inFlight c
  · have hrep := h.reports c
    simp only [List.filter_append]
    by_cases hcx : c = x
    · subst hcx
      have hna : s.acked c ≠ true := fun hc => hx (h.acked c hc)
      simp only [Reports, ho, hx, false_and, if_false, List.append_nil] at hrep ⊢
      obtain ⟨n, -, heq⟩ := hrep
      refine ⟨n + 1, fun hc => absurd hc hna, ?_⟩
      rw [heq, List.replicate_succ']
      simp [fromChild]
    · simpa [fromChild, Ne.symm hcx] using hrep
  · simpa [seqTo] using h.seqs c

/-! ## Steps between objects -/

theorem Inv.countP_terms (h : Inv tid s) (linger : Int) (c : α) :
    ((s.objs x).owned.map fun c => (c, OwnCommand.term linger)).countP (isTermTo c) =
      if c ∈ (s.objs x).owned then 1 else 0 := by
  rw [List.countP_map, ← (h.asks.nodup x).count, List.count]
  congr 1

theorem Inv.beginTerm (h : Inv tid s) (hx : s.life x = .alive)
    (hterm : (s.objs x).terminating = false) (hasked : (s.objs x).owner ≠ none → s.terms x = 1)
    (hterms : ∀ c, s.wire.countP (termTo c) =
      wire.countP (termTo c) + if c = x ∧ (s.objs x).owner ≠ none then 1 else 0)
    (hreports : ∀ c, wire.filter (fromChild c) = s.wire.filter (fromChild c))
    (hseqs : ∀ c, wire.countP (seqTo c) = s.wire.countP (seqTo c)) (linger : Int) :
    Inv tid ({ s with wire := wire }.apply tid x
      ⟨(s.objs x).beginTerm, (s.objs x).owned.map (fun c => (c, .term linger)), false⟩) := by
  have howner : ∀ c, (Function.update s.objs x (s.objs x).beginTerm c).owner = (s.objs c).owner :=
    proj_kept Own.owner rfl
  refine ⟨?_, ?_, fun c => ?_, fun c => ?_, h.acked, fun c hc => ?_, fun c => ?_, fun c => ?_,
    fun c hc => ?_⟩
  · simp only [apply, howner, h.countP_terms]
    rw [proj_update, proj_update]
    exact h.asks.ask_all hasked
  · simp only [apply, howner, h.countP_terms]
    rw [balance_update]
    have hcard : (s.objs x).owned.toFinset.card = (s.objs x).owned.length :=
      List.toFinset_card_of_nodup (h.asks.nodup x)
    have hadd := h.awaits.add (Awaited (fun x => (s.objs x).owner)
      (fun c => s.terms c + if c ∈ (s.objs x).owned then 1 else 0) s.acked) x
      (s.objs x).owned.toFinset ?_ ?_
    · convert hadd using 2
      simp only [hcard, Own.beginTerm, Own.registerTermAcks]
      omega
    · intro c hc hawaited
      exact hawaited.2.1 ((h.asks.mem x c).1 (List.mem_toFinset.1 hc)).2
    · intro o c
      rw [Awaited, Awaited, List.mem_toFinset]
      by_cases hmem : c ∈ (s.objs x).owned
      · obtain ⟨hc, hzero⟩ := (h.asks.mem x c).1 hmem
        have hna : s.acked c = false := by
          by_contra hcon
          have hdead := h.destroyed c (h.acked c (by simpa using hcon))
          have := h.asks.asked c hdead.1 (by simp [hc])
          omega
        simp only [hc, hzero, hmem, if_true, hna, Option.some.injEq]
        simp [eq_comm]
      · simp [hmem]
  · have := h.inFlight c
    rw [hterms c] at this
    simp only [apply, howner, List.countP_append, termTo_send, h.countP_terms]
    by_cases hc : c = x
    · subst hc
      have hself : c ∉ (s.objs c).owned := fun hmem => by
        obtain ⟨hc, hzero⟩ := (h.asks.mem c c).1 hmem
        have := hasked (by simp [hc])
        omega
      simp only [Function.update_self, hself, if_false, Own.beginTerm, true_and]
      simp only [hterm, Bool.false_eq_true, false_and, if_false, true_and] at this
      omega
    · grind
  · have hnone : (((s.objs x).owned.map fun c => (c, OwnCommand.term linger)).map
        fun m => (⟨tid x, m.1, m.2⟩ : Envelope α τ)).filter (fromChild c) = [] := by
      simp [fromChild]
    simp only [apply, howner, List.filter_append, hreports, hnone, List.append_nil]
    exact h.reports c
  · simp only [apply, Bool.false_eq_true, if_false] at hc
    have hcx : c ≠ x := fun hcx => absurd (hx.symm.trans (hcx ▸ hc)) (by simp)
    simpa [apply, hcx] using h.unborn c hc
  · by_cases hcx : c = x
    · subst hcx
      simpa [apply] using ⟨(h.counts c).sent, (h.counts c).processed⟩
    · simpa [apply, hcx] using h.counts c
  · have hnone : (((s.objs x).owned.map fun c => (c, OwnCommand.term linger)).map
        fun m => (⟨tid x, m.1, m.2⟩ : Envelope α τ)).countP (seqTo c) = 0 := by
      simp [seqTo]
    have := h.seqs c
    simp only [apply, List.countP_append, hnone, hseqs]
    omega
  · simp only [apply, Bool.false_eq_true, if_false] at hc
    have hcx : c ≠ x := fun hcx => absurd (hx.symm.trans (hcx ▸ hc)) (by simp)
    simpa [apply, hcx] using h.destroyed c hc

theorem Inv.not_acked_of_owned (h : Inv tid s) {o : α} (hmem : c ∈ (s.objs o).owned) :
    s.acked c = false := by
  obtain ⟨hc, hzero⟩ := (h.asks.mem o c).1 hmem
  by_contra hcon
  have hdead := h.destroyed c (h.acked c (by simpa using hcon))
  have := h.asks.asked c hdead.1 (by simp [hc])
  omega

theorem Inv.ask (h : Inv tid s) (hx : s.life x ≠ .destroyed) (hmem : c ∈ (s.objs x).owned)
    (linger : Int) :
    Inv tid (s.apply tid x ⟨(s.objs x).release c, [(c, .term linger)], false⟩) := by
  obtain ⟨hc, hzero⟩ := (h.asks.mem x c).1 hmem
  have howner : ∀ y, (Function.update s.objs x ((s.objs x).release c) y).owner = (s.objs y).owner :=
    proj_kept Own.owner rfl
  have hterm : ∀ y, (Function.update s.objs x ((s.objs x).release c) y).terminating =
      (s.objs y).terminating := proj_kept Own.terminating rfl
  have hsends : ∀ y, s.terms y + [(c, OwnCommand.term linger)].countP (isTermTo y) =
      Function.update s.terms c 1 y := fun y => by
    grind [isTermTo]
  refine ⟨?_, ?_, fun y => ?_, fun y => ?_, h.acked, fun y hy => ?_, fun y => ?_, fun y => ?_,
    fun y hy => ?_⟩
  · simp only [apply, howner, hterm, hsends]
    rw [proj_update]
    exact h.asks.ask hmem
  · simp only [apply, howner, hsends]
    rw [balance_update]
    have hadd := h.awaits.insert (Awaited (fun x => (s.objs x).owner)
      (Function.update s.terms c 1) s.acked) x c (fun hawaited => hawaited.2.1 hzero) ?_
    · convert hadd using 2
      simp only [Own.release, Own.registerTermAcks]
      omega
    · grind [Awaited, h.not_acked_of_owned]
  · have hin := h.inFlight y
    have hsend := hsends y
    simp only [apply, howner, hterm, List.countP_append, termTo_send]
    omega
  · simp only [apply, howner, List.filter_append, List.map_cons, List.map_nil]
    simpa [fromChild] using h.reports y
  · simp only [apply, howner, hterm]
    exact h.unborn y hy
  · by_cases hyx : y = x
    · subst hyx
      simpa [apply] using ⟨(h.counts y).sent, (h.counts y).processed⟩
    · simpa [apply, hyx] using h.counts y
  · have := h.seqs y
    simpa [apply, seqTo] using this
  · have hyx : y ≠ x := fun hyx => hx (hyx ▸ hy)
    simpa [apply, hyx] using h.destroyed y hy

def launched (tid : α → τ) (s : OwnSystem α τ) (x c : α) (o : Own α) (sends : List (α × OwnCommand α)) :
    OwnSystem α τ :=
  { s with
    objs := Function.update (Function.update s.objs c { (s.objs c).incSeqnum with owner := some x }) x o
    life := Function.update s.life c .alive
    wire := s.wire ++ sends.map fun m => ⟨tid x, m.1, m.2⟩
    terms := fun y => s.terms y + sends.countP (isTermTo y)
    sent := Function.update s.sent c (s.sent c + 1) }

theorem Inv.launched (h : Inv tid s) (hx : s.life x = .alive) (hc : s.life c = .unborn)
    {sends : List (α × OwnCommand α)} (hcounts : o.Counts (s.sent x) (s.processed x))
    (howner : o.owner = (s.objs x).owner) (hterm : o.terminating = (s.objs x).terminating)
    (hseq : ∀ y, sends.countP (fun m => seqTo y ⟨tid x, m.1, m.2⟩) = if y = c then 1 else 0)
    (hreport : ∀ y, ∀ m ∈ sends, fromChild y (⟨tid x, m.1, m.2⟩ : Envelope α τ) = false)
    (hasks : Asks (Function.update (fun y => (s.objs y).owner) c (some x))
      (Function.update (fun y => (s.objs y).owned) x o.owned)
      (fun y => s.terms y + sends.countP (isTermTo y)) (fun y => (s.objs y).terminating))
    (hawaits : Census (Awaited (Function.update (fun y => (s.objs y).owner) c (some x))
        (fun y => s.terms y + sends.countP (isTermTo y)) s.acked)
      (Function.update (fun y => (s.objs y).termAcks - (s.events y : Int)) x
        (o.termAcks - s.events x))) :
    Inv tid (s.launched tid x c o sends) := by
  have hcx : c ≠ x := fun hcx => absurd (hc.symm.trans (hcx ▸ hx)) (by simp)
  obtain ⟨hcowner, hcterm⟩ := h.unborn c hc
  have hroot := h.asks.root c hcowner
  have howners : (fun y => ((s.launched tid x c o sends).objs y).owner) =
      Function.update (fun y => (s.objs y).owner) c (some x) := by
    funext y
    unfold OwnSystem.launched
    grind
  have howner' := fun y => congrFun howners y
  have hterms : ∀ y, ((s.launched tid x c o sends).objs y).terminating = (s.objs y).terminating :=
    fun y => by
      unfold OwnSystem.launched
      grind [Own.incSeqnum]
  refine ⟨?_, ?_, fun y => ?_, fun y => ?_, fun y hy => ?_, fun y hy => ?_, fun y => ?_, fun y => ?_,
    fun y hy => ?_⟩
  · rw [howners]
    simp only [hterms]
    have howneds : (fun y => ((s.launched tid x c o sends).objs y).owned) =
        Function.update (fun y => (s.objs y).owned) x o.owned := by
      unfold OwnSystem.launched
      rw [proj_update]
      congr 1
      funext y
      grind [Own.incSeqnum]
    rw [howneds]
    exact hasks
  · rw [howners]
    have hbalance : (fun y => ((s.launched tid x c o sends).objs y).termAcks - (s.events y : Int)) =
        Function.update (fun y => (s.objs y).termAcks - (s.events y : Int)) x
          (o.termAcks - s.events x) := by
      unfold OwnSystem.launched
      rw [balance_update]
      congr 1
      funext y
      grind [Own.incSeqnum]
    simp only [OwnSystem.launched] at hbalance ⊢
    rw [hbalance]
    exact hawaits
  · have hin := h.inFlight y
    rw [hterms y, howner' y]
    simp only [OwnSystem.launched, List.countP_append, termTo_send]
    grind
  · have hrep := h.reports y
    rw [howner' y]
    have hnone : (sends.map fun m => (⟨tid x, m.1, m.2⟩ : Envelope α τ)).filter (fromChild y) = [] := by
      rw [List.filter_eq_nil_iff]
      intro e he
      obtain ⟨m, hm, rfl⟩ := List.mem_map.1 he
      simp [hreport y m hm]
    simp only [OwnSystem.launched, List.filter_append, hnone, List.append_nil]
    by_cases hyc : y = c
    · subst hyc
      simp only [Reports, hcowner] at hrep
      simp only [Function.update_self, Reports, hrep]
      exact ⟨0, fun _ => rfl, by simp⟩
    · grind
  · have hyc : y ≠ c := fun hyc => absurd ((h.acked y hy).symm.trans (hyc ▸ hc)) (by simp)
    simpa [OwnSystem.launched, hyc] using h.acked y hy
  · have hyc : y ≠ c := fun hyc => by
      subst hyc
      simp [OwnSystem.launched] at hy
    rw [howner' y, hterms y, Function.update_of_ne hyc]
    exact h.unborn y (by simpa [OwnSystem.launched, hyc] using hy)
  · unfold OwnSystem.launched
    by_cases hyx : y = x
    · subst hyx
      simpa [Ne.symm hcx] using hcounts
    · by_cases hyc : y = c
      · subst hyc
        have := (h.counts y).incSeqnum
        simpa [hyx] using ⟨this.sent, this.processed⟩
      · simpa [hyx, hyc] using h.counts y
  · have := h.seqs y
    simp only [OwnSystem.launched, List.countP_append, List.countP_map, Function.comp_def, hseq]
    grind
  · have hyc : y ≠ c := fun hyc => by
      subst hyc
      simp [OwnSystem.launched] at hy
    have hlife : s.life y = .destroyed := by simpa [OwnSystem.launched, hyc] using hy
    have hyx : y ≠ x := fun hyx => absurd (hx.symm.trans (hyx ▸ hlife)) (by simp)
    simpa [OwnSystem.launched, hyx, hyc] using h.destroyed y hlife

theorem Inv.launchChild (h : Inv tid s) (hx : s.life x = .alive) (hc : s.life c = .unborn) :
    Inv tid (s.launched tid x c ((s.objs x).launchChild c).own ((s.objs x).launchChild c).sends) := by
  obtain ⟨hcowner, hcterm⟩ := h.unborn c hc
  have hzero := h.asks.root c hcowner
  have hcounts := h.counts x
  unfold Own.launchChild
  split
  next hterm =>
    -- the owner is terminating, and the object is asked to terminate at once
    have hsends : ∀ y, s.terms y + [(c, OwnCommand.seq .plug), (c, OwnCommand.term 0)].countP
        (isTermTo y) = Function.update s.terms c 1 y := fun y => by
      grind [isTermTo]
    refine h.launched hx hc ⟨hcounts.sent, hcounts.processed⟩ rfl rfl (fun y => ?_) (fun y m hm => ?_)
      ?_ ?_
    · grind [seqTo]
    · simp only [List.mem_cons, List.not_mem_nil, or_false] at hm
      rcases hm with rfl | rfl <;> rfl
    · simp only [hsends, Own.registerTermAcks]
      rw [Function.update_eq_self]
      exact h.asks.launch_term hcowner
    · simp only [hsends]
      have hadd := h.awaits.insert (Awaited (Function.update (fun y => (s.objs y).owner) c (some x))
        (Function.update s.terms c 1) s.acked) x c (fun hawaited => hawaited.2.1 hzero) ?_
      · convert hadd using 2
        simp only [Own.registerTermAcks]
        omega
      · intro o y
        rw [Awaited, Awaited]
        by_cases hy : y = c
        · subst hy
          have hna : s.acked y = false := by grind [h.acked]
          simp only [Function.update_self, hcowner, hna, Option.some.injEq]
          simp [eq_comm]
        · simp [hy]
  next hterm =>
    have hsends : ∀ y, s.terms y + [(c, OwnCommand.seq .plug)].countP (isTermTo y) = s.terms y :=
      fun y => by simp [isTermTo]
    refine h.launched hx hc ⟨hcounts.sent, hcounts.processed⟩ rfl rfl (fun y => ?_) (fun y m hm => ?_)
      ?_ ?_
    · grind [seqTo]
    · simp only [List.mem_cons, List.not_mem_nil, or_false] at hm
      subst hm
      rfl
    · simp only [hsends]
      exact h.asks.launch hcowner hcterm (by simpa using hterm)
    · simp only [hsends]
      rw [Function.update_eq_self]
      refine h.awaits.congr fun o y => ?_
      rw [Awaited, Awaited]
      grind

/-! ## Deliveries -/

section
variable [DecidableEq τ] {source target : τ} {e : Envelope α τ} {wire : List (Envelope α τ)}
variable {c : α}

theorem Inv.filter_next (h : Inv tid s)
    (hnext : deliverNext (route tid) (source, target) s.wire = some (e, wire)) (c : α) :
    s.wire.filter (fromChild c) =
      if fromChild c e then e :: wire.filter (fromChild c) else wire.filter (fromChild c) := by
  refine filter_of_deliverNext hnext fun y hy hcy hce => ?_
  obtain ⟨hsy, hoy, -⟩ := h.owner_of_fromChild hy hcy
  obtain ⟨hse, hoe, -⟩ := h.owner_of_fromChild (mem_of_deliverNext hnext) hce
  rw [route, route, hsy, hse, Option.some.inj (hoy.symm.trans hoe)]

theorem Inv.took_seq (h : Inv tid s) {kind : SeqCommand}
    (hnext : deliverNext (route tid) (source, target) s.wire = some (⟨source, x, .seq kind⟩, wire))
    (hx : s.life x ≠ .destroyed) :
    Inv tid { s with
      wire := wire, processed := Function.update s.processed x (s.processed x + 1)
      objs := Function.update s.objs x (s.objs x).countProcessed } := by
  refine h.local hx rfl rfl rfl rfl ?_ (fun c hc => ⟨rfl, by simp [hc], rfl⟩) (fun c => ?_) (fun c => ?_) fun c => ?_
  · rw [Function.update_self]
    exact (h.counts x).countProcessed
  · simpa [termTo, isTermTo] using (countP_of_deliverNext hnext (termTo c)).symm
  · simpa [fromChild] using (h.filter_next hnext c).symm
  · have hcount := countP_of_deliverNext hnext (seqTo c)
    have := h.seqs c
    grind [seqTo]

theorem Inv.took_termReq (h : Inv tid s)
    (hnext : deliverNext (route tid) (source, target) s.wire = some (⟨source, x, .termReq c⟩, wire)) :
    Inv tid { s with wire := wire } := by
  refine { h with inFlight := fun y => ?_, reports := fun y => ?_, seqs := fun y => ?_ }
  · have hcount := countP_of_deliverNext hnext (termTo y)
    have := h.inFlight y
    simp only [termTo, isTermTo, Bool.false_eq_true, if_false, Nat.add_zero] at hcount
    simp only at this ⊢
    omega
  · have hfilter := h.filter_next hnext y
    have hrep := h.reports y
    by_cases hy : y = c
    · subst hy
      obtain ⟨-, ho, -⟩ := h.owner_of_fromChild (mem_of_deliverNext hnext) (c := y) (by simp [fromChild])
      simp only [fromChild, decide_true, if_true] at hfilter
      simp only [Reports, ho] at hrep ⊢
      obtain ⟨n, hn, heq⟩ := hrep
      have heq' := heq.symm.trans hfilter
      cases n with
      | zero =>
        -- the request would be the acknowledgement
        simp only [List.replicate_zero, List.nil_append] at heq'
        split at heq'
        · simp at heq'
        · simp at heq'
      | succ n => grind
    · grind [fromChild]
  · have hcount := countP_of_deliverNext hnext (seqTo y)
    have := h.seqs y
    simp only [seqTo, Bool.false_eq_true, if_false, Nat.add_zero] at hcount
    simp only at this ⊢
    omega

theorem Inv.took_termAck (h : Inv tid s)
    (hnext : deliverNext (route tid) (source, target) s.wire = some (⟨source, x, .termAck c⟩, wire))
    (hx : s.life x ≠ .destroyed) :
    0 < (s.objs x).termAcks ∧ Inv tid { s with
      wire := wire, acked := Function.update s.acked c true
      objs := Function.update s.objs x { s.objs x with termAcks := (s.objs x).termAcks - 1 } } := by
  obtain ⟨-, ho, hna⟩ := h.owner_of_fromChild (mem_of_deliverNext hnext) (c := c) (by simp [fromChild])
  have hfilter := h.filter_next hnext c
  simp only [fromChild, decide_true, if_true] at hfilter
  -- it is the acknowledgement, so that there are no requests in front of it
  obtain ⟨hdead, hrest⟩ : s.life c = .destroyed ∧ wire.filter (fromChild c) = [] := by
    have hrep := h.reports c
    simp only [Reports, ho] at hrep
    obtain ⟨n, -, heq⟩ := hrep
    have heq' := heq.symm.trans hfilter
    cases n with
    | zero => grind
    | succ n => grind
  have hterms : s.terms c ≠ 0 := by
    have := h.asks.asked c (h.destroyed c hdead).1 (by simp [ho])
    omega
  have hawaited : Awaited (fun y => (s.objs y).owner) s.terms s.acked x c := ⟨ho, hterms, hna⟩
  have hpos := h.awaits.pos hawaited
  refine ⟨by omega, ?_⟩
  have howner : ∀ y, (Function.update s.objs x { s.objs x with termAcks := (s.objs x).termAcks - 1 }
      y).owner = (s.objs y).owner := proj_kept Own.owner rfl
  have howned : ∀ y, (Function.update s.objs x { s.objs x with termAcks := (s.objs x).termAcks - 1 }
      y).owned = (s.objs y).owned := proj_kept Own.owned rfl
  have hterm : ∀ y, (Function.update s.objs x { s.objs x with termAcks := (s.objs x).termAcks - 1 }
      y).terminating = (s.objs y).terminating := proj_kept Own.terminating rfl
  refine ⟨?_, ?_, fun y => ?_, fun y => ?_, fun y hy => ?_, fun y hy => ?_, fun y => ?_, fun y => ?_,
    fun y hy => ?_⟩
  · simpa only [howner, howned, hterm] using h.asks
  · simp only [howner]
    rw [balance_update]
    have herase := h.awaits.erase (Awaited (fun y => (s.objs y).owner) s.terms
      (Function.update s.acked c true)) x c hawaited ?_
    · convert herase using 2
      simp only
      omega
    · intro o y
      rw [Awaited, Awaited]
      by_cases hy : y = c
      · grind
      · simp [hy]
  · have hcount := countP_of_deliverNext hnext (termTo y)
    have := h.inFlight y
    simp only [termTo, isTermTo, Bool.false_eq_true, if_false, Nat.add_zero] at hcount
    simp only [howner, hterm]
    omega
  · have hrep := h.reports y
    simp only [howner]
    by_cases hy : y = c
    · subst hy
      simp only [Reports, ho, hrest, Function.update_self]
      exact ⟨0, fun _ => rfl, by simp⟩
    · have hother := h.filter_next hnext y
      simp only [fromChild, Ne.symm hy, decide_false, Bool.false_eq_true, if_false] at hother
      simp only [Function.update_of_ne hy]
      exact hother ▸ hrep
  · by_cases hyc : y = c
    · subst hyc
      exact hdead
    · exact h.acked y (by simpa [hyc] using hy)
  · simp only [howner, hterm]
    exact h.unborn y hy
  · by_cases hyx : y = x
    · subst hyx
      simpa using ⟨(h.counts y).sent, (h.counts y).processed⟩
    · simpa [hyx] using h.counts y
  · have hcount := countP_of_deliverNext hnext (seqTo y)
    have := h.seqs y
    simp only [seqTo, Bool.false_eq_true, if_false, Nat.add_zero] at hcount
    simp only
    omega
  · have hyx : y ≠ x := fun hyx => hx (hyx ▸ hy)
    simpa [hyx] using h.destroyed y hy

theorem Inv.took_term (h : Inv tid s) {linger : Int}
    (hnext : deliverNext (route tid) (source, target) s.wire = some (⟨source, x, .term linger⟩, wire)) :
    s.life x = .alive ∧ (s.objs x).terminating = false ∧ Inv tid ({ s with wire := wire }.apply tid x
      ⟨(s.objs x).beginTerm, (s.objs x).owned.map (fun c => (c, .term linger)), false⟩) := by
  have hcount : ∀ c, s.wire.countP (termTo c) = wire.countP (termTo c) + if c = x then 1 else 0 :=
    fun c => by
      have := countP_of_deliverNext hnext (termTo c)
      simpa [termTo, isTermTo, eq_comm] using this
  have hin := h.inFlight x
  have honce := h.asks.once x
  have hx := hcount x
  rw [if_pos rfl] at hx
  have howner : (s.objs x).owner ≠ none := fun hc => by
    have := h.asks.root x hc
    omega
  have hterm : (s.objs x).terminating = false := by grind
  have halive : s.life x = .alive := by
    cases hlife : s.life x with
    | alive => rfl
    | unborn => exact absurd (h.unborn x hlife).1 howner
    | destroyed => grind [h.destroyed]
  refine ⟨halive, hterm, h.beginTerm halive hterm (fun _ => by omega) (fun c => ?_) (fun c => ?_)
    (fun c => ?_) linger⟩
  · rw [hcount c]
    simp [howner]
  · simpa [fromChild] using (h.filter_next hnext c).symm
  · simpa [seqTo] using (countP_of_deliverNext hnext (seqTo c)).symm

end

theorem apply_update (s : OwnSystem α τ) (o : Own α) (r : Own.Outcome α) :
    apply tid { s with objs := Function.update s.objs x o } x r = s.apply tid x r := by
  simp [apply]

theorem apply_apply (s : OwnSystem α τ) (o : Own α) (sends : List (α × OwnCommand α))
    (r : Own.Outcome α) :
    (s.apply tid x ⟨o, sends, false⟩).apply tid x r =
      s.apply tid x { r with sends := sends ++ r.sends } := by
  simp [apply, List.countP_append, Nat.add_assoc]

theorem Inv.call_check {o : Own α} (h : Inv tid { s with objs := Function.update s.objs x o })
    (hx : s.life x ≠ .destroyed) (hfew : s.sent x < 2 ^ 32) :
    ∃ s', s.call tid x (o.checkTermAcks x) = .ok s' ∧ Inv tid s' ∧ s'.sent = s.sent := by
  obtain ⟨r, hr, hinv⟩ := h.check hx hfew
  simp only [Function.update_self] at hr
  rw [apply_update] at hinv
  exact ⟨_, by rw [hr]; rfl, hinv, rfl⟩

theorem Inv.call_term {linger : Int} (h : Inv tid (s.apply tid x
      ⟨(s.objs x).beginTerm, (s.objs x).owned.map (fun c => (c, .term linger)), false⟩))
    (hterm : (s.objs x).terminating = false) (hx : s.life x ≠ .destroyed)
    (hfew : s.sent x < 2 ^ 32) :
    ∃ s', s.call tid x ((s.objs x).processTerm x linger) = .ok s' ∧ Inv tid s' ∧ s'.sent = s.sent := by
  obtain ⟨r, hr, hinv⟩ := h.check (x := x) hx hfew
  simp only [apply, Function.update_self] at hr
  rw [apply_apply] at hinv
  refine ⟨_, ?_, hinv, rfl⟩
  simp only [Own.processTerm, hterm, Bool.false_eq_true, if_false, hr]
  rfl

end OwnSystem

namespace OwnOp

variable {α τ : Type} [LinearOrder α]

def announces (x : α) : OwnOp α τ → Bool
  | .incSeqnum y => y = x
  | .launchChild _ c => c = x
  | _ => false

end OwnOp

namespace OwnSystem

variable {α τ : Type} [LinearOrder α] [DecidableEq τ] {tid : α → τ} {s : OwnSystem α τ} {x : α}

theorem Inv.deliver (h : Inv tid s) (hfew : ∀ x, s.sent x < 2 ^ 32) (source target : τ) :
    ∃ s', s.step tid (.deliver source target) = .ok s' ∧ Inv tid s' ∧ s'.sent = s.sent := by
  simp only [step]
  cases hnext : deliverNext (route tid) (source, target) s.wire with
  | none => exact ⟨s, rfl, h, rfl⟩
  | some r =>
    obtain ⟨⟨source', x, command⟩, wire⟩ := r
    obtain rfl : source' = source := by
      obtain ⟨-, -, -, -, hroute, -⟩ := deliverNext_eq_some hnext
      exact (Prod.mk.inj hroute).1
    have hx : s.life x ≠ .destroyed := fun hd =>
      (h.unreachable hd).2 _ (mem_of_deliverNext hnext) rfl
    simp only [hx, if_false]
    cases command with
    | seq kind =>
      exact Inv.call_check (s := { s with
        wire := wire, processed := Function.update s.processed x (s.processed x + 1) })
        (h.took_seq hnext hx) hx (hfew x)
    | termReq c =>
      have htook := h.took_termReq hnext
      simp only [record, call, Own.processCommand, Own.processTermReq]
      split
      · exact ⟨_, rfl, by simpa [apply] using htook, rfl⟩
      · split
        · exact ⟨_, rfl, by simpa [apply] using htook, rfl⟩
        next hmem => exact ⟨_, rfl, htook.ask hx (by simpa using hmem) _, rfl⟩
    | term linger =>
      obtain ⟨-, hterm, hinv⟩ := h.took_term hnext
      exact hinv.call_term hterm hx (hfew x)
    | termAck c =>
      obtain ⟨hpos, hinv⟩ := h.took_termAck hnext hx
      simp only [record, Own.processCommand, Own.unregisterTermAck, hpos, not_true_eq_false,
        if_false]
      exact Inv.call_check (s := { s with
        wire := wire, acked := Function.update s.acked c true }) hinv hx (hfew x)

theorem Inv.terminate (h : Inv tid s) (hfew : ∀ x, s.sent x < 2 ^ 32) (x : α) :
    ∃ s', s.step tid (.terminate x) = .ok s' ∧ Inv tid s' ∧ s'.sent = s.sent := by
  simp only [step]
  split
  next halive =>
    have hx : s.life x ≠ .destroyed := by simp [halive]
    unfold Own.terminate
    split
    · exact ⟨_, rfl, by simpa [apply] using h, rfl⟩
    next hterm =>
      have hterm : (s.objs x).terminating = false := by simpa using hterm
      split
      next howner =>
        have hsame : ∀ c, s.wire.countP (termTo c) = s.wire.countP (termTo c) +
            if c = x ∧ (s.objs x).owner ≠ none then 1 else 0 := fun c => by simp [howner]
        have hinv := h.beginTerm halive hterm (fun hc => absurd howner hc) hsame (fun _ => rfl)
          (fun _ => rfl) (s.objs x).linger
        exact hinv.call_term hterm hx (hfew x)
      next o howner =>
        refine ⟨_, rfl, ?_, rfl⟩
        simpa [apply, isTermTo] using h.request hx howner
  · exact ⟨s, rfl, h, rfl⟩

theorem Inv.step (h : Inv tid s) (hfew : ∀ x, s.sent x < 2 ^ 32) (op : OwnOp α τ) :
    ∃ s', s.step tid op = .ok s' ∧ Inv tid s' ∧
      ∀ x, s'.sent x ≤ s.sent x + if op.announces x then 1 else 0 := by
  have hsame : ∀ {s' : OwnSystem α τ}, s'.sent = s.sent →
      ∀ x, s'.sent x ≤ s.sent x + if op.announces x then 1 else 0 := fun hs x => by
    rw [hs]
    exact Nat.le_add_right _ _
  have hcount : ∀ (y : α), op.announces y = true → ∀ x,
      Function.update s.sent y (s.sent y + 1) x ≤ s.sent x + if op.announces x then 1 else 0 :=
    fun y hy x => by
      grind
  cases op with
  | create x => grind [OwnSystem.step, h.create]
  | launchChild x c =>
    simp only [OwnSystem.step]
    split
    next hlife =>
      obtain ⟨hx, hc⟩ := hlife
      have hcx : x ≠ c := fun hcx => absurd (hx.symm.trans (hcx ▸ hc)) (by simp)
      have howner := (h.unborn c hc).1
      simp only [Own.setOwner, howner, Option.isSome_none, Bool.false_eq_true, if_false]
      refine ⟨_, rfl, ?_, hcount c (by simp [OwnOp.announces])⟩
      have hinv := h.launchChild hx hc
      have hdestroyed : ((s.objs x).launchChild c).destroyed = false := by
        unfold Own.launchChild
        split <;> rfl
      simp only [countSent, apply, Function.update_idem, Function.update_self,
        Function.update_of_ne hcx, hdestroyed, Bool.false_eq_true, if_false]
      exact hinv
    · exact ⟨s, rfl, h, hsame rfl⟩
  | terminate x =>
    obtain ⟨s', hs, hinv, hsent⟩ := h.terminate hfew x
    exact ⟨s', hs, hinv, hsame hsent⟩
  | incSeqnum x =>
    simp only [OwnSystem.step]
    split
    · exact ⟨s, rfl, h, hsame rfl⟩
    next hx => exact ⟨_, rfl, h.announce hx, hcount x (by simp [OwnOp.announces])⟩
  | send source x kind => grind [OwnSystem.step, h.send]
  | deliver source target =>
    obtain ⟨s', hs, hinv, hsent⟩ := h.deliver hfew source target
    exact ⟨s', hs, hinv, hsame hsent⟩
  | registerTermAcks x count =>
    simp only [OwnSystem.step]
    grind [h.register]
  | unregisterTermAck x =>
    simp only [OwnSystem.step]
    split
    next hpos =>
      have hnonneg := h.awaits.nonneg x
      have hacks : 0 < (s.objs x).termAcks := by omega
      have hx : s.life x ≠ .destroyed := fun hd => by
        have := (h.destroyed x hd).2.1
        omega
      simp only [Own.unregisterTermAck, hacks, not_true_eq_false, if_false]
      obtain ⟨s', hs, hinv, hsent⟩ := Inv.call_check (s := { s with
        events := Function.update s.events x (s.events x - 1) }) (h.occurred hx hpos) hx (hfew x)
      exact ⟨s', hs, hinv, hsame hsent⟩
    · exact ⟨s, rfl, h, hsame rfl⟩

structure Safe (s : OwnSystem α τ) : Prop where
  once : ∀ x, s.terms x ≤ 1
  acks : ∀ x, 0 ≤ (s.objs x).termAcks
  terminating : ∀ x, s.life x = .destroyed → (s.objs x).terminating = true
  children : ∀ x c, s.life x = .destroyed → (s.objs c).owner = some x → s.life c = .destroyed
  delivered : ∀ x, s.life x = .destroyed → s.reserved x = 0 ∧ ∀ e ∈ s.wire, e.destination ≠ x

omit [DecidableEq τ] in
theorem Inv.safe (h : Inv tid s) : Safe s where
  once := h.asks.once
  acks x := by
    have := h.awaits.nonneg x
    omega
  terminating x hx := (h.destroyed x hx).1
  children x c hx hc := h.acked c (h.acked_of_destroyed hx hc)
  delivered x hx := h.unreachable hx

/-- **Shutdown is safe.** -/
theorem shutdown_safe (tid : α → τ) (linger : α → Int) (ops : List (OwnOp α τ))
    (hfew : ∀ x, ops.countP (OwnOp.announces x) < 2 ^ 32) :
    ∃ s, run (step tid) (init linger) ops = .ok s ∧ Safe s := by
  have hrun : ∃ s, run (step tid) (init linger) ops = .ok s ∧ _ := run_safe_remaining
    (I := fun rest s => Inv tid s ∧ ∀ x, s.sent x + rest.countP (OwnOp.announces x) < 2 ^ 32)
    (fun op rest s hI => by
      obtain ⟨hinv, hsum⟩ := hI
      obtain ⟨s', hs, hinv', hsent⟩ := hinv.step (fun x => by have := hsum x; omega) op
      refine ⟨s', hs, hinv', fun x => ?_⟩
      have h1 := hsum x
      have h2 := hsent x
      rw [List.countP_cons] at h1
      omega)
    ops (init linger) ⟨inv_init linger, fun x => by simpa [init] using hfew x⟩
  obtain ⟨s, hs, hinv, -⟩ := hrun
  exact ⟨s, hs, hinv.safe⟩

def socketShutdown : List (OwnOp Nat Nat) :=
  [.create 0, .launchChild 0 1, .launchChild 0 2, .deliver 0 1, .deliver 0 1, .launchChild 2 3,
   .incSeqnum 0, .terminate 2, .terminate 0, .launchChild 0 4, .incSeqnum 5, .launchChild 1 5,
   .send 1 5 .attach, .send 1 0 .bind, .deliver 1 0, .deliver 1 0, .deliver 0 1, .deliver 0 1,
   .deliver 0 1, .deliver 0 1] ++ List.replicate 7 (.deliver 1 1) ++ List.replicate 3 (.deliver 1 0)

set_option maxRecDepth 8000 in
theorem socketShutdown_safe :
    ∃ s, run (step fun x => if x = 0 then 0 else 1) (init fun _ => -1) socketShutdown = .ok s ∧
      Safe s ∧ ∀ x < 6, s.life x = .destroyed := by
  obtain ⟨s, hs, hsafe⟩ := shutdown_safe (fun x => if x = 0 then 0 else 1) (fun _ => -1) socketShutdown
    fun x => List.countP_le_length.trans_lt (by decide)
  refine ⟨s, hs, hsafe, ?_⟩
  obtain ⟨t, ht, hlife⟩ : ∃ t, run (step fun x => if x = 0 then 0 else 1) (init fun _ => -1)
      socketShutdown = .ok t ∧ ∀ x < 6, t.life x = .destroyed := ⟨_, rfl, by decide⟩
  simp only [hs] at ht
  cases ht
  exact hlife

end OwnSystem

end Libxs
