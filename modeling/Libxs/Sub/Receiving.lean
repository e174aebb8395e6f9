import Libxs.Foundation.Selection
import Libxs.Sub.Proofs
import Libxs.Sub.Reader

/-! # A SUB socket returns the matching messages -/

namespace Libxs

def Filter.Covers (f : Filter Unit) (topic data : List UInt8) : Prop :=
  match f with
  | .pfx _ => topic <+: data
  | .topic _ => TopicFilter.topicMatch topic data = true

namespace Subscriptions

def Matches (subscriptions : Subscriptions) (data : List UInt8) : Prop :=
  ∃ f ∈ subscriptions.filters, ∃ topic, 0 < f.countAt topic () ∧ f.Covers topic data

open Classical in
noncomputable def covers (subscriptions : Subscriptions) (msg : Msg) : Bool :=
  decide (subscriptions.Matches msg.data)

theorem covers_eq_true {subscriptions : Subscriptions} {msg : Msg} :
    subscriptions.covers msg = true ↔ subscriptions.Matches msg.data := by
  simp [covers]

end Subscriptions

theorem Filter.WF.sfMatch {f : Filter Unit} (h : f.WF) (data : List UInt8) :
    ∃ b, f.sfMatch data = .ok b ∧ (b = true ↔ ∃ topic, 0 < f.countAt topic () ∧ f.Covers topic data) := by
  cases f with
  | pfx t =>
    obtain ⟨b, hb, hiff⟩ := PfxNode.WF.sfMatch_eq data t h
    refine ⟨b, hb, hiff.trans ⟨?_, ?_⟩⟩
    · rintro ⟨topic, hle, ⟨⟩, hcount⟩
      exact ⟨topic, hcount, hle⟩
    · rintro ⟨topic, hcount, hle⟩
      exact ⟨topic, hle, (), hcount⟩
  | topic t => exact ⟨_, rfl, TopicFilter.sfMatch_eq_true h data⟩

namespace SubReader

theorem matchAny_ok : ∀ {filters : List (Filter Unit)} (data : List UInt8), (∀ f ∈ filters, f.WF) →
    ∃ b, matchAny filters data = .ok b ∧
      (b = true ↔ ∃ f ∈ filters, ∃ topic, 0 < f.countAt topic () ∧ f.Covers topic data) := by
  intro filters data
  induction filters with
  | nil => exact fun _ => ⟨false, rfl, by simp⟩
  | cons f filters ih =>
    intro hwf
    obtain ⟨b, hb, hiff⟩ := Filter.WF.sfMatch (hwf f (by simp)) data
    obtain ⟨b', hb', hiff'⟩ := ih fun g hg => hwf g (by simp [hg])
    grind [matchAny]

theorem matchAny_covers (subscriptions : Subscriptions) (msg : Msg) :
    matchAny subscriptions.filters msg.data = .ok (subscriptions.covers msg) := by
  obtain ⟨b, hb, hiff⟩ := matchAny_ok msg.data subscriptions.wf
  rw [hb, Except.ok.injEq, Bool.eq_iff_iff, hiff, Subscriptions.covers_eq_true]
  rfl

variable {α : Type} [DecidableEq α] {s : SubReader α} {ends : Ends α} {fed : α → List Msg}

/-! ## The parts that were handed out -/

def parts (s : SubReader α) : List Msg := s.fetched.map Prod.snd

noncomputable def place (s : SubReader α) : Option Bool := stop Msg.more s.subscriptions.covers s.parts

noncomputable def due (s : SubReader α) : List Msg := selected Msg.more s.subscriptions.covers s.parts

def Fed (fed : α → List Msg) (s : SubReader α) (ends : Ends α) : Prop :=
  s.fq.Feeding ends fed s.fetched

def ReadFrom (s t : SubReader α) : Prop :=
  t = { s with fq := t.fq, fetched := t.fetched }

omit [DecidableEq α] in
theorem ReadFrom.trans {s t u : SubReader α} (hst : ReadFrom s t) (htu : ReadFrom t u) : ReadFrom s u := by
  rw [ReadFrom, htu, hst]

theorem Fed.more (h : Fed fed s ends) : s.fq.more = s.place.isSome := by
  rw [place, stop_isSome, parts, List.getLast?_map, Fq.Feeding.more h]
  cases s.fetched.getLast? <;> rfl

theorem Fed.recvPart (h : Fed fed s ends) :
    ∃ r t ends', s.recvPart ends = .ok (r, t, ends') ∧ Fed fed t ends' ∧ ReadFrom s t ∧
      (r = none → s.place = none ∧ t.parts = s.parts) ∧
      (∀ msg, r = some msg → t.parts = s.parts ++ [msg] ∧ t.fq.backlog ends' < s.fq.backlog ends) := by
  obtain ⟨r, fq', ends', hrun, hfeeding, hnone, hless⟩ := Fq.Feeding.recvpipe h
  refine ⟨r.map Prod.fst, { s with fq := fq', fetched := s.fetched ++ Fq.entry r }, ends',
    by simp [SubReader.recvPart, hrun], hfeeding, rfl, fun hr => ?_, fun msg hr => ?_⟩
  · obtain rfl := Option.map_eq_none_iff.1 hr
    refine ⟨?_, by simp [parts, Fq.entry]⟩
    have := h.more.symm.trans (hnone rfl)
    simpa using this
  · obtain ⟨⟨m, p⟩, rfl, rfl⟩ := Option.map_eq_some_iff.1 hr
    exact ⟨by simp [parts, Fq.entry], hless m p rfl⟩

omit [DecidableEq α] in
theorem due_concat {s t : SubReader α} {msg : Msg} (ht : ReadFrom s t) (hparts : t.parts = s.parts ++ [msg]) :
    t.due = s.due ++ passed s.subscriptions.covers s.place msg ∧
      t.place = nextStop Msg.more s.subscriptions.covers s.place msg := by
  have hsubs : t.subscriptions = s.subscriptions := by rw [ht]
  refine ⟨?_, ?_⟩
  · rw [due, hsubs, hparts, selected_concat]
    rfl
  · rw [place, hsubs, hparts, stop_concat]
    rfl

theorem Fed.drain : ∀ (n : Nat) {s : SubReader α} {ends : Ends α}, Fed fed s ends → s.place = some false →
    s.fq.backlog ends < n →
    ∃ t ends', supply.drain .assertFailed .outOfFuel n (s, ends) = .ok (t, ends') ∧ Fed fed t ends' ∧
      ReadFrom s t ∧ t.place = none ∧ t.due = s.due ∧ t.fq.backlog ends' ≤ s.fq.backlog ends := by
  intro n
  induction n with
  | zero => exact fun _ _ hn => absurd hn (Nat.not_lt_zero _)
  | succ n ih =>
    intro s ends h hplace hn
    obtain ⟨r, t, ends', hrecv, hfed, hread, hnone, hsome⟩ := h.recvPart
    cases r with
    | none => grind
    | some msg =>
      obtain ⟨hparts, hless⟩ := hsome msg rfl
      obtain ⟨hdue, hnext⟩ := due_concat hread hparts
      simp only [hplace, passed, nextStop, Option.getD_some, Bool.false_eq_true, if_false,
        List.append_nil] at hdue hnext
      have hrecv' : supply.recv (s, ends) = .ok (some msg, t, ends') := hrecv
      cases hm : msg.more with
      | true =>
        rw [hm, if_pos rfl] at hnext
        obtain ⟨u, ends'', hdrain, hfed', hread', hplace', hdue', hle⟩ :=
          ih hfed hnext (by omega)
        refine ⟨u, ends'', ?_, hfed', hread.trans hread', hplace', hdue'.trans hdue, by omega⟩
        simp only [Supply.drain, hrecv']
        exact (if_pos hm).trans hdrain
      | false =>
        rw [hm, if_neg (by simp)] at hnext
        refine ⟨t, ends', ?_, hfed, hread, hnext, hdue, Nat.le_of_lt hless⟩
        simp only [Supply.drain, hrecv']
        exact if_neg (by simp [supply, hm])

theorem Fed.fetchLoop : ∀ (fuel : Nat) {s : SubReader α} {ends : Ends α}, Fed fed s ends →
    (s.place = bif s.more then some true else none) → s.fq.backlog ends < fuel →
    ∃ r t ends', fetchLoop fuel s ends = .ok (r, t, ends') ∧ Fed fed t ends' ∧ ReadFrom s t ∧
      t.due = s.due ++ r.toList ∧
      (t.place = bif r.elim s.more Msg.more then some true else none) := by
  intro fuel
  induction fuel with
  | zero => exact fun _ _ hn => absurd hn (Nat.not_lt_zero _)
  | succ fuel ih =>
    intro s ends h hplace hn
    obtain ⟨r, t, ends', hrecv, hfed, hread, hnone, hsome⟩ := h.recvPart
    cases r with
    | none =>
      obtain ⟨hidle, hparts⟩ := hnone rfl
      have hsubs : t.subscriptions = s.subscriptions := by rw [hread]
      refine ⟨none, t, ends', by simp [SubReader.fetchLoop, hrecv], hfed, hread, ?_, ?_⟩
      · simp [due, hparts, hsubs]
      · grind [place]
    | some msg =>
      obtain ⟨hparts, hless⟩ := hsome msg rfl
      obtain ⟨hdue, hnext⟩ := due_concat hread hparts
      have hmore : t.more = s.more := by rw [hread]
      have hsubs : t.subscriptions = s.subscriptions := by rw [hread]
      have htest : (if t.more then .ok true else matchAny t.subscriptions.filters msg.data) =
          (.ok (s.place.getD (s.subscriptions.covers msg)) : Except Fault Bool) := by
        rw [hplace, hmore, hsubs, matchAny_covers]
        cases s.more <;> rfl
      cases hkeep : s.place.getD (s.subscriptions.covers msg) with
      | true =>
        refine ⟨some msg, t, ends', ?_, hfed, hread, ?_, ?_⟩
        · simp only [SubReader.fetchLoop, hrecv, htest, hkeep]
        · simp [hdue, passed, hkeep]
        · grind [nextStop]
      | false =>
        -- a message that does not match: the loop goes on after it
        have hidle : s.place = none ∧ s.more = false := by grind
        obtain ⟨u, ends'', hpop, hfed', hread', hplace', hdue', hle⟩ :
            ∃ u ends'', t.popRest ends' msg = .ok (u, ends'') ∧ Fed fed u ends'' ∧ ReadFrom t u ∧
              u.place = none ∧ u.due = t.due ∧ u.fq.backlog ends'' ≤ t.fq.backlog ends' := by
          unfold popRest
          cases hm : msg.more with
          | true =>
            rw [if_pos rfl]
            exact hfed.drain _ (by simp [hnext, nextStop, hm, hkeep]) (Nat.lt_succ_self _)
          | false =>
            exact ⟨t, ends', rfl, hfed, rfl, by simp [hnext, nextStop, hm], rfl, Nat.le_refl _⟩
        have hmore' : u.more = s.more := by rw [hread', hmore]
        obtain ⟨r, v, ends₃, hloop, hfed₃, hread₃, hdue₃, hplace₃⟩ :=
          ih hfed' (by simp [hplace', hmore', hidle.2]) (by omega)
        refine ⟨r, v, ends₃, ?_, hfed₃, (hread.trans hread').trans hread₃, ?_, ?_⟩
        · simp only [SubReader.fetchLoop, hrecv, htest, hkeep, hpop, hloop]
        · rw [hdue₃, hdue', hdue]
          simp [passed, hkeep]
        · rw [hplace₃, hmore']

end SubReader

/-! ## Subscriptions come from socket options -/

theorem Filter.find_of_mem {filters : List (Filter Unit)} {f : Filter Unit}
    (h : (filters.map Filter.id).Nodup) (hf : f ∈ filters) : find filters f.id = some f := by
  induction filters with
  | nil => cases hf
  | cons g filters ih =>
    rw [List.map_cons, List.nodup_cons] at h
    rcases List.mem_cons.1 hf with rfl | hmem
    · exact if_pos rfl
    · have hne : g.id ≠ f.id := fun heq => h.1 (heq ▸ List.mem_map_of_mem hmem)
      rw [find, if_neg hne, ih h.2 hmem]

section

variable {α : Type} [DecidableEq α]
variable {subscribe : Bool} {ends ends' : Ends α} {data : List UInt8} {s t : Sub α}

theorem Sub.passOn_filters
    (h : Sub.assertDone (s.passOn ends subscribe data) = .ok (t, ends')) : t.filters = s.filters := by
  unfold Sub.passOn at h
  cases hx : s.toXSub.xsend ends (XSub.subscriptionMsg subscribe (s.filter, data)) with
  | error err => simp [hx, Sub.assertDone] at h
  | ok r =>
    obtain ⟨errno, x, ends₁⟩ := r
    cases errno with
    | some err => simp [hx, Sub.assertDone] at h
    | none => grind [Sub.assertDone]

theorem Sub.finish_filters {r : Except Fault (Filter.Return × Filter Unit)}
    (h : s.finish ends data r = .ok (t, ends')) : ∃ f, t.filters = Filter.store s.filters f := by
  cases r with
  | error err => simp [Sub.finish] at h
  | ok r =>
    obtain ⟨ret, f⟩ := r
    refine ⟨f, ?_⟩
    cases ret with
    | value rc => grind [Sub.finish]
    | subscribed => exact Sub.passOn_filters h
    | unsubscribed => exact Sub.passOn_filters h

theorem Sub.xsetsockopt_filters (h : s.xsetsockopt ends subscribe data = .ok (t, ends')) :
    ∃ f, t.filters = Filter.store s.filters f := by
  unfold Sub.xsetsockopt at h
  split at h
  · exact Sub.finish_filters h
  · split at h
    · cases h
    · exact Sub.finish_filters h
  · exact Sub.finish_filters h
  · cases h

theorem SubSystem.nodup_filters {options : List (SubOption α)} {s : SubSystem α}
    (hrun : run SubSystem.step SubSystem.init options = .ok s) :
    (s.sub.filters.map Filter.id).Nodup := by
  refine run_preserves (I := fun s : SubSystem α => (s.sub.filters.map Filter.id).Nodup)
    (fun s op t hs h => ?_) options _ s (by simp [SubSystem.init, Sub.init]) hrun
  cases op with
  | filter id =>
    rw [← Except.ok.inj h]
    exact hs
  | option subscribe data =>
    simp only [SubSystem.step] at h
    split at h
    · cases h
    next sub ends hopt =>
      obtain ⟨f, hf⟩ := Sub.xsetsockopt_filters hopt
      rw [← Except.ok.inj h]
      exact hf ▸ Filter.nodup_store hs f
  | pipes op =>
    have hkeep : t.sub.filters = s.sub.filters := by
      cases op with
      | send msg => rw [← Except.ok.inj h]
      | _ =>
        simp only [SubSystem.step] at h
        split at h
        · cases h
        · rw [← Except.ok.inj h]
          rfl
    exact hkeep ▸ hs

def Subscription.Covers (key : Subscription) (data : List UInt8) : Prop :=
  if key.1 = PubSub.filterPrefixId then key.2 <+: data else TopicFilter.topicMatch key.2 data = true

theorem Filter.covers_iff {f : Filter Unit} {topic data : List UInt8} :
    f.Covers topic data ↔ Subscription.Covers (f.id, topic) data := by
  cases f <;> rfl

/-- **A message matches exactly if a subscription that was not taken back covers it.** -/
theorem SubSystem.match_follows_options {options : List (SubOption α)}
    (hops : RunMeets SubSystem.step StepOk init options) (data : List UInt8) :
    ∃ s, run SubSystem.step init options = .ok s ∧
      ∃ b, SubReader.matchAny s.sub.filters data = .ok b ∧
        (b = true ↔ ∃ key, s.tally.unsubscribes key < s.tally.subscribes key ∧
          Subscription.Covers key data) := by
  obtain ⟨s, hrun, h⟩ := run_safe_meets (fun s op hI hk => hI.step op hk) options init inv_init hops
  have hfind := fun f hf => Filter.find_of_mem (f := f) (nodup_filters hrun) hf
  obtain ⟨b, hb, hiff⟩ := SubReader.matchAny_ok data fun f hf => h.wf f.id f (hfind f hf)
  refine ⟨s, hrun, b, hb, hiff.trans ⟨?_, ?_⟩⟩
  · rintro ⟨f, hf, topic, hcount, hcovers⟩
    have hdemand := h.demand (f.id, topic)
    simp only [demand, Filter.countIn, hfind f hf] at hdemand
    exact ⟨(f.id, topic), by omega, Filter.covers_iff.1 hcovers⟩
  · rintro ⟨key, hlt, hcovers⟩
    have hdemand := h.demand key
    cases hf : Filter.find s.sub.filters key.1 with
    | none =>
      rw [demand, Filter.countIn_of_none hf] at hdemand
      omega
    | some f =>
      simp only [demand, Filter.countIn, hf] at hdemand
      refine ⟨f, Filter.find_mem hf, key.2, by omega, Filter.covers_iff.2 ?_⟩
      rwa [Filter.find_id hf]

theorem SubSystem.match_follows_bothFilters :
    ∃ s, run SubSystem.step init bothFilters = .ok s ∧
      ∃ b, SubReader.matchAny s.sub.filters [97, 98] = .ok b ∧
        (b = true ↔ ∃ key, s.tally.unsubscribes key < s.tally.subscribes key ∧
          Subscription.Covers key [97, 98]) :=
  match_follows_options (by decide) [97, 98]

end

namespace SubReaderSystem

variable {α : Type} [DecidableEq α] {subscriptions : Subscriptions} {s : SubReaderSystem α}

structure Inv (subscriptions : Subscriptions) (s : SubReaderSystem α) : Prop where
  unchanged : s.sub.subscriptions = subscriptions
  fed : s.sub.Fed s.fed s.ends
  returned : s.returned ++ s.sub.message.toList = s.sub.due
  place : s.sub.place = bif s.sub.message.elim s.sub.more Msg.more then some true else none
  aside : s.sub.message ≠ none → s.sub.more = false

theorem inv_init (subscriptions : Subscriptions) (inhwm outhwm : α → Nat) (delay : α → Bool) :
    Inv subscriptions (init subscriptions inhwm outhwm delay) where
  unchanged := rfl
  fed := Fq.feeding_init fun _ => ⟨rfl, rfl, rfl, rfl⟩
  returned := rfl
  place := rfl
  aside h := absurd rfl h

theorem Inv.fetchLoop (h : s.Inv subscriptions) (hmsg : s.sub.message = none) :
    ∃ r t ends', SubReader.fetchLoop (s.sub.fq.backlog s.ends + 1) s.sub s.ends = .ok (r, t, ends') ∧
      t.subscriptions = subscriptions ∧ t.Fed s.fed ends' ∧ t.message = none ∧ t.more = s.sub.more ∧ s.returned ++ r.toList = t.due ∧
      t.place = bif r.elim s.sub.more Msg.more then some true else none := by
  have hreturned := h.returned
  have hplace := h.place
  rw [hmsg] at hreturned hplace
  obtain ⟨r, t, ends', hloop, hfed, hread, hdue, hplace'⟩ :=
    SubReader.Fed.fetchLoop _ h.fed hplace (Nat.lt_succ_self _)
  refine ⟨r, t, ends', hloop, by rw [hread, h.unchanged], hfed, by rw [hread, hmsg], by rw [hread], ?_, hplace'⟩
  rw [hdue, ← hreturned, Option.toList_none, List.append_nil]

theorem Inv.xrecv (h : s.Inv subscriptions) : ∃ t, s.step .xrecv = .ok t ∧ t.Inv subscriptions := by
  cases hmsg : s.sub.message with
  | some msg =>
    have hreturned := h.returned
    have hplace := h.place
    rw [hmsg] at hreturned hplace
    refine ⟨{ s with sub := { s.sub with message := none, more := msg.more },
                     returned := s.returned ++ [msg] },
      by simp [step, SubReader.xrecv, hmsg], h.unchanged, h.fed, ?_, hplace, fun hne => absurd rfl hne⟩
    exact (List.append_nil _).trans hreturned
  | none =>
    obtain ⟨r, t, ends', hloop, hsubs, hfed, hnone, hmore, hdue, hplace⟩ := h.fetchLoop hmsg
    cases r with
    | none =>
      refine ⟨{ s with sub := t, ends := ends' },
        by simp [step, SubReader.xrecv, hmsg, hloop], hsubs, hfed, ?_, ?_, ?_⟩
      · simpa [hnone] using hdue
      · simpa [hnone, hmore] using hplace
      · exact fun hne => absurd hnone hne
    | some msg =>
      refine ⟨{ s with sub := { t with more := msg.more }, ends := ends', returned := s.returned ++ [msg] },
        by simp [step, SubReader.xrecv, hmsg, hloop], hsubs, hfed, ?_, ?_, ?_⟩
      · rw [hnone]
        exact (List.append_nil _).trans hdue
      · rw [hnone]
        exact hplace
      · exact fun hne => absurd hnone hne

theorem Inv.xhasIn (h : s.Inv subscriptions) : ∃ t, s.step .xhasIn = .ok t ∧ t.Inv subscriptions := by
  cases hm : s.sub.more with
  | true => exact ⟨s, by simp [step, SubReader.xhasIn, hm], h⟩
  | false =>
    cases hmsg : s.sub.message with
    | some msg => exact ⟨s, by simp [step, SubReader.xhasIn, hm, hmsg], h⟩
    | none =>
      obtain ⟨r, t, ends', hloop, hsubs, hfed, hnone, hmore, hdue, hplace⟩ := h.fetchLoop hmsg
      cases r with
      | none =>
        refine ⟨{ s with sub := t, ends := ends' },
          by simp [step, SubReader.xhasIn, hm, hmsg, hloop], hsubs, hfed, ?_, ?_, ?_⟩
        · simpa [hnone] using hdue
        · simpa [hnone, hmore] using hplace
        · exact fun hne => absurd hnone hne
      | some msg =>
        refine ⟨{ s with sub := { t with message := some msg }, ends := ends' },
          by simp [step, SubReader.xhasIn, hm, hmsg, hloop], hsubs, hfed, hdue, hplace, ?_⟩
        exact fun _ => hmore.trans hm

theorem Inv.step (h : s.Inv subscriptions) (op : SubReaderOp α) : ∃ t, s.step op = .ok t ∧ t.Inv subscriptions := by
  cases op with
  | pipes op =>
    obtain ⟨fq, ends, hstep, hfed⟩ := Fq.Feeding.step h.fed op
    exact ⟨{ s with sub := { s.sub with fq := fq }, ends := ends, fed := fun p => s.fed p ++ op.written p },
      by simp [SubReaderSystem.step, hstep], h.unchanged, hfed, h.returned, h.place, h.aside⟩
  | xrecv => exact h.xrecv
  | xhasIn => exact h.xhasIn

end SubReaderSystem

end Libxs
