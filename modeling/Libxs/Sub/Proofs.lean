import Libxs.Sub
import Libxs.XSub.Proofs

/-! # The two counts of a subscription in `sub_t` -/

namespace Libxs

variable {α : Type}

/-! ## Commands that `sub_t` makes -/

theorem XSub.xsend_errno [DecidableEq α] {x x' : XSub α} {ends ends' : Ends α} {msg : Msg} {c : Change Subscription}
    {errno : Option Errno} (hc : PubSub.parse msg.data = some c)
    (h : x.xsend ends msg = .ok (errno, x', ends')) : errno = none := by
  simp only [xsend, hc] at h
  grind

theorem XSubSystem.Inv.xsend [DecidableEq α] {s : XSubSystem α} (h : s.Inv) {c : Change Subscription}
    (hid : c.key.1 < 2 ^ 16) (hlt : c.present = true → s.sub.count c.key + 1 < 2 ^ 31) :
    ∃ x ends, s.sub.xsend s.ends (XSub.subscriptionMsg c.present c.key) = .ok (none, x, ends) ∧
      XSubSystem.Inv ⟨x, ends, s.spVersion,
        fun p => s.log p ++ XSubSystem.written (s.ends p) (ends p)⟩ ∧
      ∀ key, x.count key = s.sub.countAfter c key := by
  have hparse : PubSub.parse (XSub.subscriptionMsg c.present c.key).data = some c :=
    PubSub.parse_command hid
  obtain ⟨s', hs, hI, hcount, -⟩ := h.send hparse hlt
  simp only [XSubSystem.step] at hs
  grind [XSub.xsend_errno]

theorem XSubSystem.step_subscriptions [DecidableEq α] {s s' : XSubSystem α} {op : XSubOp α}
    (hop : ∀ msg, op ≠ .send msg) (h : s.step op = .ok s') :
    s'.sub.subscriptions = s.sub.subscriptions := by
  cases op with
  | send msg => exact absurd rfl (hop msg)
  | attach pipe inhwm outhwm delay ver =>
    simp only [step, XSub.xattachPipe] at h
    grind [plugged]
  | hiccup pipe =>
    simp only [step] at h
    grind [plugged]
  | activateWrite pipe n =>
    simp only [step, XSub.xwriteActivated] at h
    grind
  | terminated pipe =>
    simp only [step, XSub.xterminated] at h
    grind
  | change pipe e =>
    simp only [step] at h
    grind

namespace SubSystem

def demand (s : SubSystem α) (key : Subscription) : Nat := Filter.countIn s.sub.filters key ()

structure Inv (s : SubSystem α) : Prop where
  base : s.base.Inv
  wf : ∀ id f, Filter.find s.sub.filters id = some f → f.WF
  demand : ∀ key, s.demand key + s.tally.unsubscribes key = s.tally.subscribes key
  passed : ∀ key, s.sub.count key =
    if key.1 = PubSub.filterTopicId then s.tally.subscribes key
    else if 0 < s.demand key then 1 else 0

variable {s : SubSystem α} {data : List UInt8}

theorem inv_init : (init : SubSystem α).Inv where
  base := XSubSystem.inv_init
  wf id f h := by simp [init, Sub.init, Filter.find] at h
  demand key := rfl
  passed key := by
    simp [init, Sub.init, XSub.init, XSub.count, demand, Filter.countIn, Filter.find,
      Tally.init]

def Tracks (s : SubSystem α) : Prop :=
  ∀ key, key ∈ s.sub.subscriptions.keys ↔ s.tally.unsubscribes key < s.tally.subscribes key

def TopicsLast (s : SubSystem α) : Prop :=
  ∀ topic, 0 < s.tally.subscribes (PubSub.filterTopicId, topic) →
    s.tally.unsubscribes (PubSub.filterTopicId, topic) <
      s.tally.subscribes (PubSub.filterTopicId, topic)

theorem Inv.tracks_iff (h : s.Inv) : s.Tracks ↔ s.TopicsLast := by
  have hkeys : ∀ key, key ∈ s.sub.subscriptions.keys ↔ 0 < s.sub.count key :=
    h.base.positive.mem_keys
  constructor
  · intro ht topic hpos
    rw [← ht, hkeys, h.passed, if_pos rfl]
    exact hpos
  · rintro ht ⟨id, topic⟩
    rw [hkeys, h.passed]
    have hdemand := h.demand (id, topic)
    by_cases hid : id = PubSub.filterTopicId
    · subst hid
      rw [if_pos rfl]
      exact ⟨ht topic, fun hlt => Nat.lt_of_le_of_lt (Nat.zero_le _) hlt⟩
    · rw [if_neg hid]
      split <;> omega

theorem Inv.recorded (h : s.Inv) {filters : List (Filter Unit)} {x : XSub α} {ends : Ends α}
    {c : Change Subscription}
    (hplace : c.present = false → s.tally.unsubscribes c.key < s.tally.subscribes c.key)
    (hwf : ∀ id f, Filter.find filters id = some f → f.WF)
    (hcount : ∀ key, Filter.countIn filters key () =
      if key = c.key then (if c.present then s.demand c.key + 1 else s.demand c.key - 1)
      else s.demand key)
    (hbase : XSubSystem.Inv ⟨x, ends, s.spVersion,
      fun p => s.log p ++ XSubSystem.written (s.ends p) (ends p)⟩)
    (hothers : ∀ key, key ≠ c.key → x.count key = s.sub.count key)
    (hself : x.count c.key =
      if c.key.1 = PubSub.filterTopicId then s.sub.count c.key + (if c.present then 1 else 0)
      else if 0 < Filter.countIn filters c.key () then 1 else 0) :
    Inv { s with
      sub := ⟨x, filters, s.sub.filter⟩, ends := ends
      log := fun p => s.log p ++ XSubSystem.written (s.ends p) (ends p)
      tally := s.tally.note c } := by
  have hnote : ∀ key,
      (s.tally.note c).subscribes key =
          s.tally.subscribes key + (if key = c.key ∧ c.present = true then 1 else 0) ∧
        (s.tally.note c).unsubscribes key =
          s.tally.unsubscribes key + (if key = c.key ∧ c.present = false then 1 else 0) := by
    intro key
    cases hp : c.present with
    | true => by_cases hk : key = c.key <;> simp [Tally.note, hp, hk]
    | false => by_cases hk : key = c.key <;> simp [Tally.note, hp, hk, hplace hp]
  refine ⟨hbase, hwf, fun key => ?_, fun key => ?_⟩
  · show Filter.countIn filters key () + (s.tally.note c).unsubscribes key =
      (s.tally.note c).subscribes key
    rw [hcount, (hnote key).1, (hnote key).2]
    have hd := h.demand key
    by_cases hk : key = c.key
    · subst hk
      cases hp : c.present with
      | true => grind
      | false =>
        have := hplace hp
        simp only [if_true, true_and, Bool.false_eq_true, if_false]; omega
    · simpa [hk] using hd
  · show x.count key = if key.1 = PubSub.filterTopicId then (s.tally.note c).subscribes key
      else if 0 < Filter.countIn filters key () then 1 else 0
    rw [(hnote key).1]
    by_cases hk : key = c.key
    · grind [h.passed]
    · rw [hothers key hk, h.passed, hcount]
      simp [hk]

theorem countIn_changed (g : Nat → Nat) {f f' : Filter Unit} (hfid : f.id = s.sub.filter)
    (hf : ∀ d, f.countAt d () = s.demand (s.sub.filter, d)) (hid : f'.id = f.id)
    (hcount : ∀ d, f'.countAt d () = if d = data then g (f.countAt d ()) else f.countAt d ())
    (key : Subscription) :
    Filter.countIn (Filter.store s.sub.filters f') key () =
      if key = (s.sub.filter, data) then g (s.demand (s.sub.filter, data)) else s.demand key := by
  have hplace : ∀ d u, f.countAt d u = Filter.countIn s.sub.filters (f.id, d) u :=
    fun d _ => by rw [hf, hfid]; rfl
  have hchange : ∀ d u, f'.countAt d u =
      if d = data ∧ u = () then g (f.countAt d u) else f.countAt d u :=
    fun d _ => by simp [hcount]
  rw [Filter.countIn_update g hplace hid hchange key (), hfid]
  by_cases hkey : key = (s.sub.filter, data)
  · simp [hkey, demand]
  · simp [hkey, demand]

theorem Inv.untouched (h : s.Inv) : XSubSystem.Inv ⟨s.sub.toXSub, s.ends, s.spVersion,
    fun p => s.log p ++ XSubSystem.written (s.ends p) (s.ends p)⟩ := by
  simp only [XSubSystem.written_self, List.append_nil]
  exact h.base

variable [DecidableEq α]

def StepOk (s : SubSystem α) : SubOption α → Prop
  | .filter _ => True
  | .option true data =>
    Filter.BuiltIn s.sub.filter ∧
      s.tally.subscribes (s.sub.filter, data) + 1 <
        (if s.sub.filter = PubSub.filterTopicId then 0 else s.tally.unsubscribes (s.sub.filter, data))
          + 2 ^ 31
  | .option false data =>
    s.tally.unsubscribes (s.sub.filter, data) < s.tally.subscribes (s.sub.filter, data)
  | .pipes (.send _) => True
  | .pipes op => s.base.StepKeeps op

instance (s : SubSystem α) (op : SubOption α) : Decidable (s.StepOk op) := by
  unfold StepOk; split <;> infer_instance

theorem Inv.selected (h : s.Inv) (hid : Filter.BuiltIn s.sub.filter) (data : List UInt8) :
    ∃ f : Filter Unit, s.sub.xsetsockopt s.ends true data =
        s.sub.finish s.ends data (f.sfSubscribe data) ∧
      f.WF ∧ f.id = s.sub.filter ∧ ∀ d, f.countAt d () = s.demand (s.sub.filter, d) := by
  cases hf : Filter.find s.sub.filters s.sub.filter with
  | some f =>
    exact ⟨f, by simp only [Sub.xsetsockopt, hf], h.wf _ f hf, Filter.find_id hf,
      fun d => by simp only [SubSystem.demand, Filter.countIn, hf]⟩
  | none =>
    obtain ⟨f, hc⟩ : ∃ f : Filter Unit, Filter.create s.sub.filter = some f :=
      (Filter.create_isSome_iff _).2 hid
    obtain ⟨hwf, hzero⟩ := Filter.create_spec hc
    exact ⟨f, by simp only [Sub.xsetsockopt, hf, hc], hwf, Filter.create_id hc,
      fun d => by simp only [SubSystem.demand, Filter.countIn, hf, hzero]⟩

theorem Inv.calledBack (h : s.Inv) (f : Filter Unit) {present : Bool} (hid : s.sub.filter < 2 ^ 16)
    (hlt : present = true → s.sub.count (s.sub.filter, data) + 1 < 2 ^ 31) :
    ∃ x ends,
      Sub.assertDone (({ s.sub with filters := Filter.store s.sub.filters f } : Sub α).passOn
        s.ends present data) = .ok (⟨x, Filter.store s.sub.filters f, s.sub.filter⟩, ends) ∧
      XSubSystem.Inv ⟨x, ends, s.spVersion,
        fun p => s.log p ++ XSubSystem.written (s.ends p) (ends p)⟩ ∧
      ∀ key, x.count key = s.sub.countAfter ⟨present, s.sub.filter, data⟩ key := by
  have hsend := h.base.xsend (c := ⟨present, s.sub.filter, data⟩) hid hlt
  obtain ⟨x, ends, hsend, hbase, hx⟩ := hsend
  have hsend : s.sub.toXSub.xsend s.ends (XSub.subscriptionMsg present (s.sub.filter, data)) =
    .ok (none, x, ends) := hsend
  exact ⟨x, ends, by simp only [Sub.passOn, hsend, Sub.assertDone], hbase, hx⟩

theorem Inv.subscribe (h : s.Inv) (hk : s.StepOk (.option true data)) :
    ∃ s', s.step (.option true data) = .ok s' ∧ s'.Inv := by
  obtain ⟨hid, hlt⟩ := hk
  obtain ⟨f, hopt, hwf, hfid, hcount⟩ := h.selected hid data
  have hdemand := h.demand (s.sub.filter, data)
  have hpassed : s.sub.count (s.sub.filter, data) = if s.sub.filter = PubSub.filterTopicId then _
    else _ := h.passed (s.sub.filter, data)
  obtain ⟨ret, f', hsf, hwf', hid', hcount', hret⟩ := Filter.sfSubscribe_spec hwf data (by
    rw [hcount]
    split at hlt <;> omega)
  have hstored := countIn_changed (· + 1) hfid hcount hid' hcount'
  rw [hcount, hfid] at hret
  by_cases hcall : s.sub.filter = PubSub.filterTopicId ∨ s.demand (s.sub.filter, data) = 0
  · have hroom : true = true → s.sub.count (s.sub.filter, data) + 1 < 2 ^ 31 := fun _ => by
      rw [hpassed]
      grind
    obtain ⟨x, ends, hback, hbase, hx⟩ := h.calledBack f' hid.lt hroom
    rw [if_pos hcall] at hret
    subst hret
    refine ⟨_, by simp only [step, hopt, hsf, Sub.finish, Sub.filterSubscribed, hback],
      h.recorded (c := ⟨true, s.sub.filter, data⟩) (by simp) (Filter.wf_store h.wf hwf') hstored hbase
        (fun key hne => by rw [hx, XSub.countAfter, if_neg hne]) ?_⟩
    rw [hx, hstored]
    simp only [XSub.countAfter, if_true, hpassed]
    grind
  · rw [if_neg hcall] at hret
    subst hret
    obtain ⟨hpfx, hpos⟩ := not_or.1 hcall
    refine ⟨_, by simp only [step, hopt, hsf, Sub.finish, if_true],
      h.recorded (c := ⟨true, s.sub.filter, data⟩) (by simp) (Filter.wf_store h.wf hwf') hstored
        h.untouched (fun _ _ => rfl) ?_⟩
    rw [hstored]
    simp only [hpassed, if_neg hpfx, if_true, if_pos (Nat.pos_of_ne_zero hpos)]
    simp

theorem Inv.unsubscribe (h : s.Inv) (hk : s.StepOk (.option false data)) :
    ∃ s', s.step (.option false data) = .ok s' ∧ s'.Inv := by
  have hplace : s.tally.unsubscribes (s.sub.filter, data) <
    s.tally.subscribes (s.sub.filter, data) := hk
  have hdemand := h.demand (s.sub.filter, data)
  have hpassed : s.sub.count (s.sub.filter, data) = if s.sub.filter = PubSub.filterTopicId then _
    else _ := h.passed (s.sub.filter, data)
  have hpos : 0 < s.demand (s.sub.filter, data) := by omega
  obtain ⟨f, hf⟩ : ∃ f, Filter.find s.sub.filters s.sub.filter = some f := by
    grind [SubSystem.demand, Filter.countIn]
  have hfid := Filter.find_id hf
  have hcount : ∀ d, f.countAt d () = s.demand (s.sub.filter, d) := fun d => by
    simp only [SubSystem.demand, Filter.countIn, hf]
  obtain ⟨ret, f', hsf, hwf', hid', hcount', hret⟩ := Filter.sfUnsubscribe_spec (h.wf _ f hf) data (by
    rw [hcount]
    exact hpos)
  have hstored := countIn_changed (· - 1) hfid hcount hid' hcount'
  rw [hcount, hfid] at hret
  have hopt : s.sub.xsetsockopt s.ends false data =
    s.sub.finish s.ends data (f.sfUnsubscribe data) := by simp only [Sub.xsetsockopt, hf]
  by_cases hcall : s.sub.filter = PubSub.filterPrefixId ∧ s.demand (s.sub.filter, data) = 1
  · have hroom : false = true → s.sub.count (s.sub.filter, data) + 1 < 2 ^ 31 := by simp
    obtain ⟨x, ends, hback, hbase, hx⟩ := h.calledBack f'
      (by simp [hcall.1, PubSub.filterPrefixId]) hroom
    rw [if_pos hcall] at hret
    subst hret
    refine ⟨_, by simp only [step, hopt, hsf, Sub.finish, Sub.filterUnsubscribed, hback],
      h.recorded (c := ⟨false, s.sub.filter, data⟩) (fun _ => hplace) (Filter.wf_store h.wf hwf') hstored
        hbase (fun key hne => by rw [hx, XSub.countAfter, if_neg hne]) ?_⟩
    rw [hx, hstored]
    have hpfx : s.sub.filter ≠ PubSub.filterTopicId := by
      rw [hcall.1]
      decide
    simp only [XSub.countAfter, if_true, hpassed, if_neg hpfx, hcall.2]
    simp
  · rw [if_neg hcall] at hret
    subst hret
    refine ⟨_, by simp only [step, hopt, hsf, Sub.finish, if_true],
      h.recorded (c := ⟨false, s.sub.filter, data⟩) (fun _ => hplace) (Filter.wf_store h.wf hwf') hstored
        h.untouched (fun _ _ => rfl) ?_⟩
    rw [hstored]
    by_cases htopic : s.sub.filter = PubSub.filterTopicId
    · simp [htopic]
    · have hpfx : s.sub.filter = PubSub.filterPrefixId :=
        (hfid ▸ f.builtIn_id).resolve_right htopic
      have hmore : s.demand (s.sub.filter, data) ≠ 1 := fun hone => hcall ⟨hpfx, hone⟩
      have hstill : 0 < s.demand (s.sub.filter, data) - 1 := by omega
      simp only [hpassed, if_neg htopic, if_true, if_pos hpos, if_pos hstill]

theorem Inv.step (h : s.Inv) (op : SubOption α) (hk : s.StepOk op) :
    ∃ s', s.step op = .ok s' ∧ s'.Inv := by
  cases op with
  | filter id => exact ⟨_, rfl, h.base, h.wf, h.demand, h.passed⟩
  | option subscribe data =>
    cases subscribe with
    | true => exact h.subscribe hk
    | false => exact h.unsubscribe hk
  | pipes op =>
    by_cases hsend : ∃ msg, op = .send msg
    · obtain ⟨msg, rfl⟩ := hsend
      exact ⟨s, rfl, h⟩
    · rw [not_exists] at hsend
      have hkeeps : s.base.StepKeeps op := by
        cases op <;> first | exact hk | exact absurd rfl (hsend _)
      obtain ⟨b, hb, hI⟩ := h.base.step op hkeeps
      have hpipes : s.step (.pipes op) = .ok (s.withBase b) := by
        cases op <;> first | exact absurd rfl (hsend _) | simp only [SubSystem.step, hb]
      refine ⟨s.withBase b, hpipes, hI, h.wf, h.demand, fun key => ?_⟩
      have hsame : b.sub.count key = s.sub.count key := by
        simp only [XSub.count, XSubSystem.step_subscriptions hsend hb]
        rfl
      exact hsame.trans (h.passed key)

/-- **The cache follows the user's subscriptions exactly as long as no subscription of the topic filter
    is given up for good.** -/
theorem upstream_tracks_iff {ops : List (SubOption α)}
    (hops : RunMeets step StepOk init ops) :
    ∃ s, run step init ops = .ok s ∧ (s.Tracks ↔ s.TopicsLast) := by
  obtain ⟨s, hrun, h⟩ := run_safe_meets (fun s op hI hk => hI.step op hk) ops init inv_init hops
  exact ⟨s, hrun, h.tracks_iff⟩

def bothFilters : List (SubOption Nat) :=
  [.option true [97], .option true [97], .filter 2, .option true [97], .option true [97],
    .option false [97], .pipes (.attach 0 0 0 true 4), .filter 1, .option false [97],
    .option false [97]]

theorem bothFilters_tracks :
    RunMeets step StepOk init bothFilters ∧
      ∃ s, run step init bothFilters = .ok s ∧ (s.Tracks ↔ s.TopicsLast) := by
  have hops : RunMeets step StepOk init bothFilters := by
    decide
  exact ⟨hops, upstream_tracks_iff hops⟩

def topicGivenUp : List (SubOption Nat) :=
  [.filter 2, .option true [97], .option false [97], .pipes (.attach 0 0 0 true 4)]

theorem topicGivenUp_resent :
    ∃ s, run step init topicGivenUp = .ok s ∧ ¬ s.Tracks ∧
      s.log 0 = [XSub.subscriptionMsg true (PubSub.filterTopicId, [97])] := by
  refine ⟨_, rfl, fun h => ?_, rfl⟩
  exact absurd ((h (PubSub.filterTopicId, [97])).1 (by decide)) (by decide)

end SubSystem

end Libxs
