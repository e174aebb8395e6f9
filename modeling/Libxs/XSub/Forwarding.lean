import Libxs.XSub.Proofs

/-! # What the upstream peers of `xsub_t` are told -/

namespace Libxs

/-! ## The history of the user's commands -/

namespace Tally

variable {t : Tally} {α : Type}

def exec {α : Type} (t : Tally) : XSubOp α → Tally
  | .send msg =>
    match PubSub.parse msg.data with
    | none => t
    | some c => t.note c
  | _ => t

def after {α : Type} (ops : List (XSubOp α)) : Tally := ops.foldl exec init

def Fits (t : Tally) : Prop := ∀ key, t.subscribes key < t.unsubscribes key + 2 ^ 31

theorem subscribes_exec_le (t : Tally) (op : XSubOp α) (key : Subscription) :
    (t.exec op).subscribes key ≤ t.subscribes key + 1 := by
  cases op with
  | send msg =>
    cases hc : PubSub.parse msg.data with
    | none => simp [exec, hc]
    | some c =>
      simp only [exec, hc, note]
      split_ifs
      · grind
      · exact Nat.le_succ _
      · exact Nat.le_succ _
  | attach | hiccup | activateWrite | terminated | change => exact Nat.le_succ _

theorem subscribes_foldl_le (ops : List (XSubOp α)) (t : Tally) (key : Subscription) :
    (ops.foldl exec t).subscribes key ≤ t.subscribes key + ops.length := by
  induction ops generalizing t with
  | nil => exact Nat.le_refl _
  | cons op ops ih =>
    have hstep := subscribes_exec_le t op key
    have hrest := ih (t.exec op)
    simp only [List.foldl_cons, List.length_cons]
    omega

def Matches {α : Type} (t : Tally) (x : XSub α) : Prop :=
  ∀ key, x.count key + t.unsubscribes key = t.subscribes key

theorem matches_init : init.Matches (XSub.init : XSub α) := fun key => by
  simp [init, XSub.init, XSub.count]

theorem Matches.pos_iff {x : XSub α} (h : t.Matches x) (key : Subscription) :
    0 < x.count key ↔ t.unsubscribes key < t.subscribes key := by
  have := h key
  omega

theorem Matches.note {x x' : XSub α} (h : t.Matches x)
    {c : Change Subscription} (hx' : ∀ key, x'.count key = x.countAfter c key) :
    (t.note c).Matches x' := by
  intro key
  have hc := h c.key
  have hk := h key
  rw [hx', XSub.countAfter]
  unfold Tally.note
  by_cases hkey : key = c.key
  · subst hkey
    rw [if_pos rfl]
    split_ifs with hp hlt
    · simp only [Function.update_self]
      omega
    · simp only [Function.update_self]
      omega
    · omega
  · rw [if_neg hkey]
    split_ifs <;> simpa [hkey] using hk

end Tally

namespace XSubSystem

variable {α : Type}

def changes (log : List Msg) : List (Change Subscription) :=
  log.filterMap fun msg => PubSub.parse msg.data

structure ToldAll (s : XSubSystem α) (p : α) : Prop where
  clean : Change.Clean (changes (s.log p))
  replays : ∀ key, Change.replay (changes (s.log p)) key = decide (0 < s.sub.count key)

structure Told (s : XSubSystem α) : Prop where
  inv : s.Inv
  idle : s.sub.dist.more = false
  ids : ∀ key, 0 < s.sub.count key → key.1 < 2 ^ 16
  elastic : ∀ p, s.sub.dist.attached p → (s.ends p).pipe.hwm = 0
  opened : ∀ p, s.sub.dist.attached p → (s.ends p).pipe.state = .active →
    (s.ends p).pipe.outActive = true
  told : ∀ p, s.sub.dist.attached p → (s.ends p).pipe.state = .active → s.ToldAll p

variable {s s' : XSubSystem α} {p : α}
variable {c : Change Subscription} {msg : Msg} {x : XSub α}

theorem told_init : (init : XSubSystem α).Told where
  inv := inv_init
  idle := rfl
  ids _ h := absurd h (by simp [init, XSub.init, XSub.count])
  elastic _ hp := absurd hp (by simp [init, XSub.init, Dist.init, ArrayT.empty, Dist.attached])
  opened _ hp := absurd hp (by simp [init, XSub.init, Dist.init, ArrayT.empty, Dist.attached])
  told _ hp := absurd hp (by simp [init, XSub.init, Dist.init, ArrayT.empty, Dist.attached])

theorem ToldAll.congr (h : s.ToldAll p) (hlog : s'.log p = s.log p)
    (hcount : ∀ key, 0 < s'.sub.count key ↔ 0 < s.sub.count key) : s'.ToldAll p := by
  refine ⟨hlog ▸ h.clean, fun key => ?_⟩
  rw [hlog, h.replays]
  exact decide_eq_decide.2 (hcount key).symm

theorem changes_cached {keys : List Subscription} (h : ∀ key ∈ keys, key.1 < 2 ^ 16) :
    changes (keys.map (XSub.subscriptionMsg true)) = Change.additions keys := by
  induction keys with
  | nil => rfl
  | cons key keys ih =>
    have hparse : PubSub.parse (XSub.subscriptionMsg true key).data = some ⟨true, key⟩ :=
      PubSub.parse_command (h key (by simp))
    have htail := ih fun k hk => h k (by simp [hk])
    simp only [changes, List.map_cons, List.filterMap_cons, hparse] at htail ⊢
    rw [htail]
    rfl

theorem toldAll_cached (hpos : s.sub.Positive) (hids : ∀ key, 0 < s.sub.count key → key.1 < 2 ^ 16)
    (hlog : s.log p = s.sub.subscriptions.keys.map (XSub.subscriptionMsg true)) : s.ToldAll p := by
  have hchanges := changes_cached fun key hk => hids key ((hpos.mem_keys key).1 hk)
  refine ⟨?_, fun key => ?_⟩
  · rw [hlog, hchanges]
    exact Change.clean_additions s.sub.subscriptions.keys_nodup
  · rw [hlog, hchanges, Change.replay_additions]
    exact decide_eq_decide.2 (hpos.mem_keys key)

theorem ToldAll.forward (h : s.ToldAll p)
    (hc : PubSub.parse msg.data = some c) (hfwd : s.sub.forwards c = true)
    (hlog : s'.log p = s.log p ++ [msg]) (hcount : ∀ key, s'.sub.count key = s.sub.countAfter c key) :
    s'.ToldAll p := by
  have hchanges : changes (s'.log p) = changes (s.log p) ++ [c] := by
    simp [hlog, changes, hc]
  have hnum : s.sub.count c.key = if c.present then 0 else 1 := by
    simpa [XSub.forwards] using hfwd
  refine ⟨?_, fun key => ?_⟩
  · rw [hchanges, Change.clean_concat]
    refine ⟨h.clean, ?_⟩
    rw [h.replays, hnum]
    cases c.present <;> simp
  · rw [hchanges, Change.replay_concat, hcount, XSub.countAfter]
    grind [Change.apply_self, Change.apply_of_ne, h.replays]

theorem pos_countAfter (hfwd : x.forwards c = false)
    (key : Subscription) : 0 < x.countAfter c key ↔ 0 < x.count key := by
  unfold XSub.forwards at hfwd
  unfold XSub.countAfter
  grind

theorem ids_countAfter
    (hc : PubSub.parse msg.data = some c) (hids : ∀ key, 0 < x.count key → key.1 < 2 ^ 16)
    (key : Subscription) (h : 0 < x.countAfter c key) : key.1 < 2 ^ 16 := by
  unfold XSub.countAfter at h
  grind [PubSub.parse_filterId]

theorem Told.undisturbed (h : s.Told) (hI : s'.Inv)
    (hsub : s'.sub.subscriptions = s.sub.subscriptions) (hmore : s'.sub.dist.more = s.sub.dist.more)
    (hatt : ∀ x, s'.sub.dist.attached x → s.sub.dist.attached x) (hlog : s'.log = s.log)
    (hends : ∀ x, (s'.ends x).pipe.hwm = (s.ends x).pipe.hwm ∧
      ((s'.ends x).pipe.state = .active → (s.ends x).pipe.state = .active ∧
        ((s.ends x).pipe.outActive = true → (s'.ends x).pipe.outActive = true))) : s'.Told := by
  have hcount : ∀ key, s'.sub.count key = s.sub.count key := fun key => by
    simp only [XSub.count, hsub]
  refine ⟨hI, hmore.trans h.idle, fun key => by rw [hcount]; exact h.ids key, fun x hx => ?_,
    fun x hx hst => ?_, fun x hx hst => ?_⟩
  · exact (hends x).1.trans (h.elastic x (hatt x hx))
  · grind [h.opened]
  · exact (h.told x (hatt x hx) ((hends x).2 hst).1).congr (by rw [hlog]) fun key => by rw [hcount]

variable [DecidableEq α]

def Elastic : XSubOp α → Prop
  | .attach _ _ outhwm _ _ => outhwm = 0
  | .send msg => msg.more = false
  | _ => True

instance : ∀ op : XSubOp α, Decidable (Elastic op)
  | .attach _ _ _ _ _ | .send _ => inferInstanceAs (Decidable (_ = _))
  | .hiccup _ | .activateWrite _ _ | .terminated _ | .change _ _ => inferInstanceAs (Decidable True)

theorem Told.pluggedIn (h : s.Told) (hI : s'.Inv) (hplug : s.PluggedIn s' p)
    (hhwm : s'.sub.dist.attached p → (s'.ends p).pipe.hwm = 0)
    (hatt : ∀ x, x ≠ p → s'.sub.dist.attached x → s.sub.dist.attached x) : s'.Told := by
  have hcount : ∀ key, s'.sub.count key = s.sub.count key := fun key => by
    simp only [XSub.count, hplug.subscriptions]
  have hids : ∀ key, 0 < s'.sub.count key → key.1 < 2 ^ 16 := fun key hk =>
    h.ids key (by rw [← hcount]; exact hk)
  refine ⟨hI, hplug.more.trans h.idle, hids, fun x hx => ?_, fun x hx hs => ?_, fun x hx hs => ?_⟩
  · by_cases hxp : x = p
    · subst hxp
      exact hhwm hx
    · rw [(hplug.others x hxp).1]
      exact h.elastic x (hatt x hxp hx)
  · by_cases hxp : x = p
    · subst hxp
      exact (hplug.told hx hs (hhwm hx)).1
    · rw [(hplug.others x hxp).1] at hs ⊢
      exact h.opened x (hatt x hxp hx) hs
  · by_cases hxp : x = p
    · subst hxp
      exact toldAll_cached hI.positive hids (hplug.told hx hs (hhwm hx)).2
    · rw [(hplug.others x hxp).1] at hs
      exact (h.told x (hatt x hxp hx) hs).congr (hplug.others x hxp).2 fun key => by rw [hcount]

theorem Told.send (h : s.Told) {msg : Msg} (hmore : msg.more = false) {c : Change Subscription}
    (hc : PubSub.parse msg.data = some c) (hlt : c.present = true → s.sub.count c.key + 1 < 2 ^ 31) :
    ∃ s', s.step (.send msg) = .ok s' ∧ s'.Told ∧
      ∀ key, s'.sub.count key = s.sub.countAfter c key := by
  obtain ⟨s', hs, hI, hcount, hatt, hlog, hkeep, hsend⟩ := h.inv.send hc hlt
  refine ⟨s', hs, ?_, hcount⟩
  have hids : ∀ key, 0 < s'.sub.count key → key.1 < 2 ^ 16 := fun key hk =>
    ids_countAfter hc h.ids key (by rw [← hcount]; exact hk)
  cases hfwd : s.sub.forwards c with
  | false =>
    obtain ⟨hends, hdist⟩ := hkeep hfwd
    refine ⟨hI, by rw [hdist]; exact h.idle, hids, fun x hx => ?_, fun x hx hst => ?_,
      fun x hx hst => ?_⟩
    · rw [hends]
      exact h.elastic x ((hatt x).1 hx)
    · rw [hends] at hst ⊢
      exact h.opened x ((hatt x).1 hx) hst
    · rw [hends] at hst
      refine (h.told x ((hatt x).1 hx) hst).congr (by simp [hlog, hends]) fun key => ?_
      rw [hcount]
      exact pos_countAfter hfwd key
  | true =>
    obtain ⟨hmore', hsent, hrest⟩ := hsend hfwd
    -- an open pipe is eligible, hence active between messages, and nothing makes it refuse
    have hone : ∀ x, s.sub.dist.attached x → (s.ends x).pipe.state = .active →
        s'.ends x = (s.ends x).sent msg ∧ (s.ends x).accepts = true := fun x hx hst => by
      have hopen := h.opened x hx hst
      have hact := (h.inv.dist.active_iff h.idle hx).2 ((h.inv.tracks x hx hst).1 hopen)
      refine ⟨hsent x hx hact, ?_⟩
      simp [Endpoint.accepts, Pipe.checkWrite_fst, hopen, hst, Pipe.full, h.elastic x hx]
    have hfields : ∀ x, s'.sub.dist.attached x →
        (s'.ends x).pipe.state = (s.ends x).pipe.state ∧
          (s'.ends x).pipe.hwm = (s.ends x).pipe.hwm := fun x hx => by
      have hx' := (hatt x).1 hx
      by_cases hA : s.sub.dist.pipes.index x < s.sub.dist.active
      · obtain ⟨hst, hhwm, -⟩ := (h.inv.sound x ((h.inv.members x).1 hx').1).sent_ok msg
        rw [hsent x hx' hA]
        exact ⟨hst, hhwm⟩
      · grind
    refine ⟨hI, hmore'.trans hmore, hids, fun x hx => ?_, fun x hx hst => ?_, fun x hx hst => ?_⟩
    · rw [(hfields x hx).2]
      exact h.elastic x ((hatt x).1 hx)
    · have hx' := (hatt x).1 hx
      rw [(hfields x hx).1] at hst
      obtain ⟨hends, hacc⟩ := hone x hx' hst
      obtain ⟨-, -, hout, -⟩ := (h.inv.sound x ((h.inv.members x).1 hx').1).sent_ok msg
      rw [hends]
      exact (hout hst).trans hacc
    · have hx' := (hatt x).1 hx
      rw [(hfields x hx).1] at hst
      obtain ⟨hends, hacc⟩ := hone x hx' hst
      obtain ⟨-, -, -, hqueue⟩ := (h.inv.sound x ((h.inv.members x).1 hx').1).sent_ok msg
      refine (h.told x hx' hst).forward hc hfwd ?_ hcount
      rw [hlog, hends, written, hqueue, hacc]
      simp

theorem Told.step (h : s.Told) {t : Tally} (ht : t.Matches s.sub) {op : XSubOp α} (hel : Elastic op)
    (hfits : (t.exec op).Fits) :
    ∃ s', s.step op = .ok s' ∧ s'.Told ∧ (t.exec op).Matches s'.sub := by
  have hsame : ∀ {s' : XSubSystem α}, s'.sub.subscriptions = s.sub.subscriptions →
      t.Matches s'.sub := fun hsub key => by
    have := ht key
    simpa only [XSub.count, hsub] using this
  cases op with
  | attach p inhwm outhwm delay ver =>
    by_cases hp : s.attached p
    · exact ⟨s, by simp only [XSubSystem.step, hp, if_true], h, ht⟩
    · obtain ⟨s', hs, hI, hplug, hhwm, hatt⟩ := h.inv.attach hp inhwm outhwm delay ver
        (Or.inr (Pipe.takes_of_hwm hel))
      refine ⟨s', hs, h.pluggedIn hI hplug (fun _ => hhwm.trans hel) fun x hxp hx => ?_,
        hsame hplug.subscriptions⟩
      exact ((hatt x).1 hx).resolve_right fun hc => hxp hc.1
  | send msg =>
    cases hc : PubSub.parse msg.data with
    | none => exact ⟨s, send_malformed hc, h, by simpa [Tally.exec, hc] using ht⟩
    | some c =>
      have hlt : c.present = true → s.sub.count c.key + 1 < 2 ^ 31 := fun hp => by
        have hnext := hfits c.key
        have hnow := ht c.key
        simp only [Tally.exec, hc, Tally.note, hp, if_true, Function.update_self] at hnext
        omega
      obtain ⟨s', hs, hT, hcount⟩ := h.send hel hc hlt
      exact ⟨s', hs, hT, by simpa [Tally.exec, hc] using ht.note hcount⟩
  | hiccup p =>
    by_cases hp : s.attached p ∧ (s.ends p).pipe.outpipe ≠ none
    · obtain ⟨s', hs, hI, hplug, -, hhwm, hsub⟩ := h.inv.hiccup hp.1 hp.2 fun hd hst =>
        iff_of_true ((h.inv.tracks p hd hst).1 (h.opened p hd hst))
          (Pipe.takes_of_hwm (h.elastic p hd))
      refine ⟨s', hs, h.pluggedIn hI hplug (fun hd => ?_) (fun x _ hx => hsub ▸ hx),
        hsame hplug.subscriptions⟩
      rw [hhwm]
      exact h.elastic p (hsub ▸ hd)
    · exact ⟨s, by simp only [XSubSystem.step, hp, if_false], h, ht⟩
  | activateWrite p n =>
    by_cases hp : s.attached p
    · obtain ⟨s', hs, hI, hsub, hmore, hatt, hlog, hends⟩ := h.inv.activateWrite hp n
      refine ⟨s', hs, h.undisturbed hI hsub hmore (fun x hx => (hatt x).1 hx) hlog fun x => ?_,
        hsame hsub⟩
      exact ⟨(hends x).2.1, fun hst => ⟨(hends x).1.symm.trans hst, (hends x).2.2⟩⟩
    · exact ⟨s, by simp only [XSubSystem.step, hp, if_false], h, ht⟩
  | terminated p =>
    by_cases hp : s.attached p
    · obtain ⟨s', hs, hI, hsub, hmore, hatt, hlog, hends⟩ := h.inv.terminated hp
      refine ⟨s', hs, h.undisturbed hI hsub hmore hatt hlog fun x => ?_, hsame hsub⟩
      rw [hends]
      exact ⟨rfl, fun hst => ⟨hst, id⟩⟩
    · exact ⟨s, by simp only [XSubSystem.step, hp, if_false], h, ht⟩
  | change p e =>
    simp only [XSubSystem.step]
    split
    next hc =>
      refine ⟨_, rfl, h.undisturbed (h.inv.change hc.1 hc.2) rfl rfl (fun _ hx => hx) rfl
        fun x => ?_, ht⟩
      by_cases hxp : x = p
      · subst hxp
        simp only [Function.update_self]
        exact ⟨hc.2.2.1, fun hst => ⟨(hc.2.1 hst).1, fun ho => (hc.2.1 hst).2.trans ho⟩⟩
      · simp [hxp]
    · exact ⟨s, rfl, h, ht⟩

/-- **Every upstream peer is told exactly the subscriptions in place**, and nothing twice, as long as
    no pair is subscribed to `2 ^ 31` times at once. -/
theorem forwarding_converges {ops : List (XSubOp α)} (hel : ∀ op ∈ ops, Elastic op)
    (hfits : ∀ pre, pre <+: ops → (Tally.after pre).Fits) :
    ∃ s, run step init ops = .ok s ∧
      ∀ p, s.attached p → s.spVersion p ≠ 1 → (s.ends p).pipe.state = .active →
        (∀ key, Change.replay (changes (s.log p)) key = true ↔
          (Tally.after ops).unsubscribes key < (Tally.after ops).subscribes key) ∧
        Change.Clean (changes (s.log p)) := by
  obtain ⟨s, hrun, hT, hM⟩ := run_refines
    (fun s t op (hR : s.Told ∧ t.Matches s.sub) hel hfits =>
      hR.1.step hR.2 hel hfits)
    ops init Tally.init ⟨told_init, Tally.matches_init⟩ hel hfits
  refine ⟨s, hrun, fun p hp hv hst => ?_⟩
  have htold := hT.told p ((hT.inv.members p).2 ⟨hp, hv⟩) hst
  exact ⟨fun key => by rw [htold.replays, decide_eq_true_eq]; exact hM.pos_iff key, htold.clean⟩

def reconnect : List (XSubOp Nat) :=
  [.send (XSub.subscriptionMsg true (1, [97])), .send (XSub.subscriptionMsg true (2, [98])),
    .attach 0 0 0 true 4, .send (XSub.subscriptionMsg true (2, [98])),
    .send (XSub.subscriptionMsg false (1, [97])), .send (XSub.subscriptionMsg false (2, [98])),
    .hiccup 0, .attach 1 0 0 true 3]

theorem reconnect_converges :
    (∀ op ∈ reconnect, Elastic op) ∧ (∀ pre, pre <+: reconnect → (Tally.after pre).Fits) ∧
      ∃ s, run step init reconnect = .ok s ∧
        ∀ p, s.attached p → s.spVersion p ≠ 1 → (s.ends p).pipe.state = .active →
          Change.Clean (changes (s.log p)) := by
  have hel : ∀ op ∈ reconnect, Elastic op := by
    decide
  have hfits : ∀ pre, pre <+: reconnect → (Tally.after pre).Fits := fun pre hpre key => by
    have hle : (Tally.after pre).subscribes key ≤ 0 + pre.length :=
      Tally.subscribes_foldl_le pre Tally.init key
    have hlen := hpre.length_le
    have hlen' : reconnect.length = 8 := rfl
    omega
  obtain ⟨s, hs, h⟩ := forwarding_converges hel hfits
  exact ⟨hel, hfits, s, hs, fun p hp hv hst => (h p hp hv hst).2⟩

/-! ## The limit of the counts -/

def again : XSubOp Nat := .send (XSub.subscriptionMsg true (1, [97]))

theorem run_again (n : Nat) : ∀ {s : XSubSystem Nat}, s.Inv → s.sub.count (1, [97]) + n + 1 = 2 ^ 31 →
    run step s (List.replicate (n + 1) again) = .error .signedOverflow := by
  have hc : PubSub.parse (XSub.subscriptionMsg true (1, [97])).data = some ⟨true, 1, [97]⟩ :=
    PubSub.parse_command (by decide)
  induction n with
  | zero =>
    intro s _ hn
    have hno : ¬ s.sub.count (1, [97]) + 1 < 2 ^ 31 := by omega
    simp only [List.replicate, run, again, step, XSub.xsend, hc, XSub.process,
      XSub.subscribe, if_true, hno, if_false]
  | succ n ih =>
    intro s h hn
    obtain ⟨s', hs, hI, hcount, -⟩ := h.send hc (fun _ => by simp only; omega)
    rw [List.replicate_succ, again, run_cons_ok hs]
    refine ih hI ?_
    rw [hcount, XSub.countAfter, if_pos rfl, if_pos rfl]
    simp only
    omega

theorem counts_overflow :
    (∀ op ∈ List.replicate (2 ^ 31) again, Elastic op) ∧
      run step init (List.replicate (2 ^ 31) again) = .error .signedOverflow := by
  refine ⟨fun op hop => ?_, ?_⟩
  · rw [List.eq_of_mem_replicate hop]
    rfl
  · have hlast : (2 : Nat) ^ 31 = (2 ^ 31 - 1) + 1 := by omega
    rw [hlast]
    exact run_again _ inv_init (by simp [init, XSub.init, XSub.count])

end XSubSystem

end Libxs
