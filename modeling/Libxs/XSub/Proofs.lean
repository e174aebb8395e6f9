import Libxs.Dist.Proofs
import Libxs.XSub

/-! # The distributor of `xsub_t` and the pipes behind its back -/

namespace Libxs

/-! ## Room for several messages -/

def Pipe.Takes : Nat → Pipe → Prop
  | 0, _ => True
  | n + 1, p =>
    p.full = false ∧ Pipe.Takes n { p with msgsWritten := (p.msgsWritten + 1) % 2 ^ 64 }

instance Pipe.takesDecidable : ∀ (n : Nat) (p : Pipe), Decidable (Pipe.Takes n p)
  | 0, _ => inferInstanceAs (Decidable True)
  | n + 1, p =>
    have := Pipe.takesDecidable n { p with msgsWritten := (p.msgsWritten + 1) % 2 ^ 64 }
    inferInstanceAs (Decidable (_ ∧ _))

theorem Pipe.takes_of_hwm {n : Nat} {p : Pipe} (h : p.hwm = 0) : Pipe.Takes n p := by
  induction n generalizing p with
  | zero => trivial
  | succ n ih => exact ⟨by simp [Pipe.full, h], ih h⟩

theorem Pipe.takes_congr {n : Nat} : ∀ {p p' : Pipe}, p'.hwm = p.hwm → p'.msgsWritten = p.msgsWritten →
    p'.peersMsgsRead = p.peersMsgsRead → (Pipe.Takes n p' ↔ Pipe.Takes n p) := by
  induction n with
  | zero => intros; exact Iff.rfl
  | succ n ih =>
    intro p p' hhwm hw hr
    have hfull : p'.full = p.full := by simp only [Pipe.full, hhwm, hw, hr]
    simp only [Pipe.Takes, hfull, hw]
    exact and_congr_right fun _ => ih hhwm rfl hr

namespace XSub

theorem sendSubscriptions_spec (keys : List Subscription) : ∀ {e : Endpoint}, e.Sound →
    ∃ e', sendSubscriptions e keys = .ok e' ∧ e'.Sound ∧ e'.pipe.state = e.pipe.state ∧
      e'.pipe.hwm = e.pipe.hwm ∧
      (e.pipe.state = .active →
        (e'.pipe.outActive = true ↔ e.pipe.outActive = true ∧ e.pipe.Takes keys.length) ∧
        (e'.pipe.outActive = true → e'.outq.queue = e.outq.queue ++ keys.map (subscriptionMsg true))) := by
  induction keys with
  | nil =>
    intro e h
    exact ⟨e, rfl, h, rfl, rfl, fun _ => by simp [Pipe.Takes]⟩
  | cons key keys ih =>
    intro e h
    obtain ⟨e₁, hw, hs₁⟩ := h.write (subscriptionMsg true key)
    obtain ⟨-, hstate₁, hhwm₁, hact₁, hqueue₁⟩ := Endpoint.write_ok hw
    obtain ⟨e', hloop, hs', hstate', hhwm', hrest⟩ := ih hs₁
    have hsend : sendSubscriptions e (key :: keys) = .ok e' := by
      simp only [sendSubscriptions, sendSubscription, hw, hloop]
    refine ⟨e', hsend, hs', hstate'.trans hstate₁, hhwm'.trans hhwm₁, fun hactive => ?_⟩
    obtain ⟨hopen, hqueue'⟩ := hrest (hstate₁.trans hactive)
    have hacc : e.accepts = (e.pipe.outActive && !e.pipe.full) := by
      simp [Endpoint.accepts, Pipe.checkWrite_fst, hactive]
    cases ha : e.accepts with
    | false =>
      -- from here on every subscription is dropped
      have hshut : e₁.pipe.outActive = false := (hact₁ hactive).trans ha
      have hno : e'.pipe.outActive ≠ true := fun hc => by
        rw [(hopen.1 hc).1] at hshut
        cases hshut
      refine ⟨⟨fun hc => absurd hc hno, fun hc => ?_⟩, fun hc => absurd hc hno⟩
      rw [ha, hc.1, hc.2.1] at hacc
      cases hacc
    | true =>
      rw [ha] at hw hacc hqueue₁
      obtain ⟨-, hpipe₁, -⟩ := Endpoint.write_true hw
      simp only [subscriptionMsg, Msg.more, Msg.moreFlag] at hpipe₁
      obtain ⟨hout, hfull⟩ : e.pipe.outActive = true ∧ e.pipe.full = false := by
        simpa using hacc.symm
      have htakes : e.pipe.Takes (key :: keys).length ↔ e₁.pipe.Takes keys.length := by
        rw [hpipe₁]
        simp [Pipe.Takes, hfull]
      rw [htakes]
      refine ⟨?_, fun hc => ?_⟩
      · rw [hopen, (hact₁ hactive).trans ha, hout]
      · rw [hqueue' hc, hqueue₁]
        simp

theorem sendCached_spec {α : Type} (x : XSub α) {e : Endpoint} (h : e.Sound) :
    ∃ e', x.sendCached e = .ok e' ∧ e'.Sound ∧ e'.pipe.state = e.pipe.state ∧
      e'.pipe.hwm = e.pipe.hwm ∧
      (e.pipe.state = .active →
        (e'.pipe.outActive = true ↔
          e.pipe.outActive = true ∧ e.pipe.Takes x.subscriptions.keys.length) ∧
        (e'.pipe.outActive = true →
          e'.outq.queue = e.outq.queue ++ x.subscriptions.keys.map (subscriptionMsg true))) := by
  obtain ⟨e', hloop, hs, hrest⟩ := sendSubscriptions_spec x.subscriptions.keys h
  refine ⟨e'.flush, by simp only [sendCached, hloop], ?_, ?_⟩
  · rw [Endpoint.Sound, Endpoint.flush_pipe]
    exact hs
  · rw [Endpoint.flush_pipe, Endpoint.flush_queue]
    exact hrest

/-! ## Counting subscriptions -/

theorem lookup_insert_ite (subs : AList fun _ : Subscription => Nat) (key₀ key : Subscription)
    (n : Nat) :
    (subs.insert key₀ n).lookup key = if key = key₀ then some n else subs.lookup key := by
  by_cases hk : key = key₀
  · subst hk
    simp
  · simp [hk]

theorem lookup_erase_ite (subs : AList fun _ : Subscription => Nat) (key₀ key : Subscription) :
    (subs.erase key₀).lookup key = if key = key₀ then none else subs.lookup key := by
  by_cases hk : key = key₀
  · subst hk
    simp
  · simp [hk]

variable {α : Type}

def Positive (x : XSub α) : Prop := ∀ key, x.subscriptions.lookup key ≠ some 0

theorem Positive.mem_keys {x : XSub α} (h : x.Positive) (key : Subscription) :
    key ∈ x.subscriptions.keys ↔ 0 < x.count key := by
  rw [← AList.mem_keys, ← AList.lookup_isSome, count]
  cases hl : x.subscriptions.lookup key with
  | none => simp
  | some n =>
    have hn : n ≠ 0 := fun h0 => h key (h0 ▸ hl)
    simp [Nat.pos_of_ne_zero hn]

def countAfter (x : XSub α) (c : Change Subscription) (key : Subscription) : Nat :=
  if key = c.key then (if c.present then x.count c.key + 1 else x.count c.key - 1) else x.count key

def forwards (x : XSub α) (c : Change Subscription) : Bool :=
  x.count c.key == if c.present then 0 else 1

theorem process_spec {x : XSub α} (h : x.Positive) {c : Change Subscription}
    (hlt : c.present = true → x.count c.key + 1 < 2 ^ 31) :
    ∃ subs, x.process c = .ok (x.forwards c, { x with subscriptions := subs }) ∧
      ({ x with subscriptions := subs } : XSub α).Positive ∧
      ∀ key, ({ x with subscriptions := subs } : XSub α).count key = x.countAfter c key := by
  obtain ⟨present, key₀⟩ := c
  cases present with
  | true =>
    refine ⟨x.subscriptions.insert key₀ (x.count key₀ + 1), ?_, fun key => ?_, fun key => ?_⟩
    · have hlt : x.count key₀ + 1 < 2 ^ 31 := hlt rfl
      simp only [process, subscribe, if_true, hlt]
      simp [forwards]
    · have := h key
      simp only [lookup_insert_ite]
      split <;> simp_all
    · simp only [count, countAfter, lookup_insert_ite]
      split <;> simp
  | false =>
    cases hl : x.subscriptions.lookup key₀ with
    | none =>
      refine ⟨x.subscriptions, ?_, h, fun key => ?_⟩
      · simp [process, unsubscribe, forwards, hl, count]
      · grind [count, countAfter]
    | some n =>
      match n, hl with
      | 0, hl => exact absurd hl (h key₀)
      | 1, hl =>
        refine ⟨x.subscriptions.erase key₀, ?_, fun key => ?_, fun key => ?_⟩
        · simp [process, unsubscribe, forwards, hl, count]
        · have := h key
          simp only [lookup_erase_ite]
          split <;> simp_all
        · simp only [count, countAfter, hl, lookup_erase_ite]
          split <;> simp
      | n + 2, hl =>
        refine ⟨x.subscriptions.insert key₀ (n + 1), ?_, fun key => ?_, fun key => ?_⟩
        · simp [process, unsubscribe, forwards, hl, count]
        · have := h key
          simp only [lookup_insert_ite]
          split <;> simp_all
        · simp only [count, countAfter, hl, lookup_insert_ite]
          split <;> simp

end XSub

/-! ## The fair queue, as far as it matters here -/

namespace Fq

variable {α : Type} [DecidableEq α] {fq : Fq α} {p : α}

theorem attach_all (h : fq.toRotor.Inv fun _ => True) (hp : ¬ fq.attached p) :
    ∃ fq', fq.attach p = .ok fq' ∧ (fq'.toRotor.Inv fun _ => True) ∧
      ∀ x, fq'.attached x ↔ fq.attached x ∨ x = p := by
  obtain ⟨r, hr, hinv, hatt, -⟩ := h.attach hp
  refine ⟨{ fq with toRotor := r }, by simp only [attach, withRotor, hr], ?_, hatt⟩
  exact hinv.congr fun _ _ => by simp

theorem terminated_all (h : fq.toRotor.Inv fun _ => True) (hp : fq.attached p) :
    ∃ fq', fq.terminated p = .ok fq' ∧ (fq'.toRotor.Inv fun _ => True) ∧
      ∀ x, fq'.attached x ↔ fq.attached x ∧ x ≠ p := by
  have hkeeps : fq.toRotor.TerminatedKeeps p := Or.inr (Or.inr h.active_eq_size)
  obtain ⟨r, hr, hinv, hatt⟩ := h.terminated hp hkeeps
  exact ⟨{ fq with toRotor := r }, by simp only [terminated, withRotor, hr], hinv, hatt⟩

end Fq

theorem Endpoint.processHiccup_ok {e : Endpoint} (h : e.pipe.outpipe ≠ none) :
    e.processHiccup = .ok (e.pipe.state == .active,
      { e with pipe := { e.pipe with outpipe := some 1, outActive := true }, outq := YPipe.init }) := by
  obtain ⟨o, ho⟩ := Option.ne_none_iff_exists'.1 h
  simp only [Endpoint.processHiccup, Pipe.processHiccup, ho]

namespace XSubSystem

variable {α : Type}

def eligible (s : XSubSystem α) (p : α) : Prop := s.sub.dist.pipes.index p < s.sub.dist.eligible
deriving Decidable

structure Inv (s : XSubSystem α) : Prop where
  fq : s.sub.fq.toRotor.Inv fun _ => True
  dist : s.sub.dist.Layered (fun x => s.sub.dist.pipes.index x < s.sub.dist.matching)
    (fun x => s.sub.dist.pipes.index x < s.sub.dist.active) s.eligible
  members : ∀ p, s.sub.dist.attached p ↔ s.attached p ∧ s.spVersion p ≠ 1
  sound : ∀ p, s.attached p → (s.ends p).Sound
  tracks : ∀ p, s.sub.dist.attached p → (s.ends p).pipe.state = .active →
    ((s.ends p).pipe.outActive = true ↔ s.eligible p)
  legacy : ∀ p, s.attached p → s.spVersion p = 1 → (s.ends p).pipe.state = .active →
    (s.ends p).pipe.outActive = true
  positive : s.sub.Positive

variable {s : XSubSystem α} {p : α}

theorem Inv.of_layered {M A E : α → Prop} (hfq : s.sub.fq.toRotor.Inv fun _ => True)
    (hdist : s.sub.dist.Layered M A E)
    (hmembers : ∀ p, s.sub.dist.attached p ↔ s.attached p ∧ s.spVersion p ≠ 1)
    (hsound : ∀ p, s.attached p → (s.ends p).Sound)
    (htracks : ∀ p, s.sub.dist.attached p → (s.ends p).pipe.state = .active →
      ((s.ends p).pipe.outActive = true ↔ E p))
    (hlegacy : ∀ p, s.attached p → s.spVersion p = 1 → (s.ends p).pipe.state = .active →
      (s.ends p).pipe.outActive = true) (hpositive : s.sub.Positive) : s.Inv where
  fq := hfq
  dist := hdist.self
  members := hmembers
  sound := hsound
  tracks p hp hs := (htracks p hp hs).trans (hdist.eligible.mem_iff p hp).symm
  legacy := hlegacy
  positive := hpositive

theorem inv_init : (init : XSubSystem α).Inv where
  fq := Rotor.inv_init _
  dist := Dist.layered_init _ _ _
  members p := by simp [init, XSub.init, Dist.init, Fq.init, Rotor.init, ArrayT.empty, attached,
    Dist.attached, Rotor.attached]
  sound _ hp := absurd hp (by simp [init, XSub.init, Fq.init, Rotor.init, ArrayT.empty,
    Rotor.attached])
  tracks _ hp := absurd hp (by simp [init, XSub.init, Dist.init, ArrayT.empty, Dist.attached])
  legacy _ hp := absurd hp (by simp [init, XSub.init, Fq.init, Rotor.init, ArrayT.empty,
    Rotor.attached])
  positive key := by simp [init, XSub.init]

structure Consistent (s : XSubSystem α) : Prop where
  matching_le : s.sub.dist.matching ≤ s.sub.dist.active
  active_le : s.sub.dist.active ≤ s.sub.dist.eligible
  eligible_le : s.sub.dist.eligible ≤ s.sub.dist.pipes.size
  open_eligible : ∀ p, s.sub.dist.attached p → (s.ends p).accepts = true → s.eligible p

theorem Inv.consistent (h : s.Inv) : s.Consistent where
  matching_le := h.dist.matching_le
  active_le := h.dist.active_le
  eligible_le := h.dist.eligible.le_size
  open_eligible p hp hacc := by
    have hopen : ((s.ends p).pipe.outActive = true ∧ (s.ends p).pipe.state = .active) ∧
        (s.ends p).pipe.full = false := by
      simpa [Endpoint.accepts, Pipe.checkWrite_fst] using hacc
    exact (h.tracks p hp hopen.1.2).1 hopen.1.1

variable [DecidableEq α]

def StepKeeps (s : XSubSystem α) : XSubOp α → Prop
  | .attach pipe inhwm outhwm delay spVersion =>
    s.attached pipe ∨ spVersion = 1 ∨
      (Pipe.init 0 1 inhwm outhwm delay).Takes s.sub.subscriptions.keys.length
  | .hiccup pipe =>
    s.sub.dist.attached pipe → (s.ends pipe).pipe.state = .active →
      (s.eligible pipe ↔ (s.ends pipe).pipe.Takes s.sub.subscriptions.keys.length)
  | .send msg =>
    ∀ c ∈ PubSub.parse msg.data, c.present = true → s.sub.count c.key + 1 < 2 ^ 31
  | _ => True

instance (s : XSubSystem α) (op : XSubOp α) : Decidable (s.StepKeeps op) := by
  cases op <;> unfold StepKeeps <;> infer_instance

structure PluggedIn (s s' : XSubSystem α) (p : α) : Prop where
  subscriptions : s'.sub.subscriptions = s.sub.subscriptions
  more : s'.sub.dist.more = s.sub.dist.more
  others : ∀ x, x ≠ p → s'.ends x = s.ends x ∧ s'.log x = s.log x
  told : s'.sub.dist.attached p → (s'.ends p).pipe.state = .active → (s'.ends p).pipe.hwm = 0 →
    (s'.ends p).pipe.outActive = true ∧
      s'.log p = s'.sub.subscriptions.keys.map (XSub.subscriptionMsg true)

theorem Inv.attach (h : s.Inv) (hp : ¬ s.attached p) (inhwm outhwm : Nat) (delay : Bool) (ver : Nat)
    (hfit : ver = 1 ∨ (Pipe.init 0 1 inhwm outhwm delay).Takes s.sub.subscriptions.keys.length) :
    ∃ s', s.step (.attach p inhwm outhwm delay ver) = .ok s' ∧ s'.Inv ∧ s.PluggedIn s' p ∧
      (s'.ends p).pipe.hwm = outhwm ∧
      (∀ x, s'.sub.dist.attached x ↔ s.sub.dist.attached x ∨ (x = p ∧ ver ≠ 1)) := by
  obtain ⟨fq, hfq, hfqI, hfqA⟩ := Fq.attach_all h.fq hp
  have hnot : ¬ s.sub.dist.attached p := fun hc => hp ((h.members p).1 hc).1
  have hfresh : (Endpoint.init inhwm outhwm delay).Sound := fun _ => by
    simp [Endpoint.init, Pipe.init]
  simp only [step, if_neg hp, XSub.xattachPipe, hfq]
  by_cases hv : ver = 1
  · subst hv
    simp only [if_true]
    refine ⟨_, rfl, Inv.of_layered hfqI h.dist (fun x => ?_) (fun x hx => ?_) (fun x hx hs => ?_)
      (fun x hx hver hs => ?_) h.positive, ⟨rfl, rfl, fun x hx => ?_, fun hc => absurd hc hnot⟩, ?_,
      fun x => ?_⟩
    · grind [plugged, h.members]
    · by_cases hxp : x = p
      · subst hxp
        simpa [plugged] using hfresh
      · simpa [plugged, hxp] using h.sound x (((hfqA x).1 hx).resolve_right hxp)
    · have hxp : x ≠ p := fun he => hnot (he ▸ hx)
      simp only [plugged, Function.update_of_ne hxp] at hs ⊢
      exact h.tracks x hx hs
    · by_cases hxp : x = p
      · subst hxp
        simp [plugged, Endpoint.init, Pipe.init]
      · simp only [plugged, Function.update_of_ne hxp] at hver hs ⊢
        exact h.legacy x (((hfqA x).1 hx).resolve_right hxp) hver hs
    · simp [plugged, hx]
    · simp [plugged, Endpoint.init, Pipe.init]
    · simp [plugged]
  · have hfit := hfit.resolve_left hv
    obtain ⟨d, hd, hlay, hatt, hmore⟩ := h.dist.attach hnot
    obtain ⟨e, he, hsound, hstate, hhwm, hopen⟩ := s.sub.sendCached_spec hfresh
    obtain ⟨hopen, hqueue⟩ := hopen rfl
    have hout : e.pipe.outActive = true := hopen.2 ⟨rfl, hfit⟩
    simp only [if_neg hv, hd, Function.update_self, he]
    refine ⟨_, rfl, Inv.of_layered hfqI hlay (fun x => ?_) (fun x hx => ?_) (fun x hx hs => ?_)
      (fun x hx hver hs => ?_) h.positive, ⟨rfl, hmore, fun x hx => ?_, fun _ _ _ => ?_⟩, ?_,
      fun x => ?_⟩
    · grind [plugged, h.members]
    · by_cases hxp : x = p
      · subst hxp
        simpa [plugged] using hsound
      · simpa [plugged, hxp] using h.sound x (((hfqA x).1 hx).resolve_right hxp)
    · by_cases hxp : x = p
      · subst hxp
        simp [plugged, hout]
      · simp only [plugged, Function.update_of_ne hxp] at hs ⊢
        rw [h.tracks x (((hatt x).1 hx).resolve_right hxp) hs]
        simp [hxp]
    · by_cases hxp : x = p
      · grind
      · simp only [plugged, Function.update_of_ne hxp] at hver hs ⊢
        exact h.legacy x (((hfqA x).1 hx).resolve_right hxp) hver hs
    · simp [plugged, hx]
    · refine ⟨by simpa [plugged] using hout, ?_⟩
      simp only [plugged, Function.update_self]
      rw [hqueue hout]
      rfl
    · simp only [plugged, Function.update_self, hhwm]
      rfl
    · simp [plugged, hatt, hv]

theorem Inv.hiccup (h : s.Inv) (hp : s.attached p) (hout : (s.ends p).pipe.outpipe ≠ none)
    (hfit : s.sub.dist.attached p → (s.ends p).pipe.state = .active →
      (s.eligible p ↔ (s.ends p).pipe.Takes s.sub.subscriptions.keys.length)) :
    ∃ s', s.step (.hiccup p) = .ok s' ∧ s'.Inv ∧ s.PluggedIn s' p ∧
      (s'.ends p).pipe.state = (s.ends p).pipe.state ∧ (s'.ends p).pipe.hwm = (s.ends p).pipe.hwm ∧
      s'.sub = s.sub := by
  have hhiccup := Endpoint.processHiccup_ok hout
  set e : Endpoint := { (s.ends p) with
    pipe := { (s.ends p).pipe with outpipe := some 1, outActive := true }, outq := YPipe.init } with hedef
  have hes : e.Sound := fun _ => by simp [hedef]
  -- whoever is plugged in: all that is left to show is about `p`
  have hmain : ∀ e' : Endpoint, e'.Sound → e'.pipe.state = (s.ends p).pipe.state →
      e'.pipe.hwm = (s.ends p).pipe.hwm →
      (s.sub.dist.attached p → e'.pipe.state = .active →
        (e'.pipe.outActive = true ↔ s.eligible p) ∧
          (e'.pipe.hwm = 0 → e'.pipe.outActive = true ∧
            e'.outq.queue = s.sub.subscriptions.keys.map (XSub.subscriptionMsg true))) →
      (s.spVersion p = 1 → e'.pipe.state = .active → e'.pipe.outActive = true) →
      (s.plugged p s.sub (Function.update s.ends p e')).Inv ∧
        s.PluggedIn (s.plugged p s.sub (Function.update s.ends p e')) p := by
    intro e' hs' hstate' hhwm' htold hlegacy
    refine ⟨⟨h.fq, h.dist, h.members, fun x hx => ?_, fun x hx hs => ?_, fun x hx hver hs => ?_,
      h.positive⟩, rfl, rfl, fun x hx => ?_, fun hd hs hz => ?_⟩
    · by_cases hxp : x = p
      · subst hxp
        simpa [plugged] using hs'
      · simpa [plugged, hxp] using h.sound x hx
    · by_cases hxp : x = p
      · subst hxp
        simp only [plugged, Function.update_self] at hs ⊢
        exact (htold hx hs).1
      · simp only [plugged, Function.update_of_ne hxp] at hs ⊢
        exact h.tracks x hx hs
    · by_cases hxp : x = p
      · subst hxp
        simp only [plugged, Function.update_self] at hs ⊢
        exact hlegacy hver hs
      · simp only [plugged, Function.update_of_ne hxp] at hs ⊢
        exact h.legacy x hx hver hs
    · simp [plugged, hx]
    · simp only [plugged, Function.update_self] at hs hz ⊢
      exact (htold hd hs).2 hz
  simp only [step, hp, hout, ne_eq, not_false_eq_true, and_self, if_true, hhiccup]
  by_cases hact : (s.ends p).pipe.state = .active
  · simp only [hact, beq_self_eq_true, XSub.xhiccuped]
    by_cases hv : s.spVersion p = 1
    · simp only [hv, if_true]
      obtain ⟨hI, hplug⟩ := hmain e hes rfl rfl
        (fun hd _ => absurd hv ((h.members p).1 hd).2) (fun _ _ => rfl)
      exact ⟨_, rfl, hI, hplug, by simp [plugged, hedef, hact], by simp [plugged, hedef], rfl⟩
    · simp only [hv, if_false, Function.update_self]
      obtain ⟨e', he', hs', hstate', hhwm', hopen⟩ := s.sub.sendCached_spec hes
      obtain ⟨hopen, hqueue⟩ := hopen hact
      have htakes : e.pipe.Takes s.sub.subscriptions.keys.length ↔
          (s.ends p).pipe.Takes s.sub.subscriptions.keys.length := Pipe.takes_congr rfl rfl rfl
      simp only [he', Function.update_idem]
      have hempty : e'.pipe.hwm = 0 → e'.pipe.outActive = true ∧
          e'.outq.queue = s.sub.subscriptions.keys.map (XSub.subscriptionMsg true) := fun hz => by
        have hopen' : e'.pipe.outActive = true :=
          hopen.2 ⟨rfl, Pipe.takes_of_hwm (hhwm'.symm.trans hz)⟩
        exact ⟨hopen', (hqueue hopen').trans (List.nil_append _)⟩
      obtain ⟨hI, hplug⟩ := hmain e' hs' hstate' hhwm'
        (fun hd _ => ⟨by rw [hopen, hfit hd hact, htakes]; exact and_iff_right rfl, hempty⟩)
        (fun hv' => absurd hv' hv)
      exact ⟨_, rfl, hI, hplug, by simp [plugged, hstate', hedef, hact],
        by simp [plugged, hhwm', hedef], rfl⟩
  · have hbeq : ((s.ends p).pipe.state == .active) = false := by simpa using hact
    simp only [hbeq]
    obtain ⟨hI, hplug⟩ := hmain e hes rfl rfl (fun _ hs => absurd hs hact) (fun _ _ => rfl)
    exact ⟨_, rfl, hI, hplug, by simp [plugged, hedef], by simp [plugged, hedef], rfl⟩

@[simp] theorem written_self (e : Endpoint) : written e e = [] := by
  simp [written]

theorem send_malformed {msg : Msg} (hc : PubSub.parse msg.data = none) :
    s.step (.send msg) = .ok s := by
  simp only [step, XSub.xsend, hc, written_self, List.append_nil]

theorem Inv.send (h : s.Inv) {msg : Msg} {c : Change Subscription}
    (hc : PubSub.parse msg.data = some c) (hlt : c.present = true → s.sub.count c.key + 1 < 2 ^ 31) :
    ∃ s', s.step (.send msg) = .ok s' ∧ s'.Inv ∧
      (∀ key, s'.sub.count key = s.sub.countAfter c key) ∧
      (∀ x, s'.sub.dist.attached x ↔ s.sub.dist.attached x) ∧
      (∀ x, s'.log x = s.log x ++ written (s.ends x) (s'.ends x)) ∧
      (s.sub.forwards c = false → s'.ends = s.ends ∧ s'.sub.dist = s.sub.dist) ∧
      (s.sub.forwards c = true → s'.sub.dist.more = msg.more ∧
        (∀ x, s.sub.dist.attached x → s.sub.dist.pipes.index x < s.sub.dist.active →
          s'.ends x = (s.ends x).sent msg) ∧
        ∀ x, ¬ (s.sub.dist.attached x ∧ s.sub.dist.pipes.index x < s.sub.dist.active) →
          s'.ends x = s.ends x) := by
  obtain ⟨subs, hproc, hpos, hcount⟩ := XSub.process_spec h.positive hlt
  have hsound : ∀ x, s.sub.dist.attached x → (s.ends x).Sound := fun x hx =>
    h.sound x ((h.members x).1 hx).1
  simp only [step, XSub.xsend, hc, hproc]
  cases hfwd : s.sub.forwards c with
  | false =>
    exact ⟨_, rfl, ⟨h.fq, h.dist, h.members, h.sound, h.tracks, h.legacy, hpos⟩, hcount,
      fun _ => Iff.rfl, fun _ => rfl, fun _ => ⟨rfl, rfl⟩, fun hn => absurd hn (by simp)⟩
  | true =>
    obtain ⟨d, ends, hsend, hlay, hatt, hmore, hsent, hrest⟩ := h.dist.sendToAll hsound msg
    simp only [hsend]
    -- the two pipes of an end that is not active in the distributor are untouched
    have hsame : ∀ x, s.attached x → s.spVersion x = 1 → ends x = s.ends x := fun x _ hv =>
      hrest x fun hx => ((h.members x).1 hx.1).2 hv
    refine ⟨_, rfl, Inv.of_layered h.fq hlay (fun x => (hatt x).trans (h.members x))
      (fun x hx => ?_) (fun x hx hs => ?_) (fun x hx hv hs => ?_) hpos, hcount, hatt, fun _ => rfl,
      fun hn => absurd hn (by simp), fun _ => ⟨hmore, hsent, hrest⟩⟩
    · by_cases hA : s.sub.dist.attached x ∧ s.sub.dist.pipes.index x < s.sub.dist.active
      · simp only [hsent x hA.1 hA.2]
        exact (h.sound x hx).sent msg
      · simp only [hrest x hA]
        exact h.sound x hx
    · have hx' := (hatt x).1 hx
      simp only at hs ⊢
      by_cases hA : s.sub.dist.pipes.index x < s.sub.dist.active
      · rw [hsent x hx' hA] at hs ⊢
        obtain ⟨hstate, -, hout, -⟩ := (hsound x hx').sent_ok msg
        rw [hout (hstate.symm.trans hs)]
        exact ⟨fun ha => ⟨h.dist.eligible_of_active hx' hA, fun _ => ha⟩, fun ha => ha.2 hA⟩
      · grind [h.tracks]
    · grind [h.legacy]

theorem Inv.activateWrite (h : s.Inv) (hp : s.attached p) (n : Nat) :
    ∃ s', s.step (.activateWrite p n) = .ok s' ∧ s'.Inv ∧
      s'.sub.subscriptions = s.sub.subscriptions ∧ s'.sub.dist.more = s.sub.dist.more ∧
      (∀ x, s'.sub.dist.attached x ↔ s.sub.dist.attached x) ∧ s'.log = s.log ∧
      ∀ x, (s'.ends x).pipe.state = (s.ends x).pipe.state ∧
        (s'.ends x).pipe.hwm = (s.ends x).pipe.hwm ∧
        ((s.ends x).pipe.outActive = true → (s'.ends x).pipe.outActive = true) := by
  simp only [step, hp, if_true]
  rcases hact : (s.ends p).processActivateWrite n with ⟨_ | _, e⟩
  · obtain ⟨-, hpipe⟩ := Endpoint.processActivateWrite_false hact
    have hkept : ∀ x, (Function.update s.ends p e x).pipe.state = (s.ends x).pipe.state ∧
        (Function.update s.ends p e x).pipe.hwm = (s.ends x).pipe.hwm ∧
        (Function.update s.ends p e x).pipe.outActive = (s.ends x).pipe.outActive ∧
        (Function.update s.ends p e x).pipe.outpipe = (s.ends x).pipe.outpipe := by
      intro x
      grind
    refine ⟨_, rfl, ⟨h.fq, h.dist, h.members, fun x hx => ?_, fun x hx hs => ?_, fun x hx hv hs => ?_,
      h.positive⟩, rfl, rfl, fun _ => Iff.rfl, rfl, fun x => ?_⟩
    · simp only [Endpoint.Sound, hkept x]
      exact h.sound x hx
    · simp only [(hkept x).1, (hkept x).2.2.1] at hs ⊢
      exact h.tracks x hx hs
    · grind [h.legacy]
    · grind
  · obtain ⟨⟨hshut, hstate⟩, -, hpipe⟩ := Endpoint.processActivateWrite_true hact
    have hv : s.spVersion p ≠ 1 := fun hv => by
      rw [h.legacy p hp hv hstate] at hshut
      cases hshut
    have hd := (h.members p).2 ⟨hp, hv⟩
    have hpassive : ¬ s.eligible p := fun he => by
      rw [(h.tracks p hd hstate).2 he] at hshut
      cases hshut
    obtain ⟨d, hact', hlay, hatt, hmore⟩ := h.dist.activated hd hpassive
    simp only [XSub.xwriteActivated, hact']
    refine ⟨_, rfl, Inv.of_layered h.fq hlay (fun x => (hatt x).trans (h.members x))
      (fun x hx => ?_) (fun x hx hs => ?_) (fun x hx hv hs => ?_) h.positive, rfl, hmore, hatt, rfl,
      fun x => ?_⟩
    · by_cases hxp : x = p
      · subst hxp
        simpa [Endpoint.Sound, hpipe] using h.sound x hx
      · simpa [hxp] using h.sound x hx
    · grind [h.tracks]
    · grind [h.legacy]
    · grind

theorem Inv.terminated (h : s.Inv) (hp : s.attached p) :
    ∃ s', s.step (.terminated p) = .ok s' ∧ s'.Inv ∧
      s'.sub.subscriptions = s.sub.subscriptions ∧ s'.sub.dist.more = s.sub.dist.more ∧
      (∀ x, s'.sub.dist.attached x → s.sub.dist.attached x) ∧ s'.log = s.log ∧
      s'.ends = s.ends := by
  obtain ⟨fq, hfq, hfqI, hfqA⟩ := Fq.terminated_all h.fq hp
  simp only [step, hp, if_true, XSub.xterminated, hfq]
  by_cases hv : s.spVersion p = 1
  · simp only [hv, if_true]
    refine ⟨_, rfl, ⟨hfqI, h.dist, fun x => ?_, fun x hx => h.sound x ((hfqA x).1 hx).1, h.tracks,
      fun x hx => h.legacy x ((hfqA x).1 hx).1, h.positive⟩, rfl, rfl, fun _ => id, rfl, rfl⟩
    simp only [h.members, hfqA]
    exact ⟨fun hx => ⟨⟨hx.1, fun he => hx.2 (he ▸ hv)⟩, hx.2⟩, fun hx => ⟨hx.1.1, hx.2⟩⟩
  · obtain ⟨d, hd, hlay, hatt, hmore⟩ := h.dist.terminated ((h.members p).2 ⟨hp, hv⟩)
    simp only [hv, if_false, hd]
    refine ⟨_, rfl, Inv.of_layered hfqI hlay (fun x => ?_) (fun x hx => h.sound x ((hfqA x).1 hx).1)
      (fun x hx => h.tracks x ((hatt x).1 hx).1) (fun x hx => h.legacy x ((hfqA x).1 hx).1)
      h.positive, rfl, hmore, fun x hx => ((hatt x).1 hx).1, rfl, rfl⟩
    simp only [hatt, h.members, hfqA]
    exact ⟨fun hx => ⟨⟨hx.1.1, hx.2⟩, hx.1.2⟩, fun hx => ⟨⟨hx.1.1, hx.2⟩, hx.1.2⟩⟩

theorem Inv.change (h : s.Inv) {e : Endpoint} (hs : e.Sound)
    (hkept : (s.ends p).pipe.OutboundKept e.pipe) :
    ({ s with ends := Function.update s.ends p e } : XSubSystem α).Inv := by
  refine ⟨h.fq, h.dist, h.members, fun x hx => ?_, fun x hx hact => ?_, fun x hx hv hact => ?_,
    h.positive⟩
  · grind [h.sound]
  · by_cases hxp : x = p
    · subst hxp
      simp only [Function.update_self] at hact ⊢
      rw [(hkept.1 hact).2]
      exact h.tracks x hx (hkept.1 hact).1
    · simp only [Function.update_of_ne hxp] at hact ⊢
      exact h.tracks x hx hact
  · by_cases hxp : x = p
    · subst hxp
      simp only [Function.update_self] at hact ⊢
      rw [(hkept.1 hact).2]
      exact h.legacy x hx hv (hkept.1 hact).1
    · grind [h.legacy]

theorem Inv.step (h : s.Inv) (op : XSubOp α) (hk : s.StepKeeps op) :
    ∃ s', s.step op = .ok s' ∧ s'.Inv := by
  cases op with
  | attach p inhwm outhwm delay ver =>
    by_cases hp : s.attached p
    · exact ⟨s, by simp only [XSubSystem.step, hp, if_true], h⟩
    · obtain ⟨s', hs, hI, -⟩ := h.attach hp inhwm outhwm delay ver (hk.resolve_left hp)
      exact ⟨s', hs, hI⟩
  | send msg =>
    cases hc : PubSub.parse msg.data with
    | none => exact ⟨s, send_malformed hc, h⟩
    | some c =>
      obtain ⟨s', hs, hI, -⟩ := h.send hc (hk c hc)
      exact ⟨s', hs, hI⟩
  | hiccup p =>
    by_cases hp : s.attached p ∧ (s.ends p).pipe.outpipe ≠ none
    · obtain ⟨s', hs, hI, -⟩ := h.hiccup hp.1 hp.2 hk
      exact ⟨s', hs, hI⟩
    · exact ⟨s, by simp only [XSubSystem.step, hp, if_false], h⟩
  | activateWrite p n =>
    by_cases hp : s.attached p
    · obtain ⟨s', hs, hI, -⟩ := h.activateWrite hp n
      exact ⟨s', hs, hI⟩
    · exact ⟨s, by simp only [XSubSystem.step, hp, if_false], h⟩
  | terminated p => grind [h.terminated, XSubSystem.step]
  | change p e => grind [XSubSystem.step, h.change]

/-- **As long as the cached subscriptions fit into the pipes they are written to, the distributor is
    consistent.** -/
theorem distributor_consistent {ops : List (XSubOp α)}
    (hops : RunMeets step StepKeeps init ops) :
    ∃ s, run step init ops = .ok s ∧ s.Consistent := by
  obtain ⟨s, hrun, h⟩ := run_safe_meets (fun s op hI hk => hI.step op hk) ops init inv_init hops
  exact ⟨s, hrun, h.consistent⟩

def withinHwm : List (XSubOp Nat) :=
  [.send (XSub.subscriptionMsg true (1, [97])), .send (XSub.subscriptionMsg true (1, [98])),
    .attach 0 0 3 true 4, .send (XSub.subscriptionMsg true (1, [99])),
    .send (XSub.subscriptionMsg true (1, [100])), .activateWrite 0 3,
    .send (XSub.subscriptionMsg false (1, [100])), .activateWrite 0 4, .hiccup 0, .terminated 0]

theorem withinHwm_consistent :
    RunMeets step StepKeeps init withinHwm ∧
      ∃ s, run step init withinHwm = .ok s ∧ s.Consistent := by
  have hops : RunMeets step StepKeeps init withinHwm := by
    decide
  exact ⟨hops, distributor_consistent hops⟩

def overfull : List (XSubOp Nat) :=
  [.send (XSub.subscriptionMsg true (1, [97])), .send (XSub.subscriptionMsg true (1, [98])),
    .attach 0 0 1 true 4, .activateWrite 0 1]

theorem overfull_badIndex : run step init overfull = .error .badIndex := by
  rfl

end XSubSystem

end Libxs
