import Libxs.Dist.Proofs
import Libxs.XPub

/-! # When a peer can abort a publisher -/

namespace Libxs

/-! ## The loop -/

theorem Endpoint.read_shorter {e e' : Endpoint} {msg : Msg} (h : e.read = .ok (some msg, e')) :
    e'.inq.queue.length < e.inq.queue.length := by
  unfold read Pipe.read at h
  split at h
  · cases h
  next hp =>
    cases h
    split at hp
    · cases hp
    · unfold YPipe.read at hp
      have hlen := e.inq.checkRead_queue
      rcases hq : e.inq.checkRead with ⟨_ | _, inq⟩
      · simp [hq] at hp
      · grind

theorem Endpoint.commands_parse : ∀ {fuel : Nat} {e : Endpoint} {a : List UInt8 × Change Subscription},
    a ∈ e.commands fuel → PubSub.parse a.1 = some a.2 := by
  intro fuel
  induction fuel with
  | zero => intro e a h; simp [commands] at h
  | succ fuel ih => grind [commands]

variable {α : Type} [LinearOrder α]

namespace XPub

def turn (pipe : α) (x : XPub α) (a : List UInt8 × Change Subscription) : Except Fault (XPub α) :=
  x.process pipe a.1 a.2

theorem readLoop_eq (pipe : α) : ∀ (fuel : Nat) (e : Endpoint), ∃ e', ∀ x : XPub α,
    readLoop fuel x pipe e = (run (turn pipe) x (e.commands fuel)).map (·, e') := by
  intro fuel
  induction fuel with
  | zero => intro e; exact ⟨e, fun _ => rfl⟩
  | succ fuel ih =>
    intro e
    rcases e.read_cases with ⟨msg, e₁, hr, -⟩ | ⟨e₁, hr, -⟩
    · simp only [readLoop, Endpoint.commands, hr]
      cases hc : PubSub.parse msg.data with
      | none => exact ⟨e₁, fun _ => rfl⟩
      | some c =>
        obtain ⟨e', he'⟩ := ih e₁
        refine ⟨e', fun x => ?_⟩
        simp only [run, turn]
        cases x.process pipe msg.data c with
        | error err => rfl
        | ok x₁ => exact he' x₁
    · simp only [readLoop, Endpoint.commands, hr]
      exact ⟨e₁, fun _ => rfl⟩

theorem xreadActivated_eq (ends : Ends α) (pipe : α) : ∃ ends', ∀ x : XPub α,
    x.xreadActivated ends pipe = (run (turn pipe) x (ends pipe).waiting).map (·, ends') := by
  obtain ⟨e', he'⟩ := readLoop_eq pipe ((ends pipe).inq.queue.length + 1) (ends pipe)
  refine ⟨Function.update ends pipe e', fun x => ?_⟩
  rw [xreadActivated, he' x, Endpoint.waiting]
  cases run (turn pipe) x ((ends pipe).commands ((ends pipe).inq.queue.length + 1)) <;> rfl

structure Sound (x : XPub α) : Prop where
  dist : x.dist.Layered (fun p => x.dist.pipes.index p < x.dist.matching)
    (fun p => x.dist.pipes.index p < x.dist.active) (fun p => x.dist.pipes.index p < x.dist.eligible)
  wf : ∀ f ∈ x.filters, f.WF
  ids : (x.filters.map Filter.id).Nodup

theorem sound_init (isPub : Bool) : (init isPub : XPub α).Sound where
  dist := Dist.layered_init _ _ _
  wf f hf := by simp [init] at hf
  ids := by simp [init]

variable {x : XPub α} {pipe : α}
variable {c : Change Subscription} {f : Filter α}

theorem Sound.store (h : x.Sound) (hf : f.WF) (pending : List (List UInt8)) :
    ({ x with filters := Filter.store x.filters f, pending := pending } : XPub α).Sound where
  dist := h.dist
  wf g hg := (Filter.mem_store hg).elim (fun he => he ▸ hf) (h.wf g)
  ids := Filter.nodup_store h.ids f

theorem Sound.filterFor (h : x.Sound) {id : Nat} (hf : x.filterFor id = some f) :
    f.WF ∧ f.id = id ∧ ∀ d u, f.countAt d u = Filter.countIn x.filters (f.id, d) u := by
  unfold XPub.filterFor at hf
  cases hfind : Filter.find x.filters id with
  | some g =>
    simp only [hfind, Option.some.injEq] at hf
    subst hf
    have hid := Filter.find_id hfind
    exact ⟨h.wf g (Filter.find_mem hfind), hid, fun d u => by
      simp only [Filter.countIn, hid, hfind]⟩
  | none =>
    simp only [hfind] at hf
    have hid := Filter.create_id hf
    obtain ⟨hwf, hzero⟩ := Filter.create_spec hf
    exact ⟨hwf, hid, fun d u => by simp only [Filter.countIn, hid, hfind, hzero]⟩

theorem filterFor_isSome_iff (x : XPub α) (id : Nat) :
    (∃ f, x.filterFor id = some f) ↔ Filter.BuiltIn id := by
  unfold filterFor
  cases hfind : Filter.find x.filters id with
  | some f => exact ⟨fun _ => Filter.find_id hfind ▸ f.builtIn_id, fun _ => ⟨f, rfl⟩⟩
  | none => exact Filter.create_isSome_iff id

/-! ## One command -/

def Accepts (x : XPub α) (pipe : α) (c : Change Subscription) : Prop :=
  if c.present then
    Filter.BuiltIn c.key.1 ∧
      (c.key.1 = PubSub.filterPrefixId → Filter.countIn x.filters c.key pipe + 1 < 2 ^ 31)
  else (Filter.find x.filters c.key.1).isSome = true
deriving Decidable

def countAfter (x : XPub α) (pipe : α) (c : Change Subscription) (key : Subscription) (u : α) : Nat :=
  if key = c.key ∧ u = pipe then
    (if c.present then Filter.countIn x.filters c.key pipe + 1
      else Filter.countIn x.filters c.key pipe - 1)
  else Filter.countIn x.filters key u

def hasNode (x : XPub α) (key : Subscription) : Bool :=
  match Filter.find x.filters key.1 with
  | none => false
  | some f => f.hasNode key.2

def Announces (x : XPub α) (pipe : α) (c : Change Subscription) : Prop :=
  if c.present then
    c.key.1 = PubSub.filterTopicId ∨ ∀ u, Filter.countIn x.filters c.key u = 0
  else if c.key.1 = PubSub.filterTopicId then Filter.countIn x.filters c.key pipe = 0
  else x.hasNode c.key = true ∧ ∀ u, x.countAfter pipe c c.key u = 0

theorem finish_value (x : XPub α) (blob data : List UInt8) (rc : Int) (f : Filter α) :
    ∃ b, x.finish blob data (.ok (.value rc, f)) = .ok { x with
        filters := Filter.store x.filters f
        pending := if b then x.pending ++ [blob] else x.pending } ∧
      (x.isPub = false → (b = true ↔ rc ≠ 0)) := by
  refine ⟨!x.isPub && decide (rc ≠ 0), ?_, fun hx => by simp [hx]⟩
  cases hx : x.isPub <;> by_cases hrc : rc = 0 <;> simp [finish, evaluate, push, hx, hrc]

theorem finish_subscribed (x : XPub α) (blob data : List UInt8) (f : Filter α) :
    x.finish blob data (.ok (.subscribed, f)) = x.finish blob data (.ok (.value (-1), f)) := rfl

theorem Sound.recorded (h : x.Sound) {f' : Filter α} (g : Nat → Nat)
    (hf : ∀ d u, f.countAt d u = Filter.countIn x.filters (f.id, d) u) (hfid : f.id = c.key.1)
    (hwf : f'.WF) (hid : f'.id = f.id)
    (hcount : ∀ d u, f'.countAt d u =
      if d = c.key.2 ∧ u = pipe then g (f.countAt d u) else f.countAt d u)
    (hg : ∀ n, g n = if c.present then n + 1 else n - 1) {rc : Int}
    (hrc : rc ≠ 0 ↔ x.Announces pipe c) (blob : List UInt8) :
    ∃ x' b, x.finish blob c.key.2 (.ok (.value rc, f')) = .ok x' ∧ x'.Sound ∧
      x'.isPub = x.isPub ∧ x'.dist = x.dist ∧
      (∀ key u, Filter.countIn x'.filters key u = x.countAfter pipe c key u) ∧
      x'.pending = (if b then x.pending ++ [blob] else x.pending) ∧
      (x.isPub = false → (b = true ↔ x.Announces pipe c)) := by
  obtain ⟨b, hfin, hb⟩ := x.finish_value blob c.key.2 rc f'
  refine ⟨_, b, hfin, h.store hwf _, rfl, rfl, fun key u => ?_, rfl, fun hx => (hb hx).trans hrc⟩
  simp only [Filter.countIn_update g hf hid hcount key u, hfid, hg, countAfter, Prod.mk.eta]
  split
  next hkey => rw [hkey.1, hkey.2]
  · rfl

theorem Sound.process (h : x.Sound) (hacc : x.Accepts pipe c) (blob : List UInt8) :
    ∃ x' b, x.process pipe blob c = .ok x' ∧ x'.Sound ∧ x'.isPub = x.isPub ∧ x'.dist = x.dist ∧
      (∀ key u, Filter.countIn x'.filters key u = x.countAfter pipe c key u) ∧
      x'.pending = (if b then x.pending ++ [blob] else x.pending) ∧
      (x.isPub = false → (b = true ↔ x.Announces pipe c)) := by
  obtain ⟨present, id, data⟩ := c
  cases present with
  | true =>
    obtain ⟨hid, hlt⟩ : Filter.BuiltIn id ∧ (id = PubSub.filterPrefixId →
        Filter.countIn x.filters (id, data) pipe + 1 < 2 ^ 31) := by simpa [Accepts] using hacc
    obtain ⟨f, hf⟩ := (x.filterFor_isSome_iff id).2 hid
    obtain ⟨hwf, hfid, hcount⟩ := h.filterFor hf
    obtain ⟨ret, f', hsub, hwf', hid', hcount', hret⟩ := Filter.pfSubscribe_spec hwf pipe data
      (fun hp => by
        rw [hcount, hfid]
        exact hlt (hfid ▸ hp))
    have hproc : x.process pipe blob ⟨true, id, data⟩ =
        x.finish blob data (.ok (ret, f')) := by simp only [XPub.process, if_true, hf, hsub]
    rw [hproc]
    rcases hret with ⟨htopic, rfl⟩ | ⟨hpfx, added, rfl, hadded⟩
    · rw [finish_subscribed]
      exact h.recorded (c := ⟨true, id, data⟩) (· + 1) hcount hfid hwf' hid' hcount' (by simp)
        (by simp [Announces, ← hfid, htopic]) blob
    · refine h.recorded (c := ⟨true, id, data⟩) (· + 1) hcount hfid hwf' hid' hcount' (by simp) ?_ blob
      have hne : id ≠ PubSub.filterTopicId := by
        rw [← hfid, hpfx]
        decide
      simp only [hcount, hfid] at hadded
      cases added <;> simp [Announces, hne, ← hadded]
  | false =>
    obtain ⟨f, hf⟩ := Option.isSome_iff_exists.1
      (show (Filter.find x.filters id).isSome = true by simpa [Accepts] using hacc)
    obtain ⟨hwf, hfid, hcount⟩ := h.filterFor (show x.filterFor id = some f by
      simp only [XPub.filterFor, hf])
    obtain ⟨ret, f', hsub, hwf', hid', hcount', hret⟩ := Filter.pfUnsubscribe_spec hwf pipe data
    have hproc : x.process pipe blob ⟨false, id, data⟩ =
        x.finish blob data (.ok (ret, f')) := by
      simp only [XPub.process, Bool.false_eq_true, if_false, hf, hsub]
    rw [hproc]
    rcases hret with ⟨htopic, rfl⟩ | ⟨hpfx, removed, rfl, hremoved⟩
    · refine h.recorded (c := ⟨false, id, data⟩) (· - 1) hcount hfid hwf' hid' hcount' (by simp) ?_ blob
      rw [hcount, hfid]
      simp [Announces, ← hfid, htopic]
    · refine h.recorded (c := ⟨false, id, data⟩) (· - 1) hcount hfid hwf' hid' hcount' (by simp) ?_ blob
      have hne : id ≠ PubSub.filterTopicId := by
        rw [← hfid, hpfx]
        decide
      have hnode : x.hasNode (id, data) = f.hasNode data := by simp only [hasNode, hf]
      have hafter : ∀ u, f'.countAt data u = x.countAfter pipe ⟨false, id, data⟩ (id, data) u := by
        intro u
        rw [hcount', hcount, hfid]
        grind [countAfter]
      simp only [hafter, ← hnode] at hremoved
      cases removed <;> simp [Announces, hne, ← hremoved]

theorem Sound.process_ok_iff (h : x.Sound) (c : Change Subscription) (blob : List UInt8) :
    (∃ x', x.process pipe blob c = .ok x') ↔ x.Accepts pipe c := by
  constructor
  · rintro ⟨x', hx'⟩
    unfold XPub.process at hx'
    unfold Accepts
    split at hx'
    next hp =>
      rw [if_pos hp]
      cases hf : x.filterFor c.key.1 with
      | none => simp [hf] at hx'
      | some f =>
        obtain ⟨hwf, hfid, hcount⟩ := h.filterFor hf
        refine ⟨(x.filterFor_isSome_iff _).1 ⟨f, hf⟩, fun hpfx => ?_⟩
        have hok : ∃ r, f.pfSubscribe pipe c.key.2 = .ok r := by
          cases hr : f.pfSubscribe pipe c.key.2 with
          | error err => simp [hf, hr, finish] at hx'
          | ok r => exact ⟨r, rfl⟩
        have hlt := (Filter.pfSubscribe_ok_iff hwf pipe c.key.2).1 hok (hfid.trans hpfx)
        rwa [hcount, hfid] at hlt
    next hp => grind
  · intro hacc
    obtain ⟨x', -, hx', -⟩ := h.process hacc blob
    exact ⟨x', hx'⟩

theorem Sound.turn (h : x.Sound) {a : List UInt8 × Change Subscription} {x' : XPub α}
    (hx' : XPub.turn pipe x a = .ok x') : x'.Sound ∧ x'.dist = x.dist := by
  obtain ⟨x'', -, hx'', hs, -, hd, -⟩ := h.process ((h.process_ok_iff a.2 a.1).1 ⟨x', hx'⟩) a.1
  obtain rfl : x'' = x' := by
    rw [XPub.turn, hx''] at hx'
    simpa using hx'
  exact ⟨hs, hd⟩

/-! ## Attaching a pipe -/

theorem Sound.subscribeAll (h : x.Sound)
    (hlt : Filter.countIn x.filters (PubSub.filterPrefixId, []) pipe + 1 < 2 ^ 31) :
    ∃ filters, x.subscribeAll pipe = .ok { x with filters := filters } ∧
      ({ x with filters := filters } : XPub α).Sound ∧
      ∀ key u, Filter.countIn filters key u =
        x.countAfter pipe ⟨true, PubSub.filterPrefixId, []⟩ key u := by
  obtain ⟨f, hf⟩ := (x.filterFor_isSome_iff PubSub.filterPrefixId).2 (Or.inl rfl)
  obtain ⟨hwf, hfid, hcount⟩ := h.filterFor hf
  obtain ⟨ret, f', hsub, hwf', hid', hcount', -⟩ := Filter.pfSubscribe_spec hwf pipe [] (fun _ => by
    rw [hcount, hfid]
    exact hlt)
  refine ⟨_, by simp only [XPub.subscribeAll, hf, hsub], h.store hwf' x.pending, fun key u => ?_⟩
  rw [Filter.countIn_update (· + 1) hcount hid' hcount' key u, hfid]
  simp only [countAfter, if_true]
  split
  next hkey => rw [hkey.1, hkey.2]
  · rfl

theorem Sound.subscribeAll_ok_iff (h : x.Sound) :
    (∃ x', x.subscribeAll pipe = .ok x') ↔
      Filter.countIn x.filters (PubSub.filterPrefixId, []) pipe + 1 < 2 ^ 31 := by
  constructor
  · rintro ⟨x', hx'⟩
    obtain ⟨f, hf⟩ := (x.filterFor_isSome_iff PubSub.filterPrefixId).2 (Or.inl rfl)
    obtain ⟨hwf, hfid, hcount⟩ := h.filterFor hf
    have hok : ∃ r, f.pfSubscribe pipe [] = .ok r := by grind [XPub.subscribeAll]
    have hlt := (Filter.pfSubscribe_ok_iff hwf pipe []).1 hok hfid
    rwa [hcount, hfid] at hlt
  · grind [h.subscribeAll]

abbrev Implicit (icanhasall : Bool) (spVersion : Nat) : Prop := icanhasall = true ∨ spVersion = 1

theorem Sound.enter (h : x.Sound) (hp : ¬ x.dist.attached pipe) {icanhasall : Bool} {ver : Nat}
    (hlt : Implicit icanhasall ver →
      Filter.countIn x.filters (PubSub.filterPrefixId, []) pipe + 1 < 2 ^ 31) :
    ∃ x', x.enter icanhasall ver pipe = .ok x' ∧ x'.Sound ∧ x'.isPub = x.isPub ∧
      x'.pending = x.pending ∧ (∀ u, x'.dist.attached u ↔ x.dist.attached u ∨ u = pipe) ∧
      ∀ key u, Filter.countIn x'.filters key u =
        if Implicit icanhasall ver then x.countAfter pipe ⟨true, PubSub.filterPrefixId, []⟩ key u
        else Filter.countIn x.filters key u := by
  obtain ⟨d, hd, hlay, hatt, -⟩ := h.dist.attach hp
  have hs : ({ x with dist := d } : XPub α).Sound := ⟨hlay.self, h.wf, h.ids⟩
  simp only [XPub.enter, hd]
  by_cases hi : Implicit icanhasall ver
  · obtain ⟨filters, hsub, hs', hcount⟩ := hs.subscribeAll (hlt hi)
    exact ⟨_, by rw [if_pos hi, hsub], hs', rfl, rfl, hatt, fun key u => by
      rw [if_pos hi]
      exact hcount key u⟩
  · grind

theorem Sound.enter_ok_iff (h : x.Sound) (hp : ¬ x.dist.attached pipe) (icanhasall : Bool)
    (ver : Nat) :
    (∃ x', x.enter icanhasall ver pipe = .ok x') ↔ (Implicit icanhasall ver →
      Filter.countIn x.filters (PubSub.filterPrefixId, []) pipe + 1 < 2 ^ 31) := by
  constructor
  · rintro ⟨x', hx'⟩ hi
    obtain ⟨d, hd, hlay, -⟩ := h.dist.attach hp
    have hs : ({ x with dist := d } : XPub α).Sound := ⟨hlay.self, h.wf, h.ids⟩
    simp only [XPub.enter, hd, if_pos hi] at hx'
    exact hs.subscribeAll_ok_iff.1 ⟨x', hx'⟩
  · intro hlt
    obtain ⟨x', hx', -⟩ := h.enter hp hlt
    exact ⟨x', hx'⟩

/-! ## A pipe goes away -/

theorem unsubscribeAll_spec (pipe : α) : ∀ {filters : List (Filter α)}, (∀ f ∈ filters, f.WF) →
    (filters.map Filter.id).Nodup →
    ∃ (filters' : List (Filter α)) (keys : List Subscription),
      unsubscribeAll filters pipe = .ok (filters', keys) ∧ (∀ f ∈ filters', f.WF) ∧
      filters'.map Filter.id = filters.map Filter.id ∧
      (∀ key u, Filter.countIn filters' key u =
        if u = pipe then
          (if key.1 = PubSub.filterPrefixId then Filter.countIn filters key u - 1 else 0)
        else Filter.countIn filters key u) ∧
      keys.Nodup ∧ ∀ key, key ∈ keys ↔ key.1 = PubSub.filterPrefixId ∧
        (∃ u, 0 < Filter.countIn filters key u) ∧ ∀ u, Filter.countIn filters' key u = 0 := by
  intro filters
  induction filters with
  | nil =>
    intro _ _
    refine ⟨[], [], rfl, by simp, rfl, fun key u => ?_, List.nodup_nil, fun key => ?_⟩
    · simp [Filter.countIn, Filter.find]
    · simp [Filter.countIn, Filter.find]
  | cons f filters ih =>
    intro hwf hnodup
    rw [List.map_cons, List.nodup_cons] at hnodup
    obtain ⟨f', calls, hall, hwf', hid', hcount', hcalls, hmem⟩ :=
      Filter.pfUnsubscribeAll_spec (hwf f (by simp)) pipe
    obtain ⟨filters', keys, hrest, hwfs, hids, hcounts, hkeys, hmems⟩ :=
      ih (fun g hg => hwf g (List.mem_cons_of_mem _ hg)) hnodup.2
    -- the other filters have nothing with the id of this one
    have hnone : ∀ data u, Filter.countIn filters (f.id, data) u = 0 := by
      intro data u
      have hfind : Filter.find filters (f.id, data).1 = none := Filter.find_eq_none_iff.2 hnodup.1
      exact Filter.countIn_of_none hfind u
    have hother : ∀ key ∈ keys, key.1 ≠ f.id := by grind
    refine ⟨f' :: filters', calls.map (f'.id, ·) ++ keys,
      by simp only [unsubscribeAll, hall, hrest], ?_, by simp [hid', hids], fun key u => ?_, ?_,
      fun key => ?_⟩
    · grind
    · grind [Filter.countIn_cons]
    · grind
    · obtain ⟨id, data⟩ := key
      simp only [List.mem_append, List.mem_map, Prod.mk.injEq, Filter.countIn_cons, hid']
      by_cases hkey : f.id = id
      · subst hkey
        have hno : (f.id, data) ∉ keys := fun hc => hother _ hc rfl
        simp [hno, hmem]
      · simp [hkey, hmems]

theorem foldl_filterUnsubscribed (keys : List Subscription) : ∀ x : XPub α,
    keys.foldl (fun x key => x.filterUnsubscribed key.1 key.2) x = { x with
      pending := if x.isPub then x.pending
        else x.pending ++ keys.map fun key => PubSub.command ⟨false, key⟩ } := by
  induction keys with
  | nil => intro x; simp
  | cons key keys ih => grind [filterUnsubscribed, push]

theorem Sound.xterminated (h : x.Sound) (hp : x.dist.attached pipe) :
    ∃ (x' : XPub α) (keys : List Subscription), x.xterminated pipe = .ok x' ∧ x'.Sound ∧ x'.isPub = x.isPub ∧
      (∀ u, x'.dist.attached u ↔ x.dist.attached u ∧ u ≠ pipe) ∧
      (∀ key u, Filter.countIn x'.filters key u =
        if u = pipe then
          (if key.1 = PubSub.filterPrefixId then Filter.countIn x.filters key u - 1 else 0)
        else Filter.countIn x.filters key u) ∧
      (x.isPub = false →
        x'.pending = x.pending ++ keys.map fun key => PubSub.command ⟨false, key⟩) ∧
      keys.Nodup ∧ ∀ key, key ∈ keys ↔ key.1 = PubSub.filterPrefixId ∧
        (∃ u, 0 < Filter.countIn x.filters key u) ∧ ∀ u, Filter.countIn x'.filters key u = 0 := by
  obtain ⟨filters, keys, hall, hwf, hids, hcount, hnodup, hmem⟩ :=
    unsubscribeAll_spec pipe h.wf h.ids
  obtain ⟨d, hd, hlay, hatt, -⟩ := h.dist.terminated hp
  simp only [XPub.xterminated, hall, foldl_filterUnsubscribed, hd]
  exact ⟨_, keys, rfl, ⟨hlay.self, hwf, hids ▸ h.ids⟩, rfl, hatt, hcount, fun hx => by simp [hx],
    hnodup, hmem⟩

end XPub

namespace XPubSystem

def Harmless (s : XPubSystem α) : XPubOp α → Prop
  | .attach pipe e icanhasall ver =>
    ¬ s.attached pipe →
      (XPub.Implicit icanhasall ver →
        Filter.countIn s.pub.filters (PubSub.filterPrefixId, []) pipe + 1 < 2 ^ 31) ∧
      ∀ x, s.pub.enter icanhasall ver pipe = .ok x →
        RunMeets (XPub.turn pipe) (fun x a => x.Accepts pipe a.2) x e.waiting
  | .activateRead pipe =>
    s.attached pipe → (s.ends pipe).processActivateRead.1 = true →
      RunMeets (XPub.turn pipe) (fun x a => x.Accepts pipe a.2) s.pub
        (s.ends pipe).processActivateRead.2.waiting
  | _ => True

variable {s : XPubSystem α}
variable {x : XPub α}

theorem read_ok_iff (h : x.Sound) (ends : Ends α) (pipe : α) :
    (∃ r, x.xreadActivated ends pipe = .ok r) ↔
      RunMeets (XPub.turn pipe) (fun x a => x.Accepts pipe a.2) x (ends pipe).waiting := by
  rw [← run_ok_iff (I := XPub.Sound) (fun x a hx => hx.process_ok_iff a.2 a.1)
    (fun x a x' hx hx' => (hx.turn hx').1) _ x h]
  obtain ⟨ends', hread⟩ := XPub.xreadActivated_eq ends pipe
  rw [hread x]
  cases run (XPub.turn pipe) x (ends pipe).waiting <;> simp [Except.map]

theorem read_sound {x' : XPub α} (h : x.Sound) {ends ends' : Ends α} {pipe : α}
    (hx' : x.xreadActivated ends pipe = .ok (x', ends')) : x'.Sound := by
  obtain ⟨ends'', hread⟩ := XPub.xreadActivated_eq ends pipe
  rw [hread x] at hx'
  cases hrun : run (XPub.turn pipe) x (ends pipe).waiting with
  | error err => simp [hrun, Except.map] at hx'
  | ok x'' =>
    simp only [hrun, Except.map, Except.ok.injEq, Prod.mk.injEq] at hx'
    exact hx'.1 ▸ run_preserves (fun x a x' hx hx' => (hx.turn hx').1) _ x x'' h hrun

theorem step_ok_iff (h : s.pub.Sound) (op : XPubOp α) : (∃ s', s.step op = .ok s') ↔ s.Harmless op := by
  cases op with
  | attach pipe e icanhasall ver =>
    by_cases hp : s.attached pipe
    · simp [step, Harmless, hp]
    · simp only [step, Harmless, XPub.xattachPipe, hp, not_false_eq_true, true_imp_iff]
      rw [← h.enter_ok_iff hp icanhasall ver]
      cases hent : s.pub.enter icanhasall ver pipe with
      | error err => simp
      | ok x =>
        obtain ⟨x', hx', hs, -⟩ := h.enter hp ((h.enter_ok_iff hp icanhasall ver).1 ⟨x, hent⟩)
        obtain rfl : x' = x := by simpa [hent] using hx'.symm
        have hread := read_ok_iff hs (Function.update s.ends pipe e) pipe
        rw [Function.update_self] at hread
        simp only [Except.ok.injEq, exists_eq', forall_eq', true_and, ← hread]
        cases x'.xreadActivated (Function.update s.ends pipe e) pipe <;> simp
  | activateRead pipe =>
    by_cases hp : s.attached pipe
    · rcases hact : (s.ends pipe).processActivateRead with ⟨_ | _, e⟩
      · simp [step, Harmless, hp, hact]
      · have hread := read_ok_iff h (Function.update s.ends pipe e) pipe
        rw [Function.update_self] at hread
        simp only [step, Harmless, hact, hp, true_imp_iff, ← hread]
        cases s.pub.xreadActivated (Function.update s.ends pipe e) pipe <;> simp
    · simp [step, Harmless, hp]
  | terminated pipe =>
    by_cases hp : s.attached pipe
    · obtain ⟨x', -, hx', -⟩ := h.xterminated hp
      simp [step, Harmless, hp, hx']
    · simp [step, Harmless, hp]
  | recv =>
    simp only [step, Harmless, iff_true]
    split <;> exact ⟨_, rfl⟩
  | change pipe e => simp [step, Harmless]

theorem step_sound {s' : XPubSystem α} {op : XPubOp α} (h : s.pub.Sound) (hs : s.step op = .ok s') :
    s'.pub.Sound := by
  cases op with
  | attach pipe e icanhasall ver =>
    by_cases hp : s.attached pipe
    · simp only [step, if_pos hp] at hs
      cases hs
      exact h
    · simp only [step, if_neg hp, XPub.xattachPipe] at hs
      cases hent : s.pub.enter icanhasall ver pipe with
      | error err => simp [hent] at hs
      | ok x =>
        obtain ⟨x', hx', hsound, -⟩ := h.enter hp ((h.enter_ok_iff hp _ _).1 ⟨x, hent⟩)
        obtain rfl : x' = x := by simpa [hent] using hx'.symm
        simp only [hent] at hs
        grind [read_sound]
  | activateRead pipe =>
    by_cases hp : s.attached pipe
    · grind [step, read_sound]
    · simp only [step, if_neg hp] at hs
      cases hs
      exact h
  | terminated pipe => grind [h.xterminated, step]
  | recv =>
    simp only [step, XPub.xrecv] at hs
    split at hs
    next hr => grind
    next hr =>
      split at hr
      · cases hr
      · simp only [Prod.mk.injEq] at hr
        cases hs
        exact hr.2 ▸ ⟨h.dist, h.wf, h.ids⟩
  | change pipe e =>
    simp only [step] at hs
    cases hs
    exact h

/-- **No peer can abort the publisher exactly as long as it names filters that exist.** -/
theorem completes_iff_harmless (isPub : Bool) (ops : List (XPubOp α)) :
    (∃ s, run step (init isPub) ops = .ok s) ↔
      RunMeets step Harmless (init isPub) ops :=
  run_ok_iff (I := fun s : XPubSystem α => s.pub.Sound) (fun _ op h => step_ok_iff h op)
    (fun _ _ _ h hs => step_sound h hs) ops _ (XPub.sound_init isPub)

def holding (messages : List (List UInt8)) : Endpoint :=
  (messages.foldl (fun e data => e.peerWrite ⟨false, 0, data⟩) (Endpoint.init 0 0 true)).peerFlush

theorem firstCommand_aborts :
    run step (init false) [.attach 0 (holding [[0, 2, 0, 1]]) false 4] =
        .error .assertFailed ∧
      run step (init false) [.attach 0 (holding [[0, 1, 0, 3]]) false 4] =
        .error .assertFailed := by
  exact ⟨rfl, rfl⟩

end XPubSystem

end Libxs
