import Libxs.Foundation.Run
import Libxs.Msg

/-! # Timers of an I/O thread -/

namespace Libxs

structure Timer where
  id : Nat
  expiration : Nat
  born : Nat
deriving DecidableEq, Repr

structure Firing where
  timer : Timer
  call : Nat
  reading : Nat

structure Timers where
  timers : List Timer
  firing : Option (Nat × Timer)
  result : Option Nat
  clock : Nat
  returned : List Nat
  added : List Timer
  fired : List Firing
  removed : List Timer

inductive TimerOp where
  | addTimer (now timeout : Nat)
  | rmTimer (t : Timer)
  | execute (now : Nat)
  | handlerReturns

namespace Timers

variable {s s' : Timers} {current now : Nat} {t : Timer} {l : List Timer}

def init : Timers := ⟨[], none, none, 0, [], [], [], []⟩

def insertTimer (t : Timer) : List Timer → List Timer
  | [] => [t]
  | u :: us => if u.expiration ≤ t.expiration then u :: insertTimer t us else t :: u :: us

/-- `++it`. -/
def succ (t : Timer) (l : List Timer) : Option Timer := (l.dropWhile (· ≠ t)).tail.head?

def loopHead (s : Timers) (current : Nat) : Option Timer → Timers
  | none => { s with firing := none, returned := s.returned ++ [current], result := some 0 }
  | some it =>
    if current < it.expiration then
      { s with firing := none, returned := s.returned ++ [current],
               result := some (it.expiration - current) }
    else { s with firing := some (current, it), result := none }

def step (s : Timers) : TimerOp → Except Fault Timers
  | .addTimer now timeout =>
    let t : Timer := ⟨s.added.length, now + timeout, s.returned.length⟩
    .ok { s with timers := insertTimer t s.timers, added := s.added ++ [t], clock := now,
                 result := none }
  | .rmTimer t =>
    if t ∈ s.timers then
      .ok { s with timers := s.timers.erase t, removed := s.removed ++ [t], result := none }
    else .error .badIndex
  | .execute now =>
    match s.firing with
    | some _ => .error .assertFailed
    | none =>
      if s.timers.isEmpty then .ok { s with result := some 0 }
      else .ok ({ s with clock := now }.loopHead now s.timers.head?)
  | .handlerReturns =>
    match s.firing with
    | none => .error .assertFailed
    | some (current, it) =>
      let f : Firing := ⟨it, s.returned.length, current⟩
      .ok ({ s with timers := s.timers.erase it, fired := s.fired ++ [f] }.loopHead current
        (succ it s.timers))

def Proper (s : Timers) : TimerOp → Prop
  | .addTimer now _ => s.clock ≤ now
  | .rmTimer t => t ∈ s.timers ∧ ∀ current, s.firing ≠ some (current, t)
  | .execute now => s.clock ≤ now ∧ s.firing = none
  | .handlerReturns => s.firing ≠ none

def Missed (s : Timers) (t : Timer) (k : Nat) : Prop :=
  ∀ j c, t.born ≤ j → j < k → s.returned[j]? = some c → c < t.expiration

structure Inv (current : Option Nat) (s : Timers) : Prop where
  sorted : s.timers.Pairwise (·.expiration ≤ ·.expiration)
  log : ∀ u, s.added.count u =
    s.timers.count u + (s.fired.map (·.timer)).count u + s.removed.count u
  ids : s.added.map (·.id) = List.range s.added.length
  clock : ∀ c, current = some c → c ≤ s.clock
  waiting : ∀ t ∈ s.timers, t.born ≤ s.returned.length ∧ s.Missed t s.returned.length
  due : ∀ f ∈ s.fired, f.timer.born ≤ f.call ∧ f.timer.expiration ≤ f.reading ∧
    s.Missed f.timer f.call
  reading : ∀ f ∈ s.fired, s.returned[f.call]? = some f.reading ∨
    f.call = s.returned.length ∧ current = some f.reading ∧
      ∀ t ∈ s.timers, f.timer.expiration ≤ t.expiration
  order : s.fired.Pairwise fun f g => f.call = g.call → f.timer.expiration ≤ g.timer.expiration

def ResultOk (s : Timers) (v : Nat) : Prop :=
  (v = 0 ↔ s.timers = []) ∧ (s.timers ≠ [] → ∃ c t, s.returned.getLast? = some c ∧ t ∈ s.timers ∧
    t.expiration = c + v ∧ ∀ u ∈ s.timers, t.expiration ≤ u.expiration)

structure State (s : Timers) : Prop where
  inv : s.Inv (s.firing.map Prod.fst)
  firing : ∀ c t, s.firing = some (c, t) → s.timers.head? = some t ∧ t.expiration ≤ c
  result : ∀ v, s.result = some v → s.ResultOk v

theorem Inv.frame {cur : Option Nat} (h : s.Inv cur) (firing : Option (Nat × Timer))
    (result : Option Nat) : ({ s with firing := firing, result := result } : Timers).Inv cur :=
  ⟨h.sorted, h.log, h.ids, h.clock, h.waiting, h.due, h.reading, h.order⟩

/-! ## Inserting and removing -/

theorem insertTimer_perm : (insertTimer t l).Perm (t :: l) := by
  induction l with
  | nil => exact .refl _
  | cons u us ih =>
    unfold insertTimer
    split
    · exact (ih.cons u).trans (.swap t u us)
    · exact .refl _

theorem insertTimer_sorted (h : l.Pairwise (·.expiration ≤ ·.expiration)) :
    (insertTimer t l).Pairwise (·.expiration ≤ ·.expiration) := by
  induction l with
  | nil => exact List.pairwise_singleton _ _
  | cons u us ih =>
    obtain ⟨hu, hus⟩ := List.pairwise_cons.1 h
    unfold insertTimer
    split
    · refine List.pairwise_cons.2 ⟨fun v hv => ?_, ih hus⟩
      rcases List.mem_cons.1 (insertTimer_perm.mem_iff.1 hv) with rfl | hv
      · assumption
      · exact hu v hv
    · refine List.pairwise_cons.2 ⟨fun v hv => ?_, h⟩
      rcases List.mem_cons.1 hv with rfl | hv
      · omega
      · exact Nat.le_trans (by omega) (hu v hv)

theorem Inv.addTimer {cur : Option Nat} (h : s.Inv cur) (hnow : s.clock ≤ now) (timeout : Nat)
    (hs : s.step (.addTimer now timeout) = .ok s') : s'.Inv cur := by
  obtain ⟨⟩ := hs
  have hmem : ∀ {u} {t : Timer}, u ∈ insertTimer t s.timers ↔ u = t ∨ u ∈ s.timers :=
    fun {u t} => insertTimer_perm.mem_iff.trans List.mem_cons
  refine ⟨insertTimer_sorted h.sorted, ?_, ?_, fun c hc => Nat.le_trans (h.clock c hc) hnow, fun t ht => ?_,
    h.due, fun f hf => ?_, h.order⟩
  · intro u
    simp only [List.count_append, h.log u, insertTimer_perm.count_eq u, List.count_cons,
      List.count_nil]
    omega
  · simp [h.ids, List.range_succ]
  · rcases hmem.1 ht with rfl | ht
    · exact ⟨Nat.le_refl _, fun j c hj hj' => absurd hj' (Nat.not_lt.2 hj)⟩
    · exact h.waiting t ht
  · refine (h.reading f hf).imp_right fun ⟨hcall, hcur, hle⟩ => ⟨hcall, hcur, fun t ht => ?_⟩
    rcases hmem.1 ht with rfl | ht
    · have := (h.due f hf).2.1
      have := h.clock _ hcur
      show f.timer.expiration ≤ now + timeout
      omega
    · exact hle t ht

theorem Inv.rmTimer {cur : Option Nat} (h : s.Inv cur) (ht : t ∈ s.timers)
    (hs : s.step (.rmTimer t) = .ok s') : s'.Inv cur := by
  obtain rfl : _ = s' := Except.ok.inj ((if_pos ht).symm.trans hs)
  refine ⟨h.sorted.sublist List.erase_sublist, fun u => ?_, h.ids, h.clock,
    fun u hu => h.waiting u (List.mem_of_mem_erase hu), h.due, fun f hf => ?_, h.order⟩
  · have hcount := (List.perm_cons_erase ht).count_eq u
    rw [List.count_cons] at hcount
    simp only [List.count_append, h.log u, List.count_cons, List.count_nil, hcount]
    omega
  · exact (h.reading f hf).imp_right fun ⟨hcall, hcur, hle⟩ =>
      ⟨hcall, hcur, fun u hu => hle u (List.mem_of_mem_erase hu)⟩

theorem Inv.fire {rest : List Timer} (h : s.Inv (some current)) (htimers : s.timers = t :: rest)
    (hdue : t.expiration ≤ current) :
    ({ s with timers := rest, fired := s.fired ++ [⟨t, s.returned.length, current⟩] } : Timers).Inv
      (some current) := by
  obtain ⟨hle, hrest⟩ := List.pairwise_cons.1 (htimers ▸ h.sorted)
  have hmem : ∀ u ∈ rest, u ∈ s.timers := fun u hu => htimers ▸ List.mem_cons_of_mem t hu
  have ht : t ∈ s.timers := htimers ▸ List.mem_cons_self
  refine ⟨hrest, fun u => ?_, h.ids, h.clock, fun u hu => h.waiting u (hmem u hu), fun f hf => ?_,
    fun f hf => ?_, ?_⟩
  · rw [h.log u, htimers]
    simp only [List.map_append, List.count_append, List.map_cons, List.map_nil, List.count_cons,
      List.count_nil]
    omega
  · rcases List.mem_append.1 hf with hf | hf
    · exact h.due f hf
    · obtain rfl := List.mem_singleton.1 hf
      exact ⟨(h.waiting t ht).1, hdue, (h.waiting t ht).2⟩
  · rcases List.mem_append.1 hf with hf | hf
    · exact (h.reading f hf).imp_right fun ⟨hcall, hcur, hle⟩ =>
        ⟨hcall, hcur, fun u hu => hle u (hmem u hu)⟩
    · obtain rfl := List.mem_singleton.1 hf
      exact .inr ⟨rfl, rfl, hle⟩
  · refine List.pairwise_append.2 ⟨h.order, List.pairwise_singleton _ _, fun f hf g hg hcall => ?_⟩
    obtain rfl := List.mem_singleton.1 hg
    rcases h.reading f hf with hread | ⟨-, -, hle⟩
    · rw [show f.call = s.returned.length from hcall, List.getElem?_eq_none (Nat.le_refl _)] at hread
      cases hread
    · exact hle t ht

theorem Inv.call_le {cur : Option Nat} (h : s.Inv cur) {f : Firing} (hf : f ∈ s.fired) :
    f.call ≤ s.returned.length := by
  rcases h.reading f hf with hread | ⟨hcall, -, -⟩
  · exact Nat.le_of_lt (List.getElem?_eq_some_iff.1 hread).1
  · exact Nat.le_of_eq hcall

theorem Inv.returns (h : s.Inv (some current)) (hlate : ∀ t ∈ s.timers, current < t.expiration)
    (v : Nat) :
    ({ s with firing := none, returned := s.returned ++ [current], result := some v } : Timers).Inv
      none := by
  refine ⟨h.sorted, h.log, h.ids, nofun, fun t ht => ⟨?_, fun j c hj hlt hc => ?_⟩,
    fun f hf => ⟨(h.due f hf).1, (h.due f hf).2.1, fun j c hj hlt hc => ?_⟩, fun f hf => .inl ?_,
    h.order⟩
  · rw [List.length_append]
    exact Nat.le_add_right_of_le (h.waiting t ht).1
  · rw [List.length_append, List.length_singleton] at hlt
    rcases Nat.lt_succ_iff_lt_or_eq.1 hlt with hlt | rfl
    · rw [List.getElem?_append_left hlt] at hc
      exact (h.waiting t ht).2 j c hj hlt hc
    · rw [List.getElem?_concat_length] at hc
      obtain ⟨⟩ := hc
      exact hlate t ht
  · rw [List.getElem?_append_left (Nat.lt_of_lt_of_le hlt (h.call_le hf))] at hc
    exact (h.due f hf).2.2 j c hj hlt hc
  · rcases h.reading f hf with hread | ⟨hcall, hcur, -⟩
    · rwa [List.getElem?_append_left (List.getElem?_eq_some_iff.1 hread).1]
    · rw [hcall, List.getElem?_concat_length, hcur]

theorem loopHead_timers (it : Option Timer) : (s.loopHead current it).timers = s.timers := by
  cases it with
  | none => rfl
  | some it =>
    rw [loopHead]
    split <;> rfl

theorem Inv.loopHead (h : s.Inv (some current)) : (s.loopHead current s.timers.head?).State := by
  cases htimers : s.timers with
  | nil =>
    refine ⟨h.returns (by simp [htimers]) 0, nofun, fun v hv => ?_⟩
    obtain ⟨⟩ := hv
    exact ⟨iff_of_true rfl htimers, fun hne => absurd htimers hne⟩
  | cons t rest =>
    obtain ⟨hle, -⟩ := List.pairwise_cons.1 (htimers ▸ h.sorted)
    have hfirst : ∀ u ∈ s.timers, t.expiration ≤ u.expiration := by
      rw [htimers]
      exact List.forall_mem_cons.2 ⟨Nat.le_refl _, hle⟩
    rw [List.head?_cons, Timers.loopHead]
    split
    case isTrue hlt =>
      refine ⟨h.returns (fun u hu => Nat.lt_of_lt_of_le hlt (hfirst u hu)) _, nofun, fun v hv => ?_⟩
      obtain ⟨⟩ := hv
      refine ⟨⟨fun hv => by omega, fun hnil => ?_⟩, fun _ => ⟨current, t, ?_, ?_, ?_, hfirst⟩⟩
      · cases htimers.symm.trans hnil
      · exact List.getLast?_concat
      · exact htimers ▸ List.mem_cons_self
      · omega
    case isFalse hle =>
      refine ⟨h.frame _ _, fun c u hfiring => ?_, nofun⟩
      obtain ⟨⟩ := hfiring
      exact ⟨by rw [htimers]; rfl, Nat.not_lt.1 hle⟩

theorem State.firing_cons (h : s.State) (hf : s.firing = some (current, t)) :
    s.Inv (some current) ∧ t.expiration ≤ current ∧ ∃ rest, s.timers = t :: rest := by
  obtain ⟨hhead, hdue⟩ := h.firing current t hf
  have hinv := h.inv
  rw [hf] at hinv
  exact ⟨hinv, hdue, List.head?_eq_some_iff.1 hhead⟩

theorem State.handlerReturns (h : s.State) (hf : s.firing ≠ none) : ∃ s',
    s.step .handlerReturns = .ok s' ∧ s'.State ∧ s'.timers.length < s.timers.length := by
  obtain ⟨⟨current, t⟩, hf⟩ := Option.ne_none_iff_exists'.1 hf
  obtain ⟨hinv, hdue, rest, htimers⟩ := h.firing_cons hf
  have hsucc : succ t s.timers = rest.head? := by
    simp [succ, htimers]
  have herase : s.timers.erase t = rest := by
    rw [htimers, List.erase_cons_head]
  refine ⟨_, by simp only [step, hf, herase, hsucc],
    ((hinv.fire htimers hdue).frame (some (current, t)) s.result).loopHead, ?_⟩
  · rw [loopHead_timers, htimers]
    exact Nat.lt_succ_self _

theorem State.step (h : s.State) (op : TimerOp) (hop : s.Proper op) :
    ∃ s', s.step op = .ok s' ∧ s'.State := by
  cases op with
  | addTimer now timeout =>
    refine ⟨_, rfl, h.inv.addTimer hop timeout rfl, fun c t hf => ?_, nofun⟩
    obtain ⟨hinv, hdue, rest, htimers⟩ := h.firing_cons hf
    -- The new timer goes behind the one that fires.
    have hle : t.expiration ≤ now + timeout :=
      Nat.le_add_right_of_le (Nat.le_trans hdue (Nat.le_trans (hinv.clock c rfl) hop))
    refine ⟨?_, hdue⟩
    simp only [htimers, insertTimer, if_pos hle]
    rfl
  | rmTimer t =>
    refine ⟨_, if_pos hop.1, h.inv.rmTimer hop.1 (if_pos hop.1), fun c u hf => ?_, nofun⟩
    obtain ⟨-, hdue, rest, htimers⟩ := h.firing_cons hf
    have hne : u ≠ t := fun heq => hop.2 c (heq ▸ hf)
    refine ⟨?_, hdue⟩
    simp only [htimers, List.erase_cons_tail (mt eq_of_beq hne), List.head?_cons]
  | execute now =>
    obtain ⟨hnow, hf⟩ := hop
    have hinv := h.inv
    rw [hf] at hinv
    by_cases hempty : s.timers.isEmpty
    · refine ⟨{ s with result := some 0 }, by simp only [Timers.step, hf, hempty, if_true], h.inv.frame _ _,
        h.firing, fun v hv => ?_⟩
      obtain ⟨⟩ := hv
      have hnil := List.isEmpty_iff.1 hempty
      exact ⟨iff_of_true rfl hnil, fun hne => absurd hnil hne⟩
    · have hstart : ({ s with clock := now } : Timers).Inv (some now) :=
        ⟨hinv.sorted, hinv.log, hinv.ids, fun c hc => Nat.le_of_eq (Option.some.inj hc).symm,
          hinv.waiting, hinv.due, fun f hf => (hinv.reading f hf).imp_right (by simp), hinv.order⟩
      exact ⟨_, by simp only [Timers.step, hf, hempty]; rfl, hstart.loopHead⟩
  | handlerReturns =>
    obtain ⟨s', hs, h', -⟩ := h.handlerReturns hop
    exact ⟨s', hs, h'⟩

end Timers

end Libxs
