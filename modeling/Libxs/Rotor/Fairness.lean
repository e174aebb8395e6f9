import Libxs.Foundation.Polling
import Libxs.Fq
import Libxs.Lb.Proofs

/-! # Nobody starves in a round

The number of pipes `ahead` of an active one never grows, and each message makes it smaller. -/

namespace Libxs

variable {α : Type}

theorem of_map_ok {σ τ : Type} {x : Except Fault σ} {f : σ → τ} {t : τ} (h : x.map f = .ok t) :
    ∃ r, x = .ok r ∧ f r = t := by
  cases x with
  | error e => cases h
  | ok r => exact ⟨r, rfl, Except.ok.inj h⟩

namespace Rotor

/-- How many turns of others come before that of an active pipe. -/
def ahead (r : Rotor α) (p : α) : Nat :=
  if r.current ≤ r.pipes.index p then r.pipes.index p - r.current
  else r.pipes.index p + r.active - r.current

/-- The pipe was among those `served`, or was skipped, or has its turn within `k` messages. -/
structure Waiting (r : Rotor α) (p : α) (k : Nat) (served : List α) : Prop where
  bounded : r.Bounded
  attached : r.attached p
  soon : p ∈ served ∨ r.active ≤ r.pipes.index p ∨ served.length + r.ahead p < k

variable {r r' : Rotor α} {p q : α} {k : Nat} {served : List α}

theorem Bounded.waiting (h : r.Bounded) (hp : r.attached p) : r.Waiting p r.active [] := by
  refine ⟨h, hp, Or.inr ?_⟩
  have hcur := h.current_lt
  rw [List.length_nil, ahead]
  split <;> omega

theorem Waiting.mem (h : r.Waiting p k served) (hp : r.pipes.index p < r.active)
    (hk : k ≤ served.length) : p ∈ served := by
  rcases h.soon with hmem | hskipped | hlt
  · exact hmem
  · omega
  · omega

theorem next_eq (h : r.current < r.active) :
    (r.current + 1) % r.active = if r.active ≤ r.current + 1 then 0 else r.current + 1 := by
  split
  next hge => rw [show r.current + 1 = r.active by omega, Nat.mod_self]
  next hlt => exact Nat.mod_eq_of_lt (by omega)

theorem Waiting.advance (h : r.Waiting p k served) (hpos : 0 < r.active)
    (hget : r.pipes.get r.current = some q) :
    Waiting { r with current := (r.current + 1) % r.active } p k (served ++ [q]) := by
  have hlt := h.bounded.current_lt_active hpos
  refine ⟨h.bounded.setCurrent (Nat.mod_lt _ hpos), h.attached, ?_⟩
  by_cases hpq : p = q
  · exact Or.inl (by simp [hpq])
  -- another pipe is served, so the turn of `p` is not now
  have hne : r.pipes.index p ≠ r.current := by
    intro heq
    have hp := h.bounded.part.wf.get_index h.attached
    rw [heq, hget] at hp
    exact hpq (Option.some.inj hp).symm
  rcases h.soon with hmem | hskipped | hk
  · exact Or.inl (List.mem_append_left _ hmem)
  · exact Or.inr (Or.inl hskipped)
  · refine Or.inr (or_iff_not_imp_left.2 fun hin => ?_)
    rw [List.length_append, List.length_singleton]
    unfold ahead at hk ⊢
    simp only [next_eq hlt] at hin ⊢
    split at hk <;> split_ifs <;> omega

variable [DecidableEq α]

theorem Waiting.deactivate (h : r.Waiting p k served) (hpos : 0 < r.active)
    (hr : r.deactivate = .ok r') : r'.Waiting p k served := by
  have hlt := h.bounded.current_lt_active hpos
  obtain ⟨q, hget, -, -⟩ := h.bounded.get_current hpos
  obtain ⟨r₁, hr₁, hinv, hmem, -⟩ := h.bounded.deactivate hpos hget
  obtain rfl : r' = r₁ := Except.ok.inj (hr.symm.trans hr₁)
  refine ⟨hinv.bounded, (hmem p).2 h.attached, ?_⟩
  unfold Rotor.deactivate at hr
  cases hs : r.pipes.swap r.current (r.active - 1) with
  | none => simp [hs] at hr
  | some pipes =>
    simp only [hs, Except.ok.injEq] at hr
    have hidx := ArrayT.index_swap h.bounded.part.wf hs h.attached
    subst hr
    rcases h.soon with hin | hskipped | hk
    · exact Or.inl hin
    · refine Or.inr (Or.inl ?_)
      simp only [hidx, ArrayT.swapIndex]
      split_ifs <;> omega
    · refine Or.inr (or_iff_not_imp_left.2 fun hactive => ?_)
      unfold ahead at hk ⊢
      simp only [hidx, ArrayT.swapIndex] at hactive ⊢
      split_ifs at * <;> omega

theorem bounded_pair : (⟨⟨[0, 1], id⟩, 2, 0⟩ : Rotor Nat).Bounded := by
  refine ⟨⟨fun i x hx => ?_, by decide, fun _ _ => Iff.rfl⟩, Or.inr (by decide)⟩
  rcases i with _ | _ | i <;> simp_all [ArrayT.index]

end Rotor

/-! ## The fair queue -/

namespace Fq

variable [DecidableEq α]
variable {fq fq' : Fq α} {ends ends' : Ends α} {p : α} {k : Nat} {served : List α}

/-- The pipe that completes a message. -/
def supplier : Option (Msg × α) → List α
  | some (msg, pipe) => if msg.more then [] else [pipe]
  | none => []

/-- One call, whatever the pipes hold by then, and the pipes that supplied complete messages. -/
def turn (s : Fq α × List α) : PollCall × Ends α → Except Fault (Fq α × List α)
  | (.recv, ends) => (s.1.recvpipe ends).map fun (r, fq, _) => (fq, s.2 ++ supplier r)
  | (.poll, ends) => (s.1.hasIn ends).map fun (_, fq, _) => (fq, s.2)

theorem waiting_deactivate (h : fq.Waiting p k served) (hpos : 0 < fq.active)
    (hde : fq.deactivate = .ok fq') : fq'.Waiting p k served ∧ fq'.active = fq.active - 1 := by
  obtain ⟨q, hget, -, -⟩ := h.bounded.get_current hpos
  obtain ⟨r, hr, -, -, hact⟩ := h.bounded.deactivate hpos hget
  simp only [deactivate, withRotor, hr] at hde
  cases hde
  exact ⟨h.deactivate hpos hr, hact⟩

theorem waiting_recvLoop : ∀ (count : Nat) {fq fq' : Fq α} {ends ends' : Ends α}
    {r : Option (Msg × α)}, fq.Waiting p k served → count = fq.active →
    recvLoop count fq ends = .ok (r, fq', ends') → fq'.Waiting p k (served ++ supplier r) := by
  intro count
  induction count with
  | zero =>
    intro fq fq' ends ends' r h _ hrun
    cases hrun
    simpa [supplier] using h
  | succ count ih =>
    intro fq fq' ends ends' r h hact hrun
    have hpos : 0 < fq.active := by omega
    have hlt := h.bounded.current_lt_active hpos
    obtain ⟨q, hget, -, -⟩ := h.bounded.get_current hpos
    simp only [recvLoop, hget] at hrun
    split at hrun
    · cases hrun
    next msg e hread =>
      cases hrun
      cases hmore : msg.more with
      | true => simpa [supplier, hmore] using ⟨h.bounded, h.attached, h.soon⟩
      | false => simpa [supplier, hmore, Rotor.next_eq hlt] using h.advance hpos hget
    next e hread =>
      split at hrun
      · cases hrun
      · split at hrun
        · cases hrun
        next hde =>
          obtain ⟨h', hact'⟩ := waiting_deactivate h hpos hde
          exact ih h' (by omega) hrun

theorem waiting_hasInLoop : ∀ (count : Nat) {fq fq' : Fq α} {ends ends' : Ends α} {r : Bool},
    fq.Waiting p k served → count = fq.active → hasInLoop count fq ends = .ok (r, fq', ends') →
    fq'.Waiting p k served := by
  intro count
  induction count with
  | zero =>
    intro fq fq' ends ends' r h _ hrun
    cases hrun
    exact h
  | succ count ih =>
    intro fq fq' ends ends' r h hact hrun
    have hpos : 0 < fq.active := by omega
    obtain ⟨q, hget, -, -⟩ := h.bounded.get_current hpos
    simp only [hasInLoop, hget] at hrun
    split at hrun
    · cases hrun
    · cases hrun
      exact h
    · split at hrun
      · cases hrun
      next hde =>
        obtain ⟨h', hact'⟩ := waiting_deactivate h hpos hde
        exact ih h' (by omega) hrun

theorem waiting_turn {s t : Fq α × List α} {call : PollCall × Ends α} (h : s.1.Waiting p k s.2)
    (hs : turn s call = .ok t) : t.1.Waiting p k t.2 := by
  obtain ⟨_ | _, ends⟩ := call
  · obtain ⟨r, hrun, rfl⟩ := of_map_ok hs
    exact waiting_recvLoop _ h rfl hrun
  · obtain ⟨r, hrun, rfl⟩ := of_map_ok hs
    unfold hasIn at hrun
    split at hrun
    · cases hrun
      exact h
    · exact waiting_hasInLoop _ h rfl hrun

/-- **The fair queue starves nobody.** From any state with `k` active pipes, whatever the pipes hold at
    each call: a pipe that is still active, because no attempt to read from it failed, has supplied one
    of the first `k` complete messages. -/
theorem supplies_in_turn {supplied : List α} (calls : List (PollCall × Ends α)) (hb : fq.Bounded)
    (hp : fq.attached p) (hrun : run turn (fq, []) calls = .ok (fq', supplied))
    (hactive : fq'.pipes.index p < fq'.active) (hk : fq.active ≤ supplied.length) : p ∈ supplied :=
  (run_preserves (I := fun s : Fq α × List α => s.1.Waiting p fq.active s.2)
    (fun _ _ _ h hs => waiting_turn h hs) calls _ _ (hb.waiting hp) hrun).mem hactive hk

def pair : Except Fault (Fq Nat × List Nat) :=
  run turn (⟨⟨⟨[0, 1], id⟩, 2, 0⟩, false⟩, [])
    (List.replicate 2 (.recv, fun _ => ((Endpoint.init 0 0 true).peerWrite .init).peerFlush))

theorem supplies_in_turn_pair : ∃ fq, pair = .ok (fq, [0, 1]) ∧ 1 ∈ [0, 1] := by
  have hrun : pair = .ok (_, [0, 1]) := rfl
  exact ⟨_, hrun, supplies_in_turn _ Rotor.bounded_pair (by decide) hrun (by decide) (by decide)⟩

end Fq

/-! ## The load balancer -/

namespace Lb

variable [DecidableEq α]
variable {lb lb' : Lb α} {ends ends' : Ends α} {p : α} {k : Nat} {served : List α}

def consumer (msg : Msg) : SendResult α → List α
  | .written pipe => if msg.more then [] else [pipe]
  | .dropped | .again => []

/-- One call of `send`, or of `has_out`. -/
def turn (s : Lb α × List α) : Option Msg × Ends α → Except Fault (Lb α × List α)
  | (some msg, ends) => (s.1.send ends msg).map fun (r, lb, _) => (lb, s.2 ++ consumer msg r)
  | (none, ends) => (s.1.hasOut ends).map fun (_, lb, _) => (lb, s.2)

theorem waiting_skips (h : LbSystem.Skips lb ends lb' ends') (hw : lb.Waiting p k served) :
    lb'.Waiting p k served := by
  induction h with
  | refl => exact hw
  | skip _ hpos _ _ _ hr _ ih => exact ih (hw.deactivate hpos hr)

theorem waiting_send {msg : Msg} {r : SendResult α} (h : lb.Waiting p k served)
    (hrun : lb.send ends msg = .ok (r, lb', ends')) :
    lb'.Waiting p k (served ++ consumer msg r) := by
  unfold send at hrun
  split at hrun
  · cases hrun
    simpa [consumer] using ⟨h.bounded, h.attached, h.soon⟩
  split at hrun
  · cases hrun
  next lb₁ ends₁ hloop =>
    cases hrun
    obtain ⟨lb₂, ends₂, hskips, ⟨-, -, rfl, -⟩ | ⟨q, e, hq, -⟩⟩ :=
      LbSystem.sendLoop_skips msg _ _ _ h.bounded rfl _ _ _ hloop
    · simpa [consumer] using waiting_skips hskips h
    · cases hq
  next q lb₁ ends₁ hloop =>
    obtain ⟨lb₂, ends₂, hskips, ⟨hq, -⟩ | ⟨q', e, hq, hpos, hget, -, rfl, -⟩⟩ :=
      LbSystem.sendLoop_skips msg _ _ _ h.bounded rfl _ _ _ hloop
    · cases hq
    · cases hq
      have hw := waiting_skips hskips h
      cases hmore : msg.more with
      | true =>
        simp only [hmore, if_true] at hrun
        cases hrun
        simpa [consumer, hmore] using ⟨hw.bounded, hw.attached, hw.soon⟩
      | false =>
        simp only [hmore, Bool.false_eq_true, if_false] at hrun
        cases hrun
        simpa [consumer, hmore] using hw.advance hpos hget

theorem waiting_turn {s t : Lb α × List α} {call : Option Msg × Ends α} (h : s.1.Waiting p k s.2)
    (hs : turn s call = .ok t) : t.1.Waiting p k t.2 := by
  obtain ⟨_ | msg, ends⟩ := call
  · obtain ⟨r, hrun, rfl⟩ := of_map_ok hs
    unfold hasOut at hrun
    split at hrun
    · cases hrun
      exact h
    next hmore =>
      obtain ⟨ends₁, hskips, -⟩ :=
        LbSystem.hasOutLoop_skips _ _ _ h.bounded rfl (by simpa using hmore) _ _ _ hrun
      exact waiting_skips hskips h
  · obtain ⟨r, hrun, rfl⟩ := of_map_ok hs
    exact waiting_send h hrun

/-- **The load balancer starves nobody**: a pipe that is still active, because it accepted all that was
    written to it, got one of the first `k` complete messages. -/
theorem consumes_in_turn {consumed : List α} (calls : List (Option Msg × Ends α)) (hb : lb.Bounded)
    (hp : lb.attached p) (hrun : run turn (lb, []) calls = .ok (lb', consumed))
    (hactive : lb'.pipes.index p < lb'.active) (hk : lb.active ≤ consumed.length) : p ∈ consumed :=
  (run_preserves (I := fun s : Lb α × List α => s.1.Waiting p lb.active s.2)
    (fun _ _ _ h hs => waiting_turn h hs) calls _ _ (hb.waiting hp) hrun).mem hactive hk

def pair : Except Fault (Lb Nat × List Nat) :=
  run turn (⟨⟨⟨[0, 1], id⟩, 2, 0⟩, false, false⟩, [])
    ([some .init, none, some .init].map (·, fun _ => Endpoint.init 0 0 true))

theorem consumes_in_turn_pair : ∃ lb, pair = .ok (lb, [0, 1]) ∧ 1 ∈ [0, 1] := by
  have hrun : pair = .ok (_, [0, 1]) := rfl
  exact ⟨_, hrun, consumes_in_turn _ Rotor.bounded_pair (by decide) hrun (by decide) (by decide)⟩

end Lb

end Libxs
