import Libxs.Fq
import Libxs.Pipe.Grammar
import Libxs.Rotor.Current
import Mathlib.Algebra.Order.BigOperators.Group.List
import Mathlib.Algebra.Order.Group.Nat

/-! # What a fair queue hands out -/

namespace Libxs

variable {α : Type}

theorem ArrayT.WF.nodup {a : ArrayT α} (h : a.WF) : a.items.Nodup := by
  refine List.pairwise_iff_getElem.2 fun i j hi hj hij heq => ?_
  have h1 := h i _ (List.getElem?_eq_getElem hi)
  have h2 := h j _ (List.getElem?_eq_getElem hj)
  rw [heq] at h1
  omega

namespace Fq

/-! ## The backlog -/

def backlog (fq : Fq α) (ends : Ends α) : Nat :=
  (fq.pipes.items.map fun p => (ends p).inq.ready.length).sum

variable {fq fq' : Fq α} {ends ends' : Ends α} {p : α}

theorem backlog_le (h : ∀ x, (ends' x).inq.ready.length ≤ (ends x).inq.ready.length) :
    fq.backlog ends' ≤ fq.backlog ends :=
  List.sum_le_sum fun x _ => h x

theorem backlog_lt (h : ∀ x, (ends' x).inq.ready.length ≤ (ends x).inq.ready.length)
    (hp : fq.attached p) (hlt : (ends' p).inq.ready.length < (ends p).inq.ready.length) :
    fq.backlog ends' < fq.backlog ends :=
  List.sum_lt_sum _ _ (fun x _ => h x) ⟨p, hp, hlt⟩

theorem backlog_eq (h : fq.Bounded) (h' : fq'.Bounded)
    (hmem : ∀ x, fq'.attached x ↔ fq.attached x) : fq'.backlog ends = fq.backlog ends := by
  have hperm : fq'.pipes.items.Perm fq.pipes.items :=
    (List.perm_ext_iff_of_nodup h'.part.wf.nodup h.part.wf.nodup).2 hmem
  exact (hperm.map _).sum_eq

variable [DecidableEq α] {Q : Type} {G : Grammar Q} {q q' : Q}
variable {e : Endpoint} {r : Option (Msg × α)}

def midMessage (fq : Fq α) (pipe : α) : Bool := fq.more && fq.pipes.get fq.current == some pipe

theorem midMessage_of_more_false {fq : Fq α} (h : fq.more = false) (p : α) :
    fq.midMessage p = false := by
  simp [midMessage, h]

def Holds (G : Grammar Q) (q : Q) (fq : Fq α) (pipe : α) (e : Endpoint) : Prop :=
  e.inq.Content G (fq.midMessage pipe) (if fq.midMessage pipe then q else G.start)

structure Intake (G : Grammar Q) (q : Q) (fq : Fq α) (ends : Ends α) : Prop where
  bounded : fq.Bounded
  place : fq.more = false → q = G.start
  content : ∀ p, fq.attached p → fq.Holds G q p (ends p)
  current : fq.more = true → ∃ p, 0 < fq.active ∧ fq.pipes.get fq.current = some p ∧
    (ends p).pipe.inActive = true

def Continues (fq : Fq α) (ends : Ends α) : Prop :=
  fq.more = true → ∀ p ∈ fq.pipes.get fq.current, (ends p).canRead = true
deriving Decidable

theorem holds_idle (h : fq.more = false) : fq.Holds G q p e ↔ e.inq.Content G false G.start := by
  simp [Holds, midMessage, h]

theorem holds_current (h : fq.more = true) (hget : fq.pipes.get fq.current = some p) :
    fq.Holds G q p e ↔ e.inq.Content G true q := by
  simp [Holds, midMessage, h, hget]

theorem holds_other (hget : fq.pipes.get fq.current ≠ some p) :
    fq.Holds G q p e ↔ e.inq.Content G false G.start := by
  have hne : (fq.pipes.get fq.current == some p) = false := by simpa using hget
  simp [Holds, midMessage, hne]

theorem intake_init (ends : Ends α) : Intake G G.start init ends where
  bounded := Rotor.inv_init _
  place _ := rfl
  content _ hp := absurd hp (by simp [init, Rotor.init, Rotor.attached, ArrayT.empty])
  current h := absurd h (by simp [init])

theorem ready_length_update (h : e.inq.ready.length ≤ (ends p).inq.ready.length) (x : α) :
    (Function.update ends p e x).inq.ready.length ≤ (ends x).inq.ready.length := by
  grind

structure Received (G : Grammar Q) (q : Q) (fq : Fq α) (ends : Ends α) (r : Option (Msg × α))
    (q' : Q) (fq' : Fq α) (ends' : Ends α) : Prop where
  bounded : fq'.Bounded
  content : ∀ p, fq'.attached p → fq'.Holds G q' p (ends' p)
  attached : ∀ p, fq'.attached p ↔ fq.attached p
  reads : ∀ p, Relation.ReflTransGen (fun e e' => ∃ msg, Endpoint.read e = .ok (msg, e'))
    (ends p) (ends' p)
  place : G.step q (r.map Prod.fst) = some q'
  nothing : r = none → fq.more = false ∧ fq'.more = false ∧ fq'.active = 0 ∧
    fq'.backlog ends' ≤ fq.backlog ends
  part : ∀ msg p, r = some (msg, p) → fq.attached p ∧ fq'.more = msg.more ∧
    (fq.more = true → fq.pipes.get fq.current = some p) ∧
    (msg.more = true → 0 < fq'.active ∧ fq'.pipes.get fq'.current = some p ∧
      (ends' p).canRead = true) ∧
    fq'.backlog ends' < fq.backlog ends

theorem bounded_deactivate (h : fq.Bounded) (hpos : 0 < fq.active) :
    ∃ fq', fq.deactivate = .ok fq' ∧ fq'.Bounded ∧ fq'.more = fq.more ∧
      fq'.active = fq.active - 1 ∧ ∀ x, fq'.attached x ↔ fq.attached x := by
  obtain ⟨q, hget, -⟩ := h.get_current hpos
  obtain ⟨r, hde, hinv, hmem, hact⟩ := Rotor.Inv.deactivate h hpos hget
  exact ⟨{ fq with toRotor := r }, by simp only [deactivate, withRotor, hde], hinv.bounded, rfl,
    hact, hmem⟩

theorem received_part (h : fq.Bounded) (hpos : 0 < fq.active)
    (hget : fq.pipes.get fq.current = some p) (hplace : fq.more = false → q = G.start)
    (hin : ∀ p, fq.attached p → fq.Holds G q p (ends p)) {msg : Msg}
    (hread : (ends p).read = .ok (some msg, e)) (hcan : e.canRead = true) :
    ∃ q', Received G q fq ends (some (msg, p)) q'
      { fq with more := msg.more,
                current := if msg.more then fq.current
                  else if fq.current + 1 ≥ fq.active then 0 else fq.current + 1 }
      (Function.update ends p e) := by
  have hlt := h.current_lt_active hpos
  have hatt : fq.attached p := ArrayT.mem_of_get hget
  have hp : (ends p).inq.Content G fq.more q := by
    have := hin p hatt
    cases hm : fq.more with
    | true => exact (holds_current hm hget).1 this
    | false =>
      rw [hplace hm]
      exact (holds_idle hm).1 this
  obtain ⟨q', hstep, hcontent, hlen⟩ := Endpoint.read_content hp hread
  have hless : e.inq.ready.length < (ends p).inq.ready.length := by grind
  refine ⟨q', h.setCurrent (by split_ifs <;> omega), fun x hx => ?_, fun _ => Iff.rfl, fun x => ?_,
    hstep, fun hr => absurd hr (by simp), fun msg' x hr => ?_⟩
  · by_cases hxp : x = p
    · subst hxp
      simp only [Option.elim_some] at hcontent
      simp only [Function.update_self]
      grind [holds_current, hcontent.place, holds_idle]
    · have hne : fq.pipes.get fq.current ≠ some x := by
        rw [hget]
        simpa using Ne.symm hxp
      have hkeep := (holds_other hne).1 (hin x hx)
      simp only [Function.update_of_ne hxp]
      grind [holds_other, holds_idle]
  · grind
  · simp only [Option.some.injEq, Prod.mk.injEq] at hr
    obtain ⟨rfl, rfl⟩ := hr
    exact ⟨hatt, rfl, fun _ => hget, fun hmore => ⟨hpos, by simp [hmore, hget], by simpa⟩,
      backlog_lt (fun x => ready_length_update hless.le x) hatt (by simpa using hless)⟩

theorem recvLoop_received : ∀ (count : Nat) (fq : Fq α) (ends : Ends α), fq.Bounded →
    count = fq.active → (fq.more = false → q = G.start) →
    (∀ p, fq.attached p → fq.Holds G q p (ends p)) → (fq.more = true → 0 < fq.active) →
    fq.Continues ends →
    ∃ r q' fq' ends', recvLoop count fq ends = .ok (r, fq', ends') ∧
      Received G q fq ends r q' fq' ends' := by
  intro count
  induction count with
  | zero =>
    intro fq ends h h0 _ hin hpos _
    have hmore : fq.more = false := by
      by_contra hm
      have := hpos (by simpa using hm)
      omega
    exact ⟨none, q, fq, ends, rfl, h, hin, fun _ => Iff.rfl, fun _ => .refl, rfl,
      fun _ => ⟨hmore, hmore, h0.symm, Nat.le_refl _⟩, fun _ _ hr => absurd hr (by simp)⟩
  | succ count ih =>
    intro fq ends h hact hplace hin _ hcont
    obtain ⟨p, hget, hatt, -⟩ := h.get_current (by omega)
    rcases (ends p).read_cases with ⟨msg, e, hread, -, hcan, -⟩ | ⟨e, hread, -⟩
    · obtain ⟨q', hrec⟩ := received_part h (by omega) hget hplace hin hread hcan
      exact ⟨_, q', _, _, by simp only [recvLoop, hget, hread], hrec⟩
    · -- the pipe has nothing: no message was begun, and the loop goes on without the pipe
      have hmore : fq.more = false := by
        by_contra hm
        rw [Bool.not_eq_false] at hm
        have hmid := ((holds_current hm hget).1 (hin p hatt)).toInbound
        simpa using (Endpoint.read_inbound hmid hread).2 rfl (hcont hm p (by simp [hget]))
      obtain ⟨fq₁, hde, hb₁, hmore₁, hact₁, hmem₁⟩ := bounded_deactivate h (by omega)
      rw [hmore] at hmore₁
      obtain ⟨q₀, hstep₀, hp, hlen⟩ :=
        Endpoint.read_content ((holds_idle hmore).1 (hin p hatt)) hread
      have hstart : q₀ = G.start := hp.place rfl
      subst hstart
      have hin₁ : ∀ x, fq₁.attached x → fq₁.Holds G q x (Function.update ends p e x) := by
        intro x hx
        refine (holds_idle hmore₁).2 ?_
        grind [holds_idle]
      obtain ⟨r, q', fq', ends', hrun, hrec⟩ := ih fq₁ (Function.update ends p e) hb₁ (by omega)
        (fun _ => hplace hmore) hin₁ (fun hm => absurd hm (by simp [hmore₁]))
        (fun hm => absurd hm (by simp [hmore₁]))
      have hback : fq₁.backlog (Function.update ends p e) ≤ fq.backlog ends := by
        rw [backlog_eq h hb₁ hmem₁]
        exact backlog_le fun x => ready_length_update (by simpa using hlen) x
      refine ⟨r, q', fq', ends', by simp [recvLoop, hget, hread, hmore, hde, hrun], hrec.bounded,
        hrec.content, fun x => (hrec.attached x).trans (hmem₁ x), fun x => ?_, hrec.place,
        fun hr => ?_, fun msg x hr => ?_⟩
      · refine Relation.ReflTransGen.trans ?_ (hrec.reads x)
        grind
      · grind [hrec.nothing]
      · grind [hrec.part]

theorem Intake.recvpipe (h : Intake G q fq ends) (hc : fq.Continues ends) :
    ∃ r q' fq' ends', fq.recvpipe ends = .ok (r, fq', ends') ∧
      Received G q fq ends r q' fq' ends' :=
  recvLoop_received _ _ _ h.bounded rfl h.place h.content
    (fun hm => by obtain ⟨_, hpos, -⟩ := h.current hm; exact hpos) hc

theorem Intake.continues_of_recvpipe (h : Intake G q fq ends)
    (hrun : fq.recvpipe ends = .ok (r, fq', ends')) : fq.Continues ends := by
  intro hm p hp
  obtain ⟨x, hpos, hget, -⟩ := h.current hm
  obtain rfl : x = p := by simpa [hget] using hp
  obtain ⟨count, hcount⟩ : ∃ count, fq.active = count + 1 :=
    ⟨_, (Nat.succ_pred_eq_of_pos hpos).symm⟩
  rcases (ends x).read_cases with ⟨msg, e, hread, hcan, -⟩ | ⟨e, hread, -⟩
  · exact hcan
  · simp [Fq.recvpipe, hcount, recvLoop, hget, hread, hm] at hrun

theorem Intake.received (h : Intake G q fq ends) (hrun : fq.recvpipe ends = .ok (r, fq', ends')) :
    ∃ q', Received G q fq ends r q' fq' ends' := by
  obtain ⟨r₁, q₁, fq₁, ends₁, hrun₁, hrec⟩ := h.recvpipe (h.continues_of_recvpipe hrun)
  rw [hrun, Except.ok.injEq, Prod.mk.injEq, Prod.mk.injEq] at hrun₁
  obtain ⟨rfl, rfl, rfl⟩ := hrun₁
  exact ⟨q₁, hrec⟩

theorem Received.intake (hq : fq.more = false → q = G.start)
    (h : Received G q fq ends r q' fq' ends') : Intake G q' fq' ends' ∧ fq'.Continues ends' := by
  have hnext : fq'.more = true → ∃ p, 0 < fq'.active ∧ fq'.pipes.get fq'.current = some p ∧
      (ends' p).canRead = true := by
    intro hm
    cases hr : r with
    | none => simp [(h.nothing hr).2.1] at hm
    | some r =>
      obtain ⟨-, hmore, -, hmid, -⟩ := h.part r.1 r.2 hr
      exact ⟨r.2, hmid (hmore ▸ hm)⟩
  refine ⟨⟨h.bounded, fun hm => ?_, h.content, fun hm => ?_⟩, fun hm p hp => ?_⟩
  · have hplace := h.place
    cases hr : r with
    | none => grind [Grammar.step, h.nothing]
    | some r =>
      obtain ⟨-, hmore, -⟩ := h.part r.1 r.2 hr
      rw [hr] at hplace
      exact G.closes hplace (hmore ▸ hm)
  · grind [Endpoint.canRead]
  · grind

/-! ## Changes from outside -/

theorem Intake.setEnd (h : Intake G q fq ends)
    (hin : fq.attached p → ∀ mid q, (ends p).inq.Content G mid q → e.inq.Content G mid q)
    (hact : (ends p).pipe.inActive = true → e.pipe.inActive = true) :
    Intake G q fq (Function.update ends p e) where
  bounded := h.bounded
  place := h.place
  content x hx := by
    by_cases hxp : x = p
    · subst hxp
      simpa [Holds] using hin hx _ _ (h.content x hx)
    · simpa [hxp] using h.content x hx
  current hm := by
    obtain ⟨x, hpos, hget, hx⟩ := h.current hm
    refine ⟨x, hpos, hget, ?_⟩
    grind

theorem Intake.moved (h : Intake G q fq ends) {r : Rotor α} (hb : r.Bounded)
    (hcur : fq.more = true → 0 < r.active ∧ r.pipes.get r.current = fq.pipes.get fq.current)
    (hin : ∀ x, r.attached x → fq.Holds G q x (ends' x))
    (hopen : ∀ x, fq.attached x → (ends x).pipe.inActive = true → (ends' x).pipe.inActive = true) :
    Intake G q { fq with toRotor := r } ends' := by
  have hmid : ∀ x, midMessage { fq with toRotor := r } x = fq.midMessage x := fun x => by
    grind [midMessage]
  refine ⟨hb, h.place, fun x hx => ?_, fun hm => ?_⟩
  · unfold Holds
    rw [hmid]
    exact hin x hx
  · obtain ⟨x, -, hx, hx'⟩ := h.current hm
    exact ⟨x, (hcur hm).1, (hcur hm).2.trans hx, hopen x (ArrayT.mem_of_get hx) hx'⟩

def SameSource (fq fq' : Fq α) : Prop :=
  fq'.more = fq.more ∧
    (fq.more = true → fq'.pipes.get fq'.current = fq.pipes.get fq.current)

theorem Intake.attach (h : Intake G q fq ends) (hp : ¬ fq.attached p)
    (he : e.inq.Content G false G.start) (hr : fq.attach p = .ok fq') :
    Intake G q fq' (Function.update ends p e) ∧ fq.SameSource fq' := by
  obtain ⟨r, hatt, hinv, hmem, hcur, hact, hget⟩ := h.bounded.attach hp
  simp only [Fq.attach, withRotor, hatt] at hr
  cases hr
  have hnew : fq.midMessage p = false := by
    by_contra hc
    simp only [Bool.not_eq_false, midMessage, Bool.and_eq_true, beq_iff_eq] at hc
    exact hp (ArrayT.mem_of_get hc.2)
  have hsame : fq.more = true →
      0 < r.active ∧ r.pipes.get r.current = fq.pipes.get fq.current := fun hm => by
    obtain ⟨-, hpos, -⟩ := h.current hm
    exact ⟨by omega, by rw [hcur]; exact hget (h.bounded.current_lt_active hpos)⟩
  refine ⟨h.moved hinv.bounded hsame (fun x hx => ?_) (fun x hx hopen => ?_), rfl,
    fun hm => (hsame hm).2⟩
  · grind [Holds, h.content]
  · have hxp : x ≠ p := fun hc => hp (hc ▸ hx)
    simpa [hxp] using hopen

theorem Intake.activated (h : Intake G q fq ends) (hp : fq.attached p)
    (hact : (ends p).processActivateRead = (true, e)) (hr : fq.activated p = .ok fq') :
    Intake G q fq' (Function.update ends p e) ∧ fq.SameSource fq' := by
  obtain ⟨hasleep, hawake, -⟩ := Endpoint.processActivateRead_true hact
  have hinq : e.inq = (ends p).inq := by
    have := congrArg (fun r => r.2.inq) hact
    simpa [Endpoint.processActivateRead] using this.symm
  unfold Fq.activated withRotor at hr
  cases hrot : fq.toRotor.activated p with
  | error err => simp [hrot] at hr
  | ok r =>
    simp only [hrot] at hr
    cases hr
    obtain ⟨hb, hcur, hactive, hmem, hget⟩ := h.bounded.activated hrot
    have hsame : fq.more = true →
        0 < r.active ∧ r.pipes.get r.current = fq.pipes.get fq.current := fun hm => by
      -- the pipe of a half-read message is awake, hence another one
      obtain ⟨x, hpos, hx, hx'⟩ := h.current hm
      have hne : fq.pipes.index p ≠ fq.current := fun hc => by
        have hgp := h.bounded.part.wf.get_index hp
        rw [hc, hx, Option.some.injEq] at hgp
        rw [hgp, hasleep] at hx'
        cases hx'
      exact ⟨by omega, by rw [hcur]; exact hget (h.bounded.current_lt_active hpos) hne⟩
    refine ⟨h.moved hb hsame (fun x hx => ?_) (fun x _ hopen => ?_), rfl, fun hm => (hsame hm).2⟩
    · by_cases hxp : x = p
      · subst hxp
        simpa [Holds, hinq] using h.content x hp
      · simpa [hxp] using h.content x ((hmem x).1 hx)
    · grind

theorem Intake.terminated (h : Intake G q fq ends) (hp : fq.attached p)
    (hk : fq.more = true → fq.pipes.index p ≠ fq.current ∧ fq.KeepsCurrent p)
    (hr : fq.terminated p = .ok fq') : Intake G q fq' ends ∧ fq.SameSource fq' := by
  unfold Fq.terminated withRotor at hr
  cases hrot : fq.toRotor.terminated p with
  | error err => simp [hrot] at hr
  | ok r =>
    simp only [hrot] at hr
    cases hr
    obtain ⟨hb, hmem, hcur⟩ := h.bounded.terminated hp hrot
    have hsame : fq.more = true →
        0 < r.active ∧ r.pipes.get r.current = fq.pipes.get fq.current := fun hm => by
      obtain ⟨-, hpos, -⟩ := h.current hm
      exact hcur (h.bounded.current_lt_active hpos) (hk hm).1 (hk hm).2
    exact ⟨h.moved hb hsame (fun x hx => h.content x (hmem x hx)) (fun _ _ hopen => hopen), rfl,
      fun hm => (hsame hm).2⟩

end Fq

end Libxs
