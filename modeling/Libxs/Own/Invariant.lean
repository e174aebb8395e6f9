import Libxs.Foundation.Census
import Libxs.Own.Seqnum

/-! # The invariant of a tree of objects -/

namespace Libxs

namespace OwnSystem

variable {α τ : Type}

structure Asks (owner : α → Option α) (owned : α → List α) (terms : α → Nat)
    (terminating : α → Bool) : Prop where
  mem : ∀ o c, c ∈ owned o ↔ owner c = some o ∧ terms c = 0
  nodup : ∀ o, (owned o).Nodup
  once : ∀ c, terms c ≤ 1
  root : ∀ c, owner c = none → terms c = 0
  clear : ∀ o, terminating o = true → owned o = []
  asked : ∀ c, terminating c = true → owner c ≠ none → terms c = 1

def Awaited (owner : α → Option α) (terms : α → Nat) (acked : α → Bool) (o c : α) : Prop :=
  owner c = some o ∧ terms c ≠ 0 ∧ acked c = false

def Reports (t : τ) (c : α) (owner : Option α) (gone acked : Prop) [Decidable gone] [Decidable acked]
    (l : List (Envelope α τ)) : Prop :=
  match owner with
  | none => l = []
  | some o => ∃ n, (acked → n = 0) ∧
      l = List.replicate n ⟨t, o, .termReq c⟩ ++ if gone ∧ ¬ acked then [⟨t, o, .termAck c⟩] else []

variable [LinearOrder α]

def termTo (c : α) (e : Envelope α τ) : Bool := isTermTo c (e.destination, e.command)

def fromChild (c : α) (e : Envelope α τ) : Bool :=
  match e.command with
  | .termReq x => x = c
  | .termAck x => x = c
  | _ => false

def seqTo (x : α) (e : Envelope α τ) : Bool :=
  match e.command with
  | .seq _ => e.destination = x
  | _ => false

structure Inv (tid : α → τ) (s : OwnSystem α τ) : Prop where
  asks : Asks (fun x => (s.objs x).owner) (fun x => (s.objs x).owned) s.terms
    (fun x => (s.objs x).terminating)
  awaits : Census (Awaited (fun x => (s.objs x).owner) s.terms s.acked)
    fun x => (s.objs x).termAcks - s.events x
  inFlight : ∀ c, s.wire.countP (termTo c) +
    (if (s.objs c).terminating = true ∧ (s.objs c).owner ≠ none then 1 else 0) = s.terms c
  reports : ∀ c, Reports (tid c) c (s.objs c).owner (s.life c = .destroyed) (s.acked c = true)
    (s.wire.filter (fromChild c))
  acked : ∀ c, s.acked c = true → s.life c = .destroyed
  unborn : ∀ c, s.life c = .unborn → (s.objs c).owner = none ∧ (s.objs c).terminating = false
  counts : ∀ x, (s.objs x).Counts (s.sent x) (s.processed x)
  seqs : ∀ x, s.sent x = s.processed x + s.reserved x + s.wire.countP (seqTo x)
  destroyed : ∀ x, s.life x = .destroyed → (s.objs x).terminating = true ∧ (s.objs x).termAcks = 0 ∧
    s.processed x = s.sent x

variable {tid : α → τ} {s : OwnSystem α τ} {x : α}

theorem Inv.acked_of_destroyed (h : Inv tid s) (hx : s.life x = .destroyed) {c : α}
    (hc : (s.objs c).owner = some x) : s.acked c = true := by
  obtain ⟨hterm, hacks, -⟩ := h.destroyed x hx
  have hasked : s.terms c ≠ 0 := fun h0 => by
    have := (h.asks.mem x c).2 ⟨hc, h0⟩
    simp [h.asks.clear x hterm] at this
  by_contra hna
  have := h.awaits.pos (i := x) (b := c) ⟨hc, hasked, by simpa using hna⟩
  simp only [hacks] at this
  omega

theorem Inv.owner_of_fromChild (h : Inv tid s) {e : Envelope α τ} (he : e ∈ s.wire) {c : α}
    (hc : fromChild c e = true) :
    e.source = tid c ∧ (s.objs c).owner = some e.destination ∧ s.acked c = false := by
  have hmem : e ∈ s.wire.filter (fromChild c) := List.mem_filter.2 ⟨he, hc⟩
  have hrep := h.reports c
  unfold Reports at hrep
  split at hrep
  · exact absurd (hrep ▸ hmem) (by simp)
  next o ho => grind

theorem Inv.unreachable (h : Inv tid s) (hx : s.life x = .destroyed) :
    s.reserved x = 0 ∧ ∀ e ∈ s.wire, e.destination ≠ x := by
  obtain ⟨hterm, -, hseq⟩ := h.destroyed x hx
  have hsum := h.seqs x
  refine ⟨by omega, fun ⟨source, dest, command⟩ he hdest => ?_⟩
  obtain rfl : dest = x := hdest
  have hchild : ∀ c, fromChild c (⟨source, dest, command⟩ : Envelope α τ) ≠ true := fun c hc => by
    grind [h.owner_of_fromChild he hc, h.acked_of_destroyed hx]
  cases command with
  | seq kind =>
    have : 0 < s.wire.countP (seqTo dest) := List.countP_pos_iff.2 ⟨_, he, by simp [seqTo]⟩
    omega
  | term linger =>
    have hpos : 0 < s.wire.countP (termTo dest) :=
      List.countP_pos_iff.2 ⟨_, he, by simp [termTo, isTermTo]⟩
    grind [h.inFlight dest, h.asks.once dest, h.asks.root dest]
  | termReq c => exact hchild c (by simp [fromChild])
  | termAck c => exact hchild c (by simp [fromChild])

theorem inv_init (linger : α → Int) : Inv tid (init linger : OwnSystem α τ) where
  asks := ⟨fun o c => by simp [init, Own.init], fun o => List.nodup_nil, fun c => Nat.zero_le _,
    fun c _ => rfl, fun o _ => rfl, fun c hc => absurd hc (by simp [init, Own.init])⟩
  awaits := .empty (fun o c hc => hc.2.1 rfl) fun o => by simp [init, Own.init]
  inFlight c := by simp [init, Own.init]
  reports c := rfl
  acked c hc := absurd hc (by simp [init])
  unborn c _ := ⟨rfl, rfl⟩
  counts c := Own.counts_init _
  seqs c := rfl
  destroyed c hc := absurd hc (by simp [init])

/-! ## The check -/

theorem termTo_send (c : α) (t : τ) (l : List (α × OwnCommand α)) :
    (l.map fun m => (⟨t, m.1, m.2⟩ : Envelope α τ)).countP (termTo c) = l.countP (isTermTo c) := by
  rw [List.countP_map]
  rfl

theorem proj_update {β : Type} (f : Own α → β) (objs : α → Own α) (o : Own α) :
    (fun y => f (Function.update objs x o y)) = Function.update (fun y => f (objs y)) x (f o) :=
  funext fun y => Function.apply_update (fun _ => f) objs x o y

theorem proj_kept {β : Type} (f : Own α → β) {objs : α → Own α} {o : Own α} (hf : f o = f (objs x))
    (y : α) : f (Function.update objs x o y) = f (objs y) := by grind

theorem balance_update (events : α → Nat) (objs : α → Own α) (o : Own α) :
    (fun y => (Function.update objs x o y).termAcks - (events y : Int)) =
      Function.update (fun y => (objs y).termAcks - (events y : Int)) x (o.termAcks - events x) :=
  funext fun y => Function.apply_update (fun y (o : Own α) => o.termAcks - (events y : Int)) objs x o y

omit [LinearOrder α] in
theorem checkTermAcks_cases {o : Own α} (hclear : o.terminating = true → o.owned = []) (self : α) :
    o.checkTermAcks self = .ok ⟨o, [], false⟩ ∨
      (o.terminating = true ∧ o.caughtUp = true ∧ o.termAcks = 0 ∧
        o.checkTermAcks self = .ok ⟨o, o.owner.toList.map fun p => (p, .termAck self), true⟩) := by
  unfold Own.checkTermAcks
  grind

theorem Inv.check (h : Inv tid s) (hx : s.life x ≠ .destroyed) (hfew : s.sent x < 2 ^ 32) :
    ∃ r, (s.objs x).checkTermAcks x = .ok r ∧ Inv tid (s.apply tid x r) := by
  rcases checkTermAcks_cases (h.asks.clear x) x with hr | ⟨hterm, hup, hacks, hr⟩
  · exact ⟨_, hr, by simpa [apply] using h⟩
  refine ⟨_, hr, ?_⟩
  have hprocessed : s.processed x = s.sent x :=
    ((h.counts x).caughtUp_iff_of_lt (by have := h.seqs x; omega) hfew).1 hup
  have hna : s.acked x = false := by grind [h.acked x]
  -- all that is sent is the `term_ack` of the object
  generalize hsends : (s.objs x).owner.toList.map (fun p => (p, OwnCommand.termAck x)) = sends
  have hterms : ∀ c, sends.countP (isTermTo c) = 0 := fun c => by
    cases ho : (s.objs x).owner <;> simp [← hsends, ho, isTermTo]
  have hseq : ∀ c, (sends.map fun m => (⟨tid x, m.1, m.2⟩ : Envelope α τ)).countP (seqTo c) = 0 :=
    fun c => by cases ho : (s.objs x).owner <;> simp [← hsends, ho, seqTo]
  have hobjs : Function.update s.objs x (s.objs x) = s.objs := Function.update_eq_self _ _
  refine ⟨?_, ?_, fun c => ?_, fun c => ?_, fun c hc => ?_, fun c hc => ?_, fun c => ?_,
    fun c => ?_, fun c hc => ?_⟩
  · simpa [apply, hobjs, hterms] using h.asks
  · simpa [apply, hobjs, hterms] using h.awaits
  · simpa only [apply, hobjs, List.countP_append, termTo_send, hterms, Nat.add_zero] using h.inFlight c
  · have hrep := h.reports c
    simp only [apply, hobjs, if_true, List.filter_append, ← hsends]
    by_cases hcx : c = x
    · subst hcx
      cases ho : (s.objs c).owner with
      | none => simpa [Reports, ho] using hrep
      | some o =>
        obtain ⟨n, -, heq⟩ : ∃ n, _ := by simpa [Reports, ho] using hrep
        refine ⟨n, by simp [hna], ?_⟩
        simp [heq, hx, fromChild, hna]
    · cases ho : (s.objs x).owner <;> simpa [fromChild, Ne.symm hcx, Function.update_of_ne hcx] using hrep
  · simp only [apply] at *
    grind [h.acked c]
  · simp only [apply] at *
    grind [h.unborn c]
  · simpa [apply, hobjs] using h.counts c
  · simpa [apply, List.countP_append, hseq] using h.seqs c
  · simp only [apply] at *
    grind [h.destroyed c]

/-! ## Asking objects to terminate -/

section
variable {owner : α → Option α} {owned : α → List α} {terms : α → Nat} {terminating : α → Bool}
variable {o c : α}

theorem Asks.launch (h : Asks owner owned terms terminating) (hc : owner c = none)
    (hct : terminating c = false) (ho : terminating o = false) :
    Asks (Function.update owner c (some o)) (Function.update owned o (Own.insertOwned c (owned o))) terms
      terminating where
  mem o' c' := by grind [h.mem, h.root, Own.mem_insertOwned]
  nodup o' := by grind [h.nodup, Own.nodup_insertOwned]
  once := h.once
  root c' hc' := by grind [h.root]
  clear o' ho' := by grind [h.clear]
  asked c' hc' hne := by grind [h.asked]

theorem Asks.launch_term (h : Asks owner owned terms terminating) (hc : owner c = none) :
    Asks (Function.update owner c (some o)) owned (Function.update terms c 1) terminating where
  mem o' c' := by grind [h.mem]
  nodup := h.nodup
  once c' := by grind [h.once c']
  root c' hc' := by grind [h.root]
  clear := h.clear
  asked c' hc' hne := by grind [h.asked]

theorem Asks.ask (h : Asks owner owned terms terminating) (hmem : c ∈ owned o) :
    Asks owner (Function.update owned o ((owned o).erase c)) (Function.update terms c 1)
      terminating where
  mem o' c' := by grind [h.mem, h.nodup, List.Nodup.mem_erase_iff]
  nodup o' := by grind [h.nodup, List.Nodup.erase]
  once c' := by grind [h.once c']
  root c' hc' := by grind [h.root, h.mem]
  clear o' ho' := by grind [h.clear]
  asked c' hc' hne := by grind [h.asked]

theorem Asks.ask_all (h : Asks owner owned terms terminating)
    (ho : owner o ≠ none → terms o = 1) :
    Asks owner (Function.update owned o []) (fun c => terms c + if c ∈ owned o then 1 else 0)
      (Function.update terminating o true) where
  mem o' c' := by grind [h.mem]
  nodup o' := by grind [h.nodup]
  once c' := by grind [h.once c', h.mem]
  root c' hc' := by grind [h.root, h.mem]
  clear o' ho' := by grind [h.clear]
  asked c' hc' hne := by grind [h.asked, h.mem]

end

end OwnSystem

end Libxs
