import Libxs.Foundation.Run
import Libxs.Msg
import Mathlib.Data.List.Chain
import Mathlib.Data.List.Nodup

/-! # `yqueue_t`: a queue in linked chunks of `N` elements

`src/yqueue.hpp`. -/

namespace Libxs

variable {T : Type}

structure YQueue (T : Type) where
  values : Nat → Nat → Option T
  prev : Nat → Option Nat
  next : Nat → Option Nat
  beginChunk : Nat
  beginPos : Nat
  backChunk : Option Nat
  backPos : Nat
  endChunk : Nat
  endPos : Nat
  spareChunk : Option Nat
  allocated : Nat
  freed : List Nat
  queue : List T

inductive YQueueOp (T : Type) where
  | push (v : T)
  | unpush
  | pop

namespace YQueue

variable {s s' : YQueue T} {N n c : Nat} {cs : List Nat}

def init : YQueue T :=
  ⟨fun _ _ => none, fun _ => none, fun _ => none, 0, 0, none, 0, 0, 0, none, 1, [], []⟩

def Live (s : YQueue T) (c : Nat) : Prop := c < s.allocated ∧ c ∉ s.freed
deriving Decidable

def deref (s : YQueue T) : Option Nat → Except Fault Nat
  | none => .error .nullPointer
  | some c => if s.Live c then .ok c else .error .useAfterFree

def free (s : YQueue T) : Option Nat → Except Fault (YQueue T)
  | none => .ok s
  | some c => if s.Live c then .ok { s with freed := s.freed ++ [c] } else .error .doubleFree

def front (s : YQueue T) : Except Fault (Option T) := do
  return s.values (← s.deref (some s.beginChunk)) s.beginPos

def back (s : YQueue T) : Except Fault (Option T) := do
  return s.values (← s.deref s.backChunk) s.backPos

def nextChunk (s : YQueue T) : Nat × YQueue T :=
  match s.spareChunk with
  | some sc => (sc, { s with spareChunk := none })
  | none => (s.allocated, { s with allocated := s.allocated + 1 })

def grow (s : YQueue T) : Except Fault (YQueue T) := do
  let (sc, s) := s.nextChunk
  let e ← s.deref (some s.endChunk)
  let s := { s with next := Function.update s.next e (some sc) }
  let sc ← s.deref (s.next e)
  return { s with prev := Function.update s.prev sc (some e), endChunk := sc, endPos := 0 }

def push (N : Nat) (s : YQueue T) : Except Fault (YQueue T) :=
  let s := { s with backChunk := some s.endChunk, backPos := s.endPos, endPos := s.endPos + 1 }
  if s.endPos ≠ N then .ok s else s.grow

def assignBack (s : YQueue T) (v : T) : Except Fault (YQueue T) := do
  let c ← s.deref s.backChunk
  let values := Function.update (s.values c) s.backPos (some v)
  return { s with values := Function.update s.values c values }

def unpushBack (N : Nat) (s : YQueue T) : Except Fault (YQueue T) :=
  if s.backPos ≠ 0 then .ok { s with backPos := s.backPos - 1 }
  else do
    let c ← s.deref s.backChunk
    return { s with backPos := N - 1, backChunk := s.prev c }

def shrink (N : Nat) (s : YQueue T) : Except Fault (YQueue T) := do
  let c ← s.deref (some s.endChunk)
  let e ← s.deref (s.prev c)
  let s ← s.free (s.next e)
  let e ← s.deref (some e)
  return { s with next := Function.update s.next e none, endPos := N - 1, endChunk := e }

def unpush (N : Nat) (s : YQueue T) : Except Fault (YQueue T) := do
  let s ← s.unpushBack N
  if s.endPos ≠ 0 then .ok { s with endPos := s.endPos - 1 } else s.shrink N

def recycle (s : YQueue T) : Except Fault (YQueue T) := do
  let o ← s.deref (some s.beginChunk)
  let b ← s.deref (s.next o)
  let s' := { s with prev := Function.update s.prev b none, beginChunk := b, beginPos := 0,
                     spareChunk := some o }
  s'.free s.spareChunk

def pop (N : Nat) (s : YQueue T) : Except Fault (YQueue T) :=
  if s.beginPos + 1 ≠ N then .ok { s with beginPos := s.beginPos + 1 } else s.recycle

def destroyLoop : Nat → YQueue T → Except Fault (YQueue T)
  | 0, _ => .error .outOfFuel
  | fuel + 1, s =>
    if s.beginChunk = s.endChunk then s.free (some s.beginChunk)
    else do
      let o ← s.deref (some s.beginChunk)
      let b ← s.deref (s.next o)
      let s ← s.free (some o)
      destroyLoop fuel { s with beginChunk := b }

def destroy (s : YQueue T) : Except Fault (YQueue T) := do
  let s ← destroyLoop s.allocated s
  { s with spareChunk := none }.free s.spareChunk

def step (N : Nat) (s : YQueue T) : YQueueOp T → Except Fault (YQueue T)
  | .push v => do
    let s ← s.push N
    let s ← s.assignBack v
    return { s with queue := s.queue ++ [v] }
  | .unpush => do
    let s ← s.unpush N
    return { s with queue := s.queue.dropLast }
  | .pop => do
    let s ← s.pop N
    return { s with queue := s.queue.tail }

def Proper (s : YQueue T) : YQueueOp T → Prop
  | .push _ => True
  | .unpush | .pop => 2 ≤ s.queue.length

def Link (s : YQueue T) (a b : Nat) : Prop := s.next a = some b ∧ s.prev b = some a

def slot (N : Nat) (s : YQueue T) (cs : List Nat) (g : Nat) : Option T :=
  cs[g / N]?.bind fun c => s.values c (g % N)

structure Chain (s : YQueue T) (cs : List Nat) : Prop where
  head : cs.head? = some s.beginChunk
  last : cs.getLast? = some s.endChunk
  linked : cs.IsChain s.Link
  chunks : (cs ++ s.spareChunk.toList ++ s.freed).Perm (List.range s.allocated)

structure Shape (N : Nat) (s : YQueue T) (cs : List Nat) (n : Nat) : Prop extends s.Chain cs where
  begin_lt : s.beginPos < N
  end_lt : s.endPos < N
  count : s.beginPos + n + N = cs.length * N + s.endPos
  back : n ≠ 0 → s.backChunk = cs[(s.beginPos + n - 1) / N]? ∧ s.backPos = (s.beginPos + n - 1) % N

/-! ## Chunks -/

theorem Chain.nodup (h : s.Chain cs) : cs.Nodup ∧ ∀ c, s.spareChunk = some c → c ∉ cs := by
  have hnodup := h.chunks.nodup_iff.2 List.nodup_range
  obtain ⟨hcs, -, hspare⟩ := List.nodup_append.1 (List.nodup_append.1 hnodup).1
  exact ⟨hcs, fun c hc hmem => hspare c hmem c (Option.mem_toList.2 hc) rfl⟩

theorem Chain.live (h : s.Chain cs) (hc : c ∈ cs ++ s.spareChunk.toList) : s.Live c := by
  have hnodup := h.chunks.nodup_iff.2 List.nodup_range
  refine ⟨List.mem_range.1 (h.chunks.mem_iff.1 (List.mem_append_left _ hc)), fun hfreed => ?_⟩
  exact (List.nodup_append.1 hnodup).2.2 c hc c hfreed rfl

theorem Chain.deref (h : s.Chain cs) (hc : c ∈ cs) : s.deref (some c) = .ok c :=
  if_pos (h.live (List.mem_append_left _ hc))

theorem isChain_congr {R S : Nat → Nat → Prop} {e : Nat} (h : (cs ++ [e]).IsChain R)
    (hS : ∀ a ∈ cs, ∀ b ∈ cs ++ [e], R a b → S a b) : (cs ++ [e]).IsChain S := by
  refine List.isChain_iff_getElem.2 fun i hi => ?_
  have ha : (cs ++ [e])[i] ∈ cs := by
    rw [List.getElem_append_left (by simpa using hi)]
    exact List.getElem_mem _
  exact hS _ ha _ (List.getElem_mem _) (List.isChain_iff_getElem.1 h i hi)

theorem nextChunk_spec (h : s.Chain cs) : ∃ sc allocated, sc ∉ cs ∧
    s.nextChunk = (sc, { s with spareChunk := none, allocated := allocated }) ∧
      (cs ++ [sc] ++ s.freed).Perm (List.range allocated) := by
  have hperm := h.chunks
  unfold nextChunk
  cases hspare : s.spareChunk with
  | some sc =>
    rw [hspare] at hperm
    exact ⟨sc, s.allocated, h.nodup.2 sc hspare, rfl, hperm⟩
  | none =>
    rw [hspare, Option.toList_none, List.append_nil] at hperm
    have hfresh : s.allocated ∉ cs := fun hmem => by
      have := hperm.mem_iff.1 (List.mem_append_left _ hmem)
      simp at this
    refine ⟨s.allocated, s.allocated + 1, hfresh, rfl, ?_⟩
    rw [List.range_succ, List.append_assoc]
    refine (List.Perm.append_left cs List.perm_append_comm).trans ?_
    rw [← List.append_assoc]
    exact hperm.append_right _

theorem Chain.grow (h : s.Chain cs) : ∃ sc allocated,
    let t : YQueue T := { s with
      next := Function.update s.next s.endChunk (some sc)
      prev := Function.update s.prev sc (some s.endChunk)
      spareChunk := none, allocated := allocated, endChunk := sc, endPos := 0 }
    s.grow = .ok t ∧ t.Chain (cs ++ [sc]) := by
  obtain ⟨sc, allocated, hsc, hnext, hperm⟩ := nextChunk_spec h
  obtain ⟨cs₀, rfl⟩ := List.getLast?_eq_some_iff.1 h.last
  have hend := (List.nodup_append.1 h.nodup.1).2.2
  have hlive : ∀ c ∈ cs₀ ++ [s.endChunk] ++ [sc], c < allocated ∧ c ∉ s.freed := fun c hc =>
    ⟨List.mem_range.1 (hperm.mem_iff.1 (List.mem_append_left _ hc)), fun hfreed =>
      (List.nodup_append.1 (hperm.nodup_iff.2 List.nodup_range)).2.2 c hc c hfreed rfl⟩
  refine ⟨sc, allocated, ?_, by simpa using h.head, List.getLast?_concat, ?_, by simpa using hperm⟩
  · simp [YQueue.grow, hnext, YQueue.deref, Live, hlive, bind, Except.bind, pure, Except.pure]
  · rw [List.append_assoc]
    refine List.isChain_append_cons_cons.2 ⟨isChain_congr h.linked fun a ha b hb hab => ?_,
      ⟨Function.update_self .., Function.update_self ..⟩, .singleton _⟩
    exact ⟨(Function.update_of_ne (hend a ha _ List.mem_cons_self) ..).trans hab.1,
      (Function.update_of_ne (ne_of_mem_of_not_mem hb hsc) ..).trans hab.2⟩

theorem Chain.shrink {cs₀ : List Nat} {e : Nat} (h : s.Chain (cs₀ ++ [e, s.endChunk])) (N : Nat) :
    let t : YQueue T := { s with next := Function.update s.next e none,
                                 freed := s.freed ++ [s.endChunk], endPos := N - 1, endChunk := e }
    s.shrink N = .ok t ∧ t.Chain (cs₀ ++ [e]) := by
  obtain ⟨hchain, ⟨hnext, hprev⟩, -⟩ := List.isChain_append_cons_cons.1 h.linked
  obtain ⟨-, hpair, hsep⟩ := List.nodup_append.1 h.nodup.1
  have hne : e ≠ s.endChunk := List.ne_of_not_mem_cons (List.nodup_cons.1 hpair).1
  have hlive := h.live (c := e) (by simp)
  have hend := h.live (c := s.endChunk) (by simp)
  simp only [Live] at hlive hend
  refine ⟨?_, ?_, List.getLast?_concat, isChain_congr hchain fun a ha b _ hab => ?_, ?_⟩
  · simp [YQueue.shrink, YQueue.deref, YQueue.free, Live, hlive, hend, hprev, hnext, hne, bind, Except.bind,
      pure, Except.pure]
  · have := h.head
    cases cs₀ <;> simpa using this
  · exact ⟨(Function.update_of_ne (hsep a ha e List.mem_cons_self) ..).trans hab.1, hab.2⟩
  · refine List.Perm.trans ?_ h.chunks
    simp only [List.append_assoc, List.cons_append, List.nil_append]
    refine List.Perm.append_left _ (List.Perm.cons _ ?_)
    rw [← List.append_assoc]
    exact List.perm_append_comm

theorem free_eq {p : Option Nat} (hp : ∀ c, p = some c → s.Live c) :
    s.free p = .ok { s with freed := s.freed ++ p.toList } := by
  cases p with
  | none => simp [free]
  | some c => exact if_pos (hp c rfl)

theorem Chain.recycle {rest : List Nat} {b : Nat} (h : s.Chain (s.beginChunk :: b :: rest)) :
    let t : YQueue T := { s with
      prev := Function.update s.prev b none, beginChunk := b, beginPos := 0,
      spareChunk := some s.beginChunk, freed := s.freed ++ s.spareChunk.toList }
    s.recycle = .ok t ∧ t.Chain (b :: rest) := by
  obtain ⟨⟨hnext, -⟩, hchain⟩ := List.isChain_cons_cons.1 h.linked
  have hb := (List.nodup_cons.1 (List.nodup_cons.1 h.nodup.1).2).1
  refine ⟨?_, rfl, by simpa using h.last, hchain.imp_of_mem_tail_imp fun a c _ hc hac => ?_, ?_⟩
  · simp only [YQueue.recycle, h.deref List.mem_cons_self, hnext,
      h.deref (List.mem_cons_of_mem _ List.mem_cons_self), bind, Except.bind]
    exact free_eq fun c hc => h.live (List.mem_append_right _ (Option.mem_toList.2 hc))
  · exact ⟨hac.1, (Function.update_of_ne (ne_of_mem_of_not_mem hc hb) ..).trans hac.2⟩
  · refine List.Perm.trans ?_ h.chunks
    simp only [Option.toList_some, List.append_assoc]
    refine List.perm_middle.trans (List.Perm.cons _ (List.Perm.append_left _ ?_))
    exact (List.perm_append_comm : (s.freed ++ s.spareChunk.toList).Perm _)

/-! ## Positions -/

theorem slot_append {cs' : List Nat} {g : Nat} (hg : g / N < cs.length) :
    s.slot N (cs ++ cs') g = s.slot N cs g := by
  rw [slot, slot, List.getElem?_append_left hg]

theorem Shape.end_slot (h : s.Shape N cs n) :
    (s.beginPos + n) / N = cs.length - 1 ∧ (s.beginPos + n) % N = s.endPos := by
  obtain ⟨cs₀, hcs⟩ := List.getLast?_eq_some_iff.1 h.last
  have hcount := h.count
  have hlt := h.end_lt
  simp only [hcs, List.length_append, List.length_singleton, Nat.succ_mul, Nat.add_sub_cancel]
    at hcount ⊢
  rw [show s.beginPos + n = s.endPos + cs₀.length * N by omega,
    Nat.add_mul_div_right _ _ (by omega), Nat.add_mul_mod_self_right, Nat.div_eq_of_lt hlt,
    Nat.mod_eq_of_lt hlt]
  exact ⟨Nat.zero_add _, rfl⟩

theorem Shape.slot_lt (h : s.Shape N cs n) {g : Nat} (hg : g ≤ s.beginPos + n) :
    g / N < cs.length := by
  have hpos := List.length_pos_of_mem (List.mem_of_getLast? h.last)
  have hle := Nat.div_le_div_right (c := N) hg
  rw [h.end_slot.1] at hle
  omega

theorem Shape.push (h : s.Shape N cs n) : ∃ s' cs', s.push N = .ok s' ∧ s'.Shape N cs' (n + 1) ∧
    s'.queue = s.queue ∧ s'.beginPos = s.beginPos ∧
      ∀ g < s.beginPos + n, s'.slot N cs' g = s.slot N cs g := by
  have hback : some s.endChunk = cs[(s.beginPos + (n + 1) - 1) / N]? ∧
      s.endPos = (s.beginPos + (n + 1) - 1) % N := by
    refine ⟨?_, h.end_slot.2.symm⟩
    rw [show s.beginPos + (n + 1) - 1 = s.beginPos + n from rfl, h.end_slot.1,
      ← List.getLast?_eq_getElem?, h.last]
  have hcount := h.count
  have hend := h.end_lt
  by_cases heq : s.endPos + 1 = N
  case neg =>
    exact ⟨_, cs, if_pos heq, ⟨⟨h.head, h.last, h.linked, h.chunks⟩, h.begin_lt, by dsimp only; omega,
      by dsimp only; omega, fun _ => hback⟩, rfl, rfl, fun g _ => rfl⟩
  case pos =>
    obtain ⟨sc, allocated, hgrow, hchain⟩ := Chain.grow
      (s := { s with backChunk := some s.endChunk, backPos := s.endPos, endPos := s.endPos + 1 })
      ⟨h.head, h.last, h.linked, h.chunks⟩
    refine ⟨_, cs ++ [sc], (if_neg (not_not.2 heq)).trans hgrow, ⟨hchain, h.begin_lt, by dsimp only; omega,
      ?_, fun _ => ?_⟩, rfl, rfl, fun g hg => ?_⟩
    · simp only [List.length_append, List.length_singleton, Nat.succ_mul]
      omega
    · exact ⟨hback.1.trans (List.getElem?_append_left (h.slot_lt (Nat.le_refl _))).symm, hback.2⟩
    · exact slot_append (h.slot_lt (Nat.le_of_lt hg))

theorem Shape.assignBack (h : s.Shape N cs (n + 1)) (v : T) : ∃ s', s.assignBack v = .ok s' ∧
    s'.Shape N cs (n + 1) ∧ s'.queue = s.queue ∧ s'.beginPos = s.beginPos ∧
      s'.slot N cs (s.beginPos + n) = some v ∧
      ∀ g < s.beginPos + n, s'.slot N cs g = s.slot N cs g := by
  obtain ⟨hback, hpos⟩ := h.back n.succ_ne_zero
  have hlt := h.slot_lt (g := s.beginPos + n) (by omega)
  rw [show s.beginPos + (n + 1) - 1 = s.beginPos + n from rfl] at hback hpos
  rw [List.getElem?_eq_getElem hlt] at hback
  have hderef := h.deref (List.getElem_mem hlt)
  rw [← hback] at hderef
  have hassign : s.assignBack v = .ok { s with
      values := Function.update s.values cs[(s.beginPos + n) / N]
        (Function.update (s.values cs[(s.beginPos + n) / N]) s.backPos (some v)) } := by
    rw [YQueue.assignBack, hderef]
    rfl
  refine ⟨_, hassign, ⟨⟨h.head, h.last, h.linked, h.chunks⟩, h.begin_lt, h.end_lt,
    h.count, h.back⟩, rfl, rfl, ?_, fun g hg => ?_⟩
  · simp [slot, List.getElem?_eq_getElem hlt, hpos]
  · have hlt' := h.slot_lt (g := g) (by omega)
    simp only [slot, List.getElem?_eq_getElem hlt', Option.bind_some]
    by_cases heq : cs[g / N] = cs[(s.beginPos + n) / N]
    · have hdiv : g / N = (s.beginPos + n) / N := (List.Nodup.getElem_inj_iff h.nodup.1).1 heq
      have hmod : g % N ≠ s.backPos := fun hmod => by
        have h1 := Nat.div_add_mod g N
        have h2 := Nat.div_add_mod (s.beginPos + n) N
        rw [hdiv, hmod, hpos] at h1
        omega
      rw [heq, Function.update_self, Function.update_of_ne hmod]
    · rw [Function.update_of_ne heq]

theorem Shape.pop (h : s.Shape N cs (n + 2)) : ∃ s' cs', s.pop N = .ok s' ∧ s'.Shape N cs' (n + 1) ∧
    s'.queue = s.queue ∧ ∀ i, s'.slot N cs' (s'.beginPos + i) = s.slot N cs (s.beginPos + (i + 1)) := by
  have hcount := h.count
  have hbegin := h.begin_lt
  have hend := h.end_lt
  have hback := h.back (Nat.succ_ne_zero _)
  by_cases heq : s.beginPos + 1 = N
  case neg =>
    refine ⟨_, cs, if_pos heq, ⟨⟨h.head, h.last, h.linked, h.chunks⟩, by dsimp only; omega, hend,
      by dsimp only; omega, fun _ => ?_⟩, rfl, fun i => ?_⟩
    · rwa [show s.beginPos + (n + 2) - 1 = s.beginPos + 1 + (n + 1) - 1 by omega] at hback
    · rw [show s.beginPos + (i + 1) = s.beginPos + 1 + i by omega]
      rfl
  case pos =>
    obtain ⟨b, rest, rfl⟩ : ∃ b rest, cs = s.beginChunk :: b :: rest := by
      obtain ⟨cs', rfl⟩ := List.head?_eq_some_iff.1 h.head
      cases cs' with
      | nil => simp at hcount; omega
      | cons b rest => exact ⟨b, rest, rfl⟩
    obtain ⟨hrecycle, hchain⟩ := h.toChain.recycle
    -- A position in the chunks that are left is one chunk ahead in those before.
    have hshift : ∀ i, (s.beginPos + (i + 1)) / N = i / N + 1 ∧ (s.beginPos + (i + 1)) % N = i % N := by
      intro i
      rw [show s.beginPos + (i + 1) = i + N by omega, Nat.add_div_right _ (by omega),
        Nat.add_mod_right]
      exact ⟨rfl, rfl⟩
    refine ⟨_, b :: rest, (if_neg (not_not.2 heq)).trans hrecycle, ⟨hchain, by dsimp only; omega, hend, ?_,
      fun _ => ?_⟩, rfl, fun i => ?_⟩
    · simp only [List.length_cons, Nat.succ_mul] at hcount ⊢
      omega
    · rw [show s.beginPos + (n + 2) - 1 = s.beginPos + (n + 1) by omega, (hshift n).1, (hshift n).2]
        at hback
      simpa using hback
    · simp [slot, hshift]

theorem Shape.unpushBack (h : s.Shape N cs (n + 2)) :
    s.unpushBack N = .ok { s with backChunk := cs[(s.beginPos + n) / N]?,
                                  backPos := (s.beginPos + n) % N } := by
  obtain ⟨hback, hpos⟩ := h.back (Nat.succ_ne_zero _)
  have hN : 0 < N := Nat.zero_lt_of_lt h.begin_lt
  have hmod := Nat.mod_lt (s.beginPos + n) hN
  have hlt := h.slot_lt (g := s.beginPos + (n + 2) - 1) (by omega)
  have hsucc : s.beginPos + (n + 2) - 1 = (s.beginPos + n) % N + 1 + (s.beginPos + n) / N * N := by
    have := Nat.mod_add_div' (s.beginPos + n) N
    omega
  rw [hsucc, Nat.add_mul_div_right _ _ hN] at hback hlt
  rw [hsucc, Nat.add_mul_mod_self_right] at hpos
  rcases Nat.lt_or_ge ((s.beginPos + n) % N + 1) N with hin | hout
  · rw [Nat.mod_eq_of_lt hin] at hpos
    rw [Nat.div_eq_of_lt hin, Nat.zero_add] at hback
    simp [YQueue.unpushBack, hpos, hback]
  · have hr : (s.beginPos + n) % N + 1 = N := by omega
    rw [hr, Nat.mod_self] at hpos
    rw [hr, Nat.div_self hN, Nat.add_comm 1] at hback hlt
    have hlink := List.isChain_iff_getElem.1 h.linked _ hlt
    rw [List.getElem?_eq_getElem hlt] at hback
    simp [YQueue.unpushBack, hpos, hback, h.deref (List.getElem_mem hlt), hlink.2, bind, Except.bind, pure,
      Except.pure]
    omega

theorem Shape.unpush (h : s.Shape N cs (n + 2)) : ∃ s' cs', s.unpush N = .ok s' ∧
    s'.Shape N cs' (n + 1) ∧ s'.queue = s.queue ∧ s'.beginPos = s.beginPos ∧
      ∀ g < s.beginPos + (n + 1), s'.slot N cs' g = s.slot N cs g := by
  have hcount := h.count
  have hend := h.end_lt
  rw [YQueue.unpush, h.unpushBack]
  by_cases heq : s.endPos = 0
  case neg =>
    exact ⟨_, cs, if_pos heq, ⟨⟨h.head, h.last, h.linked, h.chunks⟩, h.begin_lt,
      by dsimp only; omega, by dsimp only; omega, fun _ => ⟨rfl, rfl⟩⟩, rfl, rfl, fun g _ => rfl⟩
  case pos =>
    obtain ⟨cs₀, e, rfl⟩ : ∃ cs₀ e, cs = cs₀ ++ [e, s.endChunk] := by
      obtain ⟨cs₁, rfl⟩ := List.getLast?_eq_some_iff.1 h.last
      rcases List.eq_nil_or_concat cs₁ with rfl | ⟨cs₀, e, rfl⟩
      · simp at hcount; omega
      · exact ⟨cs₀, e, by simp⟩
    simp only [List.length_append, List.length_cons, List.length_nil, Nat.succ_mul] at hcount
    have hin : ∀ g < s.beginPos + (n + 1), g / N < (cs₀ ++ [e]).length := fun g hg => by
      refine Nat.div_lt_of_lt_mul ?_
      rw [Nat.mul_comm, List.length_append, List.length_singleton, Nat.succ_mul]
      omega
    obtain ⟨hshrink, hchain⟩ := Chain.shrink
      (s := { s with backChunk := (cs₀ ++ [e, s.endChunk])[(s.beginPos + n) / N]?,
                     backPos := (s.beginPos + n) % N }) ⟨h.head, h.last, h.linked, h.chunks⟩ N
    have happend : cs₀ ++ [e, s.endChunk] = cs₀ ++ [e] ++ [s.endChunk] := by simp
    refine ⟨_, cs₀ ++ [e], (if_neg (not_not.2 heq)).trans hshrink, ⟨hchain, h.begin_lt,
      by dsimp only; omega, ?_, fun _ => ⟨?_, rfl⟩⟩, rfl, rfl, fun g hg => ?_⟩
    · simp only [List.length_append, List.length_singleton, Nat.succ_mul]
      omega
    · dsimp only
      rw [happend]
      exact List.getElem?_append_left (hin _ (by omega))
    · rw [happend, slot_append (hin g hg)]
      rfl

def Holds (N : Nat) (s : YQueue T) (cs : List Nat) : Prop :=
  s.Shape N cs s.queue.length ∧
    ∀ i < s.queue.length, s.slot N cs (s.beginPos + i) = s.queue[i]?

theorem Shape.holds {queue : List T} (h : s.Shape N cs n) (hn : queue.length = n)
    (hslot : ∀ i < n, s.slot N cs (s.beginPos + i) = queue[i]?) :
    ({ s with queue := queue } : YQueue T).Holds N cs := by
  subst hn
  exact ⟨⟨⟨h.head, h.last, h.linked, h.chunks⟩, h.begin_lt, h.end_lt, h.count, h.back⟩, hslot⟩

theorem Holds.step (h : s.Holds N cs) (op : YQueueOp T) (hop : s.Proper op) :
    ∃ s', s.step N op = .ok s' ∧ ∃ cs', s'.Holds N cs' := by
  obtain ⟨hshape, hslot⟩ := h
  cases op with
  | push v =>
    obtain ⟨s₁, cs', hpush, hshape₁, hq₁, hb₁, hslot₁⟩ := hshape.push
    obtain ⟨s₂, hassign, hshape₂, hq₂, hb₂, hv, hslot₂⟩ := hshape₁.assignBack v
    refine ⟨_, by rw [YQueue.step, hpush]; simp only [bind, Except.bind, hassign]; rfl, cs',
      hshape₂.holds (by simp [hq₂, hq₁]) fun i hi => ?_⟩
    rw [hb₂, hq₂, hq₁]
    rcases Nat.lt_succ_iff_lt_or_eq.1 hi with hi | rfl
    · rw [hslot₂ _ (by omega), hb₁, hslot₁ _ (by omega), hslot i hi, List.getElem?_append_left hi]
    · rw [hv, List.getElem?_concat_length]
  | unpush =>
    obtain ⟨n, hn⟩ := Nat.exists_eq_add_of_le' hop
    rw [hn] at hshape
    obtain ⟨s₁, cs', hunpush, hshape₁, hq₁, hb₁, hslot₁⟩ := hshape.unpush
    refine ⟨_, by rw [YQueue.step, hunpush]; rfl, cs',
      hshape₁.holds (by simp [hq₁, hn]) fun i hi => ?_⟩
    rw [hq₁, List.getElem?_dropLast, if_pos (by omega), ← hslot i (by omega), hb₁]
    exact hslot₁ _ (by omega)
  | pop =>
    obtain ⟨n, hn⟩ := Nat.exists_eq_add_of_le' hop
    rw [hn] at hshape
    obtain ⟨s₁, cs', hpop, hshape₁, hq₁, hslot₁⟩ := hshape.pop
    refine ⟨_, by rw [YQueue.step, hpop]; rfl, cs',
      hshape₁.holds (by simp [hq₁, hn]) fun i hi => ?_⟩
    rw [hq₁, List.getElem?_tail, ← hslot (i + 1) (by omega)]
    exact hslot₁ i

theorem Holds.front (h : s.Holds N cs) (hne : s.queue ≠ []) : s.front = .ok s.queue.head? := by
  have hslot := h.2 0 (List.length_pos_iff.2 hne)
  rw [slot, Nat.add_zero, Nat.div_eq_of_lt h.1.begin_lt, Nat.mod_eq_of_lt h.1.begin_lt,
    ← List.head?_eq_getElem?, h.1.head, ← List.head?_eq_getElem?] at hslot
  rw [YQueue.front, h.1.deref (List.mem_of_mem_head? h.1.head), ← hslot]
  rfl

theorem Holds.back (h : s.Holds N cs) (hne : s.queue ≠ []) : s.back = .ok s.queue.getLast? := by
  have hpos := List.length_pos_iff.2 hne
  have hslot := h.2 (s.queue.length - 1) (by omega)
  obtain ⟨hback, hpos'⟩ := h.1.back (by omega)
  have hlt := h.1.slot_lt (g := s.beginPos + s.queue.length - 1) (by omega)
  rw [← Nat.add_sub_assoc hpos, slot, ← hpos', ← hback, ← List.getLast?_eq_getElem?] at hslot
  rw [List.getElem?_eq_getElem hlt] at hback
  rw [hback] at hslot
  rw [YQueue.back, hback, h.1.deref (List.getElem_mem hlt), ← hslot]
  rfl

theorem destroyLoop_spec (cs : List Nat) : ∀ (fuel : Nat) (s : YQueue T), cs.length ≤ fuel →
    cs.head? = some s.beginChunk → cs.getLast? = some s.endChunk → cs.IsChain s.Link → cs.Nodup →
    (∀ c ∈ cs, s.Live c) →
    ∃ b, destroyLoop fuel s = .ok { s with beginChunk := b, freed := s.freed ++ cs } := by
  induction cs with
  | nil => intro _ _ _ hhead; cases hhead
  | cons o cs ih =>
    intro fuel s hfuel hhead hlast hlinked hnodup hlive
    obtain ⟨fuel, rfl⟩ := Nat.exists_eq_add_of_le' (Nat.le_trans (Nat.succ_pos _) hfuel)
    obtain rfl : o = s.beginChunk := Option.some.inj hhead
    obtain ⟨ho, hrest⟩ := List.nodup_cons.1 hnodup
    have hfree : s.free (some s.beginChunk) = .ok _ := if_pos (hlive _ List.mem_cons_self)
    have hderef : s.deref (some s.beginChunk) = .ok _ := if_pos (hlive _ List.mem_cons_self)
    cases cs with
    | nil => exact ⟨s.beginChunk, (if_pos (Option.some.inj hlast)).trans hfree⟩
    | cons b rest =>
      have hne : s.beginChunk ≠ s.endChunk := fun heq =>
        ho (heq ▸ List.mem_of_getLast? (by simpa using hlast))
      obtain ⟨⟨hnext, -⟩, hchain⟩ := List.isChain_cons_cons.1 hlinked
      have hderef' : s.deref (some b) = .ok _ :=
        if_pos (hlive b (List.mem_cons_of_mem _ List.mem_cons_self))
      obtain ⟨b', hloop⟩ := ih fuel
        { s with freed := s.freed ++ [s.beginChunk], beginChunk := b }
        (Nat.le_of_succ_le_succ hfuel) rfl (by simpa using hlast) hchain hrest fun c hc => by
          obtain ⟨hlt, hfreed⟩ := hlive c (List.mem_cons_of_mem _ hc)
          refine ⟨hlt, fun hmem => ?_⟩
          rcases List.mem_append.1 hmem with hmem | hmem
          · exact hfreed hmem
          · exact ho (List.mem_singleton.1 hmem ▸ hc)
      refine ⟨b', ?_⟩
      rw [destroyLoop, if_neg hne, hderef]
      simp only [bind, Except.bind, hnext, hderef', hfree]
      rw [hloop, List.append_assoc]
      rfl

theorem Chain.destroy (h : s.Chain cs) :
    ∃ t, s.destroy = .ok t ∧ t.freed.Perm (List.range s.allocated) := by
  obtain ⟨hnodup, hout⟩ := h.nodup
  have hlen : cs.length ≤ s.allocated := by
    have := h.chunks.length_eq
    simp only [List.length_append, List.length_range] at this
    omega
  obtain ⟨b, hloop⟩ := destroyLoop_spec cs s.allocated s hlen h.head h.last h.linked hnodup
    fun c hc => h.live (List.mem_append_left _ hc)
  have hspare : ∀ c, s.spareChunk = some c → c < s.allocated ∧ c ∉ s.freed ++ cs := fun c hc => by
    obtain ⟨hlt, hfreed⟩ := h.live (List.mem_append_right _ (Option.mem_toList.2 hc))
    exact ⟨hlt, fun hmem => (List.mem_append.1 hmem).elim hfreed (hout c hc)⟩
  refine ⟨_, by rw [YQueue.destroy, hloop]; exact free_eq hspare, ?_⟩
  refine List.Perm.trans ?_ h.chunks
  dsimp only
  rw [List.append_assoc]
  exact List.perm_append_comm

theorem init_holds (hN : 1 ≤ N) : (init : YQueue T).Holds N [0] :=
  ⟨⟨⟨rfl, rfl, .singleton _, .refl _⟩, hN, hN, by simp [init], nofun⟩, nofun⟩

/-- The queue is the list of its elements. -/
theorem yqueue_refines (N : Nat) (hN : 1 ≤ N) (ops : List (YQueueOp T))
    (hops : RunMeets (step N) Proper init ops) : ∃ s, run (step N) init ops = .ok s ∧
      (s.queue ≠ [] → s.front = .ok s.queue.head? ∧ s.back = .ok s.queue.getLast?) ∧
      (∃ cs, cs.head? = some s.beginChunk ∧ cs.getLast? = some s.endChunk ∧ cs.Nodup ∧
        cs.IsChain s.Link ∧
        (∀ i < s.queue.length, s.slot N cs (s.beginPos + i) = s.queue[i]?) ∧
        (cs ++ s.spareChunk.toList ++ s.freed).Perm (List.range s.allocated)) ∧
      ∃ t, s.destroy = .ok t ∧ t.freed.Perm (List.range s.allocated) := by
  obtain ⟨s, hrun, cs, h⟩ := run_safe_meets (I := fun s => ∃ cs, Holds N s cs)
    (fun s op ⟨cs, hs⟩ hop => hs.step op hop) ops init ⟨[0], init_holds hN⟩ hops
  exact ⟨s, hrun, fun hne => ⟨h.front hne, h.back hne⟩,
    ⟨cs, h.1.head, h.1.last, h.1.nodup.1, h.1.linked, h.2, h.1.chunks⟩, h.1.toChain.destroy⟩

theorem yqueue_refines_single : ∃ s : YQueue Nat,
    run (step 1) init [.push 7, .push 8, .pop, .push 9, .unpush] = .ok s ∧
      ∃ t, s.destroy = .ok t ∧ t.freed.Perm (List.range s.allocated) := by
  obtain ⟨s, hrun, -, -, h⟩ := yqueue_refines 1 (Nat.le_refl 1) [.push 7, .push 8, .pop, .push 9, .unpush]
    (by simp [RunMeets, Proper, step, push, grow, nextChunk, assignBack, pop, recycle, deref, free, Live, init,
      bind, Except.bind, pure, Except.pure, Function.update])
  exact ⟨s, hrun, h⟩

end YQueue

end Libxs
