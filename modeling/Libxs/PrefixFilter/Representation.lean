import Libxs.PrefixFilter.UnsubscribeAll

/-! # The representation of the trie -/

namespace Libxs

namespace PfxNode

variable {σ : Type} [LinearOrder σ]
variable {n m t : PfxNode σ} {p : List UInt8}

def nodeAt : PfxNode σ → List UInt8 → Option (PfxNode σ)
  | n, [] => some n
  | n, c :: p =>
    match n.child c.toNat with
    | none => none
    | some m => nodeAt m p

structure NoWrap (n : PfxNode σ) : Prop where
  extend : ∀ c < 256, (if n.min < c then c - n.min else n.min - c) + 1 < 2 ^ 16 ∧
    n.min + n.count - c < 2 ^ 16
  live : n.liveNodes + 1 < 2 ^ 16
  slot : ∀ i < n.count, n.min + i < 2 ^ 8

structure Represents (n : PfxNode σ) : Prop where
  live : n.liveNodes = n.slots.countP Option.isSome
  leaf : n.count = 0 → ∀ c, n.child c = none
  single : n.count = 1 → ∃ m, n.next = .node (some m) ∧ ∀ c, (n.child c).isSome ↔ c = n.min
  table : 1 < n.count → ∃ t, n.next = .table t ∧ t.length = n.count ∧ n.min + n.count ≤ 256 ∧
    t[0]?.join.isSome = true ∧ t[n.count - 1]?.join.isSome = true ∧ 2 ≤ n.liveNodes
  subscribers : SubscribersOk n.subscribers
  noWrap : n.NoWrap

theorem Fits.noWrap (h : n.Fits) : n.NoWrap := by
  have hrange := h.range
  have hlive := h.live_le
  refine ⟨fun c hc => ⟨?_, by omega⟩, by omega, fun i hi => by omega⟩
  split <;> omega

theorem Shape.represents (h : n.Shape) : n.Represents := by
  obtain ⟨hfirst, hlast⟩ := h.tight
  refine ⟨h.live, h.child_of_count_zero, fun h1 => ?_, fun h2 => ?_, h.subscribers, h.noWrap⟩
  · obtain ⟨m, hm⟩ := h.single h1
    have hslots := slots_single h1 hm
    obtain ⟨m, rfl⟩ := Option.isSome_iff_exists.1 (hfirst m (by simp [hslots]))
    refine ⟨m, hm, fun c => ?_⟩
    rw [child, hslots, Window.look]
    grind
  · obtain ⟨t, ht⟩ := h.table h2
    have hslots := slots_table h2 ht
    have hlength : t.length = n.count := by rw [h.count_eq, hslots]
    rw [hslots] at hfirst hlast
    refine ⟨t, ht, hlength, h.range, ?_, ?_, ?_⟩
    · grind
    · grind
    · rw [h.live]
      exact h.tight.two_le_live (h.count_eq ▸ h2)

theorem WF.of_nodeAt : ∀ (p : List UInt8) (t : PfxNode σ), t.WF → t.nodeAt p = some n →
    n.WF ∧ (p ≠ [] → n.pfxIsRedundant = false) := by
  intro p
  induction p with
  | nil => grind [nodeAt]
  | cons c p ih =>
    intro t h hn
    cases hc : t.child c.toNat with
    | none => simp [nodeAt, hc] at hn
    | some m =>
      simp only [nodeAt, hc] at hn
      refine ⟨(ih m (h.child hc) hn).1, fun _ => ?_⟩
      cases p with
      | nil => exact Option.some.inj hn ▸ h.needed hc
      | cons d p => exact (ih m (h.child hc) hn).2 (by simp)

def Countable (t : PfxNode σ) : PfOp σ → Prop
  | .call (.subscribe p s) => t.countAt p s + 1 < 2 ^ 31
  | _ => True

theorem WF.execPf_returns (h : t.WF) {op : PfOp σ} (hop : t.Countable op) :
    ∃ t', t.execPf op = .ok t' ∧ t'.WF := by
  suffices hok : ∃ t', t.execPf op = .ok t' by
    obtain ⟨t', ht'⟩ := hok
    exact ⟨t', ht', h.execPf ht'⟩
  cases op with
  | call op =>
    cases op with
    | subscribe p s =>
      obtain ⟨r, t', hadd, -⟩ := pfxAdd_spec s p t h hop
      exact ⟨t', by simp only [PfxNode.execPf, PfxNode.exec, hadd]⟩
    | unsubscribe p s =>
      obtain ⟨r, t', hrm, -⟩ := pfxRm_spec s p t h
      exact ⟨t', by simp only [PfxNode.execPf, PfxNode.exec, hrm]⟩
  | unsubscribeAll s =>
    obtain ⟨t', calls, hall, -⟩ := h.pfUnsubscribeAll_spec s
    exact ⟨t', by simp only [PfxNode.execPf, hall]⟩

/-- **The representation invariant.** -/
theorem trie_represented (ops : List (PfOp σ)) (hcount : RunMeets execPf Countable pfxInit ops) :
    ∃ t, run execPf pfxInit ops = .ok t ∧ ∀ p n, t.nodeAt p = some n →
      n.Represents ∧ (p ≠ [] → n.pfxIsRedundant = false) := by
  obtain ⟨t, hrun, hwf⟩ := run_safe_meets (fun _ _ h hop => WF.execPf_returns h hop) ops pfxInit
    wf_pfxInit hcount
  refine ⟨t, hrun, fun p n hn => ?_⟩
  obtain ⟨hn', hneeded⟩ := hwf.of_nodeAt p t hn
  exact ⟨hn'.shape.represents, hneeded⟩

theorem trie_represented_once : ∃ t,
    run execPf pfxInit [.call (.subscribe [97, 98] (1 : Nat)), .unsubscribeAll 2] = .ok t ∧
      ∀ p n, t.nodeAt p = some n → n.Represents := by
  obtain ⟨t, hrun, hall⟩ := trie_represented
    [.call (.subscribe [97, 98] (1 : Nat)), .unsubscribeAll 2]
    ⟨show 0 + 1 < 2 ^ 31 by decide, fun _ _ => ⟨trivial, fun _ _ => trivial⟩⟩
  exact ⟨t, hrun, fun p n hn => (hall p n hn).1⟩

end PfxNode

end Libxs
