import Libxs.ArrayT
import Libxs.Foundation.Run
import Libxs.Msg
import Mathlib.Data.List.Nodup

/-! # The slots of a context -/

namespace Libxs

inductive SlotMailbox (σ : Type) where
  | term
  | reaper
  | ioThread (i : Nat)
  | socket (s : σ)

structure SlotTable (σ : Type) where
  maxSockets : Nat
  ioThreadCount : Nat
  starting : Bool
  terminating : Bool
  slotCount : Nat
  slots : Nat → Option (SlotMailbox σ)
  emptySlots : List Nat
  sockets : ArrayT σ
  tid : σ → Nat

inductive SlotOp (σ : Type) where
  | createSocket (s : σ) (valid : Bool) (init : Option Errno)
  | destroySocket (s : σ)
  | terminate

namespace SlotTable

variable {σ : Type} {t t' : SlotTable σ} {s : σ} {valid : Bool} {ini : Option Errno}

def init (maxSockets ioThreadCount : Nat) : SlotTable σ where
  maxSockets := maxSockets
  ioThreadCount := ioThreadCount
  starting := true
  terminating := false
  slotCount := 0
  slots _ := none
  emptySlots := []
  sockets := .empty
  tid _ := 0

def start (t : SlotTable σ) : SlotTable σ :=
  if t.starting then
    { t with
      starting := false
      slotCount := t.maxSockets + t.ioThreadCount + 2
      slots := fun i =>
        if i = 0 then some .term
        else if i = 1 then some .reaper
        else if i < t.ioThreadCount + 2 then some (.ioThread i)
        else none
      emptySlots := List.range' (t.ioThreadCount + 2) t.maxSockets }
  else t

def create (valid : Bool) (ini : Option Errno) : Option Errno := if valid then ini else some .einval

variable [DecidableEq σ]

def createSocket (t : SlotTable σ) (s : σ) (valid : Bool) (ini : Option Errno) :
    Except Errno σ × SlotTable σ :=
  let t := t.start
  if t.terminating then (.error .eterm, t)
  else
    match t.emptySlots with
    | [] => (.error .emfile, t)
    | slot :: rest =>
      match create valid ini with
      | some e => (.error e, { t with emptySlots := slot :: rest })
      | none => (.ok s, { t with emptySlots := rest, sockets := t.sockets.pushBack s,
                                 tid := Function.update t.tid s slot,
                                 slots := Function.update t.slots slot (some (.socket s)) })

def destroySocket (t : SlotTable σ) (s : σ) : Except Fault (SlotTable σ) :=
  match t.sockets.erase s with
  | none => .error .badIndex
  | some sockets => .ok { t with emptySlots := t.tid s :: t.emptySlots, sockets := sockets,
                                 slots := Function.update t.slots (t.tid s) none }

def step (t : SlotTable σ) : SlotOp σ → Except Fault (SlotTable σ)
  | .createSocket s valid ini =>
    if s ∈ t.sockets.items then .ok t else .ok (t.createSocket s valid ini).2
  | .destroySocket s => if s ∈ t.sockets.items then t.destroySocket s else .ok t
  | .terminate => .ok { t with terminating := true }

omit [DecidableEq σ]

def IsSlot (t : SlotTable σ) (i : Nat) : Prop := t.ioThreadCount + 2 ≤ i ∧ i < t.slotCount

structure Conserved (t : SlotTable σ) : Prop where
  size : t.slotCount = t.maxSockets + t.ioThreadCount + 2
  nodup : t.emptySlots.Nodup
  used : ∀ i, (i ∈ t.emptySlots ∨ ∃ s ∈ t.sockets.items, t.tid s = i) ↔ t.IsSlot i
  apart : ∀ s ∈ t.sockets.items, t.tid s ∉ t.emptySlots
  distinct : ∀ s ∈ t.sockets.items, ∀ u ∈ t.sockets.items, t.tid s = t.tid u → s = u
  slots : ∀ i, t.IsSlot i → ∀ m, t.slots i = some m ↔ ∃ s ∈ t.sockets.items, t.tid s = i ∧ m = .socket s

structure Inv (t : SlotTable σ) : Prop where
  conserved : t.start.Conserved
  wf : t.sockets.WF
  fresh : t.starting = true → t.sockets.items = []

theorem inv_init (maxSockets ioThreadCount : Nat) : (init maxSockets ioThreadCount : SlotTable σ).Inv := by
  refine ⟨⟨rfl, List.nodup_range', fun i => ?_, ?_, ?_, fun i hi m => ?_⟩, ArrayT.wf_empty, fun _ => rfl⟩
  · simp [start, init, ArrayT.empty, IsSlot, List.mem_range'_1]
    omega
  · simp [start, init, ArrayT.empty]
  · simp [start, init, ArrayT.empty]
  · grind [start, init, IsSlot, ArrayT.empty]

theorem start_fields (t : SlotTable σ) : t.start.starting = false ∧ t.start.sockets = t.sockets ∧
    t.start.terminating = t.terminating ∧ t.start.start = t.start := by
  unfold start
  split <;> simp_all

theorem Inv.start (h : t.Inv) : t.start.Inv := by
  obtain ⟨hstarting, hsockets, -, hstart⟩ := t.start_fields
  exact ⟨hstart.symm ▸ h.conserved, hsockets ▸ h.wf, by simp [hstarting]⟩

theorem inv_of_conserved (hstarting : t.starting = false) (hc : t.Conserved) (hwf : t.sockets.WF) :
    t.Inv :=
  ⟨by rwa [SlotTable.start, if_neg (by simp [hstarting])], hwf, by simp [hstarting]⟩

variable [DecidableEq σ]

theorem Inv.createSocket (h : t.Inv) (hs : s ∉ t.sockets.items) : (t.createSocket s valid ini).2.Inv := by
  obtain ⟨hstarting, hsockets, -⟩ := t.start_fields
  have hstart := h.start
  obtain ⟨hsize, hnodup, hused, hapart, hdistinct, hslots⟩ := h.conserved
  rw [← hsockets] at hs
  dsimp only [SlotTable.createSocket]
  split_ifs
  · exact hstart
  · cases hempty : t.start.emptySlots with
    | nil => exact hstart
    | cons slot rest =>
      cases create valid ini with
      | some e => simpa only [← hempty] using hstart
      | none =>
        rw [hempty] at hnodup hused hapart
        refine inv_of_conserved hstarting ⟨hsize, ?_, ?_, ?_, ?_, ?_⟩ (hstart.wf.pushBack hs) <;>
          simp only [ArrayT.mem_pushBack, Function.update_apply] <;> grind [IsSlot]

theorem Inv.destroySocket (h : t.Inv) (hs : s ∈ t.sockets.items) :
    ∃ t', t.destroySocket s = .ok t' ∧ t'.Inv := by
  have hstarting : t.starting = false := by grind [h.fresh]
  obtain ⟨hsize, hnodup, hused, hapart, hdistinct, hslots⟩ : t.Conserved := by
    have hc := h.conserved
    rwa [SlotTable.start, if_neg (by simp [hstarting])] at hc
  obtain ⟨sockets, herase⟩ := ArrayT.eraseAt_of_lt (h.wf.index_lt hs)
  have hmem : ∀ u, u ∈ sockets.items ↔ u ∈ t.sockets.items ∧ u ≠ s := by
    intro u
    rw [ArrayT.mem_eraseAt h.wf herase]
    exact and_congr_right fun hu => not_congr ⟨h.wf.index_inj hu hs, fun he => he ▸ rfl⟩
  refine ⟨_, by rw [SlotTable.destroySocket, ArrayT.erase, herase], ?_⟩
  refine inv_of_conserved hstarting ⟨hsize, ?_, ?_, ?_, ?_, ?_⟩ (h.wf.eraseAt herase) <;>
    simp only [hmem, Function.update_apply] <;> grind [IsSlot]

theorem Inv.step (h : t.Inv) (op : SlotOp σ) : ∃ t', t.step op = .ok t' ∧ t'.Inv := by
  cases op with
  | createSocket s valid ini =>
    by_cases hs : s ∈ t.sockets.items
    · exact ⟨t, if_pos hs, h⟩
    · exact ⟨_, if_neg hs, h.createSocket hs⟩
  | destroySocket s =>
    by_cases hs : s ∈ t.sockets.items
    · obtain ⟨t', ht', h'⟩ := h.destroySocket hs
      exact ⟨t', (if_pos hs).trans ht', h'⟩
    · exact ⟨t, if_neg hs, h⟩
  | terminate =>
    refine ⟨_, rfl, ?_, h.wf, h.fresh⟩
    have hc := h.conserved
    unfold SlotTable.start at hc ⊢
    split_ifs at hc ⊢ <;> exact ⟨hc.size, hc.nodup, hc.used, hc.apart, hc.distinct, hc.slots⟩

end SlotTable

end Libxs
