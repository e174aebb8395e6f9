import Libxs.Msg
import Mathlib.Order.Std

/-! # The endpoints of a socket -/

namespace Libxs

structure EndpointTable (α : Type) where
  endpoints : Std.TreeMap Int α
  terminated : List α
  registered : List (Int × α)

inductive EndpointOp (α : Type) where
  | add (endpoint : α)
  | shutdown (ctxTerminated : Bool) (how : Int)

namespace EndpointTable

variable {α : Type} {t : EndpointTable α}

def init : EndpointTable α := ⟨∅, [], []⟩

def uniqueId : List Int → Int → Int
  | [], id => id
  | key :: keys, id => if key ≠ id then id else uniqueId keys (id + 1)

def addEndpoint (t : EndpointTable α) (endpoint : α) : Int × EndpointTable α :=
  let id := uniqueId t.endpoints.keys 1
  (id, { t with endpoints := t.endpoints.insertIfNew id endpoint,
                registered := (id, endpoint) :: t.registered })

def shutdown (t : EndpointTable α) (ctxTerminated : Bool) (how : Int) :
    Except Errno Unit × EndpointTable α :=
  if ctxTerminated then (.error .eterm, t)
  else if how ≤ 0 then (.error .enotsup, t)
  else
    match t.endpoints[how]? with
    | none => (.error .einval, t)
    | some x => (.ok (), { t with endpoints := t.endpoints.erase how, terminated := x :: t.terminated })

def exec (t : EndpointTable α) : EndpointOp α → EndpointTable α
  | .add endpoint => (t.addEndpoint endpoint).2
  | .shutdown ctxTerminated how => (t.shutdown ctxTerminated how).2

/-! ## Ids -/

theorem uniqueId_spec : ∀ (keys : List Int) (id : Int), keys.Pairwise (· < ·) → (∀ k ∈ keys, id ≤ k) →
    id ≤ uniqueId keys id ∧ uniqueId keys id ∉ keys ∧
      ∀ j, id ≤ j → j < uniqueId keys id → j ∈ keys := by
  intro keys
  induction keys with
  | nil => grind [uniqueId]
  | cons key keys ih =>
    intro id hsorted hle
    obtain ⟨hkey, hsorted⟩ := List.pairwise_cons.1 hsorted
    by_cases h : key = id
    · subst h
      obtain ⟨h1, h2, h3⟩ := ih (key + 1) hsorted fun k hk => hkey k hk
      rw [uniqueId, if_neg (by simp)]
      grind
    · rw [uniqueId, if_pos h]
      have := hle key (by simp)
      grind

structure Inv (t : EndpointTable α) : Prop where
  positive : ∀ id ∈ t.endpoints, 0 < id
  latest : ∀ id x, t.endpoints[id]? = some x → t.registered.lookup id = some x

theorem Inv.addEndpoint (h : t.Inv) (x : α) :
    (0 < (t.addEndpoint x).1 ∧ (t.addEndpoint x).1 ∉ t.endpoints ∧
      ∀ j, 0 < j → j < (t.addEndpoint x).1 → j ∈ t.endpoints) ∧
      ∀ j, (t.addEndpoint x).2.endpoints[j]? =
        if j = (t.addEndpoint x).1 then some x else t.endpoints[j]? := by
  have hsorted : t.endpoints.keys.Pairwise (· < ·) :=
    Std.TreeMap.ordered_keys.imp fun h => Std.compare_eq_lt.1 h
  obtain ⟨h1, h2, h3⟩ := uniqueId_spec t.endpoints.keys 1 hsorted fun k hk =>
    h.positive k (Std.TreeMap.mem_keys.1 hk)
  simp only [Std.TreeMap.mem_keys] at h2 h3
  refine ⟨⟨h1, h2, h3⟩, fun j => ?_⟩
  simp only [EndpointTable.addEndpoint, Std.TreeMap.getElem?_insertIfNew, h2, not_false_eq_true,
    and_true, Std.compare_eq_iff_eq]
  grind

theorem Inv.exec (h : t.Inv) (op : EndpointOp α) : (t.exec op).Inv := by
  have hmem : ∀ (m : Std.TreeMap Int α) id, id ∈ m ↔ ∃ x, m[id]? = some x := fun m id => by
    rw [Std.TreeMap.mem_iff_isSome_getElem?, Option.isSome_iff_exists]
  have hpositive := h.positive
  have hlatest := h.latest
  simp only [hmem, forall_exists_index] at hpositive
  cases op with
  | add x =>
    obtain ⟨⟨hpos, -⟩, hget⟩ := h.addEndpoint x
    constructor
    · simp only [hmem, EndpointTable.exec, hget]
      grind
    · simp only [EndpointTable.exec, hget]
      intro id y hy
      rw [EndpointTable.addEndpoint, List.lookup_cons]
      grind [EndpointTable.addEndpoint]
  | shutdown ctxTerminated how =>
    simp only [EndpointTable.exec, shutdown]
    split_ifs
    · exact h
    · exact h
    · split
      · exact h
      · constructor <;> simp only [hmem, Std.TreeMap.getElem?_erase] <;> grind

def after (ops : List (EndpointOp α)) : EndpointTable α := ops.foldl exec init

theorem inv_after (ops : List (EndpointOp α)) : (after ops).Inv := by
  suffices h : ∀ (ops : List (EndpointOp α)) (t : EndpointTable α), t.Inv → (ops.foldl exec t).Inv from
    h ops init ⟨by simp [init], by simp [init]⟩
  intro ops
  induction ops with
  | nil => exact fun _ h => h
  | cons op ops ih => exact fun t h => ih _ (h.exec op)

/-- **Ids are not reused while they are in use.** -/
theorem endpoints_exact (ops : List (EndpointOp α)) :
    (∀ x, (0 < ((after ops).addEndpoint x).1 ∧ ((after ops).addEndpoint x).1 ∉ (after ops).endpoints ∧
        ∀ j, 0 < j → j < ((after ops).addEndpoint x).1 → j ∈ (after ops).endpoints) ∧
      ∀ j, ((after ops).addEndpoint x).2.endpoints[j]? =
        if j = ((after ops).addEndpoint x).1 then some x else (after ops).endpoints[j]?) ∧
      ∀ how, 0 < how →
        ((((after ops).shutdown false how).1 = .error .einval ↔ how ∉ (after ops).endpoints) ∧
          (how ∉ (after ops).endpoints → ((after ops).shutdown false how).2 = after ops)) ∧
        ∀ x, (after ops).endpoints[how]? = some x → (after ops).registered.lookup how = some x ∧
          (after ops).shutdown false how = (.ok (), { after ops with
            endpoints := (after ops).endpoints.erase how
            terminated := x :: (after ops).terminated }) := by
  have h := inv_after ops
  refine ⟨h.addEndpoint, fun how hpos => ?_⟩
  simp only [shutdown, Bool.false_eq_true, if_false, if_neg (Int.not_le.2 hpos),
    Std.TreeMap.mem_iff_isSome_getElem?]
  cases hx : (after ops).endpoints[how]? with
  | none => simp
  | some x => simpa using h.latest how x hx

theorem endpoints_exact_reused :
    (after [.add 'a', .add 'b', .shutdown false 1, .add 'c']).registered.lookup 1 = some 'c' ∧
      ((after [.add 'a', .add 'b', .shutdown false 1, .add 'c']).shutdown false 1).1 = .ok () := by
  obtain ⟨hlatest, hdown⟩ := ((endpoints_exact [.add 'a', .add 'b', .shutdown false 1, .add 'c']).2 1
    (by decide)).2 'c' rfl
  exact ⟨hlatest, by rw [hdown]⟩

end EndpointTable

end Libxs
