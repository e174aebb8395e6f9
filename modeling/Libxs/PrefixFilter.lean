import Libxs.Msg
import Mathlib.Order.Std

/-! # The prefix filter: a trie of reference-counted subscriptions -/

namespace Libxs

variable {σ : Type} [LinearOrder σ]

abbrev Subscribers (σ : Type) [LinearOrder σ] : Type := Std.TreeMap σ Nat

inductive PfxNext (ν : Type) where
  | unset
  | node (n : Option ν)
  | table (t : List (Option ν))

structure PfxNode (σ : Type) [LinearOrder σ] where
  subscribers : Option (Subscribers σ)
  min : Nat
  count : Nat
  liveNodes : Nat
  next : PfxNext (PfxNode σ)

namespace PfxNode

def pfxIsRedundant (n : PfxNode σ) : Bool := n.subscribers.isNone && n.liveNodes == 0

def pfxInit : PfxNode σ where
  subscribers := none
  min := 0
  count := 0
  liveNodes := 0
  next := .unset

mutual

def pfxClose : PfxNode σ → Except Fault Unit
  | ⟨_, _, count, _, next⟩ =>
    if count = 0 then .ok ()
    else if count = 1 then
      match next with
      | .node (some m) => pfxClose m
      | .node none => .error .assertFailed
      | _ => .error .wrongMember
    else
      match next with
      | .table t => pfxCloseTable t
      | _ => .error .wrongMember

def pfxCloseTable : List (Option (PfxNode σ)) → Except Fault Unit
  | [] => .ok ()
  | none :: rest => pfxCloseTable rest
  | some m :: rest =>
    match pfxClose m with
    | .error e => .error e
    | .ok () => pfxCloseTable rest

end

/-! ## Slots -/

def slot (n : PfxNode σ) (c : Nat) : Except Fault (Option (PfxNode σ)) :=
  if n.count = 1 then
    match n.next with
    | .node m => .ok m
    | _ => .error .wrongMember
  else
    match n.next with
    | .table t =>
      match t[c - n.min]? with
      | none => .error .badIndex
      | some m => .ok m
    | _ => .error .wrongMember

def setSlot (n : PfxNode σ) (c : Nat) (m : Option (PfxNode σ)) : PfxNode σ :=
  if n.count = 1 then { n with next := .node m }
  else
    match n.next with
    | .table t => { n with next := .table (t.set (c - n.min) m) }
    | _ => n

/-! ## Adding a subscription -/

def extend (n : PfxNode σ) (c : Nat) : PfxNode σ :=
  if n.count = 0 then { n with min := c, count := 1, next := .node none }
  else if n.count = 1 then
    let oldc := n.min
    let oldp := match n.next with
      | .node m => m
      | _ => none
    let count := ((if n.min < c then c - n.min else n.min - c) + 1) % 2 ^ 16
    let min := Nat.min n.min c
    { n with count := count, min := min,
             next := .table ((List.replicate count none).set (oldc - min) oldp) }
  else
    let table := match n.next with
      | .table t => t
      | _ => []
    if n.min < c then
      -- above the current character range
      let count := (c - n.min + 1) % 2 ^ 16
      { n with count := count,
               next := .table (table ++ List.replicate (count - n.count) none) }
    else
      -- below the current character range
      let count := (n.min + n.count - c) % 2 ^ 16
      { n with count := count, min := c,
               next := .table (List.replicate (n.min - c) none ++ table) }

def pfxAdd : PfxNode σ → List UInt8 → σ → Except Fault (Bool × PfxNode σ)
  | n, [], s =>
    let result := n.subscribers.isNone
    let subscribers := n.subscribers.getD ∅
    let refs := subscribers[s]?.getD 0
    if refs + 1 < 2 ^ 31 then
      .ok (result, { n with subscribers := some (subscribers.insert s (refs + 1)) })
    else .error .signedOverflow
  | n, c :: rest, s =>
    let c := c.toNat
    let n := if c < n.min ∨ n.min + n.count ≤ c then n.extend c else n
    match n.slot c with
    | .error e => .error e
    | .ok none =>
      -- the next node does not exist: create one
      match pfxAdd pfxInit rest s with
      | .error e => .error e
      | .ok (result, m) =>
        .ok (result, { (n.setSlot c (some m)) with
                       liveNodes := (n.liveNodes + 1) % 2 ^ 16 })
    | .ok (some m) =>
      match pfxAdd m rest s with
      | .error e => .error e
      | .ok (result, m) => .ok (result, n.setSlot c (some m))

/-! ## Removing a subscription -/

def dropSubscriber (subscribers : Option (Subscribers σ)) (s : σ) :
    Except Fault (Option (Subscribers σ) × Bool) :=
  match subscribers with
  | none => .ok (none, false)
  | some m =>
    match m[s]? with
    | none => .ok (some m, false)
    | some 0 => .error .assertFailed
    | some 1 =>
      if (m.erase s).isEmpty then .ok (none, true) else .ok (some (m.erase s), false)
    | some (refs + 1) => .ok (some (m.insert s refs), false)

def pruneSlot (n : PfxNode σ) (c : Nat) : Except Fault (PfxNode σ) :=
  if n.count = 0 then .error .assertFailed
  else if n.count = 1 then
    if n.liveNodes = 1 then .ok { n with next := .node none, count := 0, liveNodes := 0 }
    else .error .assertFailed
  else
    match n.next with
    | .table t =>
      let t := t.set (c - n.min) none
      if n.liveNodes ≤ 1 then .error .assertFailed
      else
        let live := n.liveNodes - 1
        if live = 1 then
          -- switch to the more compact single-node representation
          match (List.range n.count).find? (fun i => t[i]?.join.isSome) with
          | none => .error .assertFailed
          | some i =>
            .ok { n with liveNodes := live, min := (n.min + i) % 2 ^ 8, count := 1,
                         next := .node t[i]?.join }
        else if c = n.min then
          -- compact the table "from the left"
          match (List.range' 1 (n.count - 1)).find? (fun i => t[i]?.join.isSome) with
          | none => .error .assertFailed
          | some i =>
            let newMin := (i + n.min) % 2 ^ 8
            if n.min < newMin ∧ newMin - n.min < n.count then
              let count := n.count - (newMin - n.min)
              .ok { n with liveNodes := live, min := newMin, count := count,
                           next := .table ((t.drop (newMin - n.min)).take count) }
            else .error .assertFailed
        else if c = n.min + n.count - 1 then
          -- compact the table "from the right"
          match (List.range' 1 (n.count - 1)).find?
              (fun i => t[n.count - 1 - i]?.join.isSome) with
          | none => .error .assertFailed
          | some i =>
            .ok { n with liveNodes := live, count := n.count - i,
                         next := .table (t.take (n.count - i)) }
        else .ok { n with liveNodes := live, next := .table t }
    | _ => .error .wrongMember

def pfxRm : PfxNode σ → List UInt8 → σ → Except Fault (Bool × PfxNode σ)
  | n, [], s =>
    match dropSubscriber n.subscribers s with
    | .error e => .error e
    | .ok (subscribers, _) =>
      .ok (subscribers.isNone, { n with subscribers := subscribers })
  | n, c :: rest, s =>
    let c := c.toNat
    if n.count = 0 ∨ c < n.min ∨ n.min + n.count ≤ c then .ok (false, n)
    else
      match n.slot c with
      | .error e => .error e
      | .ok none => .ok (false, n)
      | .ok (some m) =>
        match pfxRm m rest s with
        | .error e => .error e
        | .ok (ret, m) =>
          if m.pfxIsRedundant then
            match m.pfxClose with
            | .error e => .error e
            | .ok () =>
              match n.pruneSlot c with
              | .error e => .error e
              | .ok n => .ok (ret, n)
          else .ok (ret, n.setSlot c (some m))

/-! ## Removing a subscriber everywhere -/

def realloc (buff : List UInt8) (size : Nat) : List UInt8 :=
  buff.take size ++ List.replicate (size - buff.length) 0

def setByte (buff : List UInt8) (i : Nat) (b : Nat) : Except Fault (List UInt8) :=
  if i < buff.length then .ok (buff.set i (UInt8.ofNat b)) else .error .badIndex

def unsubscribed (emptied : Bool) (buff : List UInt8) (buffsize : Nat) :
    Except Fault (List (List UInt8)) :=
  if emptied then
    if buffsize ≤ buff.length then .ok [buff.take buffsize] else .error .badIndex
  else .ok []

structure TableSweep (σ : Type) [LinearOrder σ] where
  table : List (Option (PfxNode σ))
  liveNodes : Nat
  newMin : Nat
  newMax : Nat
  buff : List UInt8
  calls : List (List UInt8)

def compact (n : PfxNode σ) (w : TableSweep σ) : Except Fault (PfxNode σ) :=
  if w.liveNodes = 0 then .ok { n with liveNodes := 0, count := 0, next := .unset }
  else if w.liveNodes = 1 then
    -- only one live node: the single-node representation
    if w.newMin = w.newMax ∧ n.min ≤ w.newMin ∧ w.newMin < n.min + n.count then
      match w.table[w.newMin - n.min]?.join with
      | none => .error .assertFailed
      | some m =>
        .ok { n with liveNodes := 1, count := 1, min := w.newMin, next := .node (some m) }
    else .error .assertFailed
  else if n.min < w.newMin ∨ w.newMax < n.min + n.count - 1 then
    if w.newMin < w.newMax ∧ n.min ≤ w.newMin ∧ w.newMax ≤ n.min + n.count - 1 ∧
        w.newMax + 1 < n.count + w.newMin then
      let count := (w.newMax - w.newMin + 1) % 2 ^ 16
      .ok { n with liveNodes := w.liveNodes, count := count, min := w.newMin,
                   next := .table ((w.table.drop (w.newMin - n.min)).take count) }
    else .error .assertFailed
  else .ok { n with liveNodes := w.liveNodes, next := .table w.table }

mutual

def pfxRmAll : PfxNode σ → σ → List UInt8 → Nat → Nat →
    Except Fault (PfxNode σ × List UInt8 × List (List UInt8))
  | ⟨subscribers, min, count, liveNodes, next⟩, s, buff, buffsize, maxbuffsize =>
    -- remove the subscription from this node: one reference of it
    match dropSubscriber subscribers s with
    | .error e => .error e
    | .ok (subscribers, emptied) =>
      match unsubscribed emptied buff buffsize with
      | .error e => .error e
      | .ok calls =>
        -- adjust the buffer
        let grow := decide (maxbuffsize ≤ buffsize)
        let buff := if grow then realloc buff (buffsize + 256) else buff
        let maxbuffsize := if grow then buffsize + 256 else maxbuffsize
        if count = 0 then .ok (⟨subscribers, min, 0, liveNodes, next⟩, buff, calls)
        else if count = 1 then
          match next with
          | .node none => .error .nullPointer
          | .node (some m) =>
            match setByte buff buffsize min with
            | .error e => .error e
            | .ok buff =>
              match pfxRmAll m s buff (buffsize + 1) maxbuffsize with
              | .error e => .error e
              | .ok (m, buff, calls') =>
                if m.pfxIsRedundant then
                  match m.pfxClose with
                  | .error e => .error e
                  | .ok () =>
                    if liveNodes = 1 then
                      .ok (⟨subscribers, min, 0, 0, .node none⟩, buff,
                        calls ++ calls')
                    else .error .assertFailed
                else
                  .ok (⟨subscribers, min, 1, liveNodes, .node (some m)⟩, buff,
                    calls ++ calls')
          | _ => .error .wrongMember
        else
          match next with
          | .table t =>
            match pfxRmAllTable t s min 0 buff buffsize maxbuffsize liveNodes
                ((min + count - 1) % 2 ^ 8) min with
            | .error e => .error e
            | .ok w =>
              match compact ⟨subscribers, min, count, liveNodes, .table t⟩ w with
              | .error e => .error e
              | .ok n => .ok (n, w.buff, calls ++ w.calls)
          | _ => .error .wrongMember

def pfxRmAllTable : List (Option (PfxNode σ)) → σ → Nat → Nat → List UInt8 → Nat → Nat → Nat → Nat →
    Nat → Except Fault (TableSweep σ)
  | [], _, _, _, buff, _, _, liveNodes, newMin, newMax =>
    .ok ⟨[], liveNodes, newMin, newMax, buff, []⟩
  | none :: rest, s, min, c, buff, buffsize, maxbuffsize, liveNodes, newMin, newMax =>
    match setByte buff buffsize (min + c) with
    | .error e => .error e
    | .ok buff =>
      match pfxRmAllTable rest s min (c + 1) buff buffsize maxbuffsize liveNodes newMin
          newMax with
      | .error e => .error e
      | .ok w => .ok { w with table := none :: w.table }
  | some m :: rest, s, min, c, buff, buffsize, maxbuffsize, liveNodes, newMin, newMax =>
    match setByte buff buffsize (min + c) with
    | .error e => .error e
    | .ok buff =>
      match pfxRmAll m s buff (buffsize + 1) maxbuffsize with
      | .error e => .error e
      | .ok (m, buff, calls) =>
        if m.pfxIsRedundant then
          -- prune redundant nodes from the trie
          match m.pfxClose with
          | .error e => .error e
          | .ok () =>
            if 0 < liveNodes then
              match pfxRmAllTable rest s min (c + 1) buff buffsize maxbuffsize
                  (liveNodes - 1) newMin newMax with
              | .error e => .error e
              | .ok w =>
                .ok { w with table := none :: w.table, calls := calls ++ w.calls }
            else .error .assertFailed
        else
          -- a candidate for being the new min/max node
          let newMin := if c + min < newMin then (c + min) % 2 ^ 8 else newMin
          let newMax := if c + min > newMax then (c + min) % 2 ^ 8 else newMax
          match pfxRmAllTable rest s min (c + 1) buff buffsize maxbuffsize liveNodes newMin
              newMax with
          | .error e => .error e
          | .ok w =>
            .ok { w with table := some m :: w.table, calls := calls ++ w.calls }

end

def signals (n : PfxNode σ) : List σ :=
  match n.subscribers with
  | none => []
  | some m => m.keys

def pfMatch : PfxNode σ → List UInt8 → Except Fault (List σ)
  | current, [] => .ok current.signals
  | current, c :: data =>
    let c := c.toNat
    if current.count = 0 then .ok current.signals
    else if current.count = 1 then
      -- one subnode (optimisation)
      if c ≠ current.min then .ok current.signals
      else
        match current.next with
        | .node (some m) =>
          match pfMatch m data with
          | .error e => .error e
          | .ok rest => .ok (current.signals ++ rest)
        | .node none => .error .nullPointer
        | _ => .error .wrongMember
    else if c < current.min ∨ current.min + current.count ≤ c then .ok current.signals
    else
      match current.next with
      | .table t =>
        match t[c - current.min]? with
        | none => .error .badIndex
        | some none => .ok current.signals
        | some (some m) =>
          match pfMatch m data with
          | .error e => .error e
          | .ok rest => .ok (current.signals ++ rest)
      | _ => .error .wrongMember

def sfMatch : PfxNode σ → List UInt8 → Except Fault Bool
  | current, [] => .ok current.subscribers.isSome
  | current, c :: data =>
    let c := c.toNat
    if current.subscribers.isSome then .ok true
    else if c < current.min ∨ current.min + current.count ≤ c then .ok false
    else if current.count = 1 then
      match current.next with
      | .node (some m) => sfMatch m data
      | .node none => .error .nullPointer
      | _ => .error .wrongMember
    else
      match current.next with
      | .table t =>
        match t[c - current.min]? with
        | none => .error .badIndex
        | some none => .ok false
        | some (some m) => sfMatch m data
      | _ => .error .wrongMember

end PfxNode

/-! ## The filter interface -/

inductive SubOp (σ : Type) where
  | subscribe (data : List UInt8) (subscriber : σ)
  | unsubscribe (data : List UInt8) (subscriber : σ)
deriving DecidableEq

def pfUnsubscribeAll (t : PfxNode σ) (s : σ) : Except Fault (PfxNode σ × List (List UInt8)) :=
  match t.pfxRmAll s [] 0 0 with
  | .error e => .error e
  | .ok (t, _, calls) => .ok (t, calls)

namespace PfxNode

def exec (t : PfxNode σ) : SubOp σ → Except Fault (PfxNode σ)
  | .subscribe data s =>
    match t.pfxAdd data s with
    | .error e => .error e
    | .ok (_, t) => .ok t
  | .unsubscribe data s =>
    match t.pfxRm data s with
    | .error e => .error e
    | .ok (_, t) => .ok t

end PfxNode

end Libxs
