import Libxs.Foundation.ChangeLog
import Libxs.Wire

/-! # Subscription commands -/

namespace Libxs

abbrev Subscription : Type := Nat × List UInt8

namespace PubSub

def cmdSubscribe : UInt16 := 1

def cmdUnsubscribe : UInt16 := 2

/-- `XS_FILTER_PREFIX`. -/
def filterPrefixId : Nat := 1

/-- `XS_FILTER_TOPIC`. -/
def filterTopicId : Nat := 2

def command (c : Change Subscription) : List UInt8 :=
  putUint16 (if c.present then cmdSubscribe else cmdUnsubscribe) ++
    (putUint16 (UInt16.ofNat c.key.1) ++ c.key.2)

def parse (data : List UInt8) : Option (Change Subscription) :=
  if data.length < 4 then none
  else
    let cmd := getUint16 data
    let filterId := (getUint16 (data.drop 2)).toNat
    if cmd = cmdSubscribe then some ⟨true, filterId, data.drop 4⟩
    else if cmd = cmdUnsubscribe then some ⟨false, filterId, data.drop 4⟩
    else none

theorem parse_command {c : Change Subscription} (h : c.key.1 < 2 ^ 16) :
    parse (command c) = some c := by
  obtain ⟨present, filterId, topic⟩ := c
  have hid : (UInt16.ofNat filterId).toNat = filterId := by
    simp only [UInt16.toNat_ofNat']
    exact Nat.mod_eq_of_lt h
  have hlen : ∀ v w : UInt16, ¬ (putUint16 v ++ (putUint16 w ++ topic)).length < 4 := by
    intro v w
    simp only [List.length_append, length_putUint16]
    omega
  have hdrop : ∀ v w : UInt16, (putUint16 v ++ (putUint16 w ++ topic)).drop 2 = putUint16 w ++ topic :=
    fun _ _ => rfl
  have htopic : ∀ v w : UInt16, (putUint16 v ++ (putUint16 w ++ topic)).drop 4 = topic :=
    fun _ _ => rfl
  simp only [parse, command, if_neg (hlen _ _), hdrop, htopic, getUint16_putUint16, hid]
  cases present <;> rfl

theorem parse_filterId {data : List UInt8} {c : Change Subscription} (h : parse data = some c) :
    c.key.1 < 2 ^ 16 := by
  unfold parse at h
  grind [UInt16.toNat_lt]

end PubSub

/-! ## The history of subscriptions -/

structure Tally where
  subscribes : Subscription → Nat
  unsubscribes : Subscription → Nat

namespace Tally

def init : Tally := ⟨fun _ => 0, fun _ => 0⟩

def note (t : Tally) (c : Change Subscription) : Tally :=
  if c.present then
    { t with subscribes := Function.update t.subscribes c.key (t.subscribes c.key + 1) }
  else if t.unsubscribes c.key < t.subscribes c.key then
    { t with unsubscribes := Function.update t.unsubscribes c.key (t.unsubscribes c.key + 1) }
  else t

end Tally

end Libxs
