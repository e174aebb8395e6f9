import Libxs.TopicFilter
import Mathlib.Data.List.TakeWhile

/-! # Topics and what they match -/

namespace Libxs

namespace TopicFilter

def elements : List UInt8 → List (List UInt8)
  | [] => [[]]
  | c :: topic =>
    if c = 46 then [] :: elements topic
    else
      match elements topic with
      | [] => [[c]]
      | e :: es => (c :: e) :: es

def consume (begins : Bool) (e data : List UInt8) : Option (List UInt8) :=
  if begins && e.head? == some 42 then
    if e = [42] then some (data.dropWhile fun d => d != 0 && d != 46) else none
  else if e.isPrefixOf data then some (data.drop e.length)
  else none

def accepts (begins : Bool) : List (List UInt8) → List UInt8 → Bool
  | [], _ => true
  | e :: es, data =>
    match consume begins e data with
    | none => false
    | some rest => es.isEmpty || (rest.head? == some 46 && accepts true es rest.tail)

theorem elements_cons {c : UInt8} (h : c ≠ 46) (topic : List UInt8) :
    ∃ e es, elements topic = e :: es ∧ elements (c :: topic) = (c :: e) :: es := by
  cases hes : elements topic with
  | nil => cases topic <;> grind [elements]
  | cons e es => exact ⟨e, es, rfl, by rw [elements, if_neg h, hes]⟩

theorem elements_dot (topic : List UInt8) :
    ∃ e es, elements topic = e :: es ∧ elements (46 :: topic) = [] :: e :: es := by
  obtain ⟨e, es, hes, -⟩ := elements_cons (show (0 : UInt8) ≠ 46 by decide) topic
  exact ⟨e, es, hes, by rw [elements, if_pos rfl, hes]⟩

theorem matchLoop_eq (begins : Bool) (topic data : List UInt8) : matchLoop begins topic data =
    (accepts begins (elements topic) data && topic.all fun c => c.toNat < 128) := by
  fun_induction matchLoop begins topic data with
  | case1 begins data => simp [elements, accepts, consume]
  | case2 begins c data h =>
    simp only [Bool.and_eq_true, beq_iff_eq] at h
    simp [h, elements, accepts, consume]
  | case3 begins c data h c' topic d data' hdrop ih =>
    simp only [Bool.and_eq_true, beq_iff_eq] at h
    obtain ⟨rfl, rfl⟩ := h
    by_cases hc : c' = 46
    · subst hc
      obtain ⟨e, es, hes, hdot⟩ := elements_dot topic
      rw [ih, elements, if_neg (by decide), hdot, hes]
      simp [accepts, consume, hdrop, Bool.and_assoc]
    · obtain ⟨e, es, hes, hcons⟩ := elements_cons hc topic
      rw [elements, if_neg (by decide), hcons]
      simp [accepts, consume, hc]
  | case4 begins c data h c' topic hdrop =>
    simp only [Bool.and_eq_true, beq_iff_eq] at h
    obtain ⟨rfl, rfl⟩ := h
    by_cases hc : c' = 46
    · subst hc
      obtain ⟨e, es, hes, hdot⟩ := elements_dot topic
      rw [elements, if_neg (by decide), hdot]
      simp [accepts, consume, hdrop]
    · obtain ⟨e, es, hes, hcons⟩ := elements_cons hc topic
      rw [elements, if_neg (by decide), hcons]
      simp [accepts, consume]
  | case5 begins c topic h =>
    by_cases hc : c = 46
    · subst hc
      obtain ⟨e, es, hes, hdot⟩ := elements_dot topic
      simp [hdot, accepts, consume]
    · obtain ⟨e, es, hes, hcons⟩ := elements_cons hc topic
      simp [hcons, accepts, consume, h]
  | case6 begins c topic h d data hc ih =>
    obtain rfl : c = 46 := by simpa using hc
    obtain ⟨e, es, hes, hdot⟩ := elements_dot topic
    rw [ih, hdot, hes]
    simp [accepts, consume, Bool.and_assoc]
  | case7 begins c topic h d data hc ih =>
    obtain ⟨e, es, hes, hcons⟩ := elements_cons (by simpa using hc) topic
    rw [ih, hcons, hes]
    have hstar : (begins && (some c == some 42)) = false := by simpa using h
    simp only [accepts, consume, List.head?_cons, hstar, Bool.false_and, Bool.false_eq_true, if_false,
      List.isPrefixOf_cons_cons, sameChar, List.length_cons, List.drop_succ_cons, List.all_cons]
    by_cases hcd : c = d
    · subst hcd
      simp only [BEq.rfl, Bool.true_and]
      split <;> simp [Bool.and_left_comm]
    · simp [hcd]

def Accepts (topic data : List UInt8) : Prop := accepts true (elements topic) data = true
deriving Decidable

/-- **A topic matches what it should exactly if it has no character of `0x80` or more**, or should not
    match. -/
theorem topicMatch_iff (topic data : List UInt8) (hnul : 0 ∉ topic) :
    (topicMatch topic data = true ↔ Accepts topic data) ↔
      (Accepts topic data → ∀ c ∈ topic, c.toNat < 128) := by
  have htake : topic.takeWhile (· != 0) = topic := by
    rw [List.takeWhile_eq_self_iff]
    grind
  rw [topicMatch, htake, matchLoop_eq, Accepts, Bool.and_eq_true, List.all_eq_true]
  simp only [decide_eq_true_eq]
  tauto

theorem topicMatch_wildcard :
    topicMatch [97, 46, 42, 46, 98] [97, 46, 120, 121, 46, 98, 99] = true ↔
      Accepts [97, 46, 42, 46, 98] [97, 46, 120, 121, 46, 98, 99] :=
  (topicMatch_iff _ _ (by simp)).2 fun _ => by simp

theorem topicMatch_umlaut : topicMatch [0xc3, 0xa4] [0xc3, 0xa4] = false ∧
    Accepts [0xc3, 0xa4] [0xc3, 0xa4] :=
  ⟨by decide, by decide⟩

end TopicFilter

end Libxs
