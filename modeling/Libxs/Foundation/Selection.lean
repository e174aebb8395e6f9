import Libxs.Foundation.Supply
import Mathlib.Data.List.Induction

/-! # Selecting messages by their first part -/

namespace Libxs

variable {β : Type} (more keep : β → Bool)

def selected (l : List β) : List β := ((messages more l).filter fun m => m.head?.any keep).flatten

def nextStop (stop : Option Bool) (m : β) : Option Bool :=
  if more m then some (stop.getD (keep m)) else none

def stop (l : List β) : Option Bool := l.foldl (nextStop more keep) none

def passed (stop : Option Bool) (m : β) : List β := if stop.getD (keep m) then [m] else []

def selectFrom : Option Bool → List β → List β
  | _, [] => []
  | st, m :: ms => passed keep st m ++ selectFrom (nextStop more keep st m) ms

variable {more keep}

theorem selectFrom_messages (l : List β) :
    (∀ b, selectFrom more keep (some b) l = (if b then (messages more l).headD [] else []) ++
      ((messages more l).tail.filter fun m => m.head?.any keep).flatten) ∧
    selectFrom more keep none l = selected more keep l := by
  induction l with
  | nil => simp [selectFrom, messages, selected]
  | cons m ms ih =>
    cases hm : more m with
    | true =>
      cases hms : messages more ms with
      | nil =>
        simp only [hms, List.headD_nil, List.tail_nil, List.filter_nil, List.flatten_nil, ite_self,
          List.append_nil] at ih
        refine ⟨fun b => ?_, ?_⟩
        · cases b <;> simp [selectFrom, passed, nextStop, hm, messages, hms, ih.1]
        · cases hk : keep m <;>
            simp [selectFrom, passed, nextStop, hm, messages, hms, ih.1, selected, hk]
      | cons g gs => grind [selectFrom, passed, nextStop, messages, selected]
    | false => grind [selectFrom, passed, nextStop, messages, selected]

theorem selectFrom_concat (l : List β) (m : β) : ∀ st, selectFrom more keep st (l ++ [m]) =
    selectFrom more keep st l ++ passed keep (l.foldl (nextStop more keep) st) m := by
  induction l with
  | nil => exact fun st => by simp [selectFrom]
  | cons a l ih => exact fun st => by simp [selectFrom, ih]

theorem selected_concat (l : List β) (m : β) :
    selected more keep (l ++ [m]) =
      selected more keep l ++ passed keep (stop more keep l) m := by
  rw [← (selectFrom_messages (l ++ [m])).2, selectFrom_concat, (selectFrom_messages l).2]
  rfl

theorem stop_concat (l : List β) (m : β) :
    stop more keep (l ++ [m]) = nextStop more keep (stop more keep l) m := by
  simp [stop]

theorem stop_isSome (l : List β) : (stop more keep l).isSome = l.getLast?.elim false more := by
  induction l using List.reverseRecOn with
  | nil => rfl
  | append_singleton l m _ =>
    rw [stop_concat, nextStop]
    cases hm : more m <;> simp [hm]

end Libxs
