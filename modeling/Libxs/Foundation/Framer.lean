import Mathlib.Data.List.Basic

/-! # Framed streams -/

namespace Libxs

variable {β μ : Type}

inductive Item (β μ : Type) where
  | incomplete
  | malformed
  | item (m : μ) (rest : List β)

structure Framer (β μ : Type) where
  next : List β → Item β μ
  shorter : ∀ bytes m rest, next bytes = .item m rest → rest.length < bytes.length
  item_append : ∀ bytes m rest more, next bytes = .item m rest →
    next (bytes ++ more) = .item m (rest ++ more)
  malformed_append : ∀ bytes more, next bytes = .malformed → next (bytes ++ more) = .malformed

namespace Framer

def split (F : Framer β μ) (bytes : List β) : List μ × List β :=
  match _h : F.next bytes with
  | .item m rest => (m :: (F.split rest).1, (F.split rest).2)
  | .incomplete => ([], bytes)
  | .malformed => ([], bytes)
termination_by bytes.length
decreasing_by all_goals exact F.shorter _ _ _ _h

def items (F : Framer β μ) (bytes : List β) : List μ := (F.split bytes).1

def tail (F : Framer β μ) (bytes : List β) : List β := (F.split bytes).2

def Malformed (F : Framer β μ) (bytes : List β) : Prop := F.next (F.tail bytes) = .malformed

variable {F : Framer β μ}
variable {bytes rest : List β} {m : μ}

theorem items_of_item (h : F.next bytes = .item m rest) : F.items bytes = m :: F.items rest := by
  rw [items, split]
  grind [items]

theorem tail_of_item (h : F.next bytes = .item m rest) : F.tail bytes = F.tail rest := by
  rw [tail, split]
  grind [tail]

theorem split_of_stop (h : ∀ m rest, F.next bytes ≠ .item m rest) :
    F.items bytes = [] ∧ F.tail bytes = bytes := by
  rw [items, tail, split]
  grind

inductive Reads (F : Framer β μ) : List β → List μ → List β → Prop where
  | nil (bytes : List β) : Reads F bytes [] bytes
  | cons {bytes rest q : List β} {m : μ} {ms : List μ} (h : F.next bytes = .item m rest)
      (hrest : Reads F rest ms q) : Reads F bytes (m :: ms) q

namespace Reads

variable {bytes q : List β} {ms : List μ}

theorem snoc {rest : List β} {m : μ} (h : F.Reads bytes ms q)
    (hq : F.next q = .item m rest) : F.Reads bytes (ms ++ [m]) rest := by
  induction h with
  | nil bytes => exact .cons hq (.nil rest)
  | cons hnext _ ih => exact .cons hnext (ih hq)

theorem append (h : F.Reads bytes ms q) (more : List β) :
    F.Reads (bytes ++ more) ms (q ++ more) := by
  induction h with
  | nil bytes => exact .nil _
  | cons hnext _ ih => exact .cons (F.item_append _ _ _ more hnext) ih

theorem items_eq (h : F.Reads bytes ms q) :
    F.items bytes = ms ++ F.items q ∧ F.tail bytes = F.tail q := by
  induction h with
  | nil bytes => exact ⟨rfl, rfl⟩
  | cons hnext _ ih =>
    rw [items_of_item hnext, tail_of_item hnext, ih.1, ih.2]
    exact ⟨rfl, rfl⟩

theorem items_of_stop (h : F.Reads bytes ms q)
    (hq : ∀ m rest, F.next q ≠ .item m rest) : F.items bytes = ms ∧ F.tail bytes = q := by
  obtain ⟨hnil, htail⟩ := split_of_stop hq
  rw [h.items_eq.1, h.items_eq.2, hnil, htail, List.append_nil]
  exact ⟨rfl, rfl⟩

end Reads

variable {bytes : List β} {P : List β → Prop}

theorem reads_items (F : Framer β μ) (bytes : List β) :
    F.Reads bytes (F.items bytes) (F.tail bytes) ∧
      ∀ m rest, F.next (F.tail bytes) ≠ .item m rest := by
  generalize hn : bytes.length = n
  induction n using Nat.strongRecOn generalizing bytes with
  | ind n ih =>
    by_cases hitem : ∃ m rest, F.next bytes = .item m rest
    · obtain ⟨m, rest, h⟩ := hitem
      obtain ⟨hreads, hstop⟩ := ih rest.length (hn ▸ F.shorter _ _ _ h) rest rfl
      rw [items_of_item h, tail_of_item h]
      exact ⟨.cons h hreads, hstop⟩
    · have hstop : ∀ m rest, F.next bytes ≠ .item m rest :=
        fun m rest h => hitem ⟨m, rest, h⟩
      obtain ⟨hnil, htail⟩ := split_of_stop hstop
      rw [hnil, htail]
      exact ⟨.nil bytes, hstop⟩

theorem items_append (F : Framer β μ) (bytes more : List β) :
    F.items bytes <+: F.items (bytes ++ more) := by
  rw [((F.reads_items bytes).1.append more).items_eq.1]
  exact List.prefix_append _ _

theorem Malformed.append (h : F.Malformed bytes) (more : List β) :
    F.Malformed (bytes ++ more) := by
  have hbad := F.malformed_append _ more h
  have hreads := (F.reads_items bytes).1.append more
  rw [Malformed, (hreads.items_of_stop fun m rest hm => by simp [hbad] at hm).2]
  exact hbad

def AtStarts (F : Framer β μ) (P : List β → Prop) (bytes : List β) : Prop :=
  ∀ ms q, F.Reads bytes ms q → P q

theorem atStarts_iff_of_item {rest : List β} {m : μ} (h : F.next bytes = .item m rest) :
    F.AtStarts P bytes ↔ P bytes ∧ F.AtStarts P rest := by
  constructor
  · intro hall
    exact ⟨hall [] bytes (.nil bytes), fun ms q hq => hall (m :: ms) q (.cons h hq)⟩
  · rintro ⟨hhere, hrest⟩ ms q hq
    cases hq with
    | nil => exact hhere
    | cons hnext hq' =>
      rw [h] at hnext
      simp only [Item.item.injEq] at hnext
      exact hrest _ q (hnext.2 ▸ hq')

theorem atStarts_iff_of_stop
    (h : ∀ m rest, F.next bytes ≠ .item m rest) : F.AtStarts P bytes ↔ P bytes := by
  refine ⟨fun hall => hall [] bytes (.nil bytes), fun hhere ms q hq => ?_⟩
  cases hq with
  | nil => exact hhere
  | cons hnext _ => exact absurd hnext (h _ _)

end Framer

end Libxs
