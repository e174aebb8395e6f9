import Libxs.Msg

/-! # `ypipe_t`: the lock-free single-writer single-reader queue -/

namespace Libxs

variable {α : Type}

structure YPipe (α : Type) where
  queue : List α
  front : Nat
  w : Nat
  f : Nat
  r : Option Nat
  c : Option Nat

namespace YPipe

def init : YPipe α := ⟨[], 0, 0, 0, some 0, some 0⟩

def back (q : YPipe α) : Nat := q.front + q.queue.length

def cas (q : YPipe α) (cmp val : Option Nat) : Option Nat × YPipe α :=
  (q.c, if q.c = cmp then { q with c := val } else q)

def write (q : YPipe α) (value : α) (incomplete : Bool) : YPipe α :=
  let q := { q with queue := q.queue ++ [value] }
  if incomplete then q else { q with f := q.back }

def unwrite (q : YPipe α) : Option (α × YPipe α) :=
  if q.f = q.back then none
  else
    match q.queue.getLast? with
    | none => none
    | some value => some (value, { q with queue := q.queue.dropLast })

def flush (q : YPipe α) : Bool × YPipe α :=
  if q.w = q.f then (true, q)
  else
    let (old, q') := q.cas (some q.w) (some q.f)
    if old ≠ some q.w then (false, { q' with c := some q.f, w := q.f })
    else (true, { q' with w := q.f })

def checkRead (q : YPipe α) : Bool × YPipe α :=
  if some q.front ≠ q.r ∧ q.r ≠ none then (true, q)
  else
    let (old, q') := q.cas (some q.front) none
    let q' := { q' with r := old }
    if some q'.front = q'.r ∨ q'.r = none then (false, q') else (true, q')

def read (q : YPipe α) : Option α × YPipe α :=
  match q.checkRead with
  | (false, q) => (none, q)
  | (true, q) =>
    match q.queue with
    | [] => (none, q)
    | value :: rest => (some value, { q with queue := rest, front := q.front + 1 })

def probe (q : YPipe α) (fn : α → Bool) : Except Fault (Bool × YPipe α) :=
  match q.checkRead with
  | (false, _) => .error .assertFailed
  | (true, q) =>
    match q.queue with
    | [] => .error .badIndex
    | value :: _ => .ok (fn value, q)

/-! ## The invariant of the four pointers -/

structure WF (q : YPipe α) : Prop where
  front_le_w : q.front ≤ q.w
  w_le_f : q.w ≤ q.f
  f_le_back : q.f ≤ q.back
  r_bounds : ∀ r, q.r = some r → q.front ≤ r ∧ r ≤ q.w
  c_eq : q.c = some q.w ∨ (q.c = none ∧ q.front = q.w)

def flushed (q : YPipe α) : List α := q.queue.take (q.w - q.front)

def incomplete (q : YPipe α) : List α := q.queue.drop (q.f - q.front)

theorem wf_init : (init : YPipe α).WF :=
  ⟨Nat.le_refl _, Nat.le_refl _, Nat.le_refl _, by simp [init], Or.inl rfl⟩

/-! ## Writer methods -/

section writer

variable {q : YPipe α}
variable {q' : YPipe α} {v : α}

@[simp] theorem write_queue (q : YPipe α) (v : α) (b : Bool) :
    (q.write v b).queue = q.queue ++ [v] := by
  unfold write; split <;> rfl

@[simp] theorem write_front (q : YPipe α) (v : α) (b : Bool) : (q.write v b).front = q.front := by
  unfold write; split <;> rfl

@[simp] theorem write_w (q : YPipe α) (v : α) (b : Bool) : (q.write v b).w = q.w := by
  unfold write; split <;> rfl

@[simp] theorem write_r (q : YPipe α) (v : α) (b : Bool) : (q.write v b).r = q.r := by
  unfold write; split <;> rfl

@[simp] theorem write_c (q : YPipe α) (v : α) (b : Bool) : (q.write v b).c = q.c := by
  unfold write; split <;> rfl

theorem write_f (q : YPipe α) (v : α) (b : Bool) :
    (q.write v b).f = if b then q.f else q.back + 1 := by
  unfold write
  split <;> simp [back, *]
  omega

theorem WF.write (h : q.WF) (v : α) (b : Bool) : (q.write v b).WF := by
  have h1 := h.front_le_w
  have h2 := h.w_le_f
  have h3 := h.f_le_back
  have hf := write_f q v b
  refine ⟨by simpa using h1, ?_, ?_, by simpa using h.r_bounds, by simpa using h.c_eq⟩
  · rw [write_w, hf]
    split <;> omega
  · rw [hf]
    simp only [back, write_queue, write_front, List.length_append, List.length_singleton] at *
    split <;> omega

theorem unwrite_some (h : q.unwrite = some (v, q')) : q.f ≠ q.back ∧ q.queue = q'.queue ++ [v] ∧
      q' = { q with queue := q.queue.dropLast } := by
  unfold unwrite at h
  split at h
  · cases h
  next hne =>
    split at h
    · cases h
    next value hlast =>
      simp only [Option.some.injEq, Prod.mk.injEq] at h
      obtain ⟨rfl, rfl⟩ := h
      refine ⟨hne, ?_, rfl⟩
      have hnil : q.queue ≠ [] := by
        intro he
        simp [he] at hlast
      rw [List.getLast?_eq_some_getLast hnil, Option.some.injEq] at hlast
      rw [← hlast]
      exact (List.dropLast_concat_getLast hnil).symm

theorem WF.unwrite (h : q.WF) (hu : q.unwrite = some (v, q')) : q'.WF := by
  obtain ⟨hne, -, rfl⟩ := unwrite_some hu
  refine ⟨h.front_le_w, h.w_le_f, ?_, h.r_bounds, h.c_eq⟩
  have h3 := h.f_le_back
  have h1 := h.front_le_w
  have h2 := h.w_le_f
  simp only [back, List.length_dropLast] at *
  omega

@[simp] theorem flush_queue (q : YPipe α) : q.flush.2.queue = q.queue := by
  grind [flush, cas]

theorem flush_eq (h : q.WF) :
    q.flush = (decide (q.w = q.f ∨ q.c ≠ none),
      { q with w := q.f, c := if q.w = q.f then q.c else some q.f }) := by
  unfold flush
  by_cases hwf : q.w = q.f
  · obtain ⟨queue, front, w, f, r, c⟩ := q
    simp only at hwf
    subst hwf
    simp
  · grind [h.c_eq, cas]

theorem WF.flush (h : q.WF) : q.flush.2.WF := by
  rw [flush_eq h]
  have h1 := h.front_le_w
  have h2 := h.w_le_f
  refine ⟨Nat.le_trans h1 h2, Nat.le_refl _, h.f_le_back, ?_, ?_⟩
  · intro r hr
    obtain ⟨ha, hb⟩ := h.r_bounds r hr
    exact ⟨ha, Nat.le_trans hb h2⟩
  · grind [h.c_eq]

end writer

/-! ## Reader methods -/

section reader

variable {q : YPipe α}
variable {rest : List α} {r : Nat} {v : α}

theorem checkRead_cases (h : q.WF) :
    (q.front < q.w ∧ ∃ r, q.checkRead = (true, { q with r := some r }) ∧ q.front < r ∧ r ≤ q.w) ∨
      (q.front = q.w ∧ ∃ r, q.checkRead = (false, { q with r := r, c := none }) ∧
        (r = some q.front ∨ r = none)) := by
  have h1 := h.front_le_w
  unfold checkRead
  split
  next hr =>
    obtain ⟨hr1, hr2⟩ := hr
    obtain ⟨r, hr⟩ := Option.ne_none_iff_exists'.1 hr2
    obtain ⟨ha, hb⟩ := h.r_bounds r hr
    have hne : q.front ≠ r := fun he => hr1 (by rw [hr, he])
    exact Or.inl ⟨by omega, r, by rw [← hr], by omega, hb⟩
  · rcases h.c_eq with hc | ⟨hc, hw⟩
    · by_cases hfw : q.front = q.w
      · grind [cas]
      · refine Or.inl ⟨by omega, q.w, ?_, by omega, Nat.le_refl _⟩
        have hne : ¬ q.w = q.front := fun he => hfw he.symm
        simp [cas, hc, hne, hfw]
    · grind [cas]

@[simp] theorem checkRead_queue (q : YPipe α) : q.checkRead.2.queue = q.queue := by
  unfold checkRead cas
  simp only
  repeat' split
  all_goals rfl

theorem WF.sleep (h : q.WF) (hfw : q.front = q.w) {r : Option Nat}
    (hr : r = some q.front ∨ r = none) : ({ q with r := r, c := none } : YPipe α).WF := by
  refine ⟨h.front_le_w, h.w_le_f, h.f_le_back, ?_, Or.inr ⟨rfl, hfw⟩⟩
  intro r' hr'
  simp only at hr'
  grind

theorem WF.prefetch (h : q.WF) (h1 : q.front < r) (h2 : r ≤ q.w) :
    ({ q with r := some r } : YPipe α).WF := by
  refine ⟨h.front_le_w, h.w_le_f, h.f_le_back, ?_, h.c_eq⟩
  intro r' hr'
  simp only [Option.some.injEq] at hr'
  simp only
  omega

theorem checkRead_prefetched (hr : q.r = some r) (h1 : q.front < r) :
    q.checkRead = (true, q) := by
  have hne : q.front ≠ r := by omega
  unfold checkRead
  rw [if_pos (by simp [hr, hne])]

theorem WF.queue_cons (h : q.WF) (hlt : q.front < q.w) : ∃ v rest, q.queue = v :: rest := by
  have h2 := h.w_le_f
  have h3 := h.f_le_back
  simp only [back] at h3
  exact List.exists_cons_of_length_pos (by omega)

def popped (q : YPipe α) (rest : List α) (r : Nat) : YPipe α :=
  { q with queue := rest, front := q.front + 1, r := some r }

theorem probe_prefetched (hr : q.r = some r) (h1 : q.front < r)
    (hq : q.queue = v :: rest) (fn : α → Bool) : q.probe fn = .ok (fn v, q) := by
  simp only [probe, checkRead_prefetched hr h1]
  simp only [hq]

theorem read_prefetched (hr : q.r = some r) (h1 : q.front < r)
    (hq : q.queue = v :: rest) : q.read = (some v, q.popped rest r) := by
  simp only [read, checkRead_prefetched hr h1]
  simp only [hq, popped, hr]

theorem WF.popped (h : q.WF) (hq : q.queue = v :: rest)
    (h1 : q.front < r) (h2 : r ≤ q.w) : (q.popped rest r).WF := by
  have hb := h.f_le_back
  simp only [back, hq, List.length_cons] at hb
  refine ⟨?_, h.w_le_f, ?_, ?_, ?_⟩
  · simp only [YPipe.popped]
    omega
  · simp only [YPipe.popped, back]
    omega
  · grind [YPipe.popped]
  · rcases h.c_eq with hc | ⟨-, hfw⟩
    · exact Or.inl hc
    · omega

theorem read_cases (h : q.WF) :
    (q.front < q.w ∧ ∃ v rest r, q.queue = v :: rest ∧ q.front < r ∧ r ≤ q.w ∧
        q.read = (some v, q.popped rest r)) ∨
      (q.front = q.w ∧ ∃ r, q.read = (none, { q with r := r, c := none }) ∧
        (r = some q.front ∨ r = none)) := by
  rcases checkRead_cases h with ⟨hlt, r, he, hr1, hr2⟩ | ⟨hfw, r, he, hr⟩
  · obtain ⟨v, rest, hq⟩ := h.queue_cons hlt
    refine Or.inl ⟨hlt, v, rest, r, hq, hr1, hr2, ?_⟩
    unfold read
    rw [he]
    simp only [hq, popped]
  · refine Or.inr ⟨hfw, r, ?_, hr⟩
    unfold read
    rw [he]

theorem WF.read (h : q.WF) : q.read.2.WF := by
  rcases read_cases h with ⟨hlt, v, rest, r, hq, hr1, hr2, he⟩ | ⟨hfw, r, he, hr⟩
  · rw [he]
    exact h.popped hq hr1 hr2
  · rw [he]
    exact h.sleep hfw hr

end reader

end YPipe

end Libxs
