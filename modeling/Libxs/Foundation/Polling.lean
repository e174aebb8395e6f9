/-! # Asking before receiving -/

namespace Libxs

variable {ε σ β γ : Type}

inductive PollCall where
  | recv
  | poll
deriving DecidableEq

structure Pollable (ε σ β : Type) where
  recv : σ → Except ε (Option β × σ)
  poll : σ → Except ε (Bool × σ)

inductive Agree (Same : σ → σ → Prop) : Except ε (γ × σ) → Except ε (γ × σ) → Prop where
  | error (err : ε) : Agree Same (.error err) (.error err)
  | ok (x : γ) {s t : σ} : Same s t → Agree Same (.ok (x, s)) (.ok (x, t))

namespace Agree

variable {Same : σ → σ → Prop} {x y z : Except ε (γ × σ)}

theorem refl (h : ∀ s, Same s s) (x : Except ε (γ × σ)) : Agree Same x x := by
  cases x with
  | error err => exact .error err
  | ok r => exact .ok r.1 (h r.2)

theorem trans (h : ∀ {s t u}, Same s t → Same t u → Same s u) (hxy : Agree Same x y)
    (hyz : Agree Same y z) : Agree Same x z := by
  cases hxy with
  | error err => exact hyz
  | ok r hst =>
    cases hyz with
    | ok _ htu => exact .ok r (h hst htu)

theorem cons {x y : Except ε (List γ × σ)} (h : Agree Same x y) (r : γ) :
    Agree Same (x.map fun z => (r :: z.1, z.2)) (y.map fun z => (r :: z.1, z.2)) := by
  cases h with
  | error err => exact .error err
  | ok rs hst => exact .ok (r :: rs) hst

theorem eq_of_eq (h : Agree (fun s t => s = t) x y) : x = y := by
  cases h with
  | error err => rfl
  | ok r hst => rw [hst]

end Agree

namespace Pollable

variable {m : Pollable ε σ β}

def run (m : Pollable ε σ β) : List PollCall → σ → Except ε (List (Option β) × σ)
  | [], s => .ok ([], s)
  | .recv :: calls, s =>
    match m.recv s with
    | .error err => .error err
    | .ok (r, s) => (m.run calls s).map fun x => (r :: x.1, x.2)
  | .poll :: calls, s =>
    match m.poll s with
    | .error err => .error err
    | .ok (_, s) => m.run calls s

def recvs (calls : List PollCall) : List PollCall := calls.filter (· = .recv)

def Tells (m : Pollable ε σ β) (s : σ) : Prop :=
  ∀ b t, m.poll s = .ok (b, t) → (b = true ↔ ∃ r u, m.recv s = .ok (some r, u))

structure Transparent (m : Pollable ε σ β) (Same : σ → σ → Prop) : Prop where
  equiv : Equivalence Same
  recv : ∀ {s t}, Same s t → Agree Same (m.recv s) (m.recv t)
  poll : ∀ {s t}, Same s t → Agree Same (m.poll s) (m.poll t)
  fails : ∀ {s err}, m.poll s = .error err → m.recv s = .error err
  unnoticed : ∀ {s b t}, m.poll s = .ok (b, t) → Agree Same (m.recv t) (m.recv s)
  settles : ∀ {s b t}, m.poll s = .ok (b, t) → m.poll t = .ok (b, t)

namespace Transparent

variable {Same : σ → σ → Prop}

theorem agree_refl (h : m.Transparent Same) (x : Except ε (γ × σ)) : Agree Same x x :=
  .refl h.equiv.refl x

theorem run_recv {calls : List PollCall}
    (ih : ∀ {s t}, Same s t → Agree Same (m.run calls s) (m.run calls t)) {s t : σ}
    (hr : Agree Same (m.recv s) (m.recv t)) :
    Agree Same (m.run (.recv :: calls) s) (m.run (.recv :: calls) t) := by
  simp only [run]
  generalize m.recv s = x at hr
  generalize m.recv t = y at hr
  cases hr with
  | error err => exact .error err
  | ok r hst => exact (ih hst).cons r

theorem run_same (h : m.Transparent Same) (calls : List PollCall) :
    ∀ {s t : σ}, Same s t → Agree Same (m.run calls s) (m.run calls t) := by
  induction calls with
  | nil => exact fun hst => .ok [] hst
  | cons call calls ih =>
    intro s t hst
    cases call with
    | recv => exact run_recv ih (h.recv hst)
    | poll =>
      have hp := h.poll hst
      simp only [run]
      generalize m.poll s = x at hp
      generalize m.poll t = y at hp
      cases hp with
      | error err => exact .error err
      | ok b hst' => exact ih hst'

theorem run_fails (h : m.Transparent Same) {s : σ} {err : ε} (hp : m.poll s = .error err)
    (call : PollCall) (calls : List PollCall) : m.run (call :: calls) s = .error err := by
  cases call with
  | recv => simp only [run, h.fails hp]
  | poll => simp only [run, hp]

theorem run_unnoticed (h : m.Transparent Same) {s t : σ} {b : Bool} (hp : m.poll s = .ok (b, t))
    (call : PollCall) (calls : List PollCall) :
    Agree Same (m.run (call :: calls) t) (m.run (call :: calls) s) := by
  cases call with
  | recv => exact run_recv (fun hst => h.run_same calls hst) (h.unnoticed hp)
  | poll =>
    simp only [run, hp, h.settles hp]
    exact h.agree_refl _

theorem run_polled (h : m.Transparent Same) (last : PollCall) (calls : List PollCall) :
    ∀ s : σ, Agree Same (m.run (calls ++ [last]) s) (m.run (recvs calls ++ [last]) s) := by
  induction calls with
  | nil => exact fun s => h.agree_refl _
  | cons call calls ih =>
    intro s
    cases call with
    | recv =>
      simp only [recvs, List.filter_cons, decide_true, if_true, List.cons_append, run]
      cases m.recv s with
      | error err => exact .error err
      | ok r => exact (ih r.2).cons r.1
    | poll =>
      -- what is left is not empty: it has the last call at least
      obtain ⟨first, rest, hrest⟩ : ∃ first rest, recvs calls ++ [last] = first :: rest := by
        cases hc : recvs calls with
        | nil => exact ⟨last, [], rfl⟩
        | cons first rest => exact ⟨first, rest ++ [last], rfl⟩
      have hskip : recvs (.poll :: calls) = recvs calls := by simp [recvs]
      rw [hskip]
      simp only [List.cons_append, run]
      cases hp : m.poll s with
      | error err =>
        rw [hrest, h.run_fails hp]
        exact .error err
      | ok r =>
        refine (ih r.2).trans h.equiv.trans ?_
        rw [hrest]
        exact h.run_unnoticed hp first rest

end Transparent

end Pollable

end Libxs
