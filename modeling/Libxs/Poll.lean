import Libxs.Foundation.Run
import Libxs.Msg

/-! # `poll_t`: descriptors and the poll set

`src/poll.cpp`. -/

namespace Libxs

structure PollEvents where
  pollin : Bool
  pollout : Bool
deriving DecidableEq, Repr

/-- `pollfd`. -/
structure PollEntry where
  fd : Option Nat
  events : PollEvents
deriving DecidableEq, Repr

structure PollSet where
  fdTable : Nat → Option Nat
  pollset : List PollEntry
  retired : Bool
  registered : Nat → Option PollEvents

inductive PollOp where
  | addFd (fd : Nat)
  | rmFd (fd : Nat)
  | setPollin (fd : Nat)
  | resetPollin (fd : Nat)
  | setPollout (fd : Nat)
  | resetPollout (fd : Nat)
  | cleanUp

namespace PollSet

variable {p p' : PollSet} {fd : Nat}

def init : PollSet := ⟨fun _ => none, [], false, fun _ => none⟩

def addFd (p : PollSet) (fd : Nat) : Except Fault PollSet :=
  if p.fdTable fd ≠ none then .error .assertFailed
  else
    .ok { p with pollset := p.pollset ++ [⟨some fd, ⟨false, false⟩⟩],
                 fdTable := Function.update p.fdTable fd (some p.pollset.length),
                 registered := Function.update p.registered fd (some ⟨false, false⟩) }

def rmFd (p : PollSet) (fd : Nat) : Except Fault PollSet :=
  match p.fdTable fd with
  | none => .error .assertFailed
  | some i =>
    match p.pollset[i]? with
    | none => .error .badIndex
    | some e =>
      .ok { p with pollset := p.pollset.set i { e with fd := none },
                   fdTable := Function.update p.fdTable fd none,
                   retired := true,
                   registered := Function.update p.registered fd none }

def setEvents (p : PollSet) (fd : Nat) (f : PollEvents → PollEvents) : Except Fault PollSet :=
  match p.fdTable fd with
  | none => .error .badIndex
  | some i =>
    match p.pollset[i]? with
    | none => .error .badIndex
    | some e =>
      .ok { p with pollset := p.pollset.set i { e with events := f e.events },
                   registered := Function.update p.registered fd ((p.registered fd).map f) }

def cleanLoop : List PollEntry → List PollEntry → (Nat → Option Nat) →
    List PollEntry × (Nat → Option Nat)
  | kept, [], fdTable => (kept, fdTable)
  | kept, e :: rest, fdTable =>
    match e.fd with
    | none => cleanLoop kept rest fdTable
    | some fd => cleanLoop (kept ++ [e]) rest (Function.update fdTable fd (some kept.length))

def cleanUp (p : PollSet) : PollSet :=
  if p.retired then
    let cleaned := cleanLoop [] p.pollset p.fdTable
    { p with pollset := cleaned.1, fdTable := cleaned.2, retired := false }
  else p

def step (p : PollSet) : PollOp → Except Fault PollSet
  | .addFd fd => p.addFd fd
  | .rmFd fd => p.rmFd fd
  | .setPollin fd => p.setEvents fd fun e => { e with pollin := true }
  | .resetPollin fd => p.setEvents fd fun e => { e with pollin := false }
  | .setPollout fd => p.setEvents fd fun e => { e with pollout := true }
  | .resetPollout fd => p.setEvents fd fun e => { e with pollout := false }
  | .cleanUp => .ok p.cleanUp

def Proper (p : PollSet) : PollOp → Prop
  | .addFd fd => p.registered fd = none
  | .rmFd fd | .setPollin fd | .resetPollin fd | .setPollout fd | .resetPollout fd =>
    p.registered fd ≠ none
  | .cleanUp => True

structure Inv (p : PollSet) : Prop where
  entry : ∀ fd i m, p.pollset[i]? = some ⟨some fd, m⟩ ↔
    p.fdTable fd = some i ∧ p.registered fd = some m
  domain : ∀ fd, p.fdTable fd = none ↔ p.registered fd = none
  live : p.retired = false → ∀ e ∈ p.pollset, e.fd ≠ none

theorem Inv.exists_entry (h : p.Inv) (hfd : p.registered fd ≠ none) :
    ∃ i m, p.pollset[i]? = some ⟨some fd, m⟩ ∧ p.fdTable fd = some i ∧ p.registered fd = some m := by
  obtain ⟨m, hm⟩ := Option.ne_none_iff_exists'.1 hfd
  obtain ⟨i, hi⟩ := Option.ne_none_iff_exists'.1 (mt (h.domain fd).1 hfd)
  exact ⟨i, m, (h.entry fd i m).2 ⟨hi, hm⟩, hi, hm⟩

theorem Inv.of_entry (h : p.Inv) {i : Nat} {e : PollEntry} (hi : p.pollset[i]? = some e)
    (hfd : e.fd = some fd) : p.fdTable fd = some i ∧ p.registered fd = some e.events := by
  obtain ⟨_, m⟩ := e
  obtain rfl : _ = some fd := hfd
  exact (h.entry fd i m).1 hi

theorem Inv.of_mem (h : p.Inv) {e : PollEntry} (he : e ∈ p.pollset) (hfd : e.fd = some fd) :
    p.registered fd = some e.events := by
  obtain ⟨i, hi⟩ := List.mem_iff_getElem?.1 he
  exact (h.of_entry hi hfd).2

theorem Inv.addFd (h : p.Inv) (hfd : p.registered fd = none) : ∃ p', p.addFd fd = .ok p' ∧ p'.Inv := by
  have hnone := (h.domain fd).2 hfd
  obtain ⟨hentry, hdomain, hlive⟩ := h
  refine ⟨_, if_neg (by simpa using hnone), fun fd' i m => ?_, fun fd' => ?_, fun hr e he => ?_⟩
  · have := hentry fd' i m
    by_cases hfd' : fd' = fd <;> by_cases hi : i < p.pollset.length <;>
      grind
  · grind
  · grind

theorem Inv.rmFd (h : p.Inv) (hfd : p.registered fd ≠ none) : ∃ p', p.rmFd fd = .ok p' ∧ p'.Inv := by
  obtain ⟨i, m, he, hi, hm⟩ := h.exists_entry hfd
  obtain ⟨hentry, hdomain, hlive⟩ := h
  refine ⟨_, by simp only [PollSet.rmFd, hi, he]; rfl, fun fd' j m' => ?_, fun fd' => ?_, fun hr => ?_⟩
  · have := hentry fd' j m'
    grind
  · grind
  · cases hr

theorem Inv.setEvents (h : p.Inv) (hfd : p.registered fd ≠ none) (f : PollEvents → PollEvents) :
    ∃ p', p.setEvents fd f = .ok p' ∧ p'.Inv := by
  obtain ⟨i, m, he, hi, hm⟩ := h.exists_entry hfd
  obtain ⟨hentry, hdomain, hlive⟩ := h
  refine ⟨_, by simp only [PollSet.setEvents, hi, he]; rfl, fun fd' j m' => ?_, fun fd' => ?_,
    fun hr e he' => ?_⟩
  · have := hentry fd' j m'
    grind
  · grind
  · have := hlive hr
    grind [List.mem_or_eq_of_mem_set]

theorem cleanLoop_spec (kept rest : List PollEntry) (fdTable : Nat → Option Nat)
    (hnodup : (rest.filterMap (·.fd)).Nodup) :
    (cleanLoop kept rest fdTable).1 = kept ++ rest.filter (·.fd.isSome) ∧
      (∀ fd ∉ rest.filterMap (·.fd), (cleanLoop kept rest fdTable).2 fd = fdTable fd) ∧
      ∀ fd m j, (rest.filter (·.fd.isSome))[j]? = some ⟨some fd, m⟩ →
        (cleanLoop kept rest fdTable).2 fd = some (kept.length + j) := by
  induction rest generalizing kept fdTable with
  | nil => simp [cleanLoop]
  | cons e rest ih =>
    obtain ⟨fd' | fd', m'⟩ := e
    · obtain ⟨h1, h2, h3⟩ := ih kept fdTable (by simpa using hnodup)
      exact ⟨by simpa [cleanLoop] using h1, by simpa [cleanLoop] using h2,
        by simpa [cleanLoop] using h3⟩
    · obtain ⟨hnot, hrest⟩ := List.nodup_cons.1 hnodup
      obtain ⟨h1, h2, h3⟩ :=
        ih (kept ++ [⟨some fd', m'⟩]) (Function.update fdTable fd' (some kept.length)) hrest
      refine ⟨by simpa [cleanLoop] using h1, fun fd hfd => ?_, fun fd m j hj => ?_⟩
      · have hne := List.ne_and_not_mem_of_not_mem_cons hfd
        rw [← Function.update_of_ne hne.1 (some kept.length) fdTable]
        exact h2 fd hne.2
      · cases j with
        | zero =>
          obtain ⟨⟩ := hj
          exact (h2 fd' hnot).trans (Function.update_self ..)
        | succ j =>
          have := h3 fd m j hj
          rwa [List.length_append, List.length_singleton, Nat.add_assoc, Nat.add_comm 1] at this

theorem Inv.nodup (h : p.Inv) : (p.pollset.filterMap (·.fd)).Nodup := by
  rw [List.Nodup, List.pairwise_filterMap, List.pairwise_iff_getElem]
  rintro i j hi hj hlt fd hfd _ hfd' rfl
  have hat := h.of_entry (List.getElem?_eq_getElem hi) hfd
  have hat' := h.of_entry (List.getElem?_eq_getElem hj) hfd'
  exact Nat.ne_of_lt hlt (Option.some.inj (hat.1.symm.trans hat'.1))

theorem Inv.cleanUp (h : p.Inv) : p.cleanUp.Inv := by
  unfold PollSet.cleanUp
  split
  case isFalse => exact h
  obtain ⟨h1, h2, h3⟩ := cleanLoop_spec [] p.pollset p.fdTable h.nodup
  -- An unregistered descriptor is not met; a registered one is, with its own events.
  have hout : ∀ fd, p.registered fd = none → (cleanLoop [] p.pollset p.fdTable).2 fd = none := by
    intro fd hfd
    rw [h2 fd fun hmem => ?_]
    · exact (h.domain fd).2 hfd
    · obtain ⟨e, he, hefd⟩ := List.mem_filterMap.1 hmem
      cases hfd.symm.trans (h.of_mem he hefd)
  have hin : ∀ fd m, p.registered fd = some m → ∃ j,
      (p.pollset.filter (·.fd.isSome))[j]? = some ⟨some fd, m⟩ ∧
        (cleanLoop [] p.pollset p.fdTable).2 fd = some j := by
    intro fd m hm
    obtain ⟨i, _, he, -, hm'⟩ := h.exists_entry (hm ▸ Option.some_ne_none m)
    obtain rfl := Option.some.inj (hm.symm.trans hm')
    have hmem : ⟨some fd, m⟩ ∈ p.pollset.filter (·.fd.isSome) :=
      List.mem_filter.2 ⟨List.mem_iff_getElem?.2 ⟨i, he⟩, rfl⟩
    obtain ⟨j, hj⟩ := List.mem_iff_getElem?.1 hmem
    exact ⟨j, hj, by simpa using h3 fd m j hj⟩
  refine ⟨fun fd i m => ⟨fun hi => ?_, fun ⟨hi, hm⟩ => ?_⟩, fun fd => ⟨fun hfd => ?_, hout fd⟩,
    fun _ e he => ?_⟩
  · have hi' : (p.pollset.filter (·.fd.isSome))[i]? = some ⟨some fd, m⟩ := by simpa [h1] using hi
    have hmem := List.mem_filter.1 (List.mem_iff_getElem?.2 ⟨i, hi'⟩)
    exact ⟨by simpa using h3 fd m i hi', h.of_mem hmem.1 rfl⟩
  · obtain ⟨j, hj, htable⟩ := hin fd m hm
    obtain rfl := Option.some.inj (hi.symm.trans htable)
    simpa [h1] using hj
  · by_contra hne
    obtain ⟨m, hm⟩ := Option.ne_none_iff_exists'.1 hne
    obtain ⟨j, -, htable⟩ := hin fd m hm
    cases hfd.symm.trans htable
  · simp only [h1, List.nil_append] at he
    exact Option.isSome_iff_ne_none.1 (List.mem_filter.1 he).2

theorem Inv.step (h : p.Inv) (op : PollOp) (hop : p.Proper op) : ∃ p', p.step op = .ok p' ∧ p'.Inv := by
  cases op with
  | addFd fd => exact h.addFd hop
  | rmFd fd => exact h.rmFd hop
  | setPollin fd => exact h.setEvents hop fun e => { e with pollin := true }
  | resetPollin fd => exact h.setEvents hop fun e => { e with pollin := false }
  | setPollout fd => exact h.setEvents hop fun e => { e with pollout := true }
  | resetPollout fd => exact h.setEvents hop fun e => { e with pollout := false }
  | cleanUp => exact ⟨_, rfl, h.cleanUp⟩

end PollSet

end Libxs
