import Libxs.Pipe.Calls
import Libxs.Pipe.Endpoint
import Libxs.YPipe.Channel

/-! # Whole messages in a pipe -/

namespace Libxs

def Framed : Bool → List Msg → Prop
  | mid, [] => mid = false
  | mid, m :: ms => (m.isDelimiter = true → mid = false ∧ m.more = false) ∧ Framed m.more ms

instance framedDecidable : ∀ (mid : Bool) (ms : List Msg), Decidable (Framed mid ms)
  | mid, [] => inferInstanceAs (Decidable (mid = false))
  | _, m :: ms =>
    have := framedDecidable m.more ms
    inferInstanceAs (Decidable (_ ∧ _))

theorem Framed.append {ms : List Msg} (hms : Framed false ms) : ∀ {mid : Bool} {l : List Msg},
    Framed mid l → Framed mid (l ++ ms) := by
  intro mid l
  induction l generalizing mid with
  | nil =>
    intro h
    have h : mid = false := h
    subst h
    exact hms
  | cons m l ih => exact fun h => ⟨h.1, ih h.2⟩

theorem framed_message {v : Msg} (hv : v.more = false) : ∀ {mid : Bool} {l : List Msg},
    (∀ m ∈ l, m.more = true ∧ m.isDelimiter = false) →
    (v.isDelimiter = true → mid = false ∧ l = []) → Framed mid (l ++ [v]) := by
  intro mid l
  induction l generalizing mid with
  | nil => exact fun _ hd => ⟨fun h => ⟨(hd h).1, hv⟩, hv⟩
  | cons m l ih =>
    intro hl hd
    obtain ⟨hmore, hplain⟩ := hl m (by simp)
    refine ⟨fun h => absurd h (by simp [hplain]), ?_⟩
    rw [hmore]
    exact ih (fun m' hm' => hl m' (by simp [hm'])) fun h => absurd (hd h).2 (by simp)

namespace YPipe

structure Inbound (mid : Bool) (q : UPipe) : Prop where
  good : q.Good
  plain : ∀ m ∈ q.incomplete, m.isDelimiter = false
  flushed : Framed mid q.flushed
  ready : Framed mid q.ready

instance {α : Type} (q : YPipe α) : Decidable q.WF :=
  decidable_of_iff (q.front ≤ q.w ∧ q.w ≤ q.f ∧ q.f ≤ q.back ∧
      (∀ r ∈ q.r, q.front ≤ r ∧ r ≤ q.w) ∧ (q.c = some q.w ∨ (q.c = none ∧ q.front = q.w)))
    ⟨fun h => ⟨h.1, h.2.1, h.2.2.1, h.2.2.2.1, h.2.2.2.2⟩,
      fun h => ⟨h.front_le_w, h.w_le_f, h.f_le_back, h.r_bounds, h.c_eq⟩⟩

instance (mid : Bool) (q : UPipe) : Decidable (q.Inbound mid) :=
  decidable_of_iff (q.WF ∧ (∀ m ∈ q.incomplete, m.more = true) ∧
      (∀ m ∈ q.incomplete, m.isDelimiter = false) ∧ Framed mid q.flushed ∧ Framed mid q.ready)
    ⟨fun h => ⟨⟨h.1, h.2.1⟩, h.2.2.1, h.2.2.2.1, h.2.2.2.2⟩,
      fun h => ⟨h.good.wf, h.good.more, h.plain, h.flushed, h.ready⟩⟩

variable {mid : Bool} {q : UPipe}

theorem inbound_init : Inbound false init :=
  ⟨good_init, by simp [incomplete, init], rfl, rfl⟩

/-! ## The writer -/

theorem Inbound.write (h : q.Inbound mid) {m : Msg}
    (hm : m.isDelimiter = true → m.more = false ∧ q.incomplete = []) :
    (q.write m m.more).Inbound mid := by
  have hgood := h.good.write (m := m) (b := m.more) id
  cases hmore : m.more with
  | true =>
    rw [hmore] at hgood
    obtain ⟨hready, hinc⟩ := h.good.wf.content_write_true m
    have hplain : m.isDelimiter = false := by grind
    refine ⟨hgood, fun m' hm' => ?_, by rw [h.good.wf.flushed_write]; exact h.flushed,
      by rw [hready]; exact h.ready⟩
    rw [hinc, List.mem_append, List.mem_singleton] at hm'
    grind [h.plain]
  | false =>
    rw [hmore] at hgood
    obtain ⟨hready, hinc⟩ := content_write_false q m
    refine ⟨hgood, by simp [hinc], by rw [h.good.wf.flushed_write]; exact h.flushed, ?_⟩
    rw [hready, List.append_assoc]
    exact (framed_message hmore (fun m' hm' => ⟨h.good.more m' hm', h.plain m' hm'⟩)
      fun hd => ⟨rfl, (hm hd).2⟩).append h.ready

theorem Inbound.flush (h : q.Inbound mid) : q.flush.2.Inbound mid := by
  obtain ⟨hflushed, hready, hinc⟩ := h.good.wf.content_flush
  exact ⟨h.good.flush, by rw [hinc]; exact h.plain, by rw [hflushed]; exact h.ready,
    by rw [hready]; exact h.ready⟩

theorem WF.content_rolledBack (h : q.WF) : q.rolledBack.flushed = q.flushed ∧
    q.rolledBack.ready = q.ready ∧ q.rolledBack.incomplete = [] := by
  have h2 := h.w_le_f
  refine ⟨?_, by simp [ready, rolledBack, List.take_take],
    by simp [incomplete, rolledBack]⟩
  simp only [flushed, rolledBack, List.take_take]
  rw [Nat.min_eq_left (by omega)]

theorem Inbound.rolledBack (h : q.Inbound mid) : q.rolledBack.Inbound mid := by
  obtain ⟨hflushed, hready, hinc⟩ := h.good.wf.content_rolledBack
  exact ⟨h.good.rolledBack, by simp [hinc], by rw [hflushed]; exact h.flushed,
    by rw [hready]; exact h.ready⟩

/-! ## The reader -/

theorem Inbound.prefetch (h : q.Inbound mid) {r : Nat} (h1 : q.front < r) (h2 : r ≤ q.w) :
    ({ q with r := some r } : UPipe).Inbound mid :=
  ⟨h.good.prefetch h1 h2, h.plain, h.flushed, h.ready⟩

theorem Inbound.sleep (h : q.Inbound mid) (hfw : q.front = q.w) {r : Option Nat}
    (hr : r = some q.front ∨ r = none) : ({ q with r := r, c := none } : UPipe).Inbound mid :=
  ⟨h.good.sleep hfw hr, h.plain, h.flushed, h.ready⟩

theorem Inbound.popped (h : q.Inbound mid) {v : Msg} {rest : List Msg} {r : Nat}
    (hq : q.queue = v :: rest) (h1 : q.front < r) (h2 : r ≤ q.w) :
    (q.popped rest r).Inbound v.more ∧ (v.isDelimiter = true → mid = false ∧ v.more = false) := by
  obtain ⟨hflushed, hready, hinc⟩ := h.good.wf.content_popped hq r (by omega)
  have hf := h.flushed
  have hr := h.ready
  rw [hflushed] at hf
  rw [hready] at hr
  exact ⟨⟨h.good.popped hq h1 h2, by rw [hinc]; exact h.plain, hf.2, hr.2⟩, hf.1⟩

theorem Inbound.nonempty (h : q.Inbound true) : q.front ≠ q.w := by
  intro he
  have hf := h.flushed
  simp [YPipe.flushed, he, Framed] at hf

end YPipe

inductive Endpoint.Reads (e e' : Endpoint) : Option Msg → Prop where
  | part {m : Msg} : e.canRead = true → e'.canRead = true → m.isDelimiter = false →
      e.inq.flushed = m :: e'.inq.flushed → e.inq.ready = m :: e'.inq.ready → Reads e e' (some m)
  | delimiter {m : Msg} : e.canRead = true → e'.canRead = false → m.isDelimiter = true →
      e.inq.flushed = m :: e'.inq.flushed → e.inq.ready = m :: e'.inq.ready → Reads e e' none
  | empty : e.canRead = true → e'.canRead = false → e.inq.flushed = [] →
      e'.inq.flushed = [] → e'.inq.ready = e.inq.ready → Reads e e' none
  | refused : e.canRead = false → e'.canRead = false → e'.inq = e.inq → Reads e e' none

theorem Endpoint.canRead_guard (e : Endpoint) : (!e.pipe.inActive || !e.pipe.reads) = !e.canRead := by
  simp [canRead, Bool.not_and]

theorem Endpoint.read_reads {e : Endpoint} (h : e.inq.WF) :
    ∃ msg e', e.read = .ok (msg, e') ∧ e.Reads e' msg ∧ e'.outq = e.outq ∧
      e'.inq.incomplete = e.inq.incomplete := by
  unfold read Pipe.read
  rw [canRead_guard]
  cases hcan : e.canRead with
  | false => exact ⟨_, _, rfl, .refused hcan (by simpa [canRead] using hcan) rfl, rfl, rfl⟩
  | true =>
    obtain ⟨hin, hreads⟩ : e.pipe.inActive = true ∧ e.pipe.reads = true := by
      simpa [canRead] using hcan
    simp only [Bool.not_true, Bool.false_eq_true, if_false]
    rcases YPipe.read_cases h with ⟨hlt, m, rest, r, hq, -, -, he⟩ | ⟨hfw, r, he, -⟩
    · obtain ⟨hflushed, hready, hinc⟩ := h.content_popped hq r hlt
      rw [he]
      cases hd : m.isDelimiter with
      | true =>
        obtain ⟨p', cmds, hp, hstop⟩ := Pipe.delimit_ok hreads
        simp only [hd, if_true, hp]
        exact ⟨_, _, rfl, .delimiter hcan (by simp [canRead, hstop]) hd hflushed hready, rfl,
          hinc⟩
      | false =>
        simp only [hd, Bool.false_eq_true, if_false]
        refine ⟨_, _, rfl, .part hcan ?_ hd hflushed hready, rfl, hinc⟩
        cases hm : m.more <;> simpa [canRead, hm, Pipe.reads] using hcan
    · have hnil : e.inq.flushed = [] := by simp [YPipe.flushed, hfw]
      rw [he]
      exact ⟨_, _, rfl, .empty hcan (by simp [canRead]) hnil hnil rfl, rfl, rfl⟩

theorem Endpoint.read_inbound {e e' : Endpoint} {mid : Bool} {msg : Option Msg}
    (h : e.inq.Inbound mid) (hr : e.read = .ok (msg, e')) :
    e'.inq.Inbound (msg.elim mid Msg.more) ∧
      (mid = true → e.canRead = true → msg.isSome = true) := by
  unfold Endpoint.read Pipe.read at hr
  cases hg : (!e.pipe.inActive || !e.pipe.reads) with
  | true => grind [canRead]
  | false =>
    simp only [hg, Bool.false_eq_true, if_false] at hr
    rcases YPipe.read_cases h.good.wf with ⟨-, v, rest, r, hq, h1, h2, he⟩ | ⟨hfw, r, he, hr'⟩
    · obtain ⟨hpop, hdel⟩ := h.popped hq h1 h2
      rw [he] at hr
      cases hd : v.isDelimiter with
      | true =>
        obtain ⟨hmid, hmore⟩ := hdel hd
        rw [hmore] at hpop
        simp only [hd, if_true] at hr
        grind
      | false => grind
    · rw [he] at hr
      cases hr
      refine ⟨h.sleep hfw hr', fun hm => ?_⟩
      subst hm
      exact absurd hfw h.nonempty

theorem Endpoint.checkRead_inbound {e e' : Endpoint} {mid b : Bool} (h : e.inq.Inbound mid)
    (hr : e.checkRead = .ok (b, e')) : e'.inq.Inbound mid := by
  unfold Endpoint.checkRead Pipe.checkRead at hr
  cases hg : (!e.pipe.inActive || !e.pipe.reads) with
  | true =>
    simp only [hg, if_true] at hr
    cases hr
    exact h
  | false =>
    simp only [hg, Bool.false_eq_true, if_false] at hr
    rcases YPipe.checkRead_cases h.good.wf with ⟨hlt, r, he, h1, h2⟩ | ⟨hfw, r, he, hr'⟩
    · obtain ⟨v, rest, hq⟩ := h.good.wf.queue_cons hlt
      have hprobe := YPipe.probe_prefetched (q := { e.inq with r := some r }) rfl h1 hq
        (·.isDelimiter)
      have hread := YPipe.read_prefetched (q := { e.inq with r := some r }) rfl h1 hq
      simp only [he, hprobe] at hr
      cases hd : v.isDelimiter with
      | true =>
        obtain ⟨hpop, hdel⟩ := (h.prefetch h1 h2).popped hq h1 h2
        obtain ⟨hmid, hmore⟩ := hdel hd
        simp only [hd, hread] at hr
        grind
      | false =>
        simp only [hd] at hr
        cases hr
        exact h.prefetch h1 h2
    · simp only [he] at hr
      cases hr
      exact h.sleep hfw hr'

theorem Endpoint.checkRead_suffix {e : Endpoint} {mid : Bool} (h : e.inq.Inbound mid) :
    ∃ b e', e.checkRead = .ok (b, e') ∧ e'.inq.Inbound mid ∧ e'.inq.ready <:+ e.inq.ready := by
  obtain ⟨b, p', inq', cmds, hc, -⟩ := Pipe.checkRead_calls (p := e.pipe) none h.good
  obtain ⟨e', he⟩ : ∃ e', e.checkRead = .ok (b, e') := by simp [Endpoint.checkRead, hc]
  refine ⟨b, e', he, checkRead_inbound h he, ?_⟩
  unfold Endpoint.checkRead Pipe.checkRead at he
  rw [canRead_guard] at he
  cases hcan : e.canRead with
  | false => grind
  | true =>
    simp only [hcan, Bool.not_true, Bool.false_eq_true, if_false] at he
    rcases YPipe.checkRead_cases h.good.wf with ⟨hlt, r, hq, h1, h2⟩ | ⟨hfw, r, hq, hr⟩
    · obtain ⟨v, rest, hqueue⟩ := h.good.wf.queue_cons hlt
      have hprobe := YPipe.probe_prefetched (q := { e.inq with r := some r }) rfl h1 hqueue
        (·.isDelimiter)
      have hread := YPipe.read_prefetched (q := { e.inq with r := some r }) rfl h1 hqueue
      obtain ⟨-, hready, -⟩ := h.good.wf.content_popped hqueue r hlt
      simp only [hq, hprobe] at he
      cases hd : v.isDelimiter with
      | true =>
        simp only [hd, hread] at he
        cases hp : e.pipe.delimit with
        | error err => simp [hp] at he
        | ok p =>
          simp only [hp, Except.ok.injEq, Prod.mk.injEq] at he
          rw [← he.2, hready]
          exact List.suffix_cons _ _
      | false =>
        simp only [hd] at he
        cases he
        exact List.suffix_refl _
    · simp only [hq] at he
      cases he
      exact List.suffix_refl _

end Libxs
