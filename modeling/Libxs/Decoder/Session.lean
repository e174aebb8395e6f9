import Libxs.RoundTrip

/-! # A decoder among others -/

namespace Libxs

def Session.after (before : List Msg) (s : Session) : Session := ⟨s.answers, before ++ s.accepted⟩

@[simp] theorem Session.after_answers (before : List Msg) (s : Session) :
    (s.after before).answers = s.answers := rfl

@[simp] theorem Session.after_accepted (before : List Msg) (s : Session) :
    (s.after before).accepted = before ++ s.accepted := rfl

namespace Decoder

variable {malloc : Nat → Bool} {max : Nat}
variable {d : Decoder} {got : List Msg} {bytes consumed : List UInt8}

theorem messageReady_after (before : List Msg) (d : Decoder) (s : Session) :
    d.messageReady (s.after before) =
      ((d.messageReady s).1, (d.messageReady s).2.1, (d.messageReady s).2.2.after before) := by
  obtain ⟨answers, accepted⟩ := s
  unfold messageReady
  cases answers with
  | nil => simp [Session.write, Session.after]
  | cons a answers => cases a <;> simp [Session.write, Session.after]

theorem act_after (before : List Msg) (d : Decoder) (s : Session) :
    d.act malloc (s.after before) =
      (d.act malloc s).map fun x => (x.1, x.2.1, x.2.2.after before) := by
  unfold act
  cases d.next with
  | none => rfl
  | some step =>
    cases step with
    | oneByteSizeReady => cases d.oneByteSizeReady malloc <;> simp [Except.map]
    | eightByteSizeReady => cases d.eightByteSizeReady malloc <;> simp [Except.map]
    | flagsReady => rfl
    | messageReady =>
      simp only [messageReady_after]
      rfl

theorem settle_after (before : List Msg) : ∀ (fuel : Nat) (d : Decoder) (s : Session),
    d.settle malloc fuel (s.after before) =
      (d.settle malloc fuel s).map fun x => (x.1, x.2.1, x.2.2.after before) := by
  intro fuel
  induction fuel with
  | zero => exact fun _ _ => rfl
  | succ fuel ih =>
    intro d s
    simp only [settle, act_after]
    split
    · rfl
    · rcases d.act malloc s with err | ⟨_ | _, d', s'⟩
      · rfl
      · rfl
      · exact ih d' s'

theorem copyLoop_after (before : List Msg) : ∀ (fuel : Nat) (d : Decoder) (s : Session)
    (data : List UInt8) (pos : Nat),
    d.copyLoop malloc fuel (s.after before) data pos =
      (d.copyLoop malloc fuel s data pos).map fun x => (x.1, x.2.1, x.2.2.after before) := by
  intro fuel
  induction fuel with
  | zero => exact fun _ _ _ _ => rfl
  | succ fuel ih =>
    intro d s data pos
    simp only [copyLoop, settle_after]
    rcases d.settle malloc settleFuel s with err | ⟨_ | _, d', s'⟩
    · rfl
    · rfl
    · simp only [Except.map]
      split
      · rfl
      · exact ih _ s' _ _

theorem processBuffer_after (before : List Msg) (d : Decoder) (s : Session) (data : List UInt8) :
    d.processBuffer malloc (s.after before) false data =
      (d.processBuffer malloc s false data).map fun x => (x.1, x.2.1, x.2.2.after before) := by
  unfold processBuffer
  split
  · rfl
  · exact copyLoop_after before _ d s data 0

structure Sound (malloc : Nat → Bool) (max : Nat) (bytes : List UInt8) : Prop where
  affordable : (frames max).AtStarts (Affordable malloc max) bytes
  wellFormed : ¬ (frames max).Malformed bytes

theorem Sound.not_gaveUp (h : Sound malloc max bytes)
    {s : Session} : ¬ GaveUp malloc max bytes d s := by
  rintro ⟨-, q, hreads, hbad⟩
  have hframes := hreads.of_receivable
  rw [receivable_next (h.affordable _ q hframes)] at hbad
  have hbad' : (frames max).next q = .malformed := hbad
  have htail := (hframes.items_of_stop (fun m rest hm => absurd (hbad'.symm.trans hm) (by simp))).2
  exact h.wellFormed (by rw [Framer.Malformed, htail, hbad'])

theorem sound_of_frames {ms : List Msg}
    (hms : ∀ m ∈ ms, m.size + 1 < 2 ^ 64 ∧ m.size ≤ max ∧ Msg.Allocates malloc m.size)
    (h : bytes <+: ms.flatMap Msg.frame) : Sound malloc max bytes := by
  obtain ⟨more, hmore⟩ := h
  constructor
  · have hall := atStarts_affordable_flatMap ms hms
    rw [← hmore] at hall
    exact atStarts_affordable_of_append hall
  · intro hbad
    have hwhole := hbad.append more
    have htail := ((items_flatMap_frame ms fun m hm => ⟨(hms m hm).1, (hms m hm).2.1⟩).items_of_stop
      fun m rest h => absurd h (by simp [frames, nextFrame, lengthField])).2
    rw [hmore, Framer.Malformed, htail] at hwhole
    exact absurd hwhole (by simp [frames, nextFrame, lengthField])

structure Follows (malloc : Nat → Bool) (max : Nat) (consumed : List UInt8) (d : Decoder)
    (got : List Msg) : Prop where
  tracks : Tracks malloc max consumed d ⟨[], got⟩
  waits : d.toRead ≠ 0 ∨ d.Stalled

theorem follows_init (bufsize : Nat) : Follows malloc max [] (init bufsize max) [] :=
  ⟨⟨[], .nil [], holds_init bufsize⟩, Or.inl Nat.one_ne_zero⟩

theorem Follows.started (h : Follows malloc max consumed d got) (rest : List UInt8) :
    got <+: (frames max).items (consumed ++ rest) := by
  obtain ⟨part, hreads, -⟩ := h.tracks
  rw [(hreads.of_receivable.append rest).items_eq.1]
  exact List.prefix_append _ _

theorem Follows.items (h : Follows malloc max consumed d got) (hst : ¬ d.Stalled) :
    (frames max).items consumed = got := by
  obtain ⟨part, hreads, hholds⟩ := h.tracks
  have hinc : (frames max).next part = .incomplete :=
    (of_receivable_incomplete (hholds.incomplete (h.waits.resolve_right hst))).2
  exact (hreads.of_receivable.items_of_stop
    (fun m rest hm => absurd (hinc.symm.trans hm) (by simp))).1

structure Processed (malloc : Nat → Bool) (max : Nat) (consumed data : List UInt8) (got : List Msg)
    (answers : List Answer) (k : Nat) (d' : Decoder) (s' : Session) : Prop where
  le : k ≤ data.length
  follows : Follows malloc max (consumed ++ data.take k) d' (got ++ s'.accepted)
  whole : k = data.length ∨ d'.Stalled
  left : s'.answers <:+ answers
  accepting : answers = [] → k = data.length ∧ ¬ d'.Stalled

theorem Follows.process {data : List UInt8}
    {answers : List Answer} (h : Follows malloc max consumed d got) (hno : .failed ∉ answers)
    (hsound : Sound malloc max (consumed ++ data)) :
    ∃ k d' s', d.processBuffer malloc ⟨answers, []⟩ false data = .ok (some k, d', s') ∧
      Processed malloc max consumed data got answers k d' s' := by
  have htracks : Tracks malloc max consumed d ((⟨answers, []⟩ : Session).after got) := by
    obtain ⟨part, hreads, hholds⟩ := h.tracks
    exact ⟨part, by simpa using hreads, hholds⟩
  have hproc : Processes malloc max consumed data d answers 0
      (d.processBuffer malloc ((⟨answers, []⟩ : Session).after got) false data) :=
    htracks.processBuffer hno (fun hd => absurd hd (by simp))
  rw [processBuffer_after] at hproc
  have htracks' : ∀ {bytes : List UInt8} {d' : Decoder} {s' : Session},
      Tracks malloc max bytes d' (s'.after got) →
        Tracks malloc max bytes d' ⟨[], got ++ s'.accepted⟩ :=
    fun ⟨part, hreads, hholds⟩ => ⟨part, hreads, hholds⟩
  generalize hres : d.processBuffer malloc ⟨answers, []⟩ false data = r at hproc
  rcases r with err | ⟨n, d', s'⟩
  · simp only [Except.map] at hproc
    cases hproc with
    | faults hstarves => exact absurd hstarves (not_starves hsound.affordable)
  · simp only [Except.map] at hproc
    generalize hs : s'.after got = s₁ at hproc
    cases hproc with
    | takes htr hr hsub =>
      subst hs
      rw [Nat.zero_add]
      refine ⟨data.length, d', s', rfl, Nat.le_refl _, ⟨?_, Or.inl hr⟩, Or.inl rfl, hsub,
        fun _ => ⟨rfl, fun hst => hr hst.2⟩⟩
      rw [List.take_length]
      exact htracks' htr
    | @stalls k _ _ hk htr hst hsub hlt hmoved =>
      subst hs
      rw [Nat.zero_add]
      refine ⟨k, d', s', rfl, hk, ⟨htracks' htr, Or.inr hst⟩, Or.inr hst, hsub, fun hnil => ?_⟩
      rw [Session.after_answers, hnil] at hlt
      cases hlt
    | givesUp hgave _ => exact absurd hgave hsound.not_gaveUp

end Decoder

end Libxs
