import Libxs.Decoder

/-! # The decoder and the bytes it has consumed -/

namespace Libxs

theorem lengthField_lt {bytes body : List UInt8} {length : Nat}
    (h : lengthField bytes = some (length, body)) : length < 2 ^ 64 := by
  cases bytes with
  | nil => simp [lengthField] at h
  | cons b bytes =>
    simp only [lengthField] at h
    split at h
    · split at h
      · cases h
      · simp only [Option.some.injEq, Prod.mk.injEq] at h
        rw [← h.1]
        exact (getUint64 (bytes.take 8)).toNat_lt
    · simp only [Option.some.injEq, Prod.mk.injEq] at h
      rw [← h.1]
      exact Nat.lt_trans b.toNat_lt (by decide)

/-! ## Frames there is memory for -/

def Affordable (malloc : Nat → Bool) (max : Nat) (bytes : List UInt8) : Prop :=
  match lengthField bytes with
  | none => True
  | some (length, _) => length = 0 ∨ max < length - 1 ∨ Msg.Allocates malloc (length - 1)

instance (malloc : Nat → Bool) (size : Nat) : Decidable (Msg.Allocates malloc size) :=
  inferInstanceAs (Decidable (_ ∨ _))

instance (malloc : Nat → Bool) (max : Nat) (bytes : List UInt8) :
    Decidable (Affordable malloc max bytes) :=
  match h : lengthField bytes with
  | none => .isTrue (by simp only [Affordable, h])
  | some (length, _) =>
    decidable_of_iff (length = 0 ∨ max < length - 1 ∨ Msg.Allocates malloc (length - 1))
      (by simp only [Affordable, h])

section

variable {malloc : Nat → Bool} {max : Nat}
variable {body bytes : List UInt8} {length : Nat}

theorem affordable_of_none (h : lengthField bytes = none) : Affordable malloc max bytes := by
  simp only [Affordable, h]

theorem affordable_iff
    (h : lengthField bytes = some (length, body)) : Affordable malloc max bytes ↔
      length = 0 ∨ max < length - 1 ∨ Msg.Allocates malloc (length - 1) := by
  simp only [Affordable, h]

theorem affordable_append (h : lengthField bytes = some (length, body)) (more : List UInt8) :
    Affordable malloc max (bytes ++ more) ↔ Affordable malloc max bytes := by
  rw [affordable_iff h, affordable_iff (lengthField_append h more)]

theorem not_affordable_append (h : ¬ Affordable malloc max bytes)
    (more : List UInt8) : ¬ Affordable malloc max (bytes ++ more) := by
  cases hfield : lengthField bytes with
  | none => exact absurd (affordable_of_none hfield) h
  | some x => rwa [affordable_append hfield]

def receivable (malloc : Nat → Bool) (max : Nat) : Framer UInt8 Msg where
  next bytes := if Affordable malloc max bytes then nextFrame max bytes else .malformed
  shorter := by
    intro bytes m rest h
    split at h
    · exact (frames max).shorter bytes m rest h
    · cases h
  item_append := by
    intro bytes m rest more h
    split at h
    next hmem =>
      obtain ⟨length, flags, payload, hfield, -⟩ := nextFrame_item h
      rw [if_pos ((affordable_append hfield more).2 hmem)]
      exact (frames max).item_append bytes m rest more h
    · cases h
  malformed_append := by
    intro bytes more h
    split at h
    next hmem =>
      obtain ⟨length, body, hfield, -⟩ := nextFrame_malformed_iff.1 h
      rw [if_pos ((affordable_append hfield more).2 hmem)]
      exact (frames max).malformed_append bytes more h
    · next hmem => rw [if_neg (not_affordable_append hmem more)]

theorem receivable_next (h : Affordable malloc max bytes) :
    (receivable malloc max).next bytes = nextFrame max bytes := if_pos h

theorem receivable_next_of_not (h : ¬ Affordable malloc max bytes) :
    (receivable malloc max).next bytes = .malformed := if_neg h

def Starves (malloc : Nat → Bool) (max : Nat) (bytes : List UInt8) : Prop :=
  ∃ ms q, (receivable malloc max).Reads bytes ms q ∧ ¬ Affordable malloc max q

theorem Starves.append (h : Starves malloc max bytes) (more : List UInt8) :
    Starves malloc max (bytes ++ more) := by
  obtain ⟨ms, q, hreads, hno⟩ := h
  exact ⟨ms, q ++ more, hreads.append more, not_affordable_append hno more⟩

/-! ## The part of a frame a decoder holds -/

structure Opens (malloc : Nat → Bool) (max : Nat) (header : List UInt8) (size : Nat) : Prop where
  field : lengthField header = some (size + 1, [])
  fits : size ≤ max
  memory : Msg.Allocates malloc size

theorem Opens.affordable {header : List UInt8} {size : Nat} (h : Opens malloc max header size)
    (more : List UInt8) : Affordable malloc max (header ++ more) :=
  (affordable_append h.field more).2
    ((affordable_iff h.field).2 (Or.inr (Or.inr (by simpa using h.memory))))

namespace Decoder

variable {d : Decoder} {answers : List Answer} {bytes consumed data header part : List UInt8}
variable {length : Nat} {s : Session}

inductive Phase (malloc : Nat → Bool) (max : Nat) (d : Decoder) : List UInt8 → Prop where
  | oneByte (hnext : d.next = some .oneByteSizeReady) (hlen : d.filled.length + d.toRead = 1) :
      Phase malloc max d d.filled
  | eightByte (hnext : d.next = some .eightByteSizeReady) (hlen : d.filled.length + d.toRead = 8) :
      Phase malloc max d (0xff :: d.filled)
  | flags {header : List UInt8} (hnext : d.next = some .flagsReady)
      (hlen : d.filled.length + d.toRead = 1) (hflags : d.flags = 0)
      (hopens : Opens malloc max header d.size) : Phase malloc max d (header ++ d.filled)
  | payload {header : List UInt8} {f : UInt8} (hnext : d.next = some .messageReady)
      (hlen : d.filled.length + d.toRead = d.size) (hflags : d.flags = f &&& 1)
      (hopens : Opens malloc max header d.size) : Phase malloc max d (header ++ f :: d.filled)

structure Holds (malloc : Nat → Bool) (max : Nat) (d : Decoder) (part : List UInt8) : Prop where
  limit : d.maxmsgsize = max
  phase : Phase malloc max d part

def Stalled (d : Decoder) : Prop := d.next = some .messageReady ∧ d.toRead = 0

instance (d : Decoder) : Decidable d.Stalled := inferInstanceAs (Decidable (_ ∧ _))

theorem Holds.next_ne_none (h : Holds malloc max d part) : d.next ≠ none := by
  cases h.phase with
  | oneByte hnext => simp [hnext]
  | eightByte hnext => simp [hnext]
  | flags hnext => simp [hnext]
  | payload hnext => simp [hnext]

theorem holds_init (bufsize : Nat) : Holds malloc max (init bufsize max) [] :=
  ⟨rfl, .oneByte rfl rfl⟩

theorem Holds.fill (h : Holds malloc max d part)
    (hb : bytes.length ≤ d.toRead) : Holds malloc max (d.fill bytes) (part ++ bytes) := by
  have hlen : (d.fill bytes).filled.length + (d.fill bytes).toRead =
      d.filled.length + d.toRead := by
    simp only [Decoder.fill, List.length_append]
    omega
  refine ⟨h.limit, ?_⟩
  cases h.phase with
  | oneByte hnext hl => exact .oneByte hnext (hlen.trans hl)
  | eightByte hnext hl => exact .eightByte hnext (hlen.trans hl)
  | flags hnext hl hflags hopens =>
    rw [List.append_assoc]
    exact .flags hnext (hlen.trans hl) hflags hopens
  | payload hnext hl hflags hopens =>
    rw [List.append_assoc, List.cons_append]
    exact .payload hnext (hlen.trans hl) hflags hopens

theorem Holds.incomplete (h : Holds malloc max d part)
    (hr : d.toRead ≠ 0) : (receivable malloc max).next part = .incomplete := by
  cases h.phase with
  | oneByte hnext hl =>
    have hnil : d.filled = [] := List.eq_nil_of_length_eq_zero (by omega)
    rw [hnil, receivable_next (affordable_of_none rfl)]
    rfl
  | eightByte hnext hl =>
    have hshort : d.filled.length < 8 := by omega
    have hnone : lengthField (0xff :: d.filled) = none := by
      simp only [lengthField, if_true, if_pos hshort]
    rw [receivable_next (affordable_of_none hnone), nextFrame, hnone]
  | flags hnext hl hflags hopens =>
    have hnil : d.filled = [] := List.eq_nil_of_length_eq_zero (by omega)
    have hok : ¬ (d.size + 1 = 0 ∨ max < d.size + 1 - 1) := by
      have := hopens.fits
      omega
    rw [receivable_next (hopens.affordable _), hnil, List.append_nil]
    simp only [nextFrame, hopens.field, if_neg hok]
  | @payload header f hnext hl hflags hopens =>
    have hok : ¬ (d.size + 1 = 0 ∨ max < d.size + 1 - 1) := by
      have := hopens.fits
      omega
    have hshort : d.filled.length < d.size + 1 - 1 := by omega
    have hfield := lengthField_append hopens.field (f :: d.filled)
    rw [List.nil_append] at hfield
    rw [receivable_next (hopens.affordable _)]
    simp only [nextFrame, hfield, if_neg hok, if_pos hshort]

theorem Holds.whole (h : Holds malloc max d part)
    (hst : d.Stalled) : (receivable malloc max).next part = .item d.message [] := by
  obtain ⟨hnext', hr⟩ := hst
  cases h.phase with
  | oneByte hnext => exact absurd (hnext.symm.trans hnext') (by simp)
  | eightByte hnext => exact absurd (hnext.symm.trans hnext') (by simp)
  | flags hnext => exact absurd (hnext.symm.trans hnext') (by simp)
  | @payload header f hnext hl hflags hopens =>
    have hlen : d.filled.length = d.size := by omega
    have hfield := lengthField_append hopens.field (f :: d.filled)
    rw [List.nil_append] at hfield
    rw [receivable_next (hopens.affordable _),
      nextFrame_of_lengthField hfield (by omega) hopens.fits (Nat.le_of_eq hlen.symm),
      Nat.add_sub_cancel, List.take_of_length_le (Nat.le_of_eq hlen),
      List.drop_of_length_le (Nat.le_of_eq hlen), message, hflags]

/-! ## One action -/

def rank (d : Decoder) : Nat :=
  if d.toRead ≠ 0 then 0 else if d.next = some .flagsReady then 2 else 1

theorem allocate_spec {size : Nat} (hmax : d.maxmsgsize = max)
    (hfield : lengthField header = some (size + 1, [])) (hfits : size ≤ max) :
    (∃ d', d.allocate malloc size = .ok (true, d') ∧ Holds malloc max d' header ∧ d'.toRead ≠ 0) ∨
      (¬ Affordable malloc max header ∧
        ((∃ d', d.allocate malloc size = .ok (false, d') ∧ d'.next = none) ∨
          ∃ e, d.allocate malloc size = .error e)) := by
  by_cases hmem : Msg.Allocates malloc size
  · left
    have heq : d.allocate malloc size =
        .ok (true, { d with size := size, flags := 0 }.nextStep 1 .flagsReady) := by
      simp only [allocate, hmem.initSize]
    refine ⟨_, heq, ⟨hmax, ?_⟩, Nat.one_ne_zero⟩
    have hphase : Phase malloc max ({ d with size := size, flags := 0 }.nextStep 1 .flagsReady)
        (header ++ []) := .flags rfl rfl rfl ⟨hfield, hfits, hmem⟩
    rwa [List.append_nil] at hphase
  · right
    have hno : ¬ Affordable malloc max header := by
      rw [affordable_iff hfield, Nat.add_sub_cancel]
      rintro (h0 | hbig | hyes)
      · exact absurd h0 (by omega)
      · omega
      · exact hmem hyes
    refine ⟨hno, ?_⟩
    rcases Msg.initSize_of_not_allocates (Nat.lt_of_succ_lt (lengthField_lt hfield)) hmem with
      henomem | hwraps
    · have heq : d.allocate malloc size =
          .ok (false, { d with size := 0, flags := 0 }.decodingError) := by
        simp only [allocate, henomem]
      exact Or.inl ⟨_, heq, rfl⟩
    · have heq : d.allocate malloc size = .error .blockTooSmall := by
        simp only [allocate, hwraps]
      exact Or.inr ⟨_, heq⟩

theorem rank_lt_of_toRead {d' : Decoder} (hr : d.toRead = 0) (hr' : d'.toRead ≠ 0) :
    d'.rank < d.rank := by
  simp only [rank, hr, hr', ne_eq, not_false_eq_true, not_true_eq_false, if_true, if_false]
  split <;> omega

inductive Acts (malloc : Nat → Bool) (max : Nat) (d : Decoder) (s : Session) (part : List UInt8) :
    Except Fault (Bool × Decoder × Session) → Prop where
  | faults {e : Fault} (h : ¬ Affordable malloc max part) : Acts malloc max d s part (.error e)
  | givesUp {d' : Decoder} (hnext : d'.next = none)
      (h : (receivable malloc max).next part = .malformed) :
      Acts malloc max d s part (.ok (false, d', s))
  | goesOn {d' : Decoder} (h : Holds malloc max d' part) (hrank : d'.rank < d.rank) :
      Acts malloc max d s part (.ok (true, d', s))
  | handsOver (hnext : d.next = some .messageReady)
      (h : (receivable malloc max).next part = .item d.message []) :
      Acts malloc max d s part (.ok (d.messageReady s))

theorem acts_of_allocate (hmax : d.maxmsgsize = max) (hr : d.toRead = 0)
    (hfield : lengthField header = some (length, [])) (h0 : length ≠ 0) (hfits : length - 1 ≤ max) :
    Acts malloc max d s header
      (match d.allocate malloc (length - 1) with
        | .error e => .error e
        | .ok (b, d) => .ok (b, d, s)) := by
  obtain ⟨size, rfl⟩ := Nat.exists_eq_succ_of_ne_zero h0
  rcases allocate_spec hmax hfield hfits with ⟨d', heq, hh, hr'⟩ | ⟨hno, ⟨d', heq, hn⟩ | ⟨e, heq⟩⟩
  · rw [Nat.succ_sub_one, heq]
    exact .goesOn hh (rank_lt_of_toRead hr hr')
  · rw [Nat.succ_sub_one, heq]
    exact .givesUp hn (receivable_next_of_not hno)
  · rw [Nat.succ_sub_one, heq]
    exact .faults hno

theorem malformed_of_length {body : List UInt8}
    (hfield : lengthField bytes = some (length, body)) (hbad : length = 0 ∨ max < length - 1) :
    (receivable malloc max).next bytes = .malformed := by
  rw [receivable_next ((affordable_iff hfield).2 (by omega))]
  exact nextFrame_malformed_iff.2 ⟨length, body, hfield, hbad⟩

theorem Holds.acts (h : Holds malloc max d part)
    (hr : d.toRead = 0) (s : Session) : Acts malloc max d s part (d.act malloc s) := by
  have hmax := h.limit
  cases h.phase with
  | oneByte hnext hl =>
    obtain ⟨b, hb⟩ : ∃ b, d.filled = [b] := List.length_eq_one_iff.1 (by omega)
    have hfield : b ≠ 0xff → lengthField d.filled = some (b.toNat, []) := fun hne => by
      rw [hb, lengthField, if_neg hne]
    simp only [act, hnext, oneByteSizeReady, hb, List.headD_cons]
    by_cases hff : b = 0xff
    · rw [if_pos hff]
      have hphase : Phase malloc max (d.nextStep 8 .eightByteSizeReady) (0xff :: []) :=
        .eightByte rfl rfl
      rw [← hff] at hphase
      exact .goesOn ⟨hmax, hphase⟩ (rank_lt_of_toRead hr (show 8 ≠ 0 by decide))
    · rw [if_neg hff, ← hb]
      by_cases h0 : b = 0
      · rw [if_pos h0]
        exact .givesUp rfl (malformed_of_length (hfield hff) (Or.inl (by simp [h0])))
      · have hne : b.toNat ≠ 0 := fun heq => h0 (UInt8.toNat_inj.1 (by simpa using heq))
        rw [if_neg h0, hmax]
        by_cases hbig : max < b.toNat - 1
        · rw [if_pos hbig]
          exact .givesUp rfl (malformed_of_length (hfield hff) (Or.inr hbig))
        · rw [if_neg hbig]
          exact acts_of_allocate hmax hr (hfield hff) hne (by omega)
  | eightByte hnext hl =>
    have hlen : d.filled.length = 8 := by omega
    have hfield : lengthField (0xff :: d.filled) = some ((getUint64 d.filled).toNat, []) := by
      have hnot : ¬ d.filled.length < 8 := by omega
      have htake : d.filled.take 8 = d.filled := List.take_of_length_le (by omega)
      have hdrop : d.filled.drop 8 = [] := List.drop_of_length_le (by omega)
      simp only [lengthField, if_true, if_neg hnot, htake, hdrop]
    have hword : ¬ 2 ^ 64 - 1 < (getUint64 d.filled).toNat - 1 := by
      have := (getUint64 d.filled).toNat_lt
      omega
    simp only [act, hnext, eightByteSizeReady, hmax, if_neg hword]
    by_cases h0 : (getUint64 d.filled).toNat = 0
    · rw [if_pos h0]
      exact .givesUp rfl (malformed_of_length hfield (Or.inl h0))
    · rw [if_neg h0]
      by_cases hbig : max < (getUint64 d.filled).toNat - 1
      · rw [if_pos hbig]
        exact .givesUp rfl (malformed_of_length hfield (Or.inr hbig))
      · rw [if_neg hbig]
        exact acts_of_allocate hmax hr hfield h0 (by omega)
  | @flags header hnext hl hflags hopens =>
    obtain ⟨f, hf⟩ : ∃ f, d.filled = [f] := List.length_eq_one_iff.1 (by omega)
    simp only [act, hnext]
    have hphase : Phase malloc max d.flagsReady (header ++ f :: []) :=
      .payload rfl (by simp [flagsReady, nextStep]) (by simp [flagsReady, nextStep, hf, hflags])
        hopens
    rw [hf]
    refine .goesOn ⟨hmax, hphase⟩ ?_
    -- an empty payload leaves one more action to run
    have hnext' : d.flagsReady.next ≠ some .flagsReady := by simp [flagsReady, nextStep]
    simp only [rank, hr, hnext, hnext', ne_eq, not_true_eq_false, if_false, if_true]
    split <;> omega
  | @payload header f hnext hl hflags hopens =>
    simp only [act, hnext]
    exact .handsOver hnext (h.whole ⟨hnext, hr⟩)

/-! ## `process_buffer` -/

def Tracks (malloc : Nat → Bool) (max : Nat) (consumed : List UInt8) (d : Decoder) (s : Session) :
    Prop :=
  ∃ part, (receivable malloc max).Reads consumed s.accepted part ∧ Holds malloc max d part

def GaveUp (malloc : Nat → Bool) (max : Nat) (bytes : List UInt8) (d : Decoder) (s : Session) :
    Prop :=
  d.next = none ∧ ∃ q, (receivable malloc max).Reads bytes s.accepted q ∧
    (receivable malloc max).next q = .malformed

theorem GaveUp.append (h : GaveUp malloc max bytes d s) (more : List UInt8) :
    GaveUp malloc max (bytes ++ more) d s := by
  obtain ⟨hnext, q, hq, hbad⟩ := h
  exact ⟨hnext, q ++ more, hq.append more, (receivable malloc max).malformed_append q more hbad⟩

theorem Tracks.fill (h : Tracks malloc max consumed d s) (hb : bytes.length ≤ d.toRead) :
    Tracks malloc max (consumed ++ bytes) (d.fill bytes) s := by
  obtain ⟨part, hreads, hholds⟩ := h
  exact ⟨part ++ bytes, hreads.append bytes, hholds.fill hb⟩

theorem Tracks.next_ne_none (h : Tracks malloc max consumed d s) : d.next ≠ none := by
  obtain ⟨part, -, hholds⟩ := h
  exact hholds.next_ne_none

inductive Settles (malloc : Nat → Bool) (max : Nat) (consumed : List UInt8) (answers : List Answer) :
    Except Fault (Bool × Decoder × Session) → Prop where
  | faults {e : Fault} (h : Starves malloc max consumed) :
      Settles malloc max consumed answers (.error e)
  | ready {d : Decoder} {s : Session} (h : Tracks malloc max consumed d s) (hr : d.toRead ≠ 0)
      (hs : s.answers <:+ answers) : Settles malloc max consumed answers (.ok (true, d, s))
  | stalls {d : Decoder} {s : Session} (h : Tracks malloc max consumed d s) (hst : d.Stalled)
      (hs : s.answers <:+ answers) (hlt : s.answers.length < answers.length) :
      Settles malloc max consumed answers (.ok (false, d, s))
  | givesUp {d : Decoder} {s : Session} (h : GaveUp malloc max consumed d s)
      (hs : s.answers <:+ answers) : Settles malloc max consumed answers (.ok (false, d, s))

theorem Settles.mono {answers' : List Answer}
    (hsub : answers <:+ answers') {r : Except Fault (Bool × Decoder × Session)}
    (h : Settles malloc max consumed answers r) : Settles malloc max consumed answers' r := by
  cases h with
  | faults h => exact .faults h
  | ready h hr hs => exact .ready h hr (hs.trans hsub)
  | stalls h hst hs hlt =>
    exact .stalls h hst (hs.trans hsub) (Nat.lt_of_lt_of_le hlt hsub.length_le)
  | givesUp h hs => exact .givesUp h (hs.trans hsub)

theorem Tracks.settle : ∀ (fuel : Nat) (d : Decoder) (s : Session),
    Tracks malloc max consumed d s → .failed ∉ s.answers → d.rank < fuel →
      Settles malloc max consumed s.answers (d.settle malloc fuel s) := by
  intro fuel
  induction fuel with
  | zero => grind
  | succ fuel ih =>
    intro d s h hno hrank
    rw [Decoder.settle]
    by_cases hr : d.toRead ≠ 0
    · rw [if_pos hr]
      exact .ready h hr (List.suffix_refl _)
    rw [if_neg hr]
    obtain ⟨part, hreads, hholds⟩ := h
    have hacts := hholds.acts (not_not.1 hr) s
    generalize d.act malloc s = r at hacts
    cases hacts with
    | faults hno => exact .faults ⟨_, part, hreads, hno⟩
    | givesUp hnext hbad => exact .givesUp ⟨hnext, part, hreads, hbad⟩ (List.suffix_refl _)
    | goesOn hholds' hrank' => exact ih _ s ⟨part, hreads, hholds'⟩ hno (by omega)
    | handsOver hnext hframe =>
      have hholds' : Holds malloc max
          ({ d with size := 0, flags := 0 }.nextStep 1 .oneByteSizeReady) [] :=
        ⟨hholds.limit, .oneByte rfl rfl⟩
      have hrank' := rank_lt_of_toRead (not_not.1 hr)
        (show ({ d with size := 0, flags := 0 }.nextStep 1 .oneByteSizeReady).toRead ≠ 0 from
          Nat.one_ne_zero)
      obtain ⟨answers, accepted⟩ := s
      -- the session's answer decides
      cases answers with
      | nil =>
        simp only [messageReady, Session.write]
        exact ih _ ⟨[], accepted ++ [d.message]⟩ ⟨[], hreads.snoc hframe, hholds'⟩ hno
          (by omega)
      | cons a answers =>
        have hsub : answers <:+ a :: answers := List.suffix_cons a answers
        have hno' : Answer.failed ∉ answers := fun hmem => hno (List.mem_cons_of_mem a hmem)
        cases a with
        | accepted =>
          simp only [messageReady, Session.write]
          exact (ih _ ⟨answers, accepted ++ [d.message]⟩ ⟨[], hreads.snoc hframe, hholds'⟩
            hno' (by omega)).mono hsub
        | again =>
          simp only [messageReady, Session.write]
          exact .stalls ⟨part, hreads, hholds⟩ ⟨hnext, not_not.1 hr⟩ hsub
            (Nat.lt_succ_self _)
        | failed => exact absurd List.mem_cons_self hno

theorem rank_lt_settleFuel (d : Decoder) : d.rank < settleFuel := by
  unfold rank settleFuel
  split
  · decide
  · split <;> decide

theorem settle_of_toRead (hr : d.toRead ≠ 0) (s : Session) :
    d.settle malloc settleFuel s = .ok (true, d, s) := by
  rw [settleFuel, settle, if_pos hr]

inductive Processes (malloc : Nat → Bool) (max : Nat) (consumed data : List UInt8) (d : Decoder)
    (answers : List Answer) (pos : Nat) : Except Fault (Option Nat × Decoder × Session) → Prop where
  | faults {e : Fault} (h : Starves malloc max (consumed ++ data)) :
      Processes malloc max consumed data d answers pos (.error e)
  | takes {d' : Decoder} {s : Session} (h : Tracks malloc max (consumed ++ data) d' s)
      (hr : d'.toRead ≠ 0) (hs : s.answers <:+ answers) :
      Processes malloc max consumed data d answers pos (.ok (some (pos + data.length), d', s))
  | stalls {k : Nat} {d' : Decoder} {s : Session} (hk : k ≤ data.length)
      (h : Tracks malloc max (consumed ++ data.take k) d' s) (hst : d'.Stalled)
      (hs : s.answers <:+ answers) (hlt : s.answers.length < answers.length)
      (hmoved : d.toRead = 0 ∨ 0 < k) :
      Processes malloc max consumed data d answers pos (.ok (some (pos + k), d', s))
  | givesUp {d' : Decoder} {s : Session} (h : GaveUp malloc max (consumed ++ data) d' s)
      (hs : s.answers <:+ answers) :
      Processes malloc max consumed data d answers pos (.ok (none, d', s))

theorem Processes.after_take {d1 : Decoder} {answers1 : List Answer} {pos n : Nat}
    {r : Except Fault (Option Nat × Decoder × Session)} (hn : n ≤ data.length) (hpos : 0 < n)
    (hs1 : answers1 <:+ answers)
    (h : Processes malloc max (consumed ++ data.take n) (data.drop n) d1 answers1 (pos + n) r) :
    Processes malloc max consumed data d answers pos r := by
  have hwhole : consumed ++ data.take n ++ data.drop n = consumed ++ data := by
    rw [List.append_assoc, List.take_append_drop]
  cases h with
  | faults h => exact .faults (hwhole ▸ h)
  | takes h hr hs =>
    have hlen : pos + n + (data.drop n).length = pos + data.length := by
      rw [List.length_drop]
      omega
    rw [hlen]
    exact .takes (hwhole ▸ h) hr (hs.trans hs1)
  | @stalls k d' s' hk h hst hs hlt hmoved =>
    rw [Nat.add_assoc]
    rw [List.length_drop] at hk
    refine .stalls (by omega) ?_ hst (hs.trans hs1) (Nat.lt_of_lt_of_le hlt hs1.length_le)
      (Or.inr (by omega))
    rwa [List.append_assoc, ← List.take_add] at h
  | givesUp h hs => exact .givesUp (hwhole ▸ h) (hs.trans hs1)

theorem Tracks.copyLoop : ∀ (fuel : Nat) (consumed data : List UInt8) (d : Decoder) (s : Session)
    (pos : Nat), Tracks malloc max consumed d s → .failed ∉ s.answers → data.length < fuel →
      Processes malloc max consumed data d s.answers pos (d.copyLoop malloc fuel s data pos) := by
  intro fuel
  induction fuel with
  | zero => grind
  | succ fuel ih =>
    intro consumed data d s pos h hno hlen
    rw [Decoder.copyLoop]
    have hsettles := h.settle settleFuel d s hno d.rank_lt_settleFuel
    generalize hres : d.settle malloc settleFuel s = r at hsettles
    cases hsettles with
    | faults h => exact .faults (h.append data)
    | @ready d1 s1 h1 hr1 hs1 =>
      simp only
      by_cases hnil : data = []
      · rw [if_pos hnil, hnil]
        exact .takes (by rwa [List.append_nil]) hr1 hs1
      · rw [if_neg hnil]
        have hpos : 0 < data.length := List.length_pos_iff.2 hnil
        have hlen1 : (data.take (min d1.toRead data.length)).length =
            min d1.toRead data.length := List.length_take_of_le (Nat.min_le_right _ _)
        refine Processes.after_take (Nat.min_le_right _ _) (by omega) hs1
          (ih _ _ _ s1 _ (h1.fill (by omega)) (fun hmem => hno (hs1.subset hmem)) ?_)
        rw [List.length_drop]
        omega
    | stalls h1 hst hs hlt =>
      simp only [processed, if_neg h1.next_ne_none]
      refine .stalls (Nat.zero_le _) (by rwa [List.take_zero, List.append_nil]) hst hs hlt
        (Or.inl ?_)
      -- with bytes still to be read no action would have been run
      by_contra hr
      rw [settle_of_toRead hr] at hres
      cases hres
    | givesUp h1 hs =>
      simp only [processed, if_pos h1.1]
      exact .givesUp (h1.append data) hs

theorem Tracks.processBuffer {direct : Bool}
    (h : Tracks malloc max consumed d s) (hno : .failed ∉ s.answers)
    (hroom : direct = true → data.length ≤ d.toRead) :
    Processes malloc max consumed data d s.answers 0 (d.processBuffer malloc s direct data) := by
  rw [Decoder.processBuffer, if_neg h.next_ne_none]
  cases direct with
  | false => grind [h.copyLoop]
  | true =>
    have hb := hroom rfl
    rw [if_pos rfl, if_neg (by omega)]
    have hsettles := (h.fill hb).settle settleFuel _ s hno (rank_lt_settleFuel _)
    generalize hres : (d.fill data).settle malloc settleFuel s = r at hsettles
    cases hsettles with
    | faults h => exact .faults h
    | @ready d1 s1 h1 hr1 hs1 =>
      rw [← Nat.zero_add data.length]
      exact .takes h1 hr1 hs1
    | @stalls d1 s1 h1 hst hs hlt =>
      simp only [processed, if_neg h1.next_ne_none]
      rw [← Nat.zero_add data.length]
      refine .stalls (Nat.le_refl _) (by rwa [List.take_length]) hst hs hlt ?_
      have hr : (d.fill data).toRead = 0 := by
        by_contra hr
        rw [settle_of_toRead hr] at hres
        cases hres
      simp only [Decoder.fill] at hr
      omega
    | givesUp h1 hs =>
      simp only [processed, if_pos h1.1]
      exact .givesUp h1 hs

end Decoder

end

end Libxs
