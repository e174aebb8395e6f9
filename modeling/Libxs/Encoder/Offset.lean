import Libxs.Encoder.Proofs

/-! # The offset of a batch -/

namespace Libxs

/-! ## Where messages begin -/

def Closed (parts : List Msg) : Prop := ∀ m ∈ parts.getLast?, m.more = false

def span (parts : List Msg) : Nat := (parts.flatMap Msg.frame).length

def BeginsAt (parts : List Msg) (pos : Nat) : Prop :=
  ∃ before, before <+: parts ∧ before ≠ parts ∧ Closed before ∧ span before = pos

theorem span_append (a b : List Msg) : span (a ++ b) = span a + span b := by
  simp [span]

theorem span_mono {a b : List Msg} (h : a <+: b) : span a ≤ span b := by
  obtain ⟨c, rfl⟩ := h
  rw [span_append]
  exact Nat.le_add_right _ _

theorem BeginsAt.of_append {parts more : List Msg} {pos : Nat} (h : BeginsAt (parts ++ more) pos) :
    BeginsAt parts pos ∨ span parts ≤ pos := by
  obtain ⟨before, hbefore, -, hclosed, rfl⟩ := h
  rcases List.prefix_or_prefix_of_prefix hbefore (List.prefix_append parts more) with hle | hge
  · by_cases heq : before = parts
    · exact Or.inr (heq ▸ Nat.le_refl _)
    · exact Or.inl ⟨before, hle, heq, hclosed, rfl⟩
  · exact Or.inr (span_mono hge)

theorem BeginsAt.of_concat {parts : List Msg} {m : Msg} {pos : Nat} (h : BeginsAt (parts ++ [m]) pos) :
    BeginsAt parts pos ∨ Closed parts ∧ pos = span parts := by
  obtain ⟨before, hbefore, hne, hclosed, rfl⟩ := h
  have hle := (List.prefix_concat_iff.1 hbefore).resolve_left hne
  by_cases heq : before = parts
  · exact Or.inr ⟨heq ▸ hclosed, by rw [heq]⟩
  · exact Or.inl ⟨before, hle, heq, hclosed, rfl⟩

def Marks (parts : List Msg) (start stop : Nat) : Option Nat → Prop
  | none => ∀ pos, BeginsAt parts pos → start ≤ pos → stop ≤ pos
  | some offset => start + offset ≤ stop ∧
      (∃ before, before <+: parts ∧ Closed before ∧ span before = start + offset) ∧
      ∀ pos, BeginsAt parts pos → start ≤ pos → start + offset ≤ pos

def Noted (read : List Msg) (start : Nat) : Option Nat → Prop
  | none => ∀ pos, BeginsAt read pos → pos < start
  | some offset => (∃ before, before <+: read ∧ Closed before ∧ span before = start + offset) ∧
      ∀ pos, BeginsAt read pos → start ≤ pos → start + offset ≤ pos

variable {read : List Msg} {start : Nat} {offset : Option Nat}

theorem Noted.concat (h : Noted read start offset) (m : Msg) (hopen : offset = none → ¬ Closed read) :
    Noted (read ++ [m]) start offset := by
  cases offset with
  | none =>
    intro pos hpos
    rcases hpos.of_concat with hpos | ⟨hclosed, -⟩
    · exact h pos hpos
    · exact absurd hclosed (hopen rfl)
  | some o =>
    obtain ⟨⟨before, hbefore, hclosed, hspan⟩, hfirst⟩ := h
    refine ⟨⟨before, hbefore.trans (List.prefix_append _ _), hclosed, hspan⟩, fun pos hpos hstart => ?_⟩
    rcases hpos.of_concat with hpos | ⟨-, rfl⟩
    · exact hfirst pos hpos hstart
    · rw [← hspan]
      exact span_mono hbefore

theorem Noted.note (h : Noted read start none) (hclosed : Closed read) {n : Nat}
    (hspan : span read = start + n) : Noted read start (some n) := by
  refine ⟨⟨read, List.prefix_rfl, hclosed, hspan⟩, fun pos hpos hstart => ?_⟩
  exact absurd (h pos hpos) (Nat.not_lt.2 hstart)

theorem Noted.marks (h : Noted read start offset) (more : List Msg) {stop : Nat}
    (hstop : stop ≤ span read) (hbound : ∀ o ∈ offset, start + o ≤ stop) :
    Marks (read ++ more) start stop offset := by
  cases offset with
  | none =>
    intro pos hpos hstart
    rcases hpos.of_append with hpos | hpos
    · exact absurd (h pos hpos) (Nat.not_lt.2 hstart)
    · exact Nat.le_trans hstop hpos
  | some o =>
    obtain ⟨⟨before, hbefore, hclosed, hspan⟩, hfirst⟩ := h
    refine ⟨hbound o rfl, ⟨before, hbefore.trans (List.prefix_append _ _), hclosed, hspan⟩,
      fun pos hpos hstart => ?_⟩
    rcases hpos.of_append with hpos | hpos
    · exact hfirst pos hpos hstart
    · rw [← hspan]
      exact Nat.le_trans (span_mono hbefore) hpos

/-! ## The actions of the encoder -/

namespace Encoder

variable {out : List UInt8} {e e' : Encoder} {source source' : Source}

structure Wrote (read : List Msg) (out : List UInt8) (e : Encoder) : Prop where
  bytes : out ++ e.pending = read.flatMap Msg.frame
  sizeReady : e.next = .sizeReady → e.beginning = false ∧ e.inProgress ∈ read.getLast?
  messageReady : e.next = .messageReady → (e.beginning = true ↔ Closed read)

def Started (read : List Msg) (written : Nat) : Prop :=
  ∀ before, before <+: read → before ≠ read → span before < written

theorem wrote_init (bufsize : Nat) : Wrote [] [] (init bufsize) :=
  ⟨rfl, fun h => absurd h (by simp [init]), fun _ => by simp [init, Closed]⟩

theorem Wrote.span_eq (h : Wrote read out e) : span read = out.length + e.pending.length := by
  rw [span, ← h.bytes, List.length_append]

theorem Wrote.out_eq (h : Wrote read out e) (hw : e.writePos = []) (hnext : e.next = .messageReady) :
    out = read.flatMap Msg.frame := by
  have hbytes := h.bytes
  rwa [show e.pending = [] by simp [pending, hw, hnext], List.append_nil] at hbytes

theorem Wrote.act {b : Bool} (h : Wrote read out e) (hw : e.writePos = []) (hfits : source.Fits)
    (hact : e.act source = (b, e', source')) :
    ∃ new, read ++ source.messages = read ++ new ++ source'.messages ∧ Wrote (read ++ new) out e' ∧
      (new = [] ∨ b = true ∧ e.next = .messageReady ∧ e'.writePos ≠ [] ∧ ∃ m, new = [m]) := by
  cases hnext : e.next with
  | sizeReady =>
    obtain ⟨-, hlast⟩ := h.sizeReady hnext
    simp only [Encoder.act, hnext, Prod.mk.injEq] at hact
    obtain ⟨-, rfl, rfl⟩ := hact
    refine ⟨[], by simp, ?_, Or.inl rfl⟩
    rw [List.append_nil]
    refine ⟨?_, fun h' => absurd h' (by simp [Encoder.sizeReady, nextStep]), fun _ => ?_⟩
    · rw [← h.bytes]
      simp [pending, hw, hnext, Encoder.sizeReady, nextStep]
    · rw [Option.mem_def] at hlast
      simp [Encoder.sizeReady, nextStep, Closed, hlast]
  | messageReady =>
    have hout := h.out_eq hw hnext
    -- no message: only `inProgress` changes, which does not matter here
    have hnone : Wrote read out { e with inProgress := .init } :=
      ⟨by rw [hout]; simp [pending, hw, hnext], fun h' => absurd (hnext.symm.trans h') (by simp),
        fun _ => h.messageReady hnext⟩
    simp only [Encoder.act, hnext] at hact
    cases source with
    | nil => grind [Encoder.messageReady]
    | cons x source =>
      cases x with
      | none => grind [Encoder.messageReady, Source.messages]
      | some msg =>
        simp only [Encoder.messageReady, Prod.mk.injEq] at hact
        obtain ⟨rfl, rfl, rfl⟩ := hact
        have hmsg : msg.size + 1 < 2 ^ 64 := hfits msg (by simp [Source.messages])
        refine ⟨[msg], by simp [Source.messages], ⟨?_, fun _ => ?_, fun h' => ?_⟩,
          Or.inr ⟨rfl, rfl, ?_, msg, rfl⟩⟩
        · grind [header_eq, pending, nextStep]
        · simp [nextStep]
        · exact absurd h' (by simp [nextStep])
        · simp only [nextStep, header]
          split <;> simp

theorem Wrote.writePos {before buffer data writePos : List UInt8} (h : Wrote read (before ++ buffer) e)
    (hdata : data ++ writePos = buffer ++ e.writePos) :
    Wrote read (before ++ data) { e with writePos := writePos } := by
  refine ⟨?_, h.sizeReady, h.messageReady⟩
  rw [← h.bytes, pending_withWritePos, pending, List.append_assoc, ← List.append_assoc data, hdata]
  simp only [List.append_assoc]

/-! ## A call of `get_data` -/

structure Encodes (before : List UInt8) (buffersize : Nat) (read : List Msg) (e : Encoder)
    (buffer : List UInt8) (offset : Option Nat) : Prop where
  wrote : Wrote read (before ++ buffer) e
  started : Started read (before ++ buffer).length
  noted : Noted read before.length offset
  bound : ∀ o ∈ offset, o ≤ buffer.length ∧ o < buffersize

variable {before buffer : List UInt8} {buffersize : Nat}

theorem Encodes.note (h : Encodes before buffersize read e buffer offset)
    (hroom : buffer.length < buffersize) {offset' : Option Nat}
    (hoffset : offset' =
      if e.toWrite = 0 ∧ e.beginning ∧ offset = none then some buffer.length else offset) :
    Encodes before buffersize read e buffer offset' ∧
      (offset' = none → e.toWrite = 0 → e.next = .messageReady → ¬ Closed read) := by
  split at hoffset
  next hnote =>
    obtain ⟨hzero, hbeg, rfl⟩ := hnote
    have hw : e.writePos = [] := List.eq_nil_of_length_eq_zero hzero
    have hnext : e.next = .messageReady := by
      cases hnext : e.next with
      | sizeReady => exact absurd (hbeg.symm.trans (h.wrote.sizeReady hnext).1) (by simp)
      | messageReady => rfl
    have hspan : span read = before.length + buffer.length := by
      rw [span, ← h.wrote.out_eq hw hnext, List.length_append]
    subst hoffset
    refine ⟨⟨h.wrote, h.started, h.noted.note ((h.wrote.messageReady hnext).1 hbeg) hspan, ?_⟩,
      fun hno => absurd hno (by simp)⟩
    rintro o ⟨⟩
    exact ⟨Nat.le_refl _, hroom⟩
  next hnote =>
    subst hoffset
    refine ⟨h, fun hno hzero hnext hclosed => hnote ⟨hzero, ?_, hno⟩⟩
    exact (h.wrote.messageReady hnext).2 hclosed

theorem Encodes.emit {b : Bool} {data : List UInt8} (hwrote : Wrote read (before ++ buffer) e)
    (hstarted : ∀ pre, pre <+: read → pre ≠ read → span pre < (before ++ buffer).length ∨
      e.writePos ≠ [] ∧ span pre ≤ (before ++ buffer).length)
    (hnoted : Noted read before.length offset)
    (hbound : ∀ o ∈ offset, o ≤ buffer.length ∧ o < buffersize) (hroom : buffer.length < buffersize)
    (hemit : e.emit false buffersize buffer = (b, data, e')) :
    Encodes before buffersize read e' data offset ∧ (b = false → data.length < buffersize) := by
  obtain ⟨b', data', writePos, hspec, hdata, hlonger, hfalse, hmore⟩ := e.emit_spec false (Or.inl hroom)
  rw [hspec, Prod.mk.injEq, Prod.mk.injEq] at hemit
  obtain ⟨rfl, rfl, rfl⟩ := hemit
  refine ⟨⟨hwrote.writePos hdata, fun pre hpre hne => ?_, hnoted, fun o ho => ?_⟩,
    fun hb => (hfalse hb).2⟩
  · rw [List.length_append] at hstarted ⊢
    rcases hstarted pre hpre hne with hlt | ⟨hw, hle⟩
    · omega
    · have := hmore hw (Or.inr (by omega))
      omega
  · grind

theorem Encodes.getDataLoop : ∀ (fuel : Nat) {read : List Msg} {e e' : Encoder}
    {source source' : Source} {buffer : List UInt8} {offset : Option Nat} {batch : Batch},
    Encodes before buffersize read e buffer offset → buffer.length < buffersize → source.Fits →
    Encoder.getDataLoop false buffersize fuel e source buffer offset = .ok (batch, e', source') →
    ∃ read', read ++ source.messages = read' ++ source'.messages ∧
      Encodes before buffersize read' e' batch.data batch.offset := by
  intro fuel
  induction fuel with
  | zero => grind [Encoder.getDataLoop]
  | succ fuel ih =>
    intro read e e' source source' buffer offset batch h hroom hfits hloop
    rw [Encoder.getDataLoop] at hloop
    generalize hoffset : (if e.toWrite = 0 ∧ e.beginning = true ∧ offset = none then
      some buffer.length else offset) = offset' at hloop
    obtain ⟨h', hopen⟩ := h.note hroom hoffset.symm
    -- what the second half of the round and the rounds after it make of a state
    have hrest : ∀ {read₁ : List Msg} {e₁ : Encoder} {source₁ : Source},
        read ++ source.messages = read₁ ++ source₁.messages → source₁.Fits →
        Wrote read₁ (before ++ buffer) e₁ → Noted read₁ before.length offset' →
        (∀ pre, pre <+: read₁ → pre ≠ read₁ → span pre < (before ++ buffer).length ∨
          e₁.writePos ≠ [] ∧ span pre ≤ (before ++ buffer).length) →
        (∀ b data e₂, e₁.emit false buffersize buffer = (b, data, e₂) →
          (if b then Except.ok (Batch.mk data true offset', e₂, source₁)
          else Encoder.getDataLoop false buffersize fuel e₂ source₁ data offset') =
            .ok (batch, e', source')) →
        ∃ read', read ++ source.messages = read' ++ source'.messages ∧
          Encodes before buffersize read' e' batch.data batch.offset := by
      intro read₁ e₁ source₁ hmsgs hfits₁ hwrote hnoted hstarted hround
      rcases hemit : e₁.emit false buffersize buffer with ⟨b, data, e₂⟩
      have hround := hround b data e₂ hemit
      obtain ⟨henc, hshort⟩ := Encodes.emit hwrote hstarted hnoted h'.bound hroom hemit
      grind
    by_cases hw : e.toWrite = 0
    · have hnil : e.writePos = [] := List.eq_nil_of_length_eq_zero hw
      rw [if_pos hw] at hloop
      generalize hact : e.act source = r at hloop
      obtain ⟨b, e₁, source₁⟩ := r
      obtain ⟨new, hmsgs, hwrote, hnew⟩ := h'.wrote.act hnil hfits hact
      have hfits₁ : source₁.Fits := by
        intro m hm
        rw [List.append_assoc, List.append_cancel_left_eq] at hmsgs
        exact hfits m (hmsgs ▸ List.mem_append_right _ hm)
      rcases hnew with rfl | ⟨rfl, hnext, hne, m, rfl⟩
      · rw [List.append_nil] at hmsgs hwrote
        cases b with
        | false =>
          cases hloop
          exact ⟨read, hmsgs, hwrote, h'.started, h'.noted, h'.bound⟩
        | true =>
          exact hrest hmsgs hfits₁ hwrote h'.noted
            (fun pre hpre hp => Or.inl (h'.started pre hpre hp)) fun b data e₂ hemit => by
              simp only [hemit] at hloop
              cases b <;> exact hloop
      · refine hrest hmsgs hfits₁ hwrote (h'.noted.concat m fun hno => hopen hno hw hnext)
          (fun pre hpre hp => Or.inr ⟨hne, ?_⟩) fun b data e₂ hemit => by
            simp only [hemit] at hloop
            cases b <;> exact hloop
        rw [h'.wrote.out_eq hnil hnext]
        exact span_mono ((List.prefix_concat_iff.1 hpre).resolve_left hp)
    · rw [if_neg hw] at hloop
      refine hrest rfl hfits h'.wrote h'.noted (fun pre hpre hp => Or.inl (h'.started pre hpre hp)) ?_
      intro b data e₂ hemit
      simp only [hemit] at hloop
      cases b <;> exact hloop

theorem getData_marks {before : List UInt8} {size : Nat} (hsize : size ≠ 0)
    (hwrote : Wrote read before e) (hstarted : Started read before.length) (hfits : source.Fits) :
    ∃ batch e' source' read', e.getData source (some size) = .ok (batch, e', source') ∧
      source'.Fits ∧ read ++ source.messages = read' ++ source'.messages ∧
      Wrote read' (before ++ batch.data) e' ∧ Started read' (before ++ batch.data).length ∧
      (∀ o ∈ batch.offset, o < size) ∧
      Marks (read ++ source.messages) before.length (before ++ batch.data).length batch.offset := by
  obtain ⟨batch, e', source', hget, hmoves⟩ := e.getData_spec hfits (some size)
  have hinit : Encodes before size read e [] none := by
    refine ⟨by rwa [List.append_nil], by rwa [List.append_nil], ?_, by simp⟩
    rintro pos ⟨pre, hpre, hne, -, rfl⟩
    exact hstarted pre hpre hne
  obtain ⟨read', hmsgs, henc⟩ := hinit.getDataLoop _ (Nat.pos_of_ne_zero hsize) hfits hget
  refine ⟨batch, e', source', read', hget, hmoves.fits, hmsgs, henc.wrote, henc.started,
    fun o ho => (henc.bound o ho).2, ?_⟩
  rw [hmsgs]
  refine henc.noted.marks _ ?_ fun o ho => ?_
  · rw [henc.wrote.span_eq]
    exact Nat.le_add_right _ _
  · rw [List.length_append]
    exact Nat.add_le_add_left (henc.bound o ho).1 _

end Encoder

end Libxs
