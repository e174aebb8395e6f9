import Libxs.Encoder

/-! # The batches of an encoder are the frames of its messages -/

namespace Libxs

def Source.messages (source : Source) : List Msg := source.filterMap id

def Source.wire (source : Source) : List UInt8 := source.messages.flatMap Msg.frame

def Source.Fits (source : Source) : Prop := ∀ m ∈ source.messages, m.size + 1 < 2 ^ 64

namespace Encoder

variable {e : Encoder} {buffer : List UInt8} {buffersize : Nat} {source : Source}

def pending (e : Encoder) : List UInt8 :=
  e.writePos ++ if e.next = .sizeReady then e.inProgress.data else []

def actions (e : Encoder) (source : Source) : Nat :=
  2 * source.length + if e.next = .sizeReady then 1 else 0

theorem header_eq {msg : Msg} (h : msg.size + 1 < 2 ^ 64) : header msg ++ msg.data = msg.frame := by
  unfold header Msg.frame lengthBytes
  simp only [Nat.mod_eq_of_lt h]
  grind

theorem act_spec (hw : e.writePos = []) (hfits : source.Fits) :
    ∃ b e' source', e.act source = (b, e', source') ∧ source'.Fits ∧
      e'.pending ++ source'.wire = e.pending ++ source.wire ∧
      (b = true → e'.actions source' < e.actions source) ∧
      (b = false → e'.pending = [] ∧ e'.writePos = [] ∧
        (e'.actions source' < e.actions source ∨
          e.pending = [] ∧ source = [] ∧ e'.actions source' = e.actions source)) := by
  cases hnext : e.next with
  | sizeReady => grind [act, pending, sizeReady, nextStep, actions]
  | messageReady =>
    have hpend : e.pending = [] := by simp [pending, hw, hnext]
    have hpend' : ({ e with inProgress := .init } : Encoder).pending = [] := by
      simp [pending, hw, hnext]
    cases source with
    | nil =>
      refine ⟨false, _, [], by simp only [act, hnext, messageReady], hfits, ?_,
        fun hb => absurd hb (by simp), fun _ => ⟨hpend', hw, Or.inr ⟨hpend, rfl, rfl⟩⟩⟩
      rw [hpend, hpend']
    | cons x source =>
      cases x with
      | none =>
        refine ⟨false, _, source, by simp only [act, hnext, messageReady], hfits, ?_,
          fun hb => absurd hb (by simp), fun _ => ⟨hpend', hw, Or.inl ?_⟩⟩
        · rw [hpend, hpend']
          rfl
        · simp [actions, hnext]
      | some msg =>
        have hmsg : msg.size + 1 < 2 ^ 64 := hfits msg (by simp [Source.messages])
        have heq : e.act (some msg :: source) =
            (true, { e with inProgress := msg }.nextStep (header msg) .sizeReady false,
              source) := by
          rw [act, hnext]
          rfl
        refine ⟨true, _, source, heq,
          fun m hm => hfits m (by simpa [Source.messages] using Or.inr hm), ?_, fun _ => ?_,
          fun hb => absurd hb (by simp)⟩
        · rw [hpend, List.nil_append]
          have hwire : Source.wire (some msg :: source) = msg.frame ++ Source.wire source := by
            simp [Source.wire, Source.messages]
          rw [hwire, ← header_eq hmsg]
          simp [pending, nextStep]
        · grind [actions]

theorem emit_spec (e : Encoder) (own : Bool) (hbuf : buffer.length < buffersize ∨ buffer = []) :
    ∃ b data writePos, e.emit own buffersize buffer = (b, data, { e with writePos := writePos }) ∧
      data ++ writePos = buffer ++ e.writePos ∧ buffer.length ≤ data.length ∧
      (b = false → writePos = [] ∧ data.length < buffersize) ∧
      (e.writePos ≠ [] → own = true ∨ buffersize ≠ 0 → buffer.length < data.length) := by
  unfold emit
  by_cases hzero : buffer = [] ∧ own = true ∧ buffersize ≤ e.toWrite
  · rw [if_pos hzero]
    refine ⟨true, e.writePos, [], rfl, by rw [hzero.1, List.nil_append, List.append_nil], ?_,
      fun hb => absurd hb (by simp), fun hne _ => ?_⟩
    · rw [hzero.1]
      exact Nat.zero_le _
    · rw [hzero.1]
      exact List.length_pos_iff.2 hne
  · rw [if_neg hzero]
    have hlen : (e.writePos.take (min e.toWrite (buffersize - buffer.length))).length =
        min e.toWrite (buffersize - buffer.length) := List.length_take_of_le (Nat.min_le_left _ _)
    refine ⟨_, _, e.writePos.drop (min e.toWrite (buffersize - buffer.length)), rfl, ?_, ?_, ?_, ?_⟩
    · rw [List.append_assoc, List.take_append_drop]
    · grind
    · intro hfull
      simp only [List.length_append, hlen, beq_eq_false_iff_ne] at hfull ⊢
      have hb0 : buffer.length ≤ buffersize := by grind
      refine ⟨List.drop_of_length_le ?_, by omega⟩
      show e.toWrite ≤ _
      omega
    · intro hne hroom
      have hpos : 0 < e.toWrite := List.length_pos_iff.2 hne
      simp only [List.length_append, hlen]
      have hsmall : buffer.length < buffersize := by
        rcases hbuf with h | h
        · exact h
        · rw [h, List.length_nil]
          rcases hroom with hown | hne0
          · have : ¬ buffersize ≤ e.toWrite := fun hle => hzero ⟨h, hown, hle⟩
            omega
          · omega
      omega

structure Moves (room : Prop) (buffer : List UInt8) (e : Encoder) (source : Source)
    (batch : Batch) (e' : Encoder) (source' : Source) : Prop where
  bytes : batch.data ++ (e'.pending ++ source'.wire) = buffer ++ (e.pending ++ source.wire)
  fits : source'.Fits
  longer : buffer.length ≤ batch.data.length
  actions_le : e'.actions source' ≤ e.actions source
  progress : room → e'.actions source' < e.actions source ∨ buffer.length < batch.data.length ∨
    e.pending = [] ∧ source = []

theorem pending_withWritePos (e : Encoder) (writePos : List UInt8) :
    ({ e with writePos := writePos } : Encoder).pending =
      writePos ++ if e.next = .sizeReady then e.inProgress.data else [] := rfl

theorem getDataLoop_emit {own : Bool} {fuel : Nat} {e1 : Encoder}
    {source1 : Source} {offset : Option Nat}
    (ih : ∀ (e : Encoder) (source : Source) (buffer : List UInt8) (offset : Option Nat),
      source.Fits → (buffer.length < buffersize ∨ buffer = []) →
      e.actions source + (if e.toWrite = 0 then 0 else 1) < fuel →
      ∃ batch e' source', getDataLoop own buffersize fuel e source buffer offset =
        .ok (batch, e', source') ∧
        Moves (own = true ∨ buffersize ≠ 0) buffer e source batch e' source')
    (hbuf : buffer.length < buffersize ∨ buffer = []) (hfits : source1.Fits)
    (hbytes : e1.pending ++ source1.wire = e.pending ++ source.wire)
    (hactions : e1.actions source1 ≤ e.actions source) (hfuel : e1.actions source1 < fuel)
    (hnew : e1.actions source1 < e.actions source ∨ e1.writePos ≠ []) :
    ∃ batch e' source',
      (match e1.emit own buffersize buffer with
        | (true, data, e) => Except.ok (Batch.mk data true offset, e, source1)
        | (false, buffer, e) => getDataLoop own buffersize fuel e source1 buffer offset) =
        .ok (batch, e', source') ∧
      Moves (own = true ∨ buffersize ≠ 0) buffer e source batch e' source' := by
  obtain ⟨b, data, writePos, hemit, hdata, hlonger, hfalse, hmore⟩ := e1.emit_spec own hbuf
  have hbytes' : data ++ (({ e1 with writePos := writePos } : Encoder).pending ++ source1.wire) =
      buffer ++ (e.pending ++ source.wire) := by
    rw [← hbytes, pending_withWritePos, List.append_assoc, ← List.append_assoc data, hdata, pending,
      List.append_assoc, List.append_assoc]
  rw [hemit]
  cases b with
  | true =>
    refine ⟨_, _, source1, rfl, hbytes', hfits, hlonger, hactions, fun hroom => ?_⟩
    exact hnew.imp id fun hne => Or.inl (hmore hne hroom)
  | false =>
    obtain ⟨hnil, hshort⟩ := hfalse rfl
    obtain ⟨batch, e', source', hloop, hmoves⟩ := ih { e1 with writePos := writePos } source1 data
      offset hfits (Or.inl hshort) (by simpa [actions, toWrite, hnil] using hfuel)
    refine ⟨batch, e', source', hloop, hmoves.bytes.trans hbytes', hmoves.fits,
      Nat.le_trans hlonger hmoves.longer, Nat.le_trans hmoves.actions_le hactions, fun hroom => ?_⟩
    rcases hnew with hless | hne
    · exact Or.inl (Nat.lt_of_le_of_lt hmoves.actions_le hless)
    · grind [hmoves.longer]

theorem getDataLoop_spec (own : Bool) (buffersize : Nat) : ∀ (fuel : Nat) (e : Encoder)
    (source : Source) (buffer : List UInt8) (offset : Option Nat), source.Fits →
    (buffer.length < buffersize ∨ buffer = []) →
    e.actions source + (if e.toWrite = 0 then 0 else 1) < fuel →
    ∃ batch e' source', getDataLoop own buffersize fuel e source buffer offset =
      .ok (batch, e', source') ∧
      Moves (own = true ∨ buffersize ≠ 0) buffer e source batch e' source' := by
  intro fuel
  induction fuel with
  | zero => intro _ _ _ _ _ _ h; exact absurd h (by simp)
  | succ fuel ih =>
    intro e source buffer offset hfits hbuf hfuel
    rw [getDataLoop]
    by_cases hw : e.toWrite = 0
    · have hnil : e.writePos = [] := List.eq_nil_of_length_eq_zero hw
      obtain ⟨b, e1, source1, hact, hfits1, hbytes1, htrue, hfalse⟩ := act_spec hnil hfits
      rw [if_pos hw] at hfuel
      simp only [if_pos hw, hact]
      cases b with
      | true =>
        have hless := htrue rfl
        exact getDataLoop_emit ih hbuf hfits1 hbytes1 (Nat.le_of_lt hless) (by omega)
          (Or.inl hless)
      | false =>
        obtain ⟨hpend, -, hactions⟩ := hfalse rfl
        refine ⟨_, e1, source1, rfl, by rw [hbytes1], hfits1, Nat.le_refl _, ?_, fun _ => ?_⟩
        · grind
        · exact hactions.imp id fun h => Or.inr ⟨h.1, h.2.1⟩
    · rw [if_neg hw] at hfuel
      simp only [if_neg hw]
      have hbytes : e.pending ++ source.wire = e.pending ++ source.wire := rfl
      exact getDataLoop_emit ih hbuf hfits hbytes (Nat.le_refl _) (by omega)
        (Or.inr fun hnil => hw (by rw [toWrite, hnil]; rfl))

theorem getData_spec (e : Encoder) (hfits : source.Fits) (supplied : Option Nat) :
    ∃ batch e' source', e.getData source supplied = .ok (batch, e', source') ∧
      Moves (supplied ≠ some 0) [] e source batch e' source' := by
  have hfuel : e.actions source + (if e.toWrite = 0 then 0 else 1) < 2 * source.length + 3 := by
    unfold actions
    split <;> split <;> omega
  cases supplied with
  | none =>
    obtain ⟨batch, e', source', hloop, hmoves⟩ :=
      getDataLoop_spec true e.bufsize _ e source [] none hfits (Or.inr rfl) hfuel
    exact ⟨batch, e', source', hloop, hmoves.bytes, hmoves.fits, hmoves.longer,
      hmoves.actions_le, fun _ => hmoves.progress (Or.inl rfl)⟩
  | some size =>
    obtain ⟨batch, e', source', hloop, hmoves⟩ :=
      getDataLoop_spec false size _ e source [] none hfits (Or.inr rfl) hfuel
    exact ⟨batch, e', source', hloop, hmoves.bytes, hmoves.fits, hmoves.longer,
      hmoves.actions_le, fun hne => hmoves.progress (Or.inr fun h0 => hne (by rw [h0]))⟩

end Encoder

/-! ## All batches together -/

namespace Sender

variable {wire : List UInt8} {supplied : Option Nat} {s s' : Sender}

structure Inv (wire : List UInt8) (s : Sender) : Prop where
  bytes : s.out ++ (s.encoder.pending ++ s.source.wire) = wire
  fits : s.source.Fits

def Drained (s : Sender) : Prop := s.encoder.pending = [] ∧ s.source = []

def work (s : Sender) : Nat :=
  s.encoder.actions s.source + (s.encoder.pending ++ s.source.wire).length

theorem Inv.step (h : Inv wire s) (supplied : Option Nat) :
    ∃ s', s.step supplied = .ok s' ∧ Inv wire s' ∧
      (supplied ≠ some 0 → s'.work < s.work ∨ s.Drained) := by
  obtain ⟨batch, e', source', hget, hmoves⟩ := s.encoder.getData_spec h.fits supplied
  refine ⟨⟨e', source', s.out ++ batch.data⟩, by simp only [Sender.step, hget], ⟨?_, hmoves.fits⟩,
    fun hne => ?_⟩
  · rw [← h.bytes]
    show s.out ++ batch.data ++ (e'.pending ++ source'.wire) = _
    rw [List.append_assoc, hmoves.bytes, List.nil_append]
  · have hlen := congrArg List.length hmoves.bytes
    have hactions := hmoves.actions_le
    rw [List.nil_append, List.length_append] at hlen
    rcases hmoves.progress hne with hless | hlonger | hdrained
    · left
      show e'.actions source' + (e'.pending ++ source'.wire).length < _
      unfold work
      omega
    · left
      show e'.actions source' + (e'.pending ++ source'.wire).length < _
      unfold work
      rw [List.length_nil] at hlonger
      omega
    · exact Or.inr hdrained

theorem inv_init (bufsize : Nat) {source : Source} (h : source.Fits) :
    Inv source.wire (init bufsize source) := ⟨rfl, h⟩

theorem Inv.of_step (h : Inv wire s) (hs : s.step supplied = .ok s') :
    Inv wire s' ∧ (supplied ≠ some 0 → s'.work < s.work ∨ s.Drained) := by
  obtain ⟨s1, hs1, hinv, hwork⟩ := h.step supplied
  rw [hs, Except.ok.injEq] at hs1
  rw [hs1]
  exact ⟨hinv, hwork⟩

theorem Drained.step (hd : s.Drained) (h : Inv wire s)
    (hs : s.step supplied = .ok s') : s'.Drained := by
  obtain ⟨batch, e', source', hget, hmoves⟩ := s.encoder.getData_spec h.fits supplied
  simp only [Sender.step, hget, Except.ok.injEq] at hs
  have hbytes := hmoves.bytes
  have hactions := hmoves.actions_le
  rw [hd.1, hd.2] at hbytes
  simp only [Source.wire, Source.messages, List.filterMap_nil, List.flatMap_nil, List.append_nil,
    List.append_eq_nil_iff] at hbytes
  rw [hd.2] at hactions
  rw [← hs]
  refine ⟨hbytes.2.1, List.eq_nil_of_length_eq_zero ?_⟩
  show source'.length = 0
  unfold Encoder.actions at hactions
  rw [List.length_nil] at hactions
  grind

theorem Inv.run_drained (h : Inv wire s)
    {requests : List (Option Nat)} (hne : ∀ r ∈ requests, r ≠ some 0)
    (hlen : s.work < requests.length) (hrun : run Sender.step s requests = .ok s') :
    s'.Drained := by
  refine run_reaches Sender.work ?_ ?_ ?_ requests s s' h hne hrun (Or.inr hlen)
  · exact fun _ _ _ hI hs => (Inv.of_step hI hs).1
  · exact fun _ _ _ hI hd hs => Drained.step hd hI hs
  · exact fun _ _ _ hI hr hd hs => Or.inr (((Inv.of_step hI hs).2 hr).resolve_right hd)

theorem Inv.run_ok (h : Inv wire s) (requests : List (Option Nat)) :
    ∃ s', run Sender.step s requests = .ok s' ∧ Inv wire s' := by
  refine run_safe (fun s r hI => ?_) requests s h
  obtain ⟨s', hs, hinv, -⟩ := hI.step r
  exact ⟨s', hs, hinv⟩

end Sender

end Libxs
