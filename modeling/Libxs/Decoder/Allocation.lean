import Libxs.Decoder

/-! # The block for a message that was announced on the wire -/

namespace Libxs

namespace Msg

def requested (size : Nat) : Nat := (contentSize + size) % 2 ^ 64

def Encloses (size : Nat) : Prop := size ≤ maxVsmSize ∨ contentSize + size ≤ requested size

def AllocatesFully (malloc : Nat → Bool) (size : Nat) : Prop :=
  initSize malloc size = .ok false ∨ initSize malloc size = .ok true ∧ Encloses size

def Unwrapped (malloc : Nat → Bool) (size : Nat) : Prop :=
  size ≤ maxVsmSize ∨ contentSize + size < 2 ^ 64 ∨ malloc (requested size) = false

variable {malloc : Nat → Bool} {size : Nat}

theorem initSize_of_long (hlong : ¬ size ≤ maxVsmSize) :
    initSize malloc size =
      if !malloc (requested size) then .ok false
      else if requested size < contentSize then .error .blockTooSmall
      else .ok true := by
  rw [initSize, if_neg hlong]
  rfl

theorem encloses_of_header (hsize : size < 2 ^ 64) (h : contentSize ≤ requested size) : Encloses size := by
  right
  unfold requested contentSize at *
  omega

theorem encloses_of_initSize (hsize : size < 2 ^ 64) (h : initSize malloc size = .ok true) :
    Encloses size := by
  by_cases hshort : size ≤ maxVsmSize
  · exact Or.inl hshort
  · grind [initSize_of_long, encloses_of_header]

theorem allocatesFully_iff (hsize : size < 2 ^ 64) : AllocatesFully malloc size ↔ Unwrapped malloc size := by
  by_cases hshort : size ≤ maxVsmSize
  · have hok : initSize malloc size = .ok true := by rw [initSize, if_pos hshort]
    exact iff_of_true (Or.inr ⟨hok, Or.inl hshort⟩) (Or.inl hshort)
  · unfold AllocatesFully Unwrapped
    rw [initSize_of_long hshort]
    cases hmalloc : malloc (requested size) with
    | false => simp
    | true =>
      by_cases hfits : contentSize + size < 2 ^ 64
      · have hsum : requested size = contentSize + size := Nat.mod_eq_of_lt hfits
        have hheader : ¬ contentSize + size < contentSize := by omega
        rw [hsum, if_neg (by simp), if_neg hheader]
        exact iff_of_true (Or.inr ⟨rfl, Or.inr (Nat.le_of_eq hsum.symm)⟩) (Or.inr (Or.inl hfits))
      · have hheader : requested size < contentSize := by
          unfold requested contentSize at *
          omega
        rw [if_neg (by simp), if_pos hheader]
        exact iff_of_false (by simp) (by simp only [hshort, hfits, or_self, reduceCtorEq, not_false_eq_true])

end Msg

namespace Decoder

/-! ## The length field -/

def payloadLength (d : Decoder) : Nat := (getUint64 d.filled).toNat

def Admits (d : Decoder) : Prop := d.payloadLength ≠ 0 ∧ d.payloadLength - 1 ≤ d.maxmsgsize

def AllocatesFully (malloc : Nat → Bool) (d : Decoder) : Prop :=
  (∃ d', d.eightByteSizeReady malloc = .ok (false, d') ∧ d'.next = none) ∨
    ∃ d', d.eightByteSizeReady malloc = .ok (true, d') ∧ d'.next = some .flagsReady ∧
      d'.size = d.payloadLength - 1 ∧ Msg.Encloses d'.size

variable {malloc : Nat → Bool} {d d' : Decoder} {s s' : Session} {b : Bool} {size : Nat}

theorem eightByteSizeReady_of_admits (h : d.Admits) :
    d.eightByteSizeReady malloc = d.allocate malloc (d.payloadLength - 1) := by
  have hlt : d.payloadLength < 2 ^ 64 := (getUint64 d.filled).toNat_lt
  have hmax := h.2
  unfold payloadLength at hlt hmax
  have hzero : ¬ (getUint64 d.filled).toNat = 0 := h.1
  simp only [eightByteSizeReady, if_neg hzero]
  rw [if_neg (by omega), if_neg (by omega)]
  rfl

theorem eightByteSizeReady_of_not_admits (h : ¬ d.Admits) :
    d.eightByteSizeReady malloc = .ok (false, d.decodingError) := by
  have hbad : (getUint64 d.filled).toNat = 0 ∨ d.maxmsgsize < (getUint64 d.filled).toNat - 1 := by
    unfold Admits payloadLength at h
    omega
  unfold eightByteSizeReady
  grind

theorem allocatesFully_iff : d.AllocatesFully malloc ↔
    (d.Admits → Msg.Unwrapped malloc (d.payloadLength - 1)) := by
  by_cases hadmits : d.Admits
  · have hlt : d.payloadLength - 1 < 2 ^ 64 :=
      Nat.lt_of_le_of_lt (Nat.sub_le ..) (getUint64 d.filled).toNat_lt
    rw [← Msg.allocatesFully_iff hlt]
    unfold AllocatesFully Msg.AllocatesFully
    rw [eightByteSizeReady_of_admits hadmits, allocate]
    rcases Msg.initSize malloc (d.payloadLength - 1) with e | _ | _ <;>
      simp [hadmits, decodingError, nextStep]
  · refine iff_of_true (Or.inl ⟨_, eightByteSizeReady_of_not_admits hadmits, rfl⟩) fun h => ?_
    exact absurd h hadmits

/-! ## The bytes read into the message -/

structure Inside (d : Decoder) : Prop where
  enclosed : d.next = some .flagsReady ∨ d.next = some .messageReady → Msg.Encloses d.size
  bounded : d.next = some .messageReady → d.filled.length + d.toRead = d.size

theorem inside_of_next (hflags : d.next ≠ some .flagsReady) (hmessage : d.next ≠ some .messageReady) :
    d.Inside :=
  ⟨fun h => absurd h (by simp [hflags, hmessage]), fun h => absurd h hmessage⟩

theorem inside_allocate (hsize : size < 2 ^ 64) (h : d.allocate malloc size = .ok (b, d')) : d'.Inside := by
  unfold allocate at h
  cases hinit : Msg.initSize malloc size with
  | error e => simp [hinit] at h
  | ok granted =>
    cases granted with
    | false => grind [inside_of_next, decodingError]
    | true =>
      simp only [hinit] at h
      cases h
      exact ⟨fun _ => Msg.encloses_of_initSize hsize hinit, fun h => absurd h (by simp [nextStep])⟩

theorem inside_decodingError (d : Decoder) : d.decodingError.Inside :=
  inside_of_next (by simp [decodingError]) (by simp [decodingError])

theorem inside_oneByteSizeReady (h : d.oneByteSizeReady malloc = .ok (b, d')) : d'.Inside := by
  unfold oneByteSizeReady at h
  dsimp only at h
  have hlt := (d.filled.headD 0).toNat_lt
  split_ifs at h
  · cases h
    exact inside_of_next (by simp [nextStep]) (by simp [nextStep])
  · cases h
    exact inside_decodingError d
  · cases h
    exact inside_decodingError _
  · exact inside_allocate (by omega) h

theorem inside_eightByteSizeReady (h : d.eightByteSizeReady malloc = .ok (b, d')) : d'.Inside := by
  by_cases hadmits : d.Admits
  · rw [eightByteSizeReady_of_admits hadmits] at h
    exact inside_allocate (Nat.lt_of_le_of_lt (Nat.sub_le ..) (getUint64 d.filled).toNat_lt) h
  · grind [eightByteSizeReady_of_not_admits, inside_decodingError]

theorem Inside.flagsReady (h : d.Inside) (hnext : d.next = some .flagsReady) : d.flagsReady.Inside :=
  ⟨fun _ => h.enclosed (Or.inl hnext), fun _ => by simp [Decoder.flagsReady, nextStep]⟩

theorem Inside.messageReady (h : d.Inside) (s : Session) : (d.messageReady s).2.1.Inside := by
  unfold Decoder.messageReady
  rcases s.write d.message with ⟨_ | _ | _, s⟩
  · exact inside_of_next (by simp [nextStep]) (by simp [nextStep])
  · exact h
  · exact inside_decodingError d

theorem Inside.act (h : d.Inside) (hact : d.act malloc s = .ok (b, d', s')) : d'.Inside := by
  unfold Decoder.act at hact
  split at hact
  · cases hact
  · grind [inside_oneByteSizeReady]
  · grind [inside_eightByteSizeReady]
  next hnext =>
    cases hact
    exact h.flagsReady hnext
  · rw [Except.ok.injEq] at hact
    have hmessage := h.messageReady s
    rw [hact] at hmessage
    exact hmessage

theorem Inside.settle (fuel : Nat) : ∀ {d d' : Decoder} {s s' : Session} {b : Bool}, d.Inside →
    d.settle malloc fuel s = .ok (b, d', s') → d'.Inside := by
  induction fuel with
  | zero =>
    intro d d' s s' b _ hs
    exact absurd hs (by simp [Decoder.settle])
  | succ fuel ih =>
    intro d d' s s' b h hs
    rw [Decoder.settle] at hs
    split at hs
    · cases hs
      exact h
    · cases hact : d.act malloc s with
      | error e => simp [hact] at hs
      | ok r =>
        obtain ⟨b₁, d₁, s₁⟩ := r
        have h₁ := h.act hact
        grind

theorem Inside.fill (h : d.Inside) {bytes : List UInt8} (hle : bytes.length ≤ d.toRead) :
    (d.fill bytes).Inside := by
  refine ⟨h.enclosed, fun hnext => ?_⟩
  have hsum := h.bounded hnext
  simp only [Decoder.fill, List.length_append]
  omega

theorem Inside.copyLoop (fuel : Nat) : ∀ {d d' : Decoder} {s s' : Session} {data : List UInt8}
    {pos : Nat} {r : Option Nat}, d.Inside →
    d.copyLoop malloc fuel s data pos = .ok (r, d', s') → d'.Inside := by
  induction fuel with
  | zero =>
    intro d d' s s' data pos r _ hs
    exact absurd hs (by simp [Decoder.copyLoop])
  | succ fuel ih =>
    intro d d' s s' data pos r h hs
    rw [Decoder.copyLoop] at hs
    cases hsettle : d.settle malloc settleFuel s with
    | error e => simp [hsettle] at hs
    | ok r₁ =>
      obtain ⟨b₁, d₁, s₁⟩ := r₁
      have h₁ := h.settle settleFuel hsettle
      cases b₁ with
      | false =>
        simp only [hsettle] at hs
        cases hs
        exact h₁
      | true => grind [h₁.fill]

theorem Inside.processBuffer (h : d.Inside) {direct : Bool} {data : List UInt8} {r : Option Nat}
    (hs : d.processBuffer malloc s direct data = .ok (r, d', s')) : d'.Inside := by
  unfold Decoder.processBuffer at hs
  split at hs
  · cases hs
    exact h
  · split at hs
    · -- the caller has written to where get_buffer told it to
      split at hs
      · cases hs
      next hle =>
        have hfill := h.fill (Nat.le_of_not_lt hle)
        cases hsettle : (d.fill data).settle malloc settleFuel s with
        | error e => simp [hsettle] at hs
        | ok r₁ =>
          obtain ⟨b₁, d₁, s₁⟩ := r₁
          have h₁ := hfill.settle settleFuel hsettle
          cases b₁ <;> simp only [hsettle, Except.ok.injEq, Prod.mk.injEq] at hs <;> exact hs.2.1 ▸ h₁
    · exact h.copyLoop _ hs

end Decoder

namespace Feed

variable {malloc : Nat → Bool} {f f' : Feed}

theorem inside_handIn (h : f.decoder.Inside) {direct : Bool} {size : Nat}
    (hs : f.handIn malloc direct size = .ok f') : f'.decoder.Inside := by
  unfold handIn at hs
  grind [h.processBuffer]

theorem inside_step (h : f.decoder.Inside) {op : FeedOp} (hs : f.step malloc op = .ok f') :
    f'.decoder.Inside := by
  cases op with
  | inEvent ready =>
    simp only [step] at hs
    split at hs <;> exact inside_handIn h hs
  | push size => exact inside_handIn h hs

/-- **The block matches the announced size** exactly if the sum of its size and the header's does not wrap
    around. -/
theorem allocation_matches_iff (malloc : Nat → Bool) :
    (∀ size : UInt64, Msg.AllocatesFully malloc size.toNat ↔ Msg.Unwrapped malloc size.toNat) ∧
      (∀ d : Decoder, d.AllocatesFully malloc ↔
        (d.Admits → Msg.Unwrapped malloc (d.payloadLength - 1))) ∧
      ∀ (bufsize max : Nat) (answers : List Answer) (stream : List UInt8) (ops : List FeedOp) (f : Feed),
        run (step malloc) (init bufsize max answers stream) ops = .ok f → f.decoder.Inside := by
  refine ⟨fun size => Msg.allocatesFully_iff size.toNat_lt, fun d => Decoder.allocatesFully_iff, ?_⟩
  intro bufsize max answers stream ops f hrun
  have hinit : (init bufsize max answers stream).decoder.Inside :=
    Decoder.inside_of_next (by simp [init, Decoder.init]) (by simp [init, Decoder.init])
  exact run_preserves (I := fun f => f.decoder.Inside) (fun _ _ _ hI hs => inside_step hI hs) _ _ f hinit hrun

theorem longFrame_inside : ∃ f, run (step fun _ => true)
    (init 8192 (2 ^ 64 - 1) [] [255, 0, 0, 0, 0, 0, 0, 0, 31, 0, 7, 8]) [.push 12] = .ok f ∧
      f.decoder.next = some .messageReady ∧ f.decoder.filled = [7, 8] ∧ f.decoder.Inside :=
  ⟨_, rfl, rfl, rfl, (allocation_matches_iff fun _ => true).2.2 8192 (2 ^ 64 - 1) []
    [255, 0, 0, 0, 0, 0, 0, 0, 31, 0, 7, 8] [.push 12] _ rfl⟩

def wrappingField : Decoder :=
  { Decoder.init 8192 (2 ^ 64 - 1) with
    filled := [255, 255, 255, 255, 255, 255, 255, 217]
    toRead := 0
    next := some .eightByteSizeReady }

theorem wrappingField_not_allocated : wrappingField.payloadLength - 1 = 2 ^ 64 - 40 ∧
    Msg.requested (2 ^ 64 - 40) = 0 ∧ ¬ Msg.AllocatesFully (fun _ => true) (2 ^ 64 - 40) ∧
    ¬ wrappingField.AllocatesFully fun _ => true := by
  have hmsg : Msg.initSize (fun _ => true) (2 ^ 64 - 40) = .error .blockTooSmall := rfl
  have hfield : wrappingField.eightByteSizeReady (fun _ => true) = .error .blockTooSmall := rfl
  refine ⟨rfl, rfl, ?_, ?_⟩
  · unfold Msg.AllocatesFully
    rw [hmsg]
    simp
  · unfold Decoder.AllocatesFully
    rw [hfield]
    simp

end Feed

end Libxs
