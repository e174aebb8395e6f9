import Libxs.Foundation.Framer
import Libxs.Msg
import Mathlib.Data.Nat.Bitwise

/-! # The framing protocol -/

namespace Libxs

variable {body bytes : List UInt8} {m : Msg} {length max : Nat}

/-! ## Integers in network byte order -/

def putUint16 (value : UInt16) : List UInt8 :=
  [((value >>> 8) &&& 0xff).toUInt8, (value &&& 0xff).toUInt8]

def getUint16 : List UInt8 → UInt16
  | b0 :: b1 :: _ => (b0.toUInt16 <<< 8) ||| b1.toUInt16
  | _ => 0

@[simp] theorem length_putUint16 (value : UInt16) : (putUint16 value).length = 2 := rfl

@[simp] theorem getUint16_putUint16 (value : UInt16) (rest : List UInt8) :
    getUint16 (putUint16 value ++ rest) = value := by
  apply UInt16.toNat_inj.1
  have hv := value.toNat_lt
  simp only [putUint16, getUint16, List.cons_append, UInt16.toNat_or, UInt16.toNat_shiftLeft,
    UInt8.toNat_toUInt16, UInt16.toNat_toUInt8, UInt16.toNat_and, UInt16.toNat_shiftRight,
    UInt16.reduceToNat, Nat.reduceMod]
  rw [show (255 : Nat) = 2 ^ 8 - 1 from rfl, Nat.and_two_pow_sub_one_eq_mod,
    Nat.and_two_pow_sub_one_eq_mod, Nat.mod_mod, Nat.mod_mod, Nat.shiftRight_eq_div_pow]
  have hhigh : (value.toNat / 2 ^ 8 % 2 ^ 8) <<< 8 % 2 ^ 16 = (value.toNat / 2 ^ 8) <<< 8 := by
    simp only [Nat.shiftLeft_eq]
    omega
  rw [hhigh, ← Nat.shiftLeft_add_eq_or_of_lt (Nat.mod_lt _ (by decide)), Nat.shiftLeft_eq]
  omega

def putUint32 (value : UInt32) : List UInt8 :=
  [((value >>> 24) &&& 0xff).toUInt8, ((value >>> 16) &&& 0xff).toUInt8,
    ((value >>> 8) &&& 0xff).toUInt8, (value &&& 0xff).toUInt8]

def getUint32 : List UInt8 → UInt32
  | b0 :: b1 :: b2 :: b3 :: _ =>
    (b0.toUInt32 <<< 24) ||| (b1.toUInt32 <<< 16) ||| (b2.toUInt32 <<< 8) ||| b3.toUInt32
  | _ => 0

def putUint64 (value : UInt64) : List UInt8 :=
  [((value >>> 56) &&& 0xff).toUInt8, ((value >>> 48) &&& 0xff).toUInt8,
    ((value >>> 40) &&& 0xff).toUInt8, ((value >>> 32) &&& 0xff).toUInt8,
    ((value >>> 24) &&& 0xff).toUInt8, ((value >>> 16) &&& 0xff).toUInt8,
    ((value >>> 8) &&& 0xff).toUInt8, (value &&& 0xff).toUInt8]

def getUint64 : List UInt8 → UInt64
  | [b0, b1, b2, b3, b4, b5, b6, b7] =>
    (b0.toUInt64 <<< 56) ||| (b1.toUInt64 <<< 48) ||| (b2.toUInt64 <<< 40) |||
      (b3.toUInt64 <<< 32) ||| (b4.toUInt64 <<< 24) ||| (b5.toUInt64 <<< 16) |||
      (b6.toUInt64 <<< 8) ||| b7.toUInt64
  | _ => 0

theorem testBit_byteAt (w value k i : Nat) (hk : k + 8 ≤ w) :
    ((((value >>> k) &&& 255) % 2 ^ 8) <<< k % 2 ^ w).testBit i =
      (value.testBit i && decide (k ≤ i ∧ i < k + 8)) := by
  have hmask : (255 : Nat) = 2 ^ 8 - 1 := rfl
  rw [hmask, Nat.and_two_pow_sub_one_eq_mod, Nat.mod_mod]
  simp only [Nat.testBit_mod_two_pow, Nat.testBit_shiftLeft, Nat.testBit_shiftRight]
  grind

theorem testBit_lastByte (value i : Nat) :
    ((value &&& 255) % 2 ^ 8).testBit i = (value.testBit i && decide (i < 8)) := by
  rw [show (255 : Nat) = 2 ^ 8 - 1 from rfl, Nat.and_two_pow_sub_one_eq_mod, Nat.mod_mod,
    Nat.testBit_mod_two_pow, Bool.and_comm]

theorem lt_of_testBit {w value i : Nat} (hv : value < 2 ^ w) (h : value.testBit i = true) : i < w := by
  by_contra hge
  have hlt : value < 2 ^ i :=
    Nat.lt_of_lt_of_le hv (Nat.pow_le_pow_right (by decide) (by omega))
  rw [Nat.testBit_lt_two_pow hlt] at h
  cases h

@[simp] theorem getUint64_putUint64 (value : UInt64) : getUint64 (putUint64 value) = value := by
  apply UInt64.toNat_inj.1
  apply Nat.eq_of_testBit_eq
  intro i
  simp only [putUint64, getUint64, UInt64.toNat_or, UInt64.toNat_shiftLeft, UInt8.toNat_toUInt64,
    UInt64.toNat_toUInt8, UInt64.toNat_and, UInt64.toNat_shiftRight, UInt64.reduceToNat,
    Nat.reduceMod, Nat.testBit_lor]
  simp only [testBit_byteAt 64 value.toNat 56 i (by omega),
    testBit_byteAt 64 value.toNat 48 i (by omega), testBit_byteAt 64 value.toNat 40 i (by omega),
    testBit_byteAt 64 value.toNat 32 i (by omega), testBit_byteAt 64 value.toNat 24 i (by omega),
    testBit_byteAt 64 value.toNat 16 i (by omega), testBit_byteAt 64 value.toNat 8 i (by omega),
    testBit_lastByte]
  cases hbit : value.toNat.testBit i with
  | false => simp
  | true =>
    -- every bit of the number lies in one of the eight bytes
    have hi := lt_of_testBit value.toNat_lt hbit
    simp only [Bool.true_and, ← Bool.decide_or, decide_eq_true_eq]
    omega

@[simp] theorem getUint32_putUint32 (value : UInt32) : getUint32 (putUint32 value) = value := by
  apply UInt32.toNat_inj.1
  apply Nat.eq_of_testBit_eq
  intro i
  simp only [putUint32, getUint32, UInt32.toNat_or, UInt32.toNat_shiftLeft, UInt8.toNat_toUInt32,
    UInt32.toNat_toUInt8, UInt32.toNat_and, UInt32.toNat_shiftRight, UInt32.reduceToNat,
    Nat.reduceMod, Nat.testBit_lor]
  simp only [testBit_byteAt 32 value.toNat 24 i (by omega),
    testBit_byteAt 32 value.toNat 16 i (by omega), testBit_byteAt 32 value.toNat 8 i (by omega),
    testBit_lastByte]
  cases hbit : value.toNat.testBit i with
  | false => simp
  | true =>
    have hi := lt_of_testBit value.toNat_lt hbit
    simp only [Bool.true_and, ← Bool.decide_or, decide_eq_true_eq]
    omega

def Msg.part (more : Bool) (data : List UInt8) : Msg :=
  ⟨false, if more then Msg.moreFlag else 0, data⟩

def Msg.idPart (id : UInt32) : Msg := ⟨false, Msg.moreFlag, putUint32 id⟩

def Msg.isId (m : Msg) (id : UInt32) : Bool := m.more && m.size == 4 && getUint32 m.data == id

theorem Msg.isId_eq_false {id : UInt32} :
    m.isId id = false ↔ (!m.more || m.size != 4 || getUint32 m.data != id) = true := by
  rw [← Bool.not_eq_true', isId, Bool.not_and, Bool.not_and]
  rfl

/-! ## Frames -/

def lengthField : List UInt8 → Option (Nat × List UInt8)
  | [] => none
  | b :: bytes =>
    if b = 0xff then
      if bytes.length < 8 then none
      else some ((getUint64 (bytes.take 8)).toNat, bytes.drop 8)
    else some (b.toNat, bytes)

def nextFrame (max : Nat) (bytes : List UInt8) : Item UInt8 Msg :=
  match lengthField bytes with
  | none => .incomplete
  | some (length, body) =>
    if length = 0 ∨ max < length - 1 then .malformed
    else
      match body with
      | [] => .incomplete
      | flags :: payload =>
        if payload.length < length - 1 then .incomplete
        else .item ⟨false, flags &&& 1, payload.take (length - 1)⟩ (payload.drop (length - 1))

theorem lengthField_length
    (h : lengthField bytes = some (length, body)) : body.length < bytes.length := by
  cases bytes with
  | nil => simp [lengthField] at h
  | cons b bytes => grind [lengthField]

theorem lengthField_append (h : lengthField bytes = some (length, body)) (more : List UInt8) :
    lengthField (bytes ++ more) = some (length, body ++ more) := by
  cases bytes with
  | nil => simp [lengthField] at h
  | cons b bytes =>
    rw [List.cons_append]
    simp only [lengthField] at h ⊢
    split at h
    next hb => grind
    next hb => grind

theorem nextFrame_item {rest : List UInt8} (h : nextFrame max bytes = .item m rest) :
    ∃ length flags payload, lengthField bytes = some (length, flags :: payload) ∧ length ≠ 0 ∧
      length - 1 ≤ max ∧ length - 1 ≤ payload.length ∧
      m = ⟨false, flags &&& 1, payload.take (length - 1)⟩ ∧ rest = payload.drop (length - 1) := by
  unfold nextFrame at h
  split at h
  · cases h
  next length body hlen =>
    split at h
    · cases h
    next hok => grind

theorem nextFrame_malformed_iff : nextFrame max bytes = .malformed ↔
      ∃ length body, lengthField bytes = some (length, body) ∧ (length = 0 ∨ max < length - 1) := by
  unfold nextFrame
  constructor
  · grind
  · grind

theorem nextFrame_of_lengthField {payload : List UInt8}
    {flags : UInt8} (h : lengthField bytes = some (length, flags :: payload)) (h0 : length ≠ 0)
    (hmax : length - 1 ≤ max) (hpayload : length - 1 ≤ payload.length) :
    nextFrame max bytes =
      .item ⟨false, flags &&& 1, payload.take (length - 1)⟩ (payload.drop (length - 1)) := by
  unfold nextFrame
  simp only [h]
  rw [if_neg (by omega), if_neg (by omega)]

def frames (max : Nat) : Framer UInt8 Msg where
  next := nextFrame max
  shorter := by
    intro bytes m rest h
    obtain ⟨length, flags, payload, hlen, -, -, -, -, rfl⟩ := nextFrame_item h
    have := lengthField_length hlen
    rw [List.length_drop]
    simp only [List.length_cons] at this
    omega
  item_append := by
    intro bytes m rest more h
    obtain ⟨length, flags, payload, hlen, h0, hmax, hpayload, rfl, rfl⟩ := nextFrame_item h
    have hlen' : lengthField (bytes ++ more) = some (length, flags :: (payload ++ more)) :=
      lengthField_append hlen more
    rw [nextFrame_of_lengthField hlen' h0 hmax (by rw [List.length_append]; omega),
      List.take_append_of_le_length hpayload, List.drop_append_of_le_length hpayload]
  malformed_append := by
    intro bytes more h
    obtain ⟨length, body, hlen, hbad⟩ := nextFrame_malformed_iff.1 h
    exact nextFrame_malformed_iff.2 ⟨length, body ++ more, lengthField_append hlen more, hbad⟩

/-! ## Messages as frames -/

def lengthBytes (length : Nat) : List UInt8 :=
  if length < 255 then [UInt8.ofNat length] else 0xff :: putUint64 (UInt64.ofNat length)

namespace Msg

def frame (m : Msg) : List UInt8 :=
  lengthBytes (m.size + 1) ++ (m.flags &&& ~~~ sharedFlag) :: m.data

def received (m : Msg) : Msg := ⟨false, m.flags &&& moreFlag, m.data⟩

end Msg

variable {max : Nat}

theorem lengthField_lengthBytes {length : Nat} (h : length < 2 ^ 64) (rest : List UInt8) :
    lengthField (lengthBytes length ++ rest) = some (length, rest) := by
  unfold lengthBytes
  split
  next hshort =>
    have hbyte : (UInt8.ofNat length).toNat = length :=
      UInt8.toNat_ofNat_of_lt' (show length < 256 by omega)
    have hne : UInt8.ofNat length ≠ 0xff := by
      intro heq
      rw [heq] at hbyte
      have h255 : (0xff : UInt8).toNat = 255 := rfl
      omega
    simp only [List.singleton_append, lengthField, if_neg hne, hbyte]
  · have hlen : (putUint64 (UInt64.ofNat length)).length = 8 := rfl
    simp only [List.cons_append, lengthField, if_true]
    rw [if_neg (by rw [List.length_append, hlen]; omega), List.take_append_of_le_length (by omega),
      List.drop_append_of_le_length (by omega), ← hlen, List.take_length, List.drop_length,
      getUint64_putUint64, UInt64.toNat_ofNat_of_lt' h, List.nil_append]

theorem nextFrame_frame (m : Msg) (hfits : m.size + 1 < 2 ^ 64) (hmax : m.size ≤ max)
    (rest : List UInt8) : nextFrame max (m.frame ++ rest) = .item m.received rest := by
  have hlen := lengthField_lengthBytes hfits ((m.flags &&& ~~~ Msg.sharedFlag) :: m.data ++ rest)
  rw [← List.append_assoc] at hlen
  rw [List.cons_append] at hlen
  rw [Msg.frame, nextFrame_of_lengthField hlen (by omega) (by omega)
    (by rw [List.length_append]; exact Nat.le_add_right _ _)]
  have hflags : m.flags &&& ~~~ Msg.sharedFlag &&& 1 = m.flags &&& Msg.moreFlag := by
    rw [UInt8.and_assoc]
    rfl
  have hsize : m.size + 1 - 1 = m.data.length := rfl
  rw [hsize, hflags, List.take_left, List.drop_left]
  rfl

theorem items_flatMap_frame (ms : List Msg) (hms : ∀ m ∈ ms, m.size + 1 < 2 ^ 64 ∧ m.size ≤ max) :
    (frames max).Reads (ms.flatMap Msg.frame) (ms.map Msg.received) [] := by
  induction ms with
  | nil => exact .nil []
  | cons m ms ih =>
    obtain ⟨hfits, hmax⟩ := hms m (by simp)
    rw [List.flatMap_cons, List.map_cons]
    exact .cons (nextFrame_frame m hfits hmax _) (ih fun m' hm' => hms m' (by simp [hm']))

end Libxs
