import Libxs.Decoder.Session
import Libxs.PgmReceiver

/-! # What a receiver makes of the streams of its peers -/

namespace Libxs

open Decoder (Follows Sound)

variable {τ : Type}

/-! ## Streams -/

structure PeerStream where
  past : List (List UInt8)
  current : Option (List UInt8)

namespace PeerStream

variable [DecidableEq τ] {header : List UInt8} {tsi : τ} {max : Nat}

def init : PeerStream := ⟨[], none⟩

def all (st : PeerStream) : List (List UInt8) := st.past ++ st.current.toList

def datagram (st : PeerStream) (offset : UInt16) (data : List UInt8) : PeerStream :=
  match st.current with
  | some bytes => { st with current := some (bytes ++ data) }
  | none => if offset = 0xffff then st else { st with current := some (data.drop offset.toNat) }

def receive (header : List UInt8) (tsi : τ) (st : PeerStream) : Received τ → PeerStream
  | .nothing => st
  | .loss p => if p = tsi then ⟨st.all, none⟩ else st
  | .datagram p data =>
    if p = tsi then
      match PgmReceiver.unpack header data with
      | none => st
      | some (offset, data) => st.datagram offset data
    else st

def ofReceived (header : List UInt8) (tsi : τ) (rs : List (Received τ)) : PeerStream :=
  rs.foldl (receive header tsi) init

theorem ofReceived_concat (rs : List (Received τ)) (r : Received τ) :
    ofReceived header tsi (rs ++ [r]) = (ofReceived header tsi rs).receive header tsi r := by
  simp [ofReceived]

omit [DecidableEq τ] in
theorem mem_all_of_current {st : PeerStream} {bytes : List UInt8} (h : bytes ∈ st.current) :
    bytes ∈ st.all := by
  rw [Option.mem_def] at h
  simp [all, h]

def messages (max : Nat) (st : PeerStream) : List Msg := st.all.flatMap (frames max).items

theorem receive_other {p : τ} (hp : p ≠ tsi) (st : PeerStream) (data : List UInt8) :
    st.receive header tsi (.loss p) = st ∧ st.receive header tsi (.datagram p data) = st := by
  simp [receive, hp]

end PeerStream

def Received.Continues (p : τ) : Received τ → Prop
  | .nothing => True
  | .loss _ => False
  | .datagram tsi _ => tsi = p

instance [DecidableEq τ] (p : τ) : ∀ r : Received τ, Decidable (r.Continues p)
  | .nothing => .isTrue trivial
  | .loss _ => .isFalse id
  | .datagram tsi _ => inferInstanceAs (Decidable (tsi = p))

namespace PgmReceiver

variable [DecidableEq τ] {malloc : Nat → Bool} {header : List UInt8} {max : Nat}
  {s t : PgmReceiver τ} {tsi p : τ}
variable {d : Decoder} {got : List Msg} {consumed data : List UInt8} {st : PeerStream}

structure WellFormed (malloc : Nat → Bool) (header : List UInt8) (max : Nat)
    (incoming : List (Received τ)) : Prop where
  offsets : ∀ tsi data offset payload, .datagram tsi data ∈ incoming →
    unpack header data = some (offset, payload) → offset ≠ 0xffff → offset.toNat ≤ payload.length
  sound : ∀ rs, rs <+: incoming → ∀ tsi, ∀ bytes ∈ (PeerStream.ofReceived header tsi rs).all,
    Sound malloc max bytes

def rest (s : PgmReceiver τ) (tsi : τ) : List UInt8 :=
  if s.mruDecoder = some tsi then s.pendingPtr.take s.pendingBytes else []

def HoldsBack (s : PgmReceiver τ) (tsi : τ) : Prop :=
  ∃ info ∈ s.peers tsi, ∃ d ∈ info.decoder, d.Stalled

inductive Peer (malloc : Nat → Bool) (max : Nat) (s : PgmReceiver τ) (tsi : τ) (st : PeerStream) :
    Prop where
  | apart : s.peers tsi = none ∨ s.peers tsi = some ⟨false, none⟩ → st.current = none →
      s.deliveredBy tsi = st.past.flatMap (frames max).items → Peer malloc max s tsi st
  | joined {d : Decoder} {consumed : List UInt8} {got : List Msg} :
      s.peers tsi = some ⟨true, some d⟩ → st.current = some (consumed ++ s.rest tsi) →
      Follows malloc max consumed d got →
      s.deliveredBy tsi = st.past.flatMap (frames max).items ++ got → Peer malloc max s tsi st

structure Inv (malloc : Nat → Bool) (header : List UInt8) (max : Nat) (incoming : List (Received τ))
    (s : PgmReceiver τ) : Prop where
  protocol : s.header = header
  limit : s.maxmsgsize = max
  whole : s.received ++ s.incoming = incoming
  answers : .failed ∉ s.answers
  peers : ∀ tsi, s.Peer malloc max tsi (PeerStream.ofReceived header tsi s.received)
  mru : ∀ tsi ∈ s.mruDecoder, ∃ d, s.peers tsi = some ⟨true, some d⟩
  pending : 0 < s.pendingBytes → s.pendingBytes = s.pendingPtr.length ∧ s.mruDecoder ≠ none
  held : ∀ tsi, s.HoldsBack tsi → s.mruDecoder = some tsi

def taken (malloc : Nat → Bool) (s : PgmReceiver τ) : Option Nat :=
  match s.mruDecoder with
  | none => none
  | some tsi =>
    match s.peers tsi with
    | some ⟨_, some d⟩ =>
      match d.processBuffer malloc ⟨s.answers, []⟩ false (s.pendingPtr.take s.pendingBytes) with
      | .ok (n, _) => n
      | .error _ => none
    | _ => none

def Resumable (malloc : Nat → Bool) (s : PgmReceiver τ) : Prop :=
  ∀ n ∈ s.taken malloc, n = 0 ∨ n = s.pendingBytes

def Unhindered (s : PgmReceiver τ) : Prop :=
  ∀ p ∈ s.mruDecoder, s.HoldsBack p → ∀ r ∈ s.incoming.head?, r.Continues p

def Undisturbed (malloc : Nat → Bool) (s : PgmReceiver τ) : PgmOp → Prop
  | .round => s.pendingBytes = 0 → s.Unhindered
  | .activateIn => s.Resumable malloc

omit [DecidableEq τ] in
instance (s : PgmReceiver τ) (tsi : τ) : Decidable (s.HoldsBack tsi) := by
  unfold HoldsBack
  infer_instance

instance (malloc : Nat → Bool) (s : PgmReceiver τ) : ∀ op, Decidable (s.Undisturbed malloc op)
  | .round => by
      unfold Undisturbed Unhindered
      infer_instance
  | .activateIn => by
      unfold Undisturbed Resumable
      infer_instance

theorem inv_init (answers : List Answer) (hno : .failed ∉ answers) (incoming : List (Received τ)) :
    Inv malloc header max incoming (init header max answers incoming) where
  protocol := rfl
  limit := rfl
  whole := rfl
  answers := hno
  peers _ := .apart (Or.inl rfl) rfl rfl
  mru := by simp [init]
  pending h := absurd h (by simp [init])
  held := by simp [init, HoldsBack]

/-! ## The messages of a peer -/

theorem Peer.started (h : s.Peer malloc max tsi st) : s.deliveredBy tsi <+: st.messages max := by
  unfold PeerStream.messages PeerStream.all
  cases h with
  | apart _ hcur hdel => simp [hcur, hdel]
  | joined _ hcur hfol hdel =>
    rw [hcur, hdel, List.flatMap_append]
    exact (List.prefix_append_right_inj _).2 (by simpa using hfol.started _)

theorem Peer.complete (h : s.Peer malloc max tsi st) (hheld : ¬ s.HoldsBack tsi)
    (hrest : s.rest tsi = []) : s.deliveredBy tsi = st.messages max := by
  unfold PeerStream.messages PeerStream.all
  cases h with
  | apart _ hcur hdel => simp [hcur, hdel]
  | @joined d consumed got hpeer hcur hfol hdel =>
    have hst : ¬ d.Stalled := fun hst => hheld ⟨_, hpeer, d, rfl, hst⟩
    rw [hrest, List.append_nil] at hcur
    rw [hcur, hdel, List.flatMap_append, ← hfol.items hst]
    simp

theorem Peer.congr (h : s.Peer malloc max p st) (hpeer : t.peers p = s.peers p)
    (hrest : t.rest p = s.rest p) (hdel : t.deliveredBy p = s.deliveredBy p) :
    t.Peer malloc max p st := by
  cases h with
  | apart hout hcur hd => exact .apart (by rwa [hpeer]) hcur (hdel.trans hd)
  | joined hin hcur hfol hd =>
    exact .joined (hpeer.trans hin) (by rwa [hrest]) hfol (hdel.trans hd)

/-! ## One call of `process_buffer` -/

structure Feeds (malloc : Nat → Bool) (max : Nat) (s : PgmReceiver τ) (tsi : τ)
    (consumed data : List UInt8) (got : List Msg) (t : PgmReceiver τ) : Prop where
  same : t.header = s.header ∧ t.maxmsgsize = s.maxmsgsize ∧ t.incoming = s.incoming ∧
    t.received = s.received
  others : ∀ p ≠ tsi, t.peers p = s.peers p ∧ t.deliveredBy p = s.deliveredBy p
  mru : t.mruDecoder = some tsi
  pending : 0 < t.pendingBytes → t.pendingBytes = t.pendingPtr.length
  answers : t.answers <:+ s.answers
  fed : ∃ d consumed' new, t.peers tsi = some ⟨true, some d⟩ ∧
    consumed' ++ t.rest tsi = consumed ++ data ∧ Follows malloc max consumed' d (got ++ new) ∧
    t.deliveredBy tsi = s.deliveredBy tsi ++ new
  accepting : s.answers = [] → ¬ t.HoldsBack tsi ∧ t.pendingBytes = 0

theorem deliveredBy_append (s : PgmReceiver τ) (tsi : τ) (new : List Msg)
    (h : t.delivered = s.delivered ++ new.map (tsi, ·)) :
    t.deliveredBy tsi = s.deliveredBy tsi ++ new ∧
      ∀ p ≠ tsi, t.deliveredBy p = s.deliveredBy p := by
  unfold deliveredBy
  rw [h]
  constructor
  · simp [List.filter_append, List.filter_map, Function.comp_def]
  · intro p hp
    simp [List.filter_append, List.filter_map, Function.comp_def, Ne.symm hp]

def fed (s : PgmReceiver τ) (tsi : τ) (d : Decoder) (session : Session) (bytes : Nat)
    (ptr : List UInt8) : PgmReceiver τ :=
  { s with
    peers := Function.update s.peers tsi (some ⟨true, some d⟩)
    mruDecoder := some tsi
    pendingBytes := bytes
    pendingPtr := ptr
    answers := session.answers
    delivered := s.delivered ++ session.accepted.map (tsi, ·) }

theorem feeds_fed {ptr : List UInt8} {k bytes : Nat}
    {session : Session} (hp : Decoder.Processed malloc max consumed data got s.answers k d session)
    (hbytes : ptr.take bytes = data.drop k) (hpend : 0 < bytes → bytes = ptr.length)
    (hzero : k = data.length → bytes = 0) :
    Feeds malloc max s tsi consumed data got (s.fed tsi d session bytes ptr) := by
  obtain ⟨hmine, hothers⟩ := deliveredBy_append s tsi session.accepted
    (t := s.fed tsi d session bytes ptr) rfl
  have hpeer : (s.fed tsi d session bytes ptr).peers tsi = some ⟨true, some d⟩ :=
    Function.update_self ..
  have hrest : (s.fed tsi d session bytes ptr).rest tsi = ptr.take bytes := if_pos rfl
  refine ⟨⟨rfl, rfl, rfl, rfl⟩, fun p hne => ⟨Function.update_of_ne hne .., hothers p hne⟩, rfl, hpend,
    hp.left, ⟨d, consumed ++ data.take k, session.accepted, hpeer, ?_, hp.follows, hmine⟩, ?_⟩
  · rw [hrest, hbytes, List.append_assoc, List.take_append_drop]
  · intro hnil
    obtain ⟨hall, hst⟩ := hp.accepting hnil
    refine ⟨?_, hzero hall⟩
    rintro ⟨info, hinfo, d', hd, hstalled⟩
    have hinfo' := Option.some.inj (hpeer.symm.trans hinfo)
    rw [← hinfo', Option.mem_some_iff] at hd
    exact hst (hd ▸ hstalled)

theorem exists_push
    (hno : .failed ∉ s.answers) (hpend : s.pendingBytes = 0) (hfol : Follows malloc max consumed d got)
    (hsound : Sound malloc max (consumed ++ data)) :
    ∃ t, s.push malloc tsi d data = .ok t ∧ Feeds malloc max s tsi consumed data got t := by
  obtain ⟨k, d', session, hproc, hp⟩ := hfol.process hno hsound
  by_cases hk : k < data.length
  · refine ⟨s.fed tsi d' session (data.length - k) (data.drop k),
      by simp only [push, processBuffer, hproc, if_pos hk, fed],
      feeds_fed hp (List.take_of_length_le (by simp)) (fun _ => by simp) fun hc => absurd hc (by omega)⟩
  · have hle := hp.le
    have hdrop : data.drop k = [] := List.drop_of_length_le (by omega)
    refine ⟨s.fed tsi d' session s.pendingBytes s.pendingPtr,
      by simp only [push, processBuffer, hproc, if_neg hk, fed], feeds_fed hp ?_ ?_ ?_⟩
    · rw [hpend, hdrop, List.take_zero]
    · exact fun hc => absurd hc (by omega)
    · exact fun _ => hpend

end PgmReceiver

end Libxs
