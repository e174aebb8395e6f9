import Libxs.PgmReceiver.Streams

/-! # Reception under back-pressure -/

namespace Libxs

open Decoder (Follows Sound)

variable {τ : Type} [DecidableEq τ]

namespace PgmReceiver

variable {malloc : Nat → Bool} {header : List UInt8} {max : Nat} {incoming : List (Received τ)}
  {s t : PgmReceiver τ} {tsi p : τ}
variable {d : Decoder} {rest : List (Received τ)} {got : List Msg}
variable {consumed data payload : List UInt8} {offset : UInt16}

structure Idle (s : PgmReceiver τ) : Prop where
  answers : s.answers = []
  pending : s.pendingBytes = 0
  held : ∀ p, ¬ s.HoldsBack p

theorem rest_eq_nil (h : s.pendingBytes = 0) (p : τ) : s.rest p = [] := by
  simp [rest, h]

omit [DecidableEq τ] in
theorem holdsBack_congr (h : t.peers p = s.peers p) : t.HoldsBack p ↔ s.HoldsBack p := by
  unfold HoldsBack
  rw [h]

omit [DecidableEq τ] in
theorem not_holdsBack_of_disjoint (h : s.peers p = some ⟨false, none⟩) : ¬ s.HoldsBack p := by
  rintro ⟨info, hinfo, d, hd, -⟩
  rw [h, Option.mem_some_iff] at hinfo
  rw [← hinfo] at hd
  cases hd

def receiving (s : PgmReceiver τ) (r : Received τ) (rest : List (Received τ)) : PgmReceiver τ :=
  { s with incoming := rest, received := s.received ++ [r] }

theorem Feeds.inv (hf : Feeds malloc max s tsi consumed data got t) (hprot : s.header = header)
    (hlimit : s.maxmsgsize = max) (hwhole : s.received ++ s.incoming = incoming)
    (hno : .failed ∉ s.answers)
    (hothers : ∀ p ≠ tsi, s.Peer malloc max p (PeerStream.ofReceived header p s.received))
    (hidle : ∀ p ≠ tsi, s.rest p = [] ∧ ¬ s.HoldsBack p)
    (hcur : (PeerStream.ofReceived header tsi s.received).current = some (consumed ++ data))
    (hdel : s.deliveredBy tsi =
      (PeerStream.ofReceived header tsi s.received).past.flatMap (frames max).items ++ got) :
    Inv malloc header max incoming t ∧ (s.answers = [] → t.Idle) := by
  obtain ⟨hheader, hmax, hinc, hrec⟩ := hf.same
  obtain ⟨d, consumed', new, hpeer, hbytes, hfol, hnew⟩ := hf.fed
  have hheld : ∀ p, t.HoldsBack p → p = tsi := by
    intro p hp
    by_contra hne
    exact (hidle p hne).2 ((holdsBack_congr (hf.others p hne).1).1 hp)
  refine ⟨⟨hheader.trans hprot, hmax.trans hlimit, by rw [hrec, hinc, hwhole],
    fun hmem => hno (hf.answers.subset hmem), fun p => ?_, fun p hp => ?_,
    fun hpend => ⟨hf.pending hpend, by simp [hf.mru]⟩, fun p hp => ?_⟩, fun hnil => ?_⟩
  · rw [hrec]
    by_cases hp : p = tsi
    · subst hp
      exact .joined hpeer (by rw [hcur, hbytes]) hfol (by rw [hnew, hdel, List.append_assoc])
    · obtain ⟨hsame, hdelp⟩ := hf.others p hp
      refine (hothers p hp).congr hsame ?_ hdelp
      rw [(hidle p hp).1, rest, if_neg (by simp [hf.mru, Ne.symm hp])]
  · grind [hf.mru]
  · rw [hheld p hp]
    exact hf.mru
  · obtain ⟨hfree, hzero⟩ := hf.accepting hnil
    refine ⟨List.eq_nil_of_suffix_nil (hnil ▸ hf.answers), hzero, fun p hp => ?_⟩
    rw [hheld p hp] at hp
    exact hfree hp

theorem Inv.skip (h : Inv malloc header max incoming s) {r : Received τ}
    (hin : s.incoming = r :: rest)
    (hst : ∀ p, PeerStream.ofReceived header p (s.received ++ [r]) =
      PeerStream.ofReceived header p s.received) :
    Inv malloc header max incoming (s.receiving r rest) where
  protocol := h.protocol
  limit := h.limit
  whole := by
    rw [← h.whole, hin]
    simp [receiving]
  answers := h.answers
  peers p := by
    have hp := h.peers p
    rw [← hst p] at hp
    exact hp.congr rfl rfl rfl
  mru := h.mru
  pending := h.pending
  held := h.held

structure Loses (s : PgmReceiver τ) (tsi : τ) (t : PgmReceiver τ) : Prop where
  same : t.header = s.header ∧ t.maxmsgsize = s.maxmsgsize ∧ t.incoming = s.incoming ∧
    t.received = s.received ∧ t.answers = s.answers ∧ t.delivered = s.delivered ∧
    t.pendingBytes = s.pendingBytes
  peers : t.peers = Function.update s.peers tsi (some ⟨false, none⟩)
  mru : ∀ p ∈ t.mruDecoder, p ∈ s.mruDecoder ∧ p ≠ tsi

theorem loses_loss {info : PeerInfo} (h : s.peers tsi = some info) : Loses s tsi (s.loss tsi) := by
  unfold loss
  simp only [h]
  refine ⟨⟨rfl, rfl, rfl, rfl, rfl, rfl, rfl⟩, rfl, fun p hp => ?_⟩
  simp only [Option.mem_def] at hp
  grind

theorem Loses.not_holdsBack (h : Loses s tsi t) (hfree : ∀ p, ¬ s.HoldsBack p) (p : τ) :
    ¬ t.HoldsBack p := by
  intro hp
  by_cases hpt : p = tsi
  · subst hpt
    exact not_holdsBack_of_disjoint (by rw [h.peers, Function.update_self]) hp
  · refine hfree p ((holdsBack_congr ?_).1 hp)
    rw [h.peers, Function.update_of_ne hpt]

theorem Inv.loss (h : Inv malloc header max incoming s)
    (hin : s.incoming = .loss tsi :: rest) (hpend : s.pendingBytes = 0)
    (hfree : ∀ p, ¬ s.HoldsBack p) :
    Inv malloc header max incoming ((s.receiving (.loss tsi) rest).loss tsi) ∧
      (s.answers = [] → ((s.receiving (.loss tsi) rest).loss tsi).Idle) := by
  have hskip : ∀ p ≠ tsi, PeerStream.ofReceived header p (s.received ++ [.loss tsi]) =
      PeerStream.ofReceived header p s.received := by
    intro p hp
    rw [PeerStream.ofReceived_concat]
    exact (PeerStream.receive_other (Ne.symm hp) _ []).1
  have hmine : PeerStream.ofReceived header tsi (s.received ++ [.loss tsi]) =
      ⟨(PeerStream.ofReceived header tsi s.received).all, none⟩ := by
    rw [PeerStream.ofReceived_concat]
    exact if_pos rfl
  cases hinfo : s.peers tsi with
  | none =>
    have hnone : (s.receiving (.loss tsi) rest).loss tsi = s.receiving (.loss tsi) rest := by
      simp [PgmReceiver.loss, receiving, hinfo]
    have hcur : (PeerStream.ofReceived header tsi s.received).current = none := by
      cases h.peers tsi with
      | apart _ hcur _ => exact hcur
      | joined hpeer _ _ _ => exact absurd (hinfo.symm.trans hpeer) (by simp)
    rw [hnone]
    refine ⟨h.skip hin fun p => ?_, fun hnil => ⟨hnil, hpend, hfree⟩⟩
    by_cases hp : p = tsi
    · subst hp
      rw [hmine]
      generalize PeerStream.ofReceived header p s.received = st at hcur
      obtain ⟨past, current⟩ := st
      simp only at hcur
      simp [PeerStream.all, hcur]
    · exact hskip p hp
  | some info =>
    have hl : Loses (s.receiving (.loss tsi) rest) tsi ((s.receiving (.loss tsi) rest).loss tsi) :=
      loses_loss hinfo
    have hcomplete : s.deliveredBy tsi =
        (PeerStream.ofReceived header tsi s.received).all.flatMap (frames max).items :=
      (h.peers tsi).complete (hfree tsi) (rest_eq_nil hpend tsi)
    have hfree' := hl.not_holdsBack hfree
    generalize (s.receiving (.loss tsi) rest).loss tsi = t at hl hfree'
    obtain ⟨hheader, hmax, hinc, hrec, hans, hdel, hbytes⟩ := hl.same
    have hpend' : t.pendingBytes = 0 := hbytes.trans hpend
    have hrec' : t.received = s.received ++ [.loss tsi] := hrec
    have hdel' : ∀ p, t.deliveredBy p = s.deliveredBy p := fun p => by
      unfold deliveredBy
      rw [hdel]
      rfl
    refine ⟨⟨hheader.trans h.protocol, hmax.trans h.limit, ?_, by rw [hans]; exact h.answers,
      fun p => ?_, fun p hp => ?_, fun hc => absurd hc (by omega), fun p hp => absurd hp (hfree' p)⟩,
      fun hnil => ⟨hans.trans hnil, hpend', hfree'⟩⟩
    · rw [hrec', hinc, ← h.whole, hin]
      simp [receiving]
    · rw [hrec']
      by_cases hpt : p = tsi
      · subst hpt
        rw [hmine]
        exact .apart (Or.inr (by rw [hl.peers, Function.update_self])) rfl
          ((hdel' p).trans hcomplete)
      · have hp := h.peers p
        rw [← hskip p hpt] at hp
        refine hp.congr ?_ ?_ (hdel' p)
        · rw [hl.peers, Function.update_of_ne hpt]
          rfl
        · rw [rest_eq_nil hpend', rest_eq_nil hpend]
    · obtain ⟨hmem, hpt⟩ := hl.mru p hp
      obtain ⟨d, hd⟩ := h.mru p hmem
      exact ⟨d, by rw [hl.peers, Function.update_of_ne hpt]; exact hd⟩

theorem ofReceived_datagram (tsi : τ)
    (hun : unpack header data = some (offset, payload)) (rs : List (Received τ)) :
    PeerStream.ofReceived header tsi (rs ++ [.datagram tsi data]) =
      (PeerStream.ofReceived header tsi rs).datagram offset payload := by
  rw [PeerStream.ofReceived_concat]
  simp [PeerStream.receive, hun]

theorem datagram_eq_join (hun : unpack s.header data = some (offset, payload))
    (hout : s.peers tsi = none ∨ s.peers tsi = some ⟨false, none⟩) :
    s.datagram malloc tsi data = s.join malloc tsi none offset payload := by
  grind [datagram]

theorem datagram_eq_push (hun : unpack s.header data = some (offset, payload))
    (hpeer : s.peers tsi = some ⟨true, some d⟩) :
    s.datagram malloc tsi data = s.push malloc tsi d payload := by
  simp only [datagram, hun, hpeer]

structure Between (malloc : Nat → Bool) (header : List UInt8) (max : Nat)
    (incoming : List (Received τ)) (tsi : τ) (s : PgmReceiver τ) : Prop where
  protocol : s.header = header
  limit : s.maxmsgsize = max
  whole : s.received ++ s.incoming = incoming
  answers : .failed ∉ s.answers
  pending : s.pendingBytes = 0
  others : ∀ p ≠ tsi, s.Peer malloc max p (PeerStream.ofReceived header p s.received)
  mru : ∀ p ∈ s.mruDecoder, ∃ d, s.peers p = some ⟨true, some d⟩
  free : ∀ p ≠ tsi, ¬ s.HoldsBack p

theorem Between.push (h : Between malloc header max incoming tsi s)
    (hfol : Follows malloc max consumed d got)
    (hsound : Sound malloc max (consumed ++ data))
    (hcur : (PeerStream.ofReceived header tsi s.received).current = some (consumed ++ data))
    (hdel : s.deliveredBy tsi =
      (PeerStream.ofReceived header tsi s.received).past.flatMap (frames max).items ++ got) :
    ∃ t, s.push malloc tsi d data = .ok t ∧ Inv malloc header max incoming t ∧
      (s.answers = [] → t.Idle) := by
  obtain ⟨t, ht, hfeeds⟩ := exists_push h.answers h.pending hfol hsound
  exact ⟨t, ht, hfeeds.inv h.protocol h.limit h.whole h.answers h.others
    (fun p hp => ⟨rest_eq_nil h.pending p, h.free p hp⟩) hcur hdel⟩

theorem Between.disjoint (h : Between malloc header max incoming tsi s)
    (hout : s.peers tsi = none ∨ s.peers tsi = some ⟨false, none⟩) :
    Between malloc header max incoming tsi
      { s with peers := Function.update s.peers tsi (some ⟨false, none⟩) } where
  protocol := h.protocol
  limit := h.limit
  whole := h.whole
  answers := h.answers
  pending := h.pending
  others p hp := by
    refine (h.others p hp).congr (Function.update_of_ne hp ..) ?_ rfl
    rw [rest_eq_nil h.pending]
    exact rest_eq_nil h.pending p
  mru p hp := by
    obtain ⟨d, hd⟩ := h.mru p hp
    have hne : p ≠ tsi := by grind
    exact ⟨d, (Function.update_of_ne hne ..).trans hd⟩
  free p hp hheld := h.free p hp ((holdsBack_congr (Function.update_of_ne hp ..)).1 hheld)

theorem Between.join (h : Between malloc header max incoming tsi s) {st : PeerStream}
    (hout : s.peers tsi = none ∨ s.peers tsi = some ⟨false, none⟩)
    (hoffset : offset ≠ 0xffff → offset.toNat ≤ payload.length)
    (hst : PeerStream.ofReceived header tsi s.received = st.datagram offset payload)
    (hsound : ∀ bytes ∈ (PeerStream.ofReceived header tsi s.received).current,
      Sound malloc max bytes)
    (hcur : st.current = none) (hdel : s.deliveredBy tsi = st.past.flatMap (frames max).items) :
    ∃ t, s.join malloc tsi none offset payload = .ok t ∧ Inv malloc header max incoming t ∧
      (s.answers = [] → t.Idle) := by
  have hdis := h.disjoint hout
  by_cases hno : offset = 0xffff
  · have hsame : PeerStream.ofReceived header tsi s.received = st := by
      rw [hst, PeerStream.datagram, hcur]
      exact if_pos hno
    have hfree : ∀ p, ¬ HoldsBack
        { s with peers := Function.update s.peers tsi (some ⟨false, none⟩) } p := fun p hp => by
      grind [not_holdsBack_of_disjoint, hdis.free]
    refine ⟨{ s with peers := Function.update s.peers tsi (some ⟨false, none⟩) },
      by simp only [PgmReceiver.join, if_pos hno], ⟨h.protocol, h.limit, h.whole, h.answers, fun p => ?_,
        hdis.mru, fun hc => absurd hc (by simp [h.pending]), fun p hp => absurd hp (hfree p)⟩,
      fun hnil => ⟨hnil, h.pending, hfree⟩⟩
    by_cases hp : p = tsi
    · subst hp
      exact .apart (Or.inr (Function.update_self ..)) (by rw [hsame, hcur]) (by rw [hsame]; exact hdel)
    · exact hdis.others p hp
  · have hle := hoffset hno
    rw [PeerStream.datagram, hcur] at hst
    simp only [if_neg hno] at hst
    have hcur' := congrArg PeerStream.current hst
    have hpast := congrArg PeerStream.past hst
    have hbytes : Sound malloc max ([] ++ payload.drop offset.toNat) := hsound _ hcur'
    obtain ⟨t, ht, hinv, hidle⟩ := hdis.push (Decoder.follows_init 0) hbytes hcur'
      (by rw [List.append_nil]; exact hdel.trans (by rw [← hpast]))
    refine ⟨t, ?_, hinv, hidle⟩
    rw [← h.limit] at ht
    simp only [PgmReceiver.join, if_neg hno, if_neg (Nat.not_lt.2 hle), Option.isSome_none,
      Bool.false_eq_true, if_false]
    exact ht

theorem Inv.datagram (hwf : WellFormed malloc header max incoming)
    (h : Inv malloc header max incoming s)
    (hin : s.incoming = .datagram tsi data :: rest) (hpend : s.pendingBytes = 0)
    (hfree : ∀ p ≠ tsi, ¬ s.HoldsBack p) :
    ∃ t, (s.receiving (.datagram tsi data) rest).datagram malloc tsi data = .ok t ∧
      Inv malloc header max incoming t ∧ (s.Idle → t.Idle) := by
  have hskip : ∀ p ≠ tsi, PeerStream.ofReceived header p (s.received ++ [.datagram tsi data]) =
      PeerStream.ofReceived header p s.received := by
    intro p hp
    rw [PeerStream.ofReceived_concat]
    exact (PeerStream.receive_other (Ne.symm hp) _ data).2
  have hwhole : (s.received ++ [.datagram tsi data]) ++ rest = incoming := by
    rw [← h.whole, hin]
    simp
  have hbetween : Between malloc header max incoming tsi (s.receiving (.datagram tsi data) rest) :=
    ⟨h.protocol, h.limit, hwhole, h.answers, hpend, fun p hp => by
      have hpeer := h.peers p
      rw [← hskip p hp] at hpeer
      exact hpeer.congr rfl rfl rfl, h.mru, hfree⟩
  have hheader : (s.receiving (.datagram tsi data) rest).header = header := h.protocol
  cases hun : unpack header data with
  | none =>
    refine ⟨s.receiving (.datagram tsi data) rest,
      by simp only [PgmReceiver.datagram, hheader, hun], h.skip hin fun p => ?_,
      fun hidle => ⟨hidle.answers, hidle.pending, hidle.held⟩⟩
    grind [PeerStream.ofReceived_concat, PeerStream.receive]
  | some x =>
    obtain ⟨offset, payload⟩ := x
    have hst := ofReceived_datagram tsi hun s.received
    have hsound : ∀ bytes ∈ (PeerStream.ofReceived header tsi
        (s.received ++ [.datagram tsi data])).current, Sound malloc max bytes :=
      fun bytes hcur => hwf.sound _ ⟨rest, hwhole⟩ tsi _ (PeerStream.mem_all_of_current hcur)
    have hun' : unpack (s.receiving (.datagram tsi data) rest).header data =
        some (offset, payload) := by rw [hheader, hun]
    have hmem : .datagram tsi data ∈ incoming := by
      rw [← hwhole]
      simp
    cases h.peers tsi with
    | apart hout hcur hdel =>
      rw [datagram_eq_join hun' hout]
      obtain ⟨t, ht, hinv, hidle⟩ := hbetween.join hout (hwf.offsets tsi data offset payload hmem hun)
        hst hsound hcur hdel
      exact ⟨t, ht, hinv, fun hid => hidle hid.answers⟩
    | @joined d consumed got hpeer hcur hfol hdel =>
      rw [rest_eq_nil hpend, List.append_nil] at hcur
      rw [PeerStream.datagram, hcur] at hst
      have hcur' := congrArg PeerStream.current hst
      have hpast := congrArg PeerStream.past hst
      rw [datagram_eq_push hun' hpeer]
      obtain ⟨t, ht, hinv, hidle⟩ := hbetween.push hfol (hsound _ hcur') hcur'
        (hdel.trans (by rw [← hpast]; rfl))
      exact ⟨t, ht, hinv, fun hid => hidle hid.answers⟩

/-! ## One step -/

theorem push_same (h : s.push malloc tsi d data = .ok t) :
    t.incoming = s.incoming ∧ t.received = s.received := by
  unfold push processBuffer at h
  simp only at h
  grind

theorem datagram_same (h : s.datagram malloc tsi data = .ok t) :
    t.incoming = s.incoming ∧ t.received = s.received := by
  have hjoin : ∀ {decoder : Option Decoder} {offset : UInt16} {payload : List UInt8},
      s.join malloc tsi decoder offset payload = .ok t →
        t.incoming = s.incoming ∧ t.received = s.received := by
    intro decoder offset payload hj
    unfold PgmReceiver.join at hj
    simp only at hj
    split at hj
    · cases hj
      exact ⟨rfl, rfl⟩
    · split at hj
      · cases hj
      · split at hj
        · cases hj
        · obtain ⟨hinc, hrec⟩ := push_same hj
          exact ⟨hinc, hrec⟩
  unfold PgmReceiver.datagram at h
  grind [push_same]

theorem Inv.round (hwf : WellFormed malloc header max incoming)
    (h : Inv malloc header max incoming s) (hcond : s.pendingBytes = 0 → s.Unhindered) :
    ∃ t, s.round malloc = .ok t ∧ Inv malloc header max incoming t ∧
      (s.Idle → t.Idle ∧ t.incoming = s.incoming.tail) := by
  by_cases hpend : 0 < s.pendingBytes
  · exact ⟨s, by simp only [PgmReceiver.round, if_pos hpend], h,
      fun hidle => absurd hidle.pending (by omega)⟩
  · have hzero : s.pendingBytes = 0 := by omega
    cases hin : s.incoming with
    | nil => exact ⟨s, by simp only [PgmReceiver.round, if_neg hpend, hin], h, fun hidle => ⟨hidle, hin⟩⟩
    | cons r rest =>
      -- only the peer whose datagram it is can have a message held back
      have hfree : ∀ p, s.HoldsBack p → r.Continues p :=
        fun p hp => hcond hzero p (h.held p hp) hp r (by simp [hin])
      cases r with
      | nothing =>
        refine ⟨s.receiving .nothing rest, by simp only [PgmReceiver.round, if_neg hpend, hin, receiving],
          h.skip hin fun p => ?_, fun hidle => ⟨⟨hidle.answers, hidle.pending, hidle.held⟩, rfl⟩⟩
        rw [PeerStream.ofReceived_concat]
        rfl
      | loss tsi =>
        obtain ⟨hinv, hidle⟩ := h.loss hin hzero hfree
        refine ⟨_, by simp only [PgmReceiver.round, if_neg hpend, hin]; rfl, hinv,
          fun hid => ⟨hidle hid.answers, ?_⟩⟩
        unfold PgmReceiver.loss
        split <;> rfl
      | datagram tsi data =>
        obtain ⟨t, ht, hinv, hidle⟩ := h.datagram hwf hin hzero fun p hne hp =>
          hne (hfree p hp).symm
        refine ⟨t, by simp only [PgmReceiver.round, if_neg hpend, hin]; exact ht, hinv,
          fun hid => ⟨hidle hid, (datagram_same ht).1⟩⟩

theorem Inv.mru_joined (h : Inv malloc header max incoming s) (hmru : s.mruDecoder = some tsi) :
    ∃ d consumed got, s.peers tsi = some ⟨true, some d⟩ ∧
      (PeerStream.ofReceived header tsi s.received).current =
        some (consumed ++ s.pendingPtr.take s.pendingBytes) ∧ Follows malloc max consumed d got ∧
      s.deliveredBy tsi =
        (PeerStream.ofReceived header tsi s.received).past.flatMap (frames max).items ++ got := by
  obtain ⟨d, hd⟩ := h.mru tsi hmru
  cases h.peers tsi with
  | apart hout _ _ => grind
  | @joined d' consumed got hpeer hcur hfol hdel => grind [rest]

theorem Inv.activateIn (hwf : WellFormed malloc header max incoming)
    (h : Inv malloc header max incoming s) (hcond : s.Resumable malloc) :
    ∃ t, s.activateIn malloc = .ok t ∧ Inv malloc header max incoming t ∧
      (s.answers = [] → t.Idle) ∧ t.received = s.received := by
  cases hmru : s.mruDecoder with
  | none =>
    have hzero : s.pendingBytes = 0 := by
      by_contra hc
      exact (h.pending (by omega)).2 hmru
    refine ⟨s, by simp only [PgmReceiver.activateIn, hmru, if_pos hzero], h,
      fun hnil => ⟨hnil, hzero, fun p hp => ?_⟩, rfl⟩
    exact absurd (hmru.symm.trans (h.held p hp)) (by simp)
  | some tsi =>
    obtain ⟨d, consumed, got, hpeer, hcur, hfol, hdel⟩ := h.mru_joined hmru
    have hsound : Sound malloc max (consumed ++ s.pendingPtr.take s.pendingBytes) :=
      hwf.sound _ ⟨s.incoming, h.whole⟩ tsi _ (PeerStream.mem_all_of_current hcur)
    obtain ⟨k, d', session, hproc, hp⟩ := hfol.process h.answers hsound
    have hidle : ∀ p ≠ tsi, s.rest p = [] ∧ ¬ s.HoldsBack p := by
      intro p hne
      refine ⟨if_neg (by simp [hmru, Ne.symm hne]), fun hheld => hne ?_⟩
      exact Option.some.inj ((h.held p hheld).symm.trans hmru)
    have hothers : ∀ p ≠ tsi, s.Peer malloc max p (PeerStream.ofReceived header p s.received) :=
      fun p _ => h.peers p
    by_cases hzero : s.pendingBytes = 0
    · have hnil : s.pendingPtr.take s.pendingBytes = [] := by rw [hzero, List.take_zero]
      rw [hnil] at hcur hproc hp
      have hfeeds : Feeds malloc max s tsi consumed [] got
          (s.fed tsi d' session s.pendingBytes s.pendingPtr) :=
        feeds_fed hp (by rw [hnil, List.drop_nil]) (fun hc => absurd hc (by omega)) fun _ => hzero
      obtain ⟨hinv, hid⟩ := hfeeds.inv h.protocol h.limit h.whole h.answers hothers hidle hcur hdel
      refine ⟨_, ?_, hinv, hid, rfl⟩
      simp only [PgmReceiver.activateIn, hmru, hpeer, if_pos hzero, PgmReceiver.processBuffer, hproc, fed]
    · obtain ⟨hlen, -⟩ := h.pending (by omega)
      have hall : s.pendingPtr.take s.pendingBytes = s.pendingPtr :=
        List.take_of_length_le (by omega)
      have htaken : s.taken malloc = some k := by
        simp only [taken, hmru, hpeer, hproc]
      have hk := hcond k htaken
      have hle := hp.le
      rw [hall] at hcur hproc hp hle
      have hbytes : s.pendingPtr.take (s.pendingBytes - k) = s.pendingPtr.drop k := by
        rcases hk with h0 | hwhole
        · rw [h0, Nat.sub_zero, hall, List.drop_zero]
        · rw [hwhole, Nat.sub_self, List.take_zero, List.drop_of_length_le (by omega)]
      have hfeeds : Feeds malloc max s tsi consumed s.pendingPtr got
          (s.fed tsi d' session (s.pendingBytes - k) s.pendingPtr) := by
        refine feeds_fed hp hbytes (fun hc => ?_) fun hc => by omega
        rcases hk with h0 | hwhole <;> omega
      obtain ⟨hinv, hid⟩ := hfeeds.inv h.protocol h.limit h.whole h.answers hothers hidle hcur hdel
      refine ⟨_, ?_, hinv, hid, rfl⟩
      simp only [PgmReceiver.activateIn, hmru, hpeer, if_neg hzero, PgmReceiver.processBuffer, hall,
        hproc, fed]

theorem Inv.step (hwf : WellFormed malloc header max incoming)
    (h : Inv malloc header max incoming s) {op : PgmOp} (hcond : s.Undisturbed malloc op) :
    ∃ t, s.step malloc op = .ok t ∧ Inv malloc header max incoming t := by
  cases op with
  | round =>
    obtain ⟨t, ht, hinv, -⟩ := h.round hwf hcond
    exact ⟨t, ht, hinv⟩
  | activateIn =>
    obtain ⟨t, ht, hinv, -⟩ := h.activateIn hwf hcond
    exact ⟨t, ht, hinv⟩

theorem WellFormed.initial {rs : List (Received τ)} (h : WellFormed malloc header max incoming)
    (hrs : rs <+: incoming) : WellFormed malloc header max rs where
  offsets tsi data offset payload hmem := h.offsets tsi data offset payload (hrs.subset hmem)
  sound rs' hrs' := h.sound rs' (hrs'.trans hrs)

theorem wellFormed_nil : WellFormed malloc header max ([] : List (Received τ)) where
  offsets _ _ _ _ hmem := absurd hmem (by simp)
  sound rs hrs tsi bytes hbytes := by grind [PeerStream.ofReceived, PeerStream.init, PeerStream.all]

theorem Inv.run_idle (hwf : WellFormed malloc header max incoming) :
    ∀ (n : Nat) {s : PgmReceiver τ}, Inv malloc header max incoming s → s.Idle →
      s.incoming.length = n →
      ∃ t, run (PgmReceiver.step malloc) s (List.replicate n .round) = .ok t ∧
        Inv malloc header max incoming t ∧ t.Idle ∧ t.incoming = [] := by
  intro n
  induction n with
  | zero =>
    intro s h hidle hlen
    exact ⟨s, rfl, h, hidle, List.eq_nil_of_length_eq_zero hlen⟩
  | succ n ih =>
    intro s h hidle hlen
    obtain ⟨s₁, hs₁, hinv, hnext⟩ := h.round hwf fun _ p _ hp => absurd hp (hidle.held p)
    obtain ⟨hidle₁, hin⟩ := hnext hidle
    obtain ⟨t, ht, hrest⟩ := ih hinv hidle₁ (by rw [hin, List.length_tail]; omega)
    refine ⟨t, ?_, hrest⟩
    rw [List.replicate_succ, run_cons_ok (show s.step malloc .round = .ok s₁ from hs₁)]
    exact ht

theorem Inv.resumable (hwf : WellFormed malloc header max incoming)
    (h : Inv malloc header max incoming s) (hnil : s.answers = []) : s.Resumable malloc := by
  intro n hn
  cases hmru : s.mruDecoder with
  | none => simp [taken, hmru] at hn
  | some tsi =>
    obtain ⟨d, consumed, got, hpeer, hcur, hfol, -⟩ := h.mru_joined hmru
    have hsound : Sound malloc max (consumed ++ s.pendingPtr.take s.pendingBytes) :=
      hwf.sound _ ⟨s.incoming, h.whole⟩ tsi _ (PeerStream.mem_all_of_current hcur)
    obtain ⟨k, d', session, hproc, hp⟩ := hfol.process h.answers hsound
    simp only [taken, hmru, hpeer, hproc, Option.mem_some_iff] at hn
    have hk := (hp.accepting hnil).1
    rw [List.length_take] at hk
    by_cases hzero : s.pendingBytes = 0
    · exact Or.inl (by omega)
    · have hlen := (h.pending (by omega)).1
      exact Or.inr (by omega)

theorem Inv.run_accepting (hwf : WellFormed malloc header max incoming) (ops : List PgmOp)
    (h : Inv malloc header max incoming s) (hidle : s.Idle) :
    ∃ t, run (PgmReceiver.step malloc) s ops = .ok t ∧ Inv malloc header max incoming t ∧ t.Idle := by
  refine run_safe (I := fun s => Inv malloc header max incoming s ∧ s.Idle) (fun s op hs => ?_) ops s
    ⟨h, hidle⟩
  obtain ⟨h, hidle⟩ := hs
  cases op with
  | round =>
    obtain ⟨s', hs', hinv, hnext⟩ := h.round hwf fun _ p _ hp => absurd hp (hidle.held p)
    exact ⟨s', hs', hinv, (hnext hidle).1⟩
  | activateIn =>
    obtain ⟨s', hs', hinv, hnext, -⟩ := h.activateIn hwf (h.resumable hwf hidle.answers)
    exact ⟨s', hs', hinv, hnext hidle.answers⟩

omit [DecidableEq τ] in
theorem idle_init : (init header max [] incoming : PgmReceiver τ).Idle :=
  ⟨rfl, rfl, fun p hp => by simp [init, HoldsBack] at hp⟩

def tinyMessages (payloads : List UInt8) : List UInt8 :=
  [0, 0] ++ payloads.flatMap fun b => Msg.frame ⟨false, 0, [b]⟩

theorem wellFormed_tinyMessages (payloads : List UInt8) :
    WellFormed (fun _ => true) [] 100 [.datagram 0 (tinyMessages payloads)] := by
  have hun : unpack [] (tinyMessages payloads) =
      some (0, payloads.flatMap fun b => Msg.frame ⟨false, 0, [b]⟩) := by
    simp [unpack, tinyMessages, getUint16]
  constructor
  · intro tsi data offset payload hmem hdata _
    simp only [List.mem_singleton, Received.datagram.injEq] at hmem
    rw [hmem.2, hun, Option.some.injEq, Prod.mk.injEq] at hdata
    rw [← hdata.1]
    exact Nat.zero_le _
  · intro rs hrs tsi bytes hbytes
    have hframes : bytes <+:
        (payloads.map fun b => (⟨false, 0, [b]⟩ : Msg)).flatMap Msg.frame := by
      rw [List.flatMap_map]
      rcases List.prefix_cons_iff.1 hrs with rfl | ⟨rs', rfl, hrs'⟩
      · simp [PeerStream.ofReceived, PeerStream.init, PeerStream.all] at hbytes
      · rw [List.prefix_nil.1 hrs'] at hbytes
        by_cases htsi : 0 = tsi
        · have hone : PeerStream.ofReceived [] tsi [.datagram 0 (tinyMessages payloads)] =
              PeerStream.init.datagram 0 (payloads.flatMap fun b => Msg.frame ⟨false, 0, [b]⟩) := by
            simp [PeerStream.ofReceived, PeerStream.receive, htsi, hun]
          rw [hone] at hbytes
          simp only [PeerStream.init, PeerStream.datagram, PeerStream.all] at hbytes
          simp at hbytes
          exact hbytes ▸ List.prefix_rfl
        · simp [PeerStream.ofReceived, PeerStream.receive, htsi, PeerStream.init,
            PeerStream.all] at hbytes
    refine Decoder.sound_of_frames (fun m hm => ?_) hframes
    obtain ⟨b, -, rfl⟩ := List.mem_map.1 hm
    have hsize : (⟨false, 0, [b]⟩ : Msg).size = 1 := rfl
    rw [hsize]
    decide

theorem reception_under_backPressure (malloc : Nat → Bool) (header : List UInt8) (max : Nat)
    (incoming : List (Received τ)) (hwf : WellFormed malloc header max incoming)
    (answers : List Answer) (hno : .failed ∉ answers) (ops : List PgmOp)
    (hmeets : RunMeets (PgmReceiver.step malloc) (Undisturbed malloc)
      (init header max answers incoming) ops) :
    ∃ s t, run (PgmReceiver.step malloc) (init header max answers incoming) ops = .ok s ∧
      run (PgmReceiver.step malloc) (init header max [] s.received)
        (List.replicate s.received.length .round) = .ok t ∧
      ∀ tsi, s.deliveredBy tsi <+: t.deliveredBy tsi ∧
        (s.pendingBytes = 0 → ¬ s.HoldsBack tsi → s.deliveredBy tsi = t.deliveredBy tsi) ∧
        (s.answers = [] → ∃ s', s.step malloc .activateIn = .ok s' ∧
          s'.deliveredBy tsi = t.deliveredBy tsi) := by
  obtain ⟨s, hrun, h⟩ := run_safe_meets (fun _ _ hI hc => Inv.step hwf hI hc) ops _
    (inv_init answers hno incoming) hmeets
  have hwf' := hwf.initial ⟨s.incoming, h.whole⟩
  obtain ⟨t, ht, hinv, hidle, hall⟩ := Inv.run_idle hwf' s.received.length
    (inv_init [] (by simp) s.received) idle_init rfl
  -- both follow the streams of the peers
  have hreceived : t.received = s.received := by
    have hw := hinv.whole
    rwa [hall, List.append_nil] at hw
  have hideal : ∀ tsi, t.deliveredBy tsi =
      (PeerStream.ofReceived header tsi s.received).messages max := by
    intro tsi
    rw [← hreceived]
    exact (hinv.peers tsi).complete (hidle.held tsi) (rest_eq_nil hidle.pending tsi)
  refine ⟨s, t, hrun, ht, fun tsi => ⟨?_, fun hzero hfree => ?_, fun hnil => ?_⟩⟩
  · rw [hideal]
    exact (h.peers tsi).started
  · rw [hideal]
    exact (h.peers tsi).complete hfree (rest_eq_nil hzero tsi)
  · obtain ⟨s', hs', hinv', hidle', hrec⟩ := h.activateIn hwf (h.resumable hwf hnil)
    refine ⟨s', hs', ?_⟩
    have hcomplete := (hinv'.peers tsi).complete ((hidle' hnil).held tsi)
      (rest_eq_nil (hidle' hnil).pending tsi)
    rw [hideal, hcomplete, hrec]

theorem reception_of_two_messages :
    ∃ s t, run (step fun _ => true)
        (init [] 100 [.again] [.datagram 0 (tinyMessages [65, 66])]) [.round, .activateIn] = .ok s ∧
      run (step fun _ => true) (init [] 100 [] s.received)
        (List.replicate s.received.length .round) = .ok t ∧
      s.deliveredBy 0 <+: t.deliveredBy 0 := by
  obtain ⟨s, t, hs, ht, hsame⟩ := reception_under_backPressure (fun _ => true) [] 100 _
    (wellFormed_tinyMessages [65, 66]) [.again] (by decide) [.round, .activateIn] (by decide)
  exact ⟨s, t, hs, ht, (hsame 0).1⟩

def payloadsBy (answers : List Answer) (incoming : List (Received Nat)) (ops : List PgmOp)
    (tsi : Nat) : Except Fault (List (List UInt8)) :=
  (run (step fun _ => true) (init [] 100 answers incoming) ops).map fun s =>
    (s.deliveredBy tsi).map Msg.data

theorem reception_disturbed :
    let three : List (Received Nat) := [.datagram 0 (tinyMessages [65, 66, 67])]
    let others : List (Received Nat) :=
      [.datagram 0 (tinyMessages [65]), .datagram 1 (tinyMessages [66])]
    let lossy : List (Received Nat) :=
      [.datagram 0 (tinyMessages [65]), .loss 0, .datagram 0 (tinyMessages [66])]
    payloadsBy [.again, .accepted, .again] three [.round, .activateIn, .activateIn] 0 =
        .ok [[65], [66], [66]] ∧
      payloadsBy [] three [.round] 0 = .ok [[65], [66], [67]] ∧
      payloadsBy [.again] others [.round, .round, .activateIn] 0 = .ok [] ∧
      payloadsBy [] others [.round, .round] 0 = .ok [[65]] ∧
      payloadsBy [.again] lossy [.round, .round, .round, .activateIn] 0 = .ok [[66]] ∧
      payloadsBy [] lossy [.round, .round, .round] 0 = .ok [[65], [66]] := by
  decide +kernel

end PgmReceiver

end Libxs
