import Libxs.Encoder.Offset
import Libxs.PgmReceiver.BackPressure
import Libxs.PgmSender

/-! # Receivers that join late -/

namespace Libxs

/-! ## The datagrams of a sender -/

def payload (header datagram : List UInt8) : List UInt8 :=
  (PgmReceiver.unpack header datagram).elim [] Prod.snd

def payloads (header : List UInt8) (datagrams : List (List UInt8)) : List UInt8 :=
  datagrams.flatMap (payload header)

namespace PgmSender

variable {all : List Msg} {format : DatagramFormat} {s : PgmSender}
variable {batches : List Batch} {s' : PgmSender} {source : Source}

theorem unpack_pack (header : List UInt8) (batch : Batch) :
    PgmReceiver.unpack header (pack header batch) = some (offsetField batch.offset, batch.data) := by
  have hdrop : (putUint16 (offsetField batch.offset) ++ batch.data).drop 2 = batch.data := rfl
  have hlen : (putUint16 (offsetField batch.offset) ++ batch.data).length = 2 + batch.data.length := by
    rw [List.length_append, length_putUint16]
  have hwhole : ¬ (pack header batch).length < header.length := by
    rw [pack, List.length_append]
    omega
  have hshort : ¬ (putUint16 (offsetField batch.offset) ++ batch.data).length < 2 := by
    rw [hlen]
    omega
  unfold PgmReceiver.unpack
  rw [if_neg hwhole, pack, List.take_left, List.drop_left, if_neg (fun h => h rfl)]
  simp only [if_neg hshort, getUint16_putUint16, hdrop]

theorem payloads_pack (header : List UInt8) (batches : List Batch) :
    payloads header (batches.map (pack header)) = batches.flatMap Batch.data := by
  simp [payloads, payload, unpack_pack, List.flatMap_map]

theorem pack_ne_nil (header : List UInt8) (batch : Batch) : pack header batch ≠ [] := by
  simp [pack, putUint16]

def made (s : PgmSender) : List (List UInt8) :=
  s.sent ++ if s.outBuffer = [] then [] else [s.outBuffer]

def Drained (s : PgmSender) : Prop :=
  s.encoder.pending = [] ∧ s.source.messages = [] ∧ s.outBuffer = []

structure Inv (all : List Msg) (format : DatagramFormat) (batches : List Batch) (s : PgmSender) :
    Prop where
  fixed : s.format = format
  made : s.made = batches.map (pack format.header)
  fits : s.source.Fits
  wrote : ∃ read, read ++ s.source.messages = all ∧
    Encoder.Wrote read (batches.flatMap Batch.data) s.encoder ∧
    Encoder.Started read (batches.flatMap Batch.data).length
  marked : ∀ before batch, before ++ [batch] <+: batches →
    Marks all (before.flatMap Batch.data).length ((before ++ [batch]).flatMap Batch.data).length
      batch.offset ∧ ∀ o ∈ batch.offset, o < 0xffff

theorem inv_init (format : DatagramFormat) (hfits : source.Fits) :
    Inv source.messages format [] (init format source) where
  fixed := rfl
  made := rfl
  fits := hfits
  wrote := ⟨[], rfl, Encoder.wrote_init 0, fun before hpre hne => absurd (List.prefix_nil.1 hpre) hne⟩
  marked before batch h := absurd (List.prefix_nil.1 h) (by simp)

theorem made_send (hne : s.outBuffer ≠ []) (taken : Bool) : (s.send taken).made = s.made := by
  cases taken <;> simp [send, made, hne]

@[simp] theorem send_format (taken : Bool) : (s.send taken).format = s.format := by
  cases taken <;> rfl

@[simp] theorem send_source (taken : Bool) : (s.send taken).source = s.source := by
  cases taken <;> rfl

@[simp] theorem send_encoder (taken : Bool) : (s.send taken).encoder = s.encoder := by
  cases taken <;> rfl

theorem encodeBufferSize_ne_zero (format : DatagramFormat) : format.encodeBufferSize ≠ 0 := by
  have := format.room
  unfold DatagramFormat.encodeBufferSize
  omega

theorem Inv.outEvent (h : Inv all format batches s) (taken : Bool) :
    ∃ s', s.outEvent taken = .ok s' ∧ ∃ batches', Inv all format batches' s' := by
  unfold PgmSender.outEvent
  by_cases hout : s.outBuffer = []
  · rw [if_pos hout]
    obtain ⟨read, hall, hwrote, hstarted⟩ := h.wrote
    obtain ⟨batch, e', source', read', hget, hfits, hmsgs, hwrote', hstarted', hbound, hmarks⟩ :=
      Encoder.getData_marks (encodeBufferSize_ne_zero s.format) hwrote hstarted h.fits
    have hmade : s.sent = batches.map (pack format.header) := by
      simpa [PgmSender.made, hout] using h.made
    rw [hget]
    by_cases hdata : batch.data = []
    · rw [hdata, List.append_nil] at hwrote' hstarted'
      exact ⟨_, if_pos hdata, batches, h.fixed, h.made, hfits, ⟨read', hmsgs ▸ hall, hwrote', hstarted'⟩,
        h.marked⟩
    · refine ⟨_, if_neg hdata, batches ++ [batch], ?_, ?_, ?_, ⟨read', ?_, ?_, ?_⟩, ?_⟩
      · simpa using h.fixed
      · rw [made_send (pack_ne_nil _ _)]
        simp [PgmSender.made, pack_ne_nil, hmade, h.fixed]
      · simpa using hfits
      · simpa using hmsgs ▸ hall
      · simpa using hwrote'
      · simpa using hstarted'
      · intro before last hpre
        rcases List.prefix_concat_iff.1 hpre with heq | hpre
        · obtain ⟨rfl, hlast⟩ := List.append_inj' heq rfl
          rw [List.singleton_inj] at hlast
          subst hlast
          rw [hall] at hmarks
          refine ⟨by simpa using hmarks, fun o ho => ?_⟩
          have hsize := s.format.fits
          have := hbound o ho
          unfold DatagramFormat.encodeBufferSize at this
          omega
        · exact h.marked before last hpre
  · rw [if_neg hout]
    exact ⟨_, rfl, batches, by simpa using h.fixed, by rw [made_send hout]; exact h.made,
      by simpa using h.fits, by simpa using h.wrote, h.marked⟩

theorem run_inv (format : DatagramFormat) (hfits : source.Fits) (events : List Bool) :
    ∃ s, run outEvent (init format source) events = .ok s ∧
      ∃ batches, Inv source.messages format batches s := by
  refine run_safe (I := fun s => ∃ batches, Inv source.messages format batches s) ?_ events _
    ⟨[], inv_init format hfits⟩
  rintro s taken ⟨batches, h⟩
  exact h.outEvent taken

theorem Inv.sent (h : Inv all format batches s) :
    ∃ sent, sent <+: batches ∧ s.sent = sent.map (pack format.header) ∧
      (s.outBuffer = [] → sent = batches) := by
  have hmade := h.made
  have hpre : s.sent <+: batches.map (pack format.header) := hmade ▸ List.prefix_append _ _
  obtain ⟨sent, hsent, heq⟩ := List.prefix_map_iff.1 hpre
  refine ⟨sent, hsent, heq, fun hout => ?_⟩
  have hlen : s.sent.length = batches.length := by
    have := congrArg List.length hmade
    simpa [PgmSender.made, hout] using this
  exact hsent.eq_of_length (by rw [← hlen, heq, List.length_map])

theorem Inv.bound (h : Inv all format batches s) {b : Batch} (hb : b ∈ batches)
    {o : Nat} (ho : o ∈ b.offset) : o ≤ b.data.length ∧ o < 0xffff := by
  obtain ⟨before, rest, rfl⟩ := List.append_of_mem hb
  obtain ⟨hmarks, hlt⟩ := h.marked before b ⟨rest, by simp⟩
  rw [Option.mem_def] at ho
  rw [ho] at hmarks
  have hle := hmarks.1
  rw [List.flatMap_append, List.length_append, List.flatMap_singleton] at hle
  exact ⟨by omega, hlt o ho⟩

theorem Inv.stream (h : Inv all format batches s) :
    ∃ rest, batches.flatMap Batch.data ++ rest = all.flatMap Msg.frame ∧
      (s.Drained → rest = []) := by
  obtain ⟨read, hall, hwrote, -⟩ := h.wrote
  refine ⟨s.encoder.pending ++ s.source.messages.flatMap Msg.frame, ?_, fun hd => ?_⟩
  · grind [hwrote.bytes]
  · rw [hd.1, hd.2.1]
    rfl

/-! ### Getting everything out -/

def emptied (s : PgmSender) : Sender := ⟨s.encoder, s.source, []⟩

theorem outEvent_emptied {taken : Bool} (hout : s.outBuffer = [])
    (hs : s.outEvent taken = .ok s') :
    ∃ data, s.emptied.step (some s.format.encodeBufferSize) = .ok ⟨s'.encoder, s'.source, data⟩ ∧
      (taken = true ∨ data = [] → s'.outBuffer = []) := by
  unfold outEvent at hs
  rw [if_pos hout] at hs
  unfold Sender.step emptied
  generalize s.encoder.getData s.source (some s.format.encodeBufferSize) = r at hs ⊢
  rcases r with err | ⟨batch, e', source'⟩
  · cases hs
  · by_cases hdata : batch.data = []
    · simp only [hdata, if_true] at hs
      cases hs
      exact ⟨[], by simp [hdata], fun _ => hout⟩
    · simp only [hdata, if_false] at hs
      cases hs
      refine ⟨batch.data, by simp, fun htaken => ?_⟩
      rw [htaken.resolve_right hdata]
      rfl

def Emptied (s : PgmSender) : Prop := s.emptied.Drained ∧ s.outBuffer = []

def work (s : PgmSender) : Nat := s.emptied.work + if s.outBuffer = [] then 0 else 1

theorem emptied_inv (hfits : s.source.Fits) :
    Sender.Inv (s.encoder.pending ++ s.source.wire) s.emptied := ⟨rfl, hfits⟩

theorem send_emptied (taken : Bool) : (s.send taken).emptied = s.emptied := by
  simp [emptied]

theorem run_drained {events : List Bool} (hfits : s.source.Fits)
    (htaken : ∀ taken ∈ events, taken = true) (hlen : s.work < events.length)
    (hrun : run outEvent s events = .ok s') : s'.Drained := by
  have hgoal : s'.Emptied := by
    refine run_reaches (I := fun s => s.source.Fits) work ?_ ?_ ?_ events s s' hfits htaken hrun
      (Or.inr hlen)
    · intro s taken s' hI hs
      by_cases hout : s.outBuffer = []
      · obtain ⟨data, hstep, -⟩ := outEvent_emptied hout hs
        exact ((emptied_inv hI).of_step hstep).1.fits
      · grind [outEvent, send_source]
    · intro s taken s' hI hgoal hs
      obtain ⟨data, hstep, hnext⟩ := outEvent_emptied hgoal.2 hs
      have hbytes := ((emptied_inv hI).of_step hstep).1.bytes
      have hnil : s.encoder.pending ++ s.source.wire = [] := by
        have hpend : s.encoder.pending = [] := hgoal.1.1
        have hsrc : s.source = [] := hgoal.1.2
        simp [hpend, hsrc, Source.wire, Source.messages]
      rw [hnil, List.append_eq_nil_iff] at hbytes
      obtain ⟨hpend, hsource⟩ := hgoal.1.step (emptied_inv hI) hstep
      exact ⟨⟨hpend, hsource⟩, hnext (Or.inr hbytes.1)⟩
    · intro s taken s' hI heager hnot hs
      by_cases hout : s.outBuffer = []
      · obtain ⟨data, hstep, hnext⟩ := outEvent_emptied hout hs
        have hwork := ((emptied_inv hI).of_step hstep).2 fun h =>
          encodeBufferSize_ne_zero s.format (Option.some.inj h)
        right
        rw [work, work, hnext (Or.inl heager), hout]
        exact Nat.add_lt_add_right (hwork.resolve_right fun hd => hnot ⟨hd, hout⟩) _
      · rw [outEvent, if_neg hout, Except.ok.injEq] at hs
        right
        rw [← hs, work, work, send_emptied, if_neg hout, heager]
        exact Nat.lt_succ_self _
  have hsource : s'.source = [] := hgoal.1.2
  exact ⟨hgoal.1.1, by rw [hsource]; rfl, hgoal.2⟩

end PgmSender

/-! ## The stream of a peer -/

variable {τ : Type} [DecidableEq τ]

def Received.isFrom (tsi : τ) : Received τ → Bool
  | .nothing => false
  | .loss p => p = tsi
  | .datagram p _ => p = tsi

theorem Received.not_isFrom {p tsi : τ} (hp : p ≠ tsi) {r : Received τ} (h : r.isFrom p = true) :
    r.isFrom tsi = false := by
  cases r with
  | nothing => rfl
  | loss q => grind [isFrom]
  | datagram q data => grind [isFrom]

namespace PeerStream

variable {header : List UInt8} {tsi : τ}
variable {o : Nat}

theorem ofReceived_filter {keep : Received τ → Bool}
    (hkeep : ∀ r : Received τ, r.isFrom tsi = true → keep r = true) (rs : List (Received τ)) :
    ofReceived header tsi (rs.filter keep) = ofReceived header tsi rs := by
  have hother : ∀ (st : PeerStream) (r : Received τ),
      (if keep r = true then st.receive header tsi r else st) = st.receive header tsi r := by
    intro st r
    split
    · rfl
    next hno =>
      cases r with
      | nothing => rfl
      | loss p =>
        have hp : p ≠ tsi := fun hp => hno (hkeep _ (by simp [Received.isFrom, hp]))
        exact (receive_other hp st []).1.symm
      | datagram p data =>
        have hp : p ≠ tsi := fun hp => hno (hkeep _ (by simp [Received.isFrom, hp]))
        exact (receive_other hp st data).2.symm
  unfold ofReceived
  rw [List.foldl_filter]
  simp only [hother]

def datagrams (header : List UInt8) (tsi : τ) (batches : List Batch) : List (Received τ) :=
  batches.map fun batch => .datagram tsi (PgmSender.pack header batch)

theorem foldl_datagrams (batches : List Batch) (bytes : List UInt8) :
    (datagrams header tsi batches).foldl (receive header tsi) ⟨[], some bytes⟩ =
      ⟨[], some (bytes ++ batches.flatMap Batch.data)⟩ := by
  induction batches generalizing bytes with
  | nil => simp [datagrams]
  | cons batch batches ih =>
    have hone : receive header tsi ⟨[], some bytes⟩ (.datagram tsi (PgmSender.pack header batch)) =
        ⟨[], some (bytes ++ batch.data)⟩ := by
      simp [receive, PgmSender.unpack_pack, datagram]
    rw [datagrams, List.map_cons, List.foldl_cons, hone]
    rw [datagrams] at ih
    rw [ih, List.flatMap_cons, List.append_assoc]

theorem offsetField_eq_iff {offset : Option Nat} (h : ∀ o ∈ offset, o < 0xffff) :
    PgmSender.offsetField offset = 0xffff ↔ offset = none := by
  cases offset with
  | none => simp [PgmSender.offsetField]
  | some o =>
    have ho := h o rfl
    simp only [PgmSender.offsetField, reduceCtorEq, iff_false]
    intro heq
    have := congrArg UInt16.toNat heq
    rw [UInt16.toNat_ofNat', Nat.mod_eq_of_lt (by omega)] at this
    exact absurd this (by simp; omega)

theorem offsetField_toNat (h : o < 0xffff) : (PgmSender.offsetField (some o)).toNat = o := by
  rw [PgmSender.offsetField, UInt16.toNat_ofNat', Nat.mod_eq_of_lt (by omega)]

theorem ofReceived_datagrams (header : List UInt8) (tsi : τ) {batch : Batch}
    (ho : batch.offset = some o) (hlt : o < 0xffff) (batches : List Batch) :
    ofReceived header tsi (datagrams header tsi (batch :: batches)) =
      ⟨[], some (batch.data.drop o ++ batches.flatMap Batch.data)⟩ := by
  have hne : PgmSender.offsetField (some o) ≠ 0xffff := fun h =>
    absurd ((offsetField_eq_iff (by simpa using hlt)).1 h) (by simp)
  have hone : receive header tsi init (.datagram tsi (PgmSender.pack header batch)) =
      ⟨[], some (batch.data.drop o)⟩ := by
    simp [receive, PgmSender.unpack_pack, datagram, init, ho, hne, offsetField_toNat hlt]
  rw [ofReceived, datagrams, List.map_cons, List.foldl_cons, hone]
  exact foldl_datagrams batches _

end PeerStream

/-! ## Joining -/

open PeerStream (datagrams)

section

variable {malloc : Nat → Bool} {header : List UInt8} {max : Nat} {tsi : τ}
  {incoming : List (Received τ)} {batch : Batch} {later : List Batch} {o : Nat} {after : List Msg}

structure Joinable (malloc : Nat → Bool) (max : Nat) (batch : Batch) (later : List Batch) (o : Nat)
    (after : List Msg) : Prop where
  offset : batch.offset = some o
  bound : ∀ b ∈ batch :: later, ∀ o ∈ b.offset, o ≤ b.data.length ∧ o < 0xffff
  bytes : batch.data.drop o ++ later.flatMap Batch.data <+: after.flatMap Msg.frame
  receivable : ∀ m ∈ after, m.size + 1 < 2 ^ 64 ∧ m.size ≤ max ∧ Msg.Allocates malloc m.size

theorem Joinable.initial {later' : List Batch} (h : Joinable malloc max batch later o after)
    (hpre : later' <+: later) : Joinable malloc max batch later' o after where
  offset := h.offset
  bound b hb := h.bound b (List.cons_subset_cons _ hpre.subset hb)
  bytes := by
    obtain ⟨rest, rfl⟩ := hpre
    refine List.IsPrefix.trans ?_ h.bytes
    rw [List.flatMap_append, ← List.append_assoc]
    exact List.prefix_append _ _
  receivable := h.receivable

theorem Joinable.items (h : Joinable malloc max batch later o after) :
    ((frames max).items (batch.data.drop o ++ later.flatMap Batch.data)).map Msg.content <+:
      after.map Msg.content := by
  obtain ⟨rest, hrest⟩ := h.bytes
  have hpre := (frames max).items_append (batch.data.drop o ++ later.flatMap Batch.data) rest
  rw [hrest] at hpre
  rw [← content_items_flatMap_frame fun m hm => ⟨(h.receivable m hm).1, (h.receivable m hm).2.1⟩]
  exact hpre.map Msg.content

theorem Joinable.stream (h : Joinable malloc max batch later o after)
    (hin : incoming.filter (Received.isFrom tsi) = datagrams header tsi (batch :: later))
    {rs : List (Received τ)} (hrs : rs <+: incoming) :
    PeerStream.ofReceived header tsi rs = PeerStream.init ∨
      ∃ later', later' <+: later ∧ PeerStream.ofReceived header tsi rs =
        ⟨[], some (batch.data.drop o ++ later'.flatMap Batch.data)⟩ := by
  have hpre : rs.filter (Received.isFrom tsi) <+: datagrams header tsi (batch :: later) :=
    hin ▸ hrs.filter _
  obtain ⟨heard, hheard, heq⟩ := List.prefix_map_iff.1 hpre
  rw [← PeerStream.ofReceived_filter (fun _ hr => hr) rs, heq]
  rcases List.prefix_cons_iff.1 hheard with rfl | ⟨later', rfl, hlater⟩
  · exact Or.inl rfl
  · exact Or.inr ⟨later', hlater, PeerStream.ofReceived_datagrams header tsi h.offset
      (h.bound batch List.mem_cons_self o h.offset).2 later'⟩

theorem Joinable.wellFormed (h : Joinable malloc max batch later o after)
    (hin : incoming.filter (Received.isFrom tsi) = datagrams header tsi (batch :: later))
    (hothers : PgmReceiver.WellFormed malloc header max (incoming.filter (!·.isFrom tsi))) :
    PgmReceiver.WellFormed malloc header max incoming where
  offsets p data offset pay hmem hun hne := by
    by_cases hp : p = tsi
    · have hmine : .datagram p data ∈ datagrams header tsi (batch :: later) := by
        rw [← hin]
        exact List.mem_filter.2 ⟨hmem, by simp [Received.isFrom, hp]⟩
      obtain ⟨b, hb, heq⟩ := List.mem_map.1 hmine
      rw [Received.datagram.injEq] at heq
      rw [← heq.2, PgmSender.unpack_pack, Option.some.injEq, Prod.mk.injEq] at hun
      obtain ⟨rfl, rfl⟩ := hun
      cases hoff : b.offset with
      | none => exact absurd (by rw [hoff]; rfl) hne
      | some n =>
        obtain ⟨hle, hlt⟩ := h.bound b hb n hoff
        rwa [PeerStream.offsetField_toNat hlt]
    · exact hothers.offsets p data offset pay
        (List.mem_filter.2 ⟨hmem, by simp [Received.isFrom, hp]⟩) hun hne
  sound rs hrs p bytes hbytes := by
    by_cases hp : p = tsi
    · subst hp
      rcases h.stream hin hrs with hst | ⟨later', hlater, hst⟩
      · rw [hst] at hbytes
        exact absurd hbytes (by simp [PeerStream.init, PeerStream.all])
      · rw [hst, PeerStream.all, List.nil_append, Option.toList_some, List.mem_singleton] at hbytes
        rw [hbytes]
        exact Decoder.sound_of_frames h.receivable (h.initial hlater).bytes
    · have hkeep : ∀ r : Received τ, r.isFrom p = true → (!r.isFrom tsi) = true := by
        intro r hr
        rw [Received.not_isFrom hp hr]
        rfl
      rw [← PeerStream.ofReceived_filter hkeep rs] at hbytes
      exact hothers.sound _ (hrs.filter _) p bytes hbytes

theorem Joinable.received (h : Joinable malloc max batch later o after)
    (hin : incoming.filter (Received.isFrom tsi) = datagrams header tsi (batch :: later))
    (hothers : PgmReceiver.WellFormed malloc header max (incoming.filter (!·.isFrom tsi)))
    (ops : List PgmOp) :
    ∃ r, run (PgmReceiver.step malloc) (PgmReceiver.init header max [] incoming) ops = .ok r ∧
      (r.deliveredBy tsi).map Msg.content <+: after.map Msg.content ∧
      (r.incoming = [] → r.deliveredBy tsi =
        (frames max).items (batch.data.drop o ++ later.flatMap Batch.data)) := by
  obtain ⟨r, hr, hinv, hidle⟩ := PgmReceiver.Inv.run_accepting (h.wellFormed hin hothers) ops
    (PgmReceiver.inv_init [] (by simp) incoming) PgmReceiver.idle_init
  have hdel : r.deliveredBy tsi = (PeerStream.ofReceived header tsi r.received).messages max :=
    (hinv.peers tsi).complete (hidle.held tsi) (PgmReceiver.rest_eq_nil hidle.pending tsi)
  refine ⟨r, hr, ?_, fun hall => ?_⟩
  · rw [hdel]
    rcases h.stream hin ⟨r.incoming, hinv.whole⟩ with hst | ⟨later', hlater, hst⟩
    · simp [hst, PeerStream.messages, PeerStream.init, PeerStream.all]
    · simpa [hst, PeerStream.messages, PeerStream.all] using (h.initial hlater).items
  · have hwhole := hinv.whole
    rw [hall, List.append_nil] at hwhole
    rw [hdel, hwhole, ← PeerStream.ofReceived_filter (fun _ hr => hr) incoming, hin,
      PeerStream.ofReceived_datagrams header tsi h.offset
        (h.bound batch List.mem_cons_self o h.offset).2 later]
    simp [PeerStream.messages, PeerStream.all]

end

namespace PgmSender

def position (s : PgmSender) (k : Nat) : Nat :=
  (payloads s.format.header (s.sent.take k)).length

theorem Inv.datagram {all : List Msg} {format : DatagramFormat} {batches : List Batch} {s : PgmSender}
    (h : Inv all format batches s) {k : Nat} {datagram : List UInt8}
    (hk : s.sent[k]? = some datagram) :
    ∃ before batch later, before ++ batch :: later <+: batches ∧
      datagram = pack format.header batch ∧ s.position k = (before.flatMap Batch.data).length ∧
      s.sent.drop k = (batch :: later).map (pack format.header) ∧
      (s.Drained → before ++ batch :: later = batches) := by
  obtain ⟨sent, hpre, hsent, hwhole⟩ := h.sent
  rw [hsent, List.getElem?_map, Option.map_eq_some_iff] at hk
  obtain ⟨batch, hbatch, rfl⟩ := hk
  obtain ⟨hlt, hget⟩ := List.getElem?_eq_some_iff.1 hbatch
  have hdrop : sent.drop k = batch :: sent.drop (k + 1) := by
    rw [List.drop_eq_getElem_cons hlt, hget]
  have hsplit : sent.take k ++ batch :: sent.drop (k + 1) = sent := by
    rw [← hdrop, List.take_append_drop]
  refine ⟨sent.take k, batch, sent.drop (k + 1), hsplit.symm ▸ hpre, rfl, ?_, ?_, fun hd => ?_⟩
  · rw [position, h.fixed, hsent, ← List.map_take, payloads_pack]
  · rw [hsent, ← List.map_drop, hdrop]
  · rw [hsplit, hwhole hd.2.2]

theorem late_joiner_starts_at_message (τ : Type) [DecidableEq τ] (malloc : Nat → Bool) (max : Nat)
    (format : DatagramFormat) (source : Source) (hsource : ∀ m ∈ source.messages,
      m.size + 1 < 2 ^ 64 ∧ m.size ≤ max ∧ Msg.Allocates malloc m.size)
    (events : List Bool) :
    ∃ s, run outEvent (init format source) events = .ok s ∧
      ((∀ taken ∈ events, taken = true) → 2 * source.length + source.wire.length < events.length →
        s.Drained) ∧
      ∀ k datagram, s.sent[k]? = some datagram →
        ∃ offset data, PgmReceiver.unpack format.header datagram = some (offset, data) ∧
          (offset = 0xffff → ∀ pos, BeginsAt source.messages pos →
            ¬ (s.position k ≤ pos ∧ pos < s.position k + data.length)) ∧
          (offset ≠ 0xffff → ∃ before after, source.messages = before ++ after ∧ Closed before ∧
            span before = s.position k + offset.toNat ∧
            (∀ pos, BeginsAt source.messages pos → s.position k ≤ pos →
              s.position k + offset.toNat ≤ pos) ∧
            ∀ (tsi : τ) (incoming : List (Received τ)) (ops : List PgmOp),
              incoming.filter (Received.isFrom tsi) = (s.sent.drop k).map (.datagram tsi) →
              PgmReceiver.WellFormed malloc format.header max (incoming.filter (!·.isFrom tsi)) →
              ∃ r, run (PgmReceiver.step malloc)
                  (PgmReceiver.init format.header max [] incoming) ops = .ok r ∧
                (r.deliveredBy tsi).map Msg.content <+: after.map Msg.content ∧
                (r.incoming = [] → r.deliveredBy tsi = (frames max).items
                  ((payloads format.header (s.sent.drop k)).drop offset.toNat)) ∧
                (r.incoming = [] → s.Drained →
                  (r.deliveredBy tsi).map Msg.content = after.map Msg.content)) := by
  have hfits : source.Fits := fun m hm => (hsource m hm).1
  obtain ⟨s, hrun, batches, h⟩ := run_inv format hfits events
  refine ⟨s, hrun, fun htaken hlen => ?_, fun k datagram hk => ?_⟩
  · refine run_drained (s := init format source) hfits htaken ?_ hrun
    simpa [work, Sender.work, emptied, init, Encoder.actions, Encoder.pending, Encoder.init] using hlen
  obtain ⟨earlier, batch, later, hpre, rfl, hposition, hdrop, hwhole⟩ := h.datagram hk
  have hprefix : earlier ++ [batch] <+: batches :=
    List.IsPrefix.trans ⟨later, by simp⟩ hpre
  obtain ⟨hmarks, hfield⟩ := h.marked earlier batch hprefix
  have hstop : ((earlier ++ [batch]).flatMap Batch.data).length = s.position k + batch.data.length := by
    rw [hposition, List.flatMap_append, List.length_append, List.flatMap_singleton]
  rw [hstop, ← hposition] at hmarks
  refine ⟨offsetField batch.offset, batch.data, unpack_pack _ _, fun hnone pos hpos hin => ?_,
    fun hsome => ?_⟩
  · rw [(PeerStream.offsetField_eq_iff hfield).1 hnone] at hmarks
    exact absurd (hmarks pos hpos hin.1) (Nat.not_le.2 hin.2)
  · cases hoffset : batch.offset with
    | none => exact absurd (by rw [hoffset]; rfl) hsome
    | some o =>
      rw [hoffset] at hmarks
      obtain ⟨hle, ⟨before, ⟨after, hafter⟩, hclosed, hspan⟩, hfirst⟩ := hmarks
      rw [PeerStream.offsetField_toNat (hfield o hoffset)]
      have ho : o ≤ batch.data.length := by omega
      -- what the datagrams carry from the offset on
      obtain ⟨rest, hstream, hrest⟩ := h.stream
      obtain ⟨unsent, hunsent⟩ := hpre
      have hbytes : batch.data.drop o ++ later.flatMap Batch.data ++
          (unsent.flatMap Batch.data ++ rest) = after.flatMap Msg.frame := by
        have hall := congrArg (List.drop (s.position k + o)) hstream
        rw [← hafter, List.flatMap_append, List.drop_left' hspan, ← hunsent, hposition] at hall
        rw [← hall, List.flatMap_append, List.flatMap_append]
        simp only [List.append_assoc, List.flatMap_cons]
        rw [List.drop_length_add_append, List.drop_append_of_le_length ho]
      have hjoin : Joinable malloc max batch later o after := by
        refine ⟨hoffset, fun b hb o' ho' => h.bound ?_ ho', ⟨_, hbytes⟩, fun m hm => ?_⟩
        · grind
        · grind
      refine ⟨before, after, hafter.symm, hclosed, hspan, hfirst, fun tsi incoming ops hin hothers => ?_⟩
      have hin' : incoming.filter (Received.isFrom tsi) =
          datagrams format.header tsi (batch :: later) := by
        rw [hin, hdrop, List.map_map]
        rfl
      obtain ⟨r, hr, hbegun, hdone⟩ := hjoin.received hin' hothers ops
      refine ⟨r, hr, hbegun, fun hall => ?_, fun hall hdrained => ?_⟩
      · rw [hdone hall, hdrop, payloads_pack, List.flatMap_cons, List.drop_append_of_le_length ho]
      · have hunsent' : unsent = [] := by
          rw [← hwhole hdrained] at hunsent
          simpa using hunsent
        rw [hunsent', hrest hdrained, List.flatMap_nil, List.append_nil, List.append_nil] at hbytes
        rw [hdone hall, hbytes]
        exact content_items_flatMap_frame fun m hm =>
          ⟨(hjoin.receivable m hm).1, (hjoin.receivable m hm).2.1⟩

def threeBytes : DatagramFormat := ⟨[], 5, by decide, by decide⟩

def twoMessages : Source := [some ⟨false, 1, [97]⟩, none, some ⟨false, 0, []⟩, some ⟨false, 0, [98]⟩]

theorem late_joiner_of_twoMessages :
    ∃ s, run outEvent (init threeBytes twoMessages) (List.replicate 17 true) = .ok s ∧
      s.sent[1]? = some [0, 2, 1, 0, 2] ∧
      ∃ before after r, twoMessages.messages = before ++ after ∧ span before = 5 ∧
        run (PgmReceiver.step fun _ => true)
          (PgmReceiver.init [] 100 [] ((s.sent.drop 1).map (.datagram 0))) [.round, .round] = .ok r ∧
        (r.deliveredBy 0).map Msg.content = after.map Msg.content := by
  obtain ⟨s, hrun, hdrains, hjoin⟩ := late_joiner_starts_at_message Nat (fun _ => true) 100 threeBytes
    twoMessages (by decide) (List.replicate 17 true)
  have hsent : s.sent = [[0, 0, 2, 1, 97], [0, 2, 1, 0, 2], [0, 2, 0, 98]] := by
    have hs : (run outEvent (init threeBytes twoMessages) (List.replicate 17 true)).map sent =
        .ok [[0, 0, 2, 1, 97], [0, 2, 1, 0, 2], [0, 2, 0, 98]] := by
      decide +kernel
    rw [hrun] at hs
    exact Except.ok.inj hs
  have hformat : s.format = threeBytes := by
    have hs : (run outEvent (init threeBytes twoMessages) (List.replicate 17 true)).map
        format = .ok threeBytes := rfl
    rw [hrun] at hs
    exact Except.ok.inj hs
  obtain ⟨offset, data, hun, -, hat⟩ := hjoin 1 [0, 2, 1, 0, 2] (by rw [hsent]; rfl)
  have hoffset : offset = 2 := by
    have h2 : PgmReceiver.unpack threeBytes.header [0, 2, 1, 0, 2] = some (2, [1, 0, 2]) := by
      decide +kernel
    rw [h2, Option.some.injEq, Prod.mk.injEq] at hun
    exact hun.1.symm
  subst hoffset
  obtain ⟨before, after, hall, -, hspan, -, hreceive⟩ := hat (by decide)
  have hposition : s.position 1 = 3 := by
    rw [position, hsent, hformat]
    decide +kernel
  -- there are no other peers
  have hothers : PgmReceiver.WellFormed (fun _ => true) threeBytes.header 100
      (((s.sent.drop 1).map (.datagram 0)).filter (!Received.isFrom 0 ·)) := by
    have hnil : ((s.sent.drop 1).map (.datagram 0)).filter (!Received.isFrom 0 ·) = [] := by
      rw [hsent]
      decide +kernel
    rw [hnil]
    exact PgmReceiver.wellFormed_nil
  obtain ⟨r, hr, -, -, hdone⟩ := hreceive 0 ((s.sent.drop 1).map (.datagram 0)) [.round, .round]
    (by rw [hsent]; decide +kernel) hothers
  have hin : r.incoming = [] := by
    have hs : (run (PgmReceiver.step fun _ => true)
        (PgmReceiver.init threeBytes.header 100 [] ((s.sent.drop 1).map (.datagram 0)))
          [.round, .round]).map PgmReceiver.incoming = .ok [] := by
      rw [hsent]
      decide +kernel
    rw [hr] at hs
    exact Except.ok.inj hs
  refine ⟨s, hrun, by rw [hsent]; rfl, before, after, r, hall, ?_, hr, ?_⟩
  · rw [hspan, hposition]
    rfl
  · exact hdone hin (hdrains (fun _ h => List.eq_of_mem_replicate h) (by decide))

end PgmSender

end Libxs
