import Libxs.Decoder.Stream
import Libxs.Encoder.Proofs

/-! # From an encoder to a decoder -/

namespace Libxs

def Msg.content (m : Msg) : List UInt8 × Bool := (m.data, m.more)

theorem Msg.content_received (m : Msg) : m.received.content = m.content := by
  unfold Msg.content Msg.received Msg.more
  rw [UInt8.and_assoc, UInt8.and_self]

section

variable {malloc : Nat → Bool} {max : Nat}

theorem atStarts_affordable_of_append {bytes more : List UInt8}
    (h : (frames max).AtStarts (Affordable malloc max) (bytes ++ more)) :
    (frames max).AtStarts (Affordable malloc max) bytes := by
  intro ms q hq
  by_contra hno
  exact not_affordable_append hno more (h ms (q ++ more) (hq.append more))

theorem atStarts_affordable_flatMap (ms : List Msg)
    (hms : ∀ m ∈ ms, m.size + 1 < 2 ^ 64 ∧ m.size ≤ max ∧ Msg.Allocates malloc m.size) :
    (frames max).AtStarts (Affordable malloc max) (ms.flatMap Msg.frame) := by
  induction ms with
  | nil =>
    refine (Framer.atStarts_iff_of_stop fun m rest h => ?_).2 (affordable_of_none rfl)
    exact absurd h (by simp [frames, nextFrame, lengthField])
  | cons m ms ih =>
    obtain ⟨hfits, hmax, hmem⟩ := hms m List.mem_cons_self
    rw [List.flatMap_cons]
    have hnext : (frames max).next (m.frame ++ ms.flatMap Msg.frame) =
        .item m.received (ms.flatMap Msg.frame) := nextFrame_frame m hfits hmax _
    refine (Framer.atStarts_iff_of_item hnext).2
      ⟨?_, ih fun m' hm' => hms m' (List.mem_cons_of_mem m hm')⟩
    rw [Msg.frame, List.append_assoc, affordable_iff (lengthField_lengthBytes hfits _)]
    exact Or.inr (Or.inr hmem)

theorem content_items_flatMap_frame {ms : List Msg}
    (hms : ∀ m ∈ ms, m.size + 1 < 2 ^ 64 ∧ m.size ≤ max) :
    ((frames max).items (ms.flatMap Msg.frame)).map Msg.content = ms.map Msg.content := by
  have hnil : ∀ m rest, (frames max).next [] ≠ .item m rest := fun m rest h =>
    absurd h (by simp [frames, nextFrame, lengthField])
  rw [((items_flatMap_frame ms hms).items_of_stop hnil).1, List.map_map]
  exact List.map_congr_left fun m _ => m.content_received

end

/-- **Framing round trip.** -/
theorem framing_round_trip (malloc : Nat → Bool) (outBufsize inBufsize max : Nat) (source : Source)
    (hsource : ∀ m ∈ source.messages,
      m.size + 1 < 2 ^ 64 ∧ m.size ≤ max ∧ Msg.Allocates malloc m.size)
    (requests : List (Option Nat)) :
    ∃ s, run Sender.step (Sender.init outBufsize source) requests = .ok s ∧
      ((∀ r ∈ requests, r ≠ some 0) → 2 * source.length + source.wire.length < requests.length →
        s.Drained) ∧
      ∀ (answers : List Answer) (ops : List FeedOp), .failed ∉ answers →
        ∃ f, run (Feed.step malloc) (Feed.init inBufsize max answers s.out) ops = .ok f ∧
          f.session.accepted.map Msg.content <+: source.messages.map Msg.content ∧
          (s.Drained → f.Finished →
            f.session.accepted.map Msg.content = source.messages.map Msg.content) ∧
          ((∀ op ∈ ops, op.Eager) → 2 * s.out.length + answers.length < ops.length →
            f.Finished) := by
  have hinit : Sender.Inv source.wire (Sender.init outBufsize source) :=
    Sender.inv_init outBufsize fun m hm => (hsource m hm).1
  obtain ⟨s, hrun, hinv⟩ := hinit.run_ok requests
  have hfits : ∀ m ∈ source.messages, m.size + 1 < 2 ^ 64 ∧ m.size ≤ max := fun m hm =>
    ⟨(hsource m hm).1, (hsource m hm).2.1⟩
  have hall : (frames max).AtStarts (Affordable malloc max) s.out := by
    have hwire := atStarts_affordable_flatMap source.messages hsource
    rw [← Source.wire, ← hinv.bytes] at hwire
    exact atStarts_affordable_of_append hwire
  -- the frames of all messages, and that there is nothing wrong with them
  have hnil : ∀ m rest, (frames max).next [] ≠ .item m rest := fun m rest h =>
    absurd h (by simp [frames, nextFrame, lengthField])
  have htail := ((items_flatMap_frame source.messages hfits).items_of_stop hnil).2
  have hcontent : ((frames max).items source.wire).map Msg.content =
      source.messages.map Msg.content := content_items_flatMap_frame hfits
  have hgood : ¬ (frames max).Malformed s.out := by
    intro hbad
    have hwire := hbad.append (s.encoder.pending ++ s.source.wire)
    rw [hinv.bytes, Framer.Malformed, Source.wire, htail] at hwire
    exact absurd hwire (by simp [frames, nextFrame, lengthField])
  refine ⟨s, hrun, fun hne hlen => hinit.run_drained hne hlen hrun, fun answers ops hno => ?_⟩
  obtain ⟨f, hf, hfollows, hends⟩ := Feed.run_follows hall inBufsize hno ops
  refine ⟨f, hf, ?_, fun hdrained hfin => ?_, fun heager hlen => ?_⟩
  · have hpre := (frames max).items_append s.out (s.encoder.pending ++ s.source.wire)
    rw [hinv.bytes] at hpre
    rw [← hcontent]
    exact (hfollows.started.trans hpre).map Msg.content
  · have hout : s.out = source.wire := by
      rw [← hinv.bytes, hdrained.1, hdrained.2]
      simp [Source.wire, Source.messages]
    rw [← hcontent, ← hout, (hfollows.finished hfin).1]
  · exact (hends heager hlen).resolve_left fun hdead => hgood (hfollows.dead hdead).2.2

def twoParts : Source := [some ⟨false, 1, [97]⟩, none, some ⟨false, 0, []⟩]

theorem twoParts_round_trip :
    ∃ s, run Sender.step (Sender.init 8192 twoParts) (List.replicate 12 (some 2)) = .ok s ∧
      ∃ f, run (Feed.step fun _ => true) (Feed.init 8192 100 [.again] s.out)
        (List.replicate 12 (.push 2)) = .ok f ∧
        f.session.accepted.map Msg.content = [([97], true), ([], false)] := by
  have hmsgs : ∀ m ∈ twoParts.messages, m.size + 1 < 2 ^ 64 ∧ m.size ≤ 100 ∧
      Msg.Allocates (fun _ => true) m.size := by decide
  obtain ⟨s, hrun, hdrains, hfeed⟩ := framing_round_trip (fun _ => true) 8192 8192 100 twoParts hmsgs
    (List.replicate 12 (some 2))
  have hdrained : s.Drained := hdrains (by decide) (by decide)
  have hout : s.out.length = 5 := by
    have hs : run Sender.step (Sender.init 8192 twoParts) (List.replicate 12 (some 2)) =
        .ok ⟨⟨[], .messageReady, true, 8192, .init⟩, [], [2, 1, 97, 1, 0]⟩ := rfl
    rw [hs, Except.ok.injEq] at hrun
    rw [← hrun]
    rfl
  obtain ⟨f, hf, -, hsame, hends⟩ := hfeed [.again] (List.replicate 12 (.push 2)) (by decide)
  have hfin : f.Finished := by
    refine hends (fun op hop => ?_) ?_
    · rw [List.eq_of_mem_replicate hop]
      exact Nat.two_pos
    · rw [hout]
      decide
  exact ⟨s, hrun, f, hf, hsame hdrained hfin⟩

end Libxs
