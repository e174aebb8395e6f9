import Libxs.Router.Sending

/-! # The assertions of a router about its outbound pipes -/

namespace Libxs

namespace Router

variable {κ α : Type} [DecidableEq κ] [DecidableEq α] {blob : κ → List UInt8}
variable {s t : Router κ α} {ends ends' : Ends α} {p : α}

structure Live (blob : κ → List UInt8) (s : Router κ α) (ends : Ends α) : Prop
    extends Sending blob s ends where
  sound : ∀ p, s.fq.attached p → (ends p).Sound
  good : ∀ x, (ends x).outq.Good
  stalled : ∀ k out, s.outpipes.lookup k = some out → (ends out.pipe).Stalled → out.active = false

omit [DecidableEq α] in
theorem live_init (nextPeerId : UInt32) :
    Live blob (init nextPeerId : Router κ α) (fun _ => Endpoint.init 0 0 true) where
  toSending := sending_init nextPeerId
  sound _ h := absurd h (by simp [init, Fq.init, Rotor.init, Rotor.attached, ArrayT.empty])
  good _ := YPipe.good_init
  stalled _ _ h := absurd h (by simp [init])

omit [DecidableEq α] in
theorem Table.same_key (h : s.Table blob) {k k' : κ} {out out' : OutPipe α}
    (hk : s.outpipes.lookup k = some out) (hk' : s.outpipes.lookup k' = some out')
    (hp : out'.pipe = out.pipe) : k' = k :=
  h.unique (hp ▸ pipeAt_of_lookup hk') (pipeAt_of_lookup hk)

omit [DecidableEq α] in
theorem Live.congr (h : Live blob s ends) (hfq : t.fq = s.fq) (hout : t.outpipes = s.outpipes)
    (hid : t.identity = s.identity) (hcur : t.currentOut = s.currentOut)
    (hmore : t.moreOut = s.moreOut) : Live blob t ends where
  table := h.table.congr (hfq ▸ h.table.wf) (fun x => by rw [hfq]) (by unfold pipeAt; rw [hout]) hid
  within := h.within
  out p hp := by
    rw [hmore, hfq]
    exact h.out p (hcur ▸ hp)
  sound p hp := h.sound p (hfq ▸ hp)
  good := h.good
  stalled k out hk := h.stalled k out (hout ▸ hk)

theorem Live.setEnd (h : Live blob s ends) {e : Endpoint}
    (hsending : Sending blob t (Function.update ends p e)) (hatt : t.fq = s.fq) (hout : t.outpipes = s.outpipes) (hsound : (ends p).Sound → e.Sound)
    (hgood : e.outq.Good) (hst : e.Stalled → (ends p).Stalled) :
    Live blob t (Function.update ends p e) := by
  refine ⟨hsending, fun x hx => ?_, outq_good_update h.good hgood, fun k out hk hs => ?_⟩
  · grind [h.sound]
  · grind [h.stalled]

theorem Live.sent {address : Msg → Option κ} {msg : Msg} (h : Live blob s ends)
    (hs : Sent address s ends msg t ends') : Live blob t ends' := by
  have hsending := h.toSending.sent hs
  cases hs with
  | ignored _ _ _ => exact ⟨hsending, h.sound, h.good, h.stalled⟩
  | unknown _ _ _ _ => exact ⟨hsending, h.sound, h.good, h.stalled⟩
  | dropped _ _ => exact ⟨hsending, h.sound, h.good, h.stalled⟩
  | @begun id out e _ _ _ _ hc =>
    obtain ⟨-, hpipe, -⟩ := Endpoint.checkWrite_true hc
    have houtq : e.outq = (ends out.pipe).outq := by
      obtain rfl : (ends out.pipe).checkWrite.2 = e := by rw [hc]
      rfl
    refine h.setEnd hsending rfl rfl (fun hsnd => ?_) (houtq ▸ h.good _) fun hst => ?_
    · unfold Endpoint.Sound
      rw [hpipe]
      exact hsnd
    · unfold Endpoint.Stalled at hst ⊢
      rwa [hpipe] at hst
  | @refused id out e _ _ _ hlook hc =>
    have hpipe := (Pipe.checkWrite_false (Endpoint.checkWrite_false hc).1).2
    have houtq : e.outq = (ends out.pipe).outq := by
      obtain rfl : (ends out.pipe).checkWrite.2 = e := by rw [hc]
      rfl
    refine ⟨hsending, fun x hx => ?_, outq_good_update h.good (houtq ▸ h.good _),
      fun k out' hk hst => ?_⟩
    · by_cases hxp : x = out.pipe
      · subst hxp
        rw [Function.update_self, Endpoint.Sound, hpipe]
        exact h.sound _ hx
      · simpa [hxp] using h.sound x hx
    · simp only [note] at hk
      by_cases hkid : k = id
      · grind [AList.lookup_insert]
      · rw [AList.lookup_insert_ne hkid] at hk
        have hne : out'.pipe ≠ out.pipe := fun hc => hkid (h.table.same_key hlook hk hc)
        exact h.stalled k out' hk (by simpa [hne] using hst)
  | @closed p e _ hcur hw =>
    have hpipe := (Pipe.checkWrite_false (Endpoint.write_false hw).1).2
    have hterm := h.toSending.terminating hcur hw
    refine h.setEnd hsending rfl rfl (fun hsnd => ?_) (Endpoint.write_good (h.good p) hw)
      fun hst => ?_
    · unfold Endpoint.Sound
      rw [hpipe]
      exact hsnd
    · -- a terminating pipe waits for nothing
      unfold Endpoint.Stalled at hst
      rw [hpipe] at hst
      exact absurd hst.1 hterm
  | @part p e _ _ hw hmore =>
    obtain ⟨-, hpipe, -⟩ := Endpoint.write_true hw
    rw [hmore, if_pos rfl] at hpipe
    refine h.setEnd hsending rfl rfl (fun hsnd => ?_) (Endpoint.write_good (h.good p) hw)
      fun hst => ?_
    · unfold Endpoint.Sound
      rw [hpipe]
      exact hsnd
    · unfold Endpoint.Stalled at hst ⊢
      rwa [hpipe] at hst
  | @last p e _ _ hw hmore =>
    obtain ⟨-, hpipe, -⟩ := Endpoint.write_true hw
    rw [hmore, if_neg (by simp)] at hpipe
    refine h.setEnd hsending rfl rfl (fun hsnd => ?_)
      (Endpoint.flush_good (Endpoint.write_good (h.good p) hw)) fun hst => ?_
    · unfold Endpoint.Sound
      rw [Endpoint.flush_pipe, hpipe]
      exact hsnd
    · unfold Endpoint.Stalled at hst ⊢
      rwa [Endpoint.flush_pipe, hpipe] at hst

theorem Live.exists_xsend (h : Live blob s ends) (address : Msg → Option κ) (msg : Msg) :
    ∃ t ends', Router.xsend address s ends msg = .ok (t, ends') ∧ Live blob t ends' := by
  have hout : ∀ p, s.currentOut = some p → s.moreOut = true ∧ (ends p).Sound := fun p hp =>
    ⟨(h.out p hp).1, h.sound p (h.out p hp).2.1⟩
  obtain ⟨t, ends', hx⟩ := Router.exists_xsend address msg hout
  exact ⟨t, ends', hx, h.sent (xsend_sent hx)⟩

theorem Live.event {S : Sink (Router κ α) α} (hS : Reacts blob S) (h : Live blob s ends)
    (hstep : PipeEvent.OutboundStep S s ends t ends') (hgood : ∀ x, (ends' x).outq.Good) :
    Live blob t ends' := by
  have hsending := h.toSending.event hS hstep
  cases hstep with
  | same hout =>
    exact ⟨hsending, fun x hx => (hout x).sound (h.sound x hx), hgood,
      fun k out hk hs => h.stalled k out hk ((hout _).stalled hs)⟩
  | @attach p e _ hp hsound hst _ hr =>
    rw [hS.fq] at hp
    obtain ⟨htable, -, k, hout⟩ := hS.attach h.table hp hr
    -- the new pipe is not stalled, and every other entry is about another pipe
    have hold : ∀ k' out, k' ≠ k → t.outpipes.lookup k' = some out →
        s.outpipes.lookup k' = some out ∧ out.pipe ≠ p := fun k' out hne hk' => by
      rw [hout, AList.lookup_insert_ne hne] at hk'
      exact ⟨hk', fun hc => hp ((h.table.attached p).2 ⟨k', hc ▸ pipeAt_of_lookup hk'⟩)⟩
    refine ⟨hsending, fun x hx => ?_, hgood, fun k' out hk' hs => ?_⟩
    · by_cases hxp : x = p
      · subst hxp
        simpa using hsound
      · obtain ⟨k', hk'⟩ := (htable.attached x).1 hx
        obtain ⟨out, hlook, rfl⟩ := Option.map_eq_some_iff.1 hk'
        rw [Function.update_of_ne hxp]
        refine h.sound _ ((h.table.attached _).2 ⟨k', pipeAt_of_lookup (hold k' out ?_ hlook).1⟩)
        rintro rfl
        rw [hout, AList.lookup_insert, Option.some.injEq] at hlook
        exact hxp (by rw [← hlook])
    · grind [AList.lookup_insert, h.stalled]
  | @terminated p _ hp hr =>
    rw [hS.fq] at hp
    rw [hS.terminated] at hr
    obtain ⟨fq, x, hfq, -, rfl⟩ := xterminated_ok hr
    refine ⟨hsending, fun y hy => h.sound y ?_, hgood, fun k out hk hs => ?_⟩
    · exact (((Fq.attached_terminated h.table.wf hp hfq).2 y).1 hy).1
    · grind [note, AList.lookup_erase, AList.lookup_erase_ne, h.stalled]
  | readActivated _ hr hout =>
    rw [hS.readActivated] at hr
    obtain ⟨fq, hfq, rfl⟩ := xreadActivated_ok hr
    refine ⟨hsending, fun x hx => (hout x).sound (h.sound x ?_), hgood,
      fun k out hk hs => h.stalled k out hk ((hout _).stalled hs)⟩
    exact ((Fq.attached_activated h.table.wf hfq).2 x).1 hx
  | @activated p n e _ hp _ hact hr =>
    rw [hS.fq] at hp
    rw [hS.writeActivated] at hr
    obtain ⟨k, out, hlook, hpipe, -, rfl⟩ := xwriteActivated_ok hr
    obtain ⟨-, hst, hsound⟩ := Endpoint.not_stalled_of_activated hact
    refine ⟨hsending, fun x hx => ?_, hgood, fun k' out' hk' hs => ?_⟩
    · grind [h.sound]
    · by_cases hkk : k' = k
      · grind [AList.lookup_insert]
      · rw [AList.lookup_insert_ne hkk] at hk'
        have hne : out'.pipe ≠ p := fun hc =>
          hkk (h.table.same_key hlook hk' (hc.trans hpipe.symm))
        exact h.stalled k' out' hk' (by simpa [hne] using hs)
  | @reported p n e hp _ hact =>
    obtain ⟨hst, hsound⟩ := Endpoint.stalled_of_reported hact
    have hgoode : e.outq.Good := by simpa using hgood p
    exact h.setEnd hsending rfl rfl hsound hgoode hst

/-! ## The assertions -/

theorem Table.exists_xterminated (h : s.Table blob) (hp : s.fq.attached p) :
    ∃ t, s.xterminated p = .ok t := by
  obtain ⟨fq, hfq⟩ : ∃ fq, s.fq.terminated p = .ok fq := by
    obtain ⟨a, ha⟩ := ArrayT.eraseAt_of_lt (h.wf.index_lt hp)
    unfold Fq.terminated Fq.withRotor Rotor.terminated
    by_cases hlt : s.fq.pipes.index p < s.fq.active <;> simp [hlt, ArrayT.erase, ha]
  obtain ⟨k, hk⟩ := (h.attached p).1 hp
  obtain ⟨out, hx, -⟩ := h.entryOf hk
  exact ⟨_, by simp only [Router.xterminated, hfq, hx]; rfl⟩

theorem Live.exists_xwriteActivated (h : Live blob s ends) (hp : s.fq.attached p)
    (hst : (ends p).Stalled) : ∃ t, s.xwriteActivated p = .ok t := by
  obtain ⟨k, hk⟩ := (h.table.attached p).1 hp
  obtain ⟨out, hx, hlook⟩ := h.table.entryOf hk
  obtain rfl : out.pipe = p := by
    rw [pipeAt_of_lookup hlook, Option.some.injEq] at hk
    exact hk
  have hact := h.stalled k out hlook hst
  exact ⟨_, by simp only [xwriteActivated, hx, hact, Bool.false_eq_true, if_false]; rfl⟩

end Router

end Libxs
