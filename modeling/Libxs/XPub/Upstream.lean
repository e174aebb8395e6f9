import Libxs.XPub.Proofs
import Mathlib.Data.Fintype.Basic

/-! # What `xpub_t` tells upstream -/

namespace Libxs

variable {α : Type}

namespace Wants

def Wanted (w : Wants α) (key : Subscription) : Prop := ∃ p, key ∈ w p

instance [Fintype α] (w : Wants α) (key : Subscription) : Decidable (w.Wanted key) := by
  unfold Wanted; infer_instance

theorem wanted_iff (w : Wants α) (key : Subscription) :
    w.Wanted key ↔ ∃ p, 0 < (w p).count key := by
  simp only [Wanted, List.count_pos_iff]

variable [LinearOrder α] {w : Wants α} {pipe : α} {c : Change Subscription}

theorem count_note (w : Wants α) (pipe : α) (c : Change Subscription) (p : α) (key : Subscription) :
    (w.note pipe c p).count key =
      if key = c.key ∧ p = pipe then
        (if c.present then (w pipe).count c.key + 1 else (w pipe).count c.key - 1)
      else (w p).count key := by
  by_cases hp : p = pipe
  · subst hp
    by_cases hk : key = c.key
    · subst hk
      cases hc : c.present <;> simp [note, hc]
    · cases hc : c.present
      · simp [note, hc, hk, List.count_erase_of_ne hk]
      · simp [note, hc, hk, List.count_cons_of_ne (Ne.symm hk)]
  · simp [note, hp]

theorem wanted_note_of_ne {key : Subscription} (h : key ≠ c.key) :
    (w.note pipe c).Wanted key ↔ w.Wanted key := by
  simp only [wanted_iff, count_note, h, false_and, if_false]

theorem wanted_note_present (w : Wants α) (pipe : α) (h : c.present = true) :
    (w.note pipe c).Wanted c.key :=
  ⟨pipe, by simp [note, h]⟩

theorem wanted_of_note (h : c.present = false) (hw : (w.note pipe c).Wanted c.key) :
    w.Wanted c.key := by
  obtain ⟨p, hp⟩ := (wanted_iff _ _).1 hw
  refine (wanted_iff _ _).2 ⟨p, ?_⟩
  rw [count_note] at hp
  grind

end Wants

variable [LinearOrder α]

theorem XPub.hasNode_of_countIn {x : XPub α} {key : Subscription} {u : α}
    (hkey : key.1 = PubSub.filterPrefixId) (h : 0 < Filter.countIn x.filters key u) :
    x.hasNode key = true := by
  unfold Filter.countIn at h
  unfold XPub.hasNode
  cases hf : Filter.find x.filters key.1 with
  | none => simp [hf] at h
  | some f =>
    simp only [hf] at h ⊢
    cases f with
    | pfx t => exact Filter.hasNode_of_countAt h
    | topic t =>
      have hid := (Filter.find_id hf).trans hkey
      exact absurd hid (by simp [Filter.id, PubSub.filterPrefixId, PubSub.filterTopicId])

namespace XPubSystem

variable {s : XPubSystem α} {pipe : α}
variable {c : Change Subscription} {e : Endpoint}

def Told (blobs : List (List UInt8)) (w : Wants α) : Prop :=
  ∃ log, blobs.map PubSub.parse = log.map some ∧ Change.Clean log ∧
    ∀ key, Change.replay log key = true ↔ w.Wanted key

structure Inv (s : XPubSystem α) : Prop where
  sound : s.pub.Sound
  xpub : s.pub.isPub = false
  books : ∀ key p, Filter.countIn s.pub.filters key p = (s.wants p).count key
  live : ∀ p, ¬ s.attached p → s.wants p = []
  told : Told (s.received ++ s.pub.pending) s.wants

theorem inv_init : (init false : XPubSystem α).Inv where
  sound := XPub.sound_init false
  xpub := rfl
  books _ _ := rfl
  live _ _ := rfl
  told := ⟨[], rfl, trivial, fun key => by simp [init, Wants.Wanted]⟩

def Faithful (s : XPubSystem α) : Prop :=
  ∃ log, (s.received ++ s.pub.pending).map PubSub.parse = log.map some ∧ Change.Clean log ∧
    ∀ key, Change.replay log key = true ↔ ∃ p, s.attached p ∧ key ∈ s.wants p

theorem Inv.faithful (h : s.Inv) : s.Faithful := by
  obtain ⟨log, hlog, hclean, hreplay⟩ := h.told
  refine ⟨log, hlog, hclean, fun key => (hreplay key).trans ⟨?_, fun ⟨p, _, hp⟩ => ⟨p, hp⟩⟩⟩
  rintro ⟨p, hp⟩
  refine ⟨p, ?_, hp⟩
  by_contra hdead
  rw [h.live p hdead] at hp
  cases hp

theorem Inv.wanted_iff (h : s.Inv) (key : Subscription) :
    s.wants.Wanted key ↔ ∃ p, 0 < Filter.countIn s.pub.filters key p := by
  simp only [Wants.wanted_iff, h.books]

def Keeps (pipe : α) (s : XPubSystem α) (c : Change Subscription) : Prop :=
  if c.present then
    if c.key.1 = PubSub.filterPrefixId then (s.wants pipe).count c.key + 1 < 2 ^ 31
    else c.key.1 = PubSub.filterTopicId ∧ ¬ s.wants.Wanted c.key
  else
    if c.key.1 = PubSub.filterPrefixId then
      (Filter.find s.pub.filters c.key.1).isSome = true ∧
        (s.pub.hasNode c.key = true → s.wants.Wanted c.key)
    else c.key.1 = PubSub.filterTopicId ∧ c.key ∈ s.wants pipe ∧
      (s.wants.note pipe c).Wanted c.key

instance [Fintype α] (pipe : α) (s : XPubSystem α) (c : Change Subscription) :
    Decidable (s.Keeps pipe c) := by
  unfold Keeps; infer_instance

theorem Inv.accepts (h : s.Inv) (hk : s.Keeps pipe c) : s.pub.Accepts pipe c := by
  unfold Keeps at hk
  unfold XPub.Accepts
  split_ifs at hk ⊢ with hp hpfx hpfx
  · exact ⟨Or.inl hpfx, fun _ => by rw [h.books]; exact hk⟩
  · exact ⟨Or.inr hk.1, fun hc => absurd hc hpfx⟩
  · exact hk.1
  · have hpos : 0 < Filter.countIn s.pub.filters c.key pipe := by
      rw [h.books]
      exact List.count_pos_iff.2 hk.2.1
    grind [Filter.countIn]

theorem countAfter_eq (h : ∀ key p, Filter.countIn s.pub.filters key p = (s.wants p).count key)
    (pipe : α) (c : Change Subscription) (key : Subscription) (p : α) :
    s.pub.countAfter pipe c key p = (s.wants.note pipe c p).count key := by
  simp only [XPub.countAfter, Wants.count_note, h]

theorem Inv.announces_iff (h : s.Inv) (hk : s.Keeps pipe c) :
    (s.pub.Announces pipe c → (s.wants.Wanted c.key ↔ c.present = false) ∧
        ((s.wants.note pipe c).Wanted c.key ↔ c.present = true)) ∧
      (¬ s.pub.Announces pipe c →
        ((s.wants.note pipe c).Wanted c.key ↔ s.wants.Wanted c.key)) := by
  unfold Keeps at hk
  unfold XPub.Announces
  cases hp : c.present with
  | true =>
    have hafter := s.wants.wanted_note_present pipe hp
    have hnobody : (∀ u, Filter.countIn s.pub.filters c.key u = 0) ↔ ¬ s.wants.Wanted c.key := by
      simp [h.wanted_iff, Nat.pos_iff_ne_zero]
    simp only [hp, if_true, hafter, hnobody] at hk ⊢
    split at hk
    next hpfx =>
      have hne : c.key.1 ≠ PubSub.filterTopicId := by
        rw [hpfx]
        decide
      simp [hne]
    · simp [hk.1, hk.2]
  | false =>
    have hless : (s.wants.note pipe c).Wanted c.key → s.wants.Wanted c.key :=
      Wants.wanted_of_note hp
    simp only [hp, Bool.false_eq_true, if_false] at hk ⊢
    split at hk
    next hpfx =>
      have hne : c.key.1 ≠ PubSub.filterTopicId := by
        rw [hpfx]
        decide
      have hnobody : (∀ u, s.pub.countAfter pipe c c.key u = 0) ↔
          ¬ (s.wants.note pipe c).Wanted c.key := by
        simp [Wants.wanted_iff, countAfter_eq h.books, Nat.pos_iff_ne_zero]
      have hnode : s.wants.Wanted c.key → s.pub.hasNode c.key = true := fun hw => by
        obtain ⟨u, hu⟩ := (h.wanted_iff _).1 hw
        exact XPub.hasNode_of_countIn hpfx hu
      simp only [hne, if_false, hnobody]
      refine ⟨fun ha => ⟨by simpa using hk.2 ha.1, by simpa using ha.2⟩, fun hn => ⟨hless, fun hw => ?_⟩⟩
      by_contra hw'
      exact hn ⟨hnode hw, hw'⟩
    next hpfx =>
      obtain ⟨htopic, hmem, hstill⟩ := hk
      have hpos : Filter.countIn s.pub.filters c.key pipe ≠ 0 := by grind [h.books]
      simp only [htopic, if_true, hpos, false_imp_iff, not_false_eq_true, true_imp_iff, true_and]
      exact ⟨fun _ => ⟨pipe, hmem⟩, fun _ => hstill⟩

def turn (pipe : α) (s : XPubSystem α) (a : List UInt8 × Change Subscription) :
    Except Fault (XPubSystem α) :=
  match s.pub.turn pipe a with
  | .error err => .error err
  | .ok pub => .ok { s with pub := pub, wants := s.wants.note pipe a.2 }

theorem run_turn (pipe : α) : ∀ (cmds : List (List UInt8 × Change Subscription)) {s s' : XPubSystem α},
    run (turn pipe) s cmds = .ok s' →
      run (XPub.turn pipe) s.pub cmds = .ok s'.pub ∧ s' = { s with
        pub := s'.pub, wants := cmds.foldl (fun w c => w.note pipe c.2) s.wants } := by
  intro cmds
  induction cmds with
  | nil =>
    intro s s' h
    simp only [run_nil] at h
    cases h
    exact ⟨rfl, rfl⟩
  | cons a cmds ih =>
    intro s s' h
    obtain ⟨s₁, hs₁, hrest⟩ := run_cons_inv h
    unfold turn at hs₁
    grind [run_cons_ok]

theorem Told.note {blobs : List (List UInt8)} {w : Wants α} (h : Told blobs w) (pipe : α)
    {blob : List UInt8} (hparse : PubSub.parse blob = some c) {b : Bool}
    (hyes : b = true → (w.Wanted c.key ↔ c.present = false) ∧
      ((w.note pipe c).Wanted c.key ↔ c.present = true))
    (hno : b = false → ((w.note pipe c).Wanted c.key ↔ w.Wanted c.key)) :
    Told (if b then blobs ++ [blob] else blobs) (w.note pipe c) := by
  obtain ⟨log, hlog, hclean, hreplay⟩ := h
  cases b with
  | true =>
    obtain ⟨hbefore, hafter⟩ := hyes rfl
    refine ⟨log ++ [c], by simp [hlog, hparse], Change.clean_concat.2 ⟨hclean, ?_⟩, fun key => ?_⟩
    · have hr := (hreplay c.key).trans hbefore
      cases hc : c.present <;> simp_all
    · rw [Change.replay_concat]
      grind [Change.apply_self, Change.apply_of_ne, Wants.wanted_note_of_ne]
  | false =>
    refine ⟨log, by simpa using hlog, hclean, fun key => ?_⟩
    rw [hreplay]
    grind [Wants.wanted_note_of_ne]

theorem Inv.turn (h : s.Inv) (hp : s.attached pipe) {a : List UInt8 × Change Subscription}
    (hparse : PubSub.parse a.1 = some a.2) (hk : s.Keeps pipe a.2) :
    ∃ s', XPubSystem.turn pipe s a = .ok s' ∧ s'.Inv ∧ s'.attached pipe := by
  obtain ⟨x', b, hproc, hs, hpub, hdist, hcount, hpending, hb⟩ := h.sound.process (h.accepts hk) a.1
  have hb := hb h.xpub
  obtain ⟨hyes, hno⟩ := h.announces_iff hk
  refine ⟨{ s with pub := x', wants := s.wants.note pipe a.2 },
    by simp only [XPubSystem.turn, XPub.turn, hproc], ⟨hs, hpub.trans h.xpub, fun key p => ?_,
      fun p hdead => ?_, ?_⟩, ?_⟩
  · rw [hcount, countAfter_eq h.books]
  · simp only [attached, hdist] at hdead
    have hne : p ≠ pipe := fun he => hdead (he ▸ hp)
    simp only [Wants.note, Function.update_of_ne hne, h.live p hdead]
  · have htold := h.told.note pipe hparse (fun ht => hyes (hb.1 ht))
      (fun hf => hno fun ha => by simp [hb.2 ha] at hf)
    rw [hpending]
    cases b <;> simpa using htold
  · simpa only [attached, hdist] using hp

theorem Inv.turns (h : s.Inv) (hp : s.attached pipe)
    (hk : RunMeets (XPubSystem.turn pipe) (fun s a => s.Keeps pipe a.2) s e.waiting) :
    ∃ s', run (XPubSystem.turn pipe) s e.waiting = .ok s' ∧ s'.Inv := by
  obtain ⟨s', hrun, hI, -⟩ := run_safe_meets (I := fun s => s.Inv ∧ s.attached pipe)
    (fun s a hI hc => hI.1.turn hI.2 hc.1 hc.2) e.waiting s ⟨h, hp⟩
    (hk.and_forall fun a ha => Endpoint.commands_parse ha)
  exact ⟨s', hrun, hI⟩

theorem Inv.read (h : s.Inv) (hp : s.attached pipe) (ends : Ends α)
    (hk : RunMeets (XPubSystem.turn pipe) (fun s a => s.Keeps pipe a.2) s (ends pipe).waiting) :
    ∃ x ends', s.pub.xreadActivated ends pipe = .ok (x, ends') ∧
      Inv { s with pub := x, ends := ends', wants := noteAll s.wants pipe (ends pipe) } := by
  obtain ⟨s', hrun, hI⟩ := h.turns hp hk
  obtain ⟨hpub, hs'⟩ := run_turn pipe _ hrun
  obtain ⟨ends', hread⟩ := XPub.xreadActivated_eq ends pipe
  refine ⟨s'.pub, ends', by rw [hread, hpub]; rfl, ?_⟩
  rw [hs'] at hI
  exact ⟨hI.sound, hI.xpub, hI.books, hI.live, hI.told⟩

def Leaves (s : XPubSystem α) (pipe : α) : Prop :=
  ∀ key ∈ s.wants pipe,
    if key.1 = PubSub.filterPrefixId then (s.wants pipe).count key ≤ 1
    else ∃ p, p ≠ pipe ∧ key ∈ s.wants p

instance [Fintype α] (s : XPubSystem α) (pipe : α) : Decidable (s.Leaves pipe) := by
  unfold Leaves; infer_instance

def FirstKept (s : XPubSystem α) (pipe : α) (e : Endpoint) (icanhasall : Bool) (ver : Nat) : Prop :=
  match s.pub.enter icanhasall ver pipe with
  | .error _ => True
  | .ok x => RunMeets (turn pipe) (fun s a => s.Keeps pipe a.2)
      { s with pub := x, wants := noteAttached s.wants pipe icanhasall ver } e.waiting

instance [Fintype α] (s : XPubSystem α) (pipe : α) (e : Endpoint) (icanhasall : Bool) (ver : Nat) :
    Decidable (s.FirstKept pipe e icanhasall ver) := by
  unfold FirstKept; split <;> infer_instance

def StepKeeps (s : XPubSystem α) : XPubOp α → Prop
  | .attach pipe e icanhasall ver =>
    ¬ s.attached pipe →
      (XPub.Implicit icanhasall ver → s.wants.Wanted (PubSub.filterPrefixId, [])) ∧
        s.FirstKept pipe e icanhasall ver
  | .activateRead pipe =>
    s.attached pipe → (s.ends pipe).processActivateRead.1 = true →
      RunMeets (turn pipe) (fun s a => s.Keeps pipe a.2) s
        (s.ends pipe).processActivateRead.2.waiting
  | .terminated pipe => s.attached pipe → s.Leaves pipe
  | _ => True

instance [Fintype α] (s : XPubSystem α) (op : XPubOp α) : Decidable (s.StepKeeps op) := by
  unfold StepKeeps; split <;> infer_instance

theorem Inv.attach (h : s.Inv) (hp : ¬ s.attached pipe) {icanhasall : Bool} {ver : Nat}
    (himp : XPub.Implicit icanhasall ver → s.wants.Wanted (PubSub.filterPrefixId, []))
    (hkept : s.FirstKept pipe e icanhasall ver) :
    ∃ s', s.step (.attach pipe e icanhasall ver) = .ok s' ∧ s'.Inv := by
  have hnew : ∀ key, (s.wants pipe).count key = 0 := fun key => by rw [h.live pipe hp]; rfl
  have hroom : XPub.Implicit icanhasall ver →
      Filter.countIn s.pub.filters (PubSub.filterPrefixId, []) pipe + 1 < 2 ^ 31 := fun _ => by
    rw [h.books, hnew]
    decide
  obtain ⟨x, henter, hs, hpub, hpending, hatt, hcount⟩ := h.sound.enter hp hroom
  have hI : Inv { s with pub := x, wants := noteAttached s.wants pipe icanhasall ver } := by
    refine ⟨hs, hpub.trans h.xpub, fun key p => ?_, fun p hdead => ?_, ?_⟩
    · simp only [hcount, noteAttached]
      split
      · exact countAfter_eq h.books _ _ _ _
      · exact h.books key p
    · obtain ⟨hdead, hne⟩ : ¬ s.attached p ∧ p ≠ pipe := by
        simpa only [attached, hatt, not_or] using hdead
      simp only [noteAttached, Wants.note]
      grind [h.live]
    · simp only [hpending, noteAttached]
      split
      next hi =>
        -- somebody has that subscription already, so that there is nothing to tell
        have hparse := PubSub.parse_command (c := ⟨true, PubSub.filterPrefixId, []⟩) (by decide)
        exact h.told.note pipe hparse (b := false) (by simp) fun _ =>
          ⟨fun _ => himp hi, fun _ => s.wants.wanted_note_present pipe rfl⟩
      · exact h.told
  rw [FirstKept, henter] at hkept
  have hp' : x.dist.attached pipe := (hatt pipe).2 (Or.inr rfl)
  obtain ⟨x', ends', hread, hI'⟩ := hI.read hp' (Function.update s.ends pipe e) (by
    rw [Function.update_self]
    exact hkept)
  rw [Function.update_self] at hI'
  exact ⟨_, by simp only [step, if_neg hp, XPub.xattachPipe, henter, hread], hI'⟩

theorem Inv.terminated (h : s.Inv) (hp : s.attached pipe) (hl : s.Leaves pipe) :
    ∃ s', s.step (.terminated pipe) = .ok s' ∧ s'.Inv := by
  obtain ⟨x, keys, hterm, hs, hpub, hatt, hcount, hpending, hnodup, hmem⟩ := h.sound.xterminated hp
  have hbooks : ∀ key p, Filter.countIn x.filters key p =
      ((Function.update s.wants pipe []) p).count key := by
    intro key p
    rw [hcount, h.books]
    by_cases hpp : p = pipe
    · subst hpp
      simp only [if_true, Function.update_self, List.count_nil]
      by_cases hkey : key ∈ s.wants p
      · have := hl key hkey
        split <;> simp_all
      · simp [List.count_eq_zero_of_not_mem hkey]
    · simp [hpp]
  have hwanted : ∀ key, Wants.Wanted (Function.update s.wants pipe []) key ↔
      ∃ p, 0 < Filter.countIn x.filters key p := fun key => by
    simp only [Wants.wanted_iff, hbooks]
  refine ⟨{ s with pub := x, wants := Function.update s.wants pipe [] },
    by simp only [step, if_pos hp, hterm], hs, hpub.trans h.xpub, hbooks, fun p hdead => ?_, ?_⟩
  · grind [h.live]
  · obtain ⟨log, hlog, hclean, hreplay⟩ := h.told
    refine ⟨log ++ keys.map (⟨false, ·⟩), ?_, Change.clean_append_map hclean hnodup fun key hkey => ?_,
      fun key => ?_⟩
    · have hparse : keys.map (fun key => PubSub.parse (PubSub.command ⟨false, key⟩)) =
          keys.map fun key => some ⟨false, key⟩ :=
        List.map_congr_left fun key hkey => PubSub.parse_command (c := ⟨false, key⟩) (by
          simp [((hmem key).1 hkey).1, PubSub.filterPrefixId])
      rw [hpending h.xpub, ← List.append_assoc, List.map_append, hlog, List.map_append, List.map_map,
        List.map_map]
      exact congrArg _ hparse
    · grind [h.wanted_iff]
    · rw [Change.replay_append_map]
      split
      next hkey =>
        have hnone := ((hmem key).1 hkey).2.2
        simp [hwanted, hnone]
      next hkey =>
        rw [hreplay]
        constructor
        · rintro ⟨p, hp'⟩
          by_cases hpp : p = pipe
          · subst hpp
            by_cases hpfx : key.1 = PubSub.filterPrefixId
            · -- not announced, so that somebody is left
              by_contra hno
              rw [hwanted, not_exists] at hno
              exact hkey ((hmem key).2 ⟨hpfx, (h.wanted_iff key).1 ⟨p, hp'⟩,
                fun u => Nat.eq_zero_of_not_pos (hno u)⟩)
            · have := hl key hp'
              rw [if_neg hpfx] at this
              obtain ⟨q, hq, hmemq⟩ := this
              exact ⟨q, by simpa [hq] using hmemq⟩
          · exact ⟨p, by simpa [hpp] using hp'⟩
        · rintro ⟨p, hp'⟩
          by_cases hpp : p = pipe
          · simp [hpp] at hp'
          · exact ⟨p, by simpa [hpp] using hp'⟩

theorem Inv.step (h : s.Inv) (op : XPubOp α) (hk : s.StepKeeps op) :
    ∃ s', s.step op = .ok s' ∧ s'.Inv := by
  cases op with
  | attach pipe e icanhasall ver =>
    by_cases hp : s.attached pipe
    · exact ⟨s, by simp only [XPubSystem.step, hp, if_true], h⟩
    · exact h.attach hp (hk hp).1 (hk hp).2
  | activateRead pipe =>
    by_cases hp : s.attached pipe
    · have hk := hk hp
      simp only [XPubSystem.step, if_pos hp]
      rcases hact : (s.ends pipe).processActivateRead with ⟨_ | _, e⟩
      · exact ⟨_, rfl, h.sound, h.xpub, h.books, h.live, h.told⟩
      · rw [hact] at hk
        obtain ⟨x', ends', hread, hI'⟩ := h.read hp (Function.update s.ends pipe e) (by
          rw [Function.update_self]
          exact hk rfl)
        rw [Function.update_self] at hI'
        simp only [hread]
        exact ⟨_, rfl, hI'⟩
    · exact ⟨s, by simp only [XPubSystem.step, if_neg hp], h⟩
  | terminated pipe =>
    by_cases hp : s.attached pipe
    · exact h.terminated hp (hk hp)
    · exact ⟨s, by simp only [XPubSystem.step, if_neg hp], h⟩
  | recv =>
    simp only [XPubSystem.step, XPub.xrecv]
    cases hpend : s.pub.pending with
    | nil => exact ⟨_, rfl, h.sound, h.xpub, h.books, h.live, h.told⟩
    | cons blob pending =>
      have htold := h.told
      rw [hpend] at htold
      exact ⟨_, rfl, ⟨h.sound.dist, h.sound.wf, h.sound.ids⟩, h.xpub, h.books, h.live, by
        simpa using htold⟩
  | change pipe e => exact ⟨_, rfl, h.sound, h.xpub, h.books, h.live, h.told⟩

/-- **As long as the filters tell the truth, so does the publisher.** -/
theorem upstream_faithful {ops : List (XPubOp α)}
    (hops : RunMeets step StepKeeps (init false) ops) :
    ∃ s, run step (init false) ops = .ok s ∧ s.Faithful := by
  obtain ⟨s, hrun, h⟩ := run_safe_meets (fun s op hI hk => hI.step op hk) ops _ inv_init hops
  exact ⟨s, hrun, h.faithful⟩

def sleeping (messages : List (List UInt8)) : Endpoint :=
  { holding messages with pipe := { Pipe.init 0 1 0 0 true with inActive := false } }

def sharedTopic : List (XPubOp (Fin 2)) :=
  [.attach 0 (holding [[0, 1, 0, 1, 97], [0, 1, 0, 1, 97, 98]]) false 4,
    .attach 1 (holding [[0, 1, 0, 1, 97], [0, 1, 0, 2, 120]]) false 4, .recv, .terminated 0,
    .change 1 (sleeping [[0, 2, 0, 1, 97]]), .activateRead 1, .recv]

set_option maxRecDepth 4000 in
theorem sharedTopic_faithful :
    RunMeets step StepKeeps (init false) sharedTopic ∧
      ∃ s, run step (init false) sharedTopic = .ok s ∧ s.Faithful := by
  have hops : RunMeets step StepKeeps (init false) sharedTopic := by
    decide
  exact ⟨hops, upstream_faithful hops⟩

theorem Faithful.of_log (h : s.Faithful) (log : List (Change Subscription))
    (hlog : (s.received ++ s.pub.pending).map PubSub.parse = log.map some) :
    Change.Clean log ∧ ∀ key, Change.replay log key = true ↔ ∃ p, s.attached p ∧ key ∈ s.wants p := by
  obtain ⟨log', hlog', hrest⟩ := h
  have hsame : log' = log :=
    List.map_injective_iff.2 (Option.some_injective _) (hlog'.symm.trans hlog)
  exact hsame ▸ hrest

def topicGone : List (XPubOp (Fin 2)) :=
  [.attach 0 (holding [[0, 1, 0, 2, 97]]) false 4, .terminated 0]

def shorterGivenUp : List (XPubOp (Fin 2)) :=
  [.attach 0 (holding [[0, 1, 0, 1, 97, 98], [0, 2, 0, 1, 97]]) false 4]

theorem misled_upstream :
    (∃ s, run step (init false) topicGone = .ok s ∧ ¬ s.Faithful) ∧
      ∃ s, run step (init false) shorterGivenUp = .ok s ∧ ¬ s.Faithful := by
  refine ⟨⟨_, rfl, fun h => ?_⟩, ⟨_, rfl, fun h => ?_⟩⟩
  · obtain ⟨-, hreplay⟩ := h.of_log [⟨true, PubSub.filterTopicId, [97]⟩] (by decide)
    obtain ⟨p, hp, -⟩ := (hreplay (PubSub.filterTopicId, [97])).1 (by decide)
    exact absurd hp List.not_mem_nil
  · obtain ⟨hclean, -⟩ := h.of_log [⟨true, PubSub.filterPrefixId, [97, 98]⟩,
      ⟨false, PubSub.filterPrefixId, [97]⟩] (by decide)
    exact absurd hclean (by decide)

end XPubSystem

end Libxs
