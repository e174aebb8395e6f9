import Libxs.Surveyor.Proofs

/-! # When a surveyor reports that there is nothing to receive -/

namespace Libxs

variable {e : Endpoint} {r : Option Msg}

def Endpoint.unread (e : Endpoint) : List Msg :=
  if e.canRead then e.inq.flushed.takeWhile fun m => !m.isDelimiter else []

theorem Endpoint.Reads.unread {e' : Endpoint} (h : e.Reads e' r) :
    e.unread = r.toList ++ e'.unread := by
  cases h with
  | part hcan hcan' hplain hflushed _ =>
    simp [Endpoint.unread, hcan, hcan', hflushed, hplain]
  | delimiter hcan hcan' hdelim hflushed _ =>
    simp [Endpoint.unread, hcan, hcan', hflushed, hdelim]
  | empty hcan hcan' hflushed _ _ => simp [Endpoint.unread, hcan, hcan', hflushed]
  | refused hcan hcan' _ => simp [Endpoint.unread, hcan, hcan']

theorem Endpoint.read_unread {e' : Endpoint} (hwf : e.inq.WF)
    (h : e.read = .ok (r, e')) : e.unread = r.toList ++ e'.unread := by
  obtain ⟨r₀, e₀, hr₀, hreads, -⟩ := Endpoint.read_reads hwf
  rw [h, Except.ok.injEq, Prod.mk.injEq] at hr₀
  obtain ⟨rfl, rfl⟩ := hr₀
  exact hreads.unread

theorem Endpoint.unread_eq_nil (hwf : e.inq.WF) (h : ¬ e.Readable) : e.unread = [] := by
  obtain ⟨r, e', hr, hreads, -⟩ := Endpoint.read_reads hwf
  cases r with
  | some m => exact absurd ⟨m, e', hr⟩ h
  | none =>
    cases hreads with
    | delimiter hcan _ hdelim hflushed _ => simp [Endpoint.unread, hcan, hflushed, hdelim]
    | empty hcan _ hflushed _ _ => simp [Endpoint.unread, hcan, hflushed]
    | refused hcan _ _ => simp [Endpoint.unread, hcan]

variable {α : Type} [DecidableEq α]

namespace Fq

def partsFrom (p : α) (l : List (Msg × α)) : List Msg := (l.filter fun a => a.2 = p).map Prod.fst

theorem partsFrom_append (p : α) (l l' : List (Msg × α)) :
    partsFrom p (l ++ l') = partsFrom p l ++ partsFrom p l' := by
  simp [partsFrom]

theorem partsFrom_source (p : α) (ms : List Msg) : partsFrom p (ms.map (·, p)) = ms := by
  induction ms with
  | nil => rfl
  | cons m ms ih => simpa [partsFrom] using ih

theorem partsFrom_other {p x : α} (h : p ≠ x) (ms : List Msg) :
    partsFrom x (ms.map (·, p)) = [] := by
  simp [partsFrom, List.filter_map, Function.comp_def, h]

theorem recvLoop_unread : ∀ (count : Nat) {fq fq' : Fq α} {ends ends' : Ends α}
    {r : Option (Msg × α)}, fq.pipes.WF →
    (∀ x, fq.attached x → ∃ mid, (ends x).inq.Inbound mid) →
    recvLoop count fq ends = .ok (r, fq', ends') →
    ∀ x, fq.attached x → (ends x).unread = partsFrom x r.toList ++ (ends' x).unread := by
  intro count
  induction count with
  | zero =>
    intro fq fq' ends ends' r _ _ h x _
    simp only [recvLoop] at h
    cases h
    rfl
  | succ count ih =>
    intro fq fq' ends ends' r hwf hin h x hx
    unfold recvLoop at h
    split at h
    · cases h
    next p hget =>
      obtain ⟨mid, hp⟩ := hin p (ArrayT.mem_of_get hget)
      split at h
      · cases h
      next msg e hread =>
        have htaken := Endpoint.read_unread hp.good.wf hread
        cases h
        grind [partsFrom]
      next e hread =>
        -- the pipe had nothing, and the loop goes on without it
        have hnone := Endpoint.read_unread hp.good.wf hread
        have hsame : ∀ y, (Function.update ends p e y).unread = (ends y).unread := fun y => by grind
        split at h
        · cases h
        · split at h
          · cases h
          next fq₁ hde =>
            obtain ⟨hwf₁, hatt₁⟩ := attached_deactivate hwf hde
            have hin₁ : ∀ y, fq₁.attached y →
                ∃ mid, (Function.update ends p e y).inq.Inbound mid := fun y hy => by
              by_cases hyp : y = p
              · subst hyp
                exact ⟨_, by simpa using (Endpoint.read_inbound hp hread).1⟩
              · simpa [hyp] using hin y ((hatt₁ y).1 hy)
            rw [← hsame x]
            exact ih hwf₁ hin₁ h x ((hatt₁ x).2 hx)

end Fq

/-! ## What the queue hands out is what the pipes hold -/

namespace XSurveyor

variable {x : XSurveyor α × Ends α}

def Waiting (x : XSurveyor α × Ends α) (m : List Msg) : Prop :=
  ∃ p, x.1.fq.attached p ∧ m ∈ messages Msg.more (x.2 p).unread

structure Takes (x₀ x : XSurveyor α × Ends α) : Prop where
  tracks : x.1.fq.Tracks readWatch x.2
  taken : ∃ l, x.1.received = x₀.1.received ++ l ∧ (∀ a ∈ l, x₀.1.fq.attached a.2) ∧
    ∀ p, x₀.1.fq.attached p → (x₀.2 p).unread = Fq.partsFrom p l ++ (x.2 p).unread

theorem Takes.refl (h : x.1.fq.Tracks readWatch x.2) : Takes x x :=
  ⟨h, [], by simp, fun a ha => absurd ha (by simp), fun _ _ => rfl⟩

theorem Takes.recv {x₀ x' : XSurveyor α × Ends α} {mid : Bool} {r : Option Msg}
    (h : Takes x₀ x) (hx : Ready mid x) (hatt : ∀ p, x.1.fq.attached p ↔ x₀.1.fq.attached p)
    (hr : supply.recv x = .ok (r, x')) : Takes x₀ x' := by
  obtain ⟨part, fq, ends, hrun, hrec, hx', -, -⟩ := xrecv_spec hx
  rw [hr, Except.ok.injEq, Prod.mk.injEq] at hx'
  obtain ⟨-, rfl⟩ := hx'
  obtain ⟨l, hlog, hfrom, hunread⟩ := h.taken
  refine ⟨(FqSystem.Inv.recvpipe (s := ⟨x.1.fq, x.2⟩) h.tracks hrun).1, l ++ part.toList, ?_, ?_, ?_⟩
  · simp only [hlog, List.append_assoc]
  · intro a ha
    rcases List.mem_append.1 ha with hold | hnew
    · exact hfrom a hold
    · obtain rfl : part = some a := by simpa using hnew
      exact (hatt a.2).1 (hrec.part a.1 a.2 rfl).1
  · intro p hp
    have hone := Fq.recvLoop_unread _ hx.intake.bounded.part.wf
      (fun y hy => ⟨_, (hx.intake.content y hy).toInbound⟩) hrun p ((hatt p).2 hp)
    rw [hunread p hp, hone, Fq.partsFrom_append, List.append_assoc]

theorem supply_takes (x₀ : XSurveyor α × Ends α) :
    (supply : Supply Fault (XSurveyor α × Ends α) Msg).Sound
      (fun mid x => Receives x₀ mid x ∧ Takes x₀ x) :=
  (supply_sound x₀).and fun hx h hr => h.recv hx.1 hx.2.2.attached hr

theorem waiting_of_taken {x' : XSurveyor α × Ends α} {c rest : List Msg}
    (hx : Receives x false x') (ht : Takes x x') (hp : supply.parts x = c ++ rest)
    (hp' : supply.parts x' = rest) (hc : Whole Msg.more c) (m : List Msg) :
    Waiting x m ↔ m = c ∨ Waiting x' m := by
  obtain ⟨l, hlog, hl, hchain⟩ := hx.log hp hp'
  obtain ⟨l', hlog', hfrom, hunread⟩ := ht.taken
  obtain rfl : l' = l := List.append_cancel_left (hlog'.symm.trans hlog)
  obtain ⟨p, hsource⟩ := sourced_whole hchain (by rw [hl]; exact hc)
  rw [hl] at hsource
  have hatt : x.1.fq.attached p := by
    obtain ⟨a, as, rfl⟩ := List.exists_cons_of_ne_nil hc.ne_nil
    exact hfrom (a, p) (by simp [hsource])
  have hmsgs : ∀ y, x.1.fq.attached y → messages Msg.more (x.2 y).unread =
      (if y = p then [c] else []) ++ messages Msg.more (x'.2 y).unread := fun y hy => by
    rw [hunread y hy, hsource]
    by_cases hyp : y = p
    · subst hyp
      rw [Fq.partsFrom_source, messages_append hc, if_pos rfl]
      rfl
    · rw [Fq.partsFrom_other (Ne.symm hyp), if_neg hyp]
      rfl
  constructor
  · rintro ⟨y, hy, hm⟩
    rw [hmsgs y hy, List.mem_append] at hm
    rcases hm with hm | hm
    · exact Or.inl (by split at hm <;> simp_all)
    · exact Or.inr ⟨y, (hx.2.2.attached y).2 hy, hm⟩
  · rintro (rfl | ⟨y, hy, hm⟩)
    · exact ⟨p, hatt, by simp [hmsgs p hatt]⟩
    · have hy' := (hx.2.2.attached y).1 hy
      exact ⟨y, hy', by rw [hmsgs y hy']; exact List.mem_append.2 (Or.inr hm)⟩

theorem mem_parts_iff : ∀ (n : Nat) {mid : Bool} {x : XSurveyor α × Ends α}, Ready mid x → Sourced x →
    x.1.fq.Tracks readWatch x.2 → supply.left x ≤ n → ∀ m,
    m ∈ messages Msg.more (supply.parts x) ↔ Waiting x m := by
  intro n
  induction n using Nat.strongRecOn with
  | ind n ih =>
    intro mid x hready hsourced htracks hn m
    have h : Receives x mid x ∧ Takes x x := ⟨⟨hready, hsourced, .refl x⟩, .refl htracks⟩
    have hcases : supply.parts x = [] ∨ ∃ c rest, supply.parts x = c ++ rest ∧
        Whole Msg.more c ∧ Frames Msg.more false rest := by
      have hframes := (supply_takes x).parts_frames h
      cases mid with
      | false => exact hframes.cases
      | true => exact Or.inr hframes.split
    rcases hcases with hnil | ⟨c, rest, hp, hc, -⟩
    · -- the queue found no pipe readable
      obtain ⟨part, fq, ends, hrun, -, hx, -, -⟩ := xrecv_spec hready
      obtain ⟨-, x', hr, -⟩ := (supply_takes x).recv_nil h hnil
      have hnone : part = none := by
        rw [hx, Except.ok.injEq, Prod.mk.injEq] at hr
        simpa using hr.1
      have hempty := (FqSystem.Inv.recvpipe (s := ⟨x.1.fq, x.2⟩) htracks hrun).2 hnone
      rw [hnil]
      refine ⟨fun hm => absurd hm (by simp [messages]), ?_⟩
      rintro ⟨p, hp, hm⟩
      have hwf := (hready.intake.content p hp).toInbound.good.wf
      rw [Endpoint.unread_eq_nil hwf (hempty p hp)] at hm
      exact absurd hm (by simp [messages])
    · obtain ⟨x', -, ⟨hrec, htake⟩, hp', hlt⟩ := (supply_takes x).drain_whole .assertFailed
        .outOfFuel h hp hc (Nat.le_refl _)
      have hrest := ih (supply.left x') (by omega) hrec.1 hrec.2.1 htake.tracks (Nat.le_refl _) m
      rw [hp, messages_append hc, List.mem_cons, waiting_of_taken hrec htake hp hp' hc m, ← hrest,
        hp']

end XSurveyor

/-! ## What holds between the calls -/

namespace XSurveyor

structure Intact (x : XSurveyor α × Ends α) : Prop where
  supplied : x.1.fq.Supplied Grammar.any () x.2
  sourced : Sourced x
  serves : x.1.dist.Serves x.2
  attached : ∀ p, x.1.dist.attached p ↔ x.1.fq.attached p

variable {x x' : XSurveyor α × Ends α} {r : Option Msg}

theorem ready_of_recv (h : x.1.fq.Intake Grammar.any () x.2) (hr : supply.recv x = .ok (r, x')) :
    Ready x.1.fq.more x := by
  refine ⟨h, rfl, ?_⟩
  grind [supply, xrecv, h.continues_of_recvpipe]

theorem Intact.recv (h : Intact x) (hr : supply.recv x = .ok (r, x')) : Intact x' := by
  have hready := ready_of_recv h.supplied.toIntake hr
  have hfollows := (Follows.refl x).recv hready hr
  have htracks := ((Takes.refl h.supplied.tracks).recv hready (fun _ => Iff.rfl) hr).tracks
  have hintake : x'.1.fq.Intake Grammar.any () x'.2 := by
    obtain ⟨part, fq, ends, -, -, hx, hintake, -⟩ := xrecv_spec hready
    rw [hr, Except.ok.injEq, Prod.mk.injEq] at hx
    rw [hx.2]
    exact hintake
  refine ⟨⟨hintake, htracks⟩, h.sourced.recv hready hr, ?_, fun p => ?_⟩
  · rw [hfollows.dist]
    exact h.serves.sameOutbound hfollows.outbound
  · rw [hfollows.dist, hfollows.attached]
    exact h.attached p

end XSurveyor

namespace Surveyor

open XSurveyor (supply Intact)

variable {s s' : Surveyor α} {ends ends' : Ends α} {now : Nat}
variable {r : Except Errno Msg}

theorem intact_recvPart {r : Option Msg} (h : Intact (s.toXSurveyor, ends))
    (hr : s.recvPart ends = .ok (r, s', ends')) :
    Intact (s'.toXSurveyor, ends') := by
  unfold recvPart at hr
  grind [h.recv]

theorem intact_discard (h : Intact (s.toXSurveyor, ends))
    (hd : s.discard ends = .ok (s', ends')) :
    Intact (s'.toXSurveyor, ends') := by
  unfold discard at hd
  split at hd
  · cases hd
  next hx =>
    cases hd
    exact Supply.drain_keeps (P := Intact) (fun hP hr => hP.recv hr) _ h hx

theorem intact_recvResponse (h : Intact (s.toXSurveyor, ends))
    (hr : s.recvResponse ends now = .ok (r, s', ends')) :
    Intact (s'.toXSurveyor, ends') := by
  unfold recvResponse at hr
  split at hr
  · cases hr
  next s₁ ends₁ hfirst =>
    cases hr
    exact intact_recvPart h hfirst
  next msg s₁ ends₁ hfirst =>
    have h₁ := intact_recvPart h hfirst
    split at hr
    · grind [intact_discard]
    · grind [intact_recvPart]

theorem intact_xrecv (h : Intact (s.toXSurveyor, ends))
    (hr : s.xrecv ends now = .ok (r, s', ends')) : Intact (s'.toXSurveyor, ends') := by
  unfold xrecv at hr
  grind [intact_recvResponse]

theorem intact_xhasIn {r : Bool} (h : Intact (s.toXSurveyor, ends))
    (hr : s.xhasIn ends now = .ok (r, s', ends')) : Intact (s'.toXSurveyor, ends') := by
  unfold xhasIn at hr
  split at hr
  · cases hr
    exact h
  · split at hr
    · cases hr
      exact h
    · split at hr
      · cases hr
      next hx =>
        cases hr
        exact intact_xrecv h hx
      · cases hr
      next hx =>
        have h' := intact_xrecv h hx
        cases hr
        exact h'

end Surveyor

namespace SurveyorSystem

open XSurveyor (supply Receives Waiting)

def Intact (s : SurveyorSystem α) : Prop := XSurveyor.Intact (s.surveyor.toXSurveyor, s.ends)

def Orderly (s : SurveyorSystem α) : SurveyorOp α → Prop
  | .event ev => ev.Keeps Grammar.any s.surveyor.fq s.ends
  | _ => True

instance (s : SurveyorSystem α) : ∀ op : SurveyorOp α, Decidable (s.Orderly op)
  | .event ev => inferInstanceAs (Decidable (ev.Keeps Grammar.any s.surveyor.fq s.ends))
  | .setTimeout _ | .xsend _ _ _ | .xrecv _ | .xhasIn _ => inferInstanceAs (Decidable True)

theorem intact_init (surveyTimeout : Int) (surveyId : UInt32) :
    (init surveyTimeout surveyId : SurveyorSystem α).Intact :=
  have h := inv_init surveyTimeout surveyId
  ⟨Fq.supplied_init _, h.sourced, h.serves, h.attached⟩

variable {s s' : SurveyorSystem α}
variable {ends : Ends α} {surveyor : Surveyor α}

theorem Intact.event (h : s.Intact) {ev : PipeEvent α}
    (hk : ev.Keeps Grammar.any s.surveyor.fq s.ends)
    (hs : ev.step Surveyor.sink s.surveyor s.ends = .ok (surveyor, ends)) :
    Intact ⟨surveyor, ends⟩ := by
  have hsteps := PipeEvent.steps hs
  obtain ⟨hsupplied, hmore, hcur⟩ := hsteps.supplied Surveyor.sink_queues h.supplied hk
  obtain ⟨-, hlog⟩ := Surveyor.outboundStep_base hsteps.outboundStep
  obtain ⟨hserves, hatt⟩ := serves_outboundStep h.supplied.bounded.part.wf h.serves h.attached
    hsteps.outboundStep
  refine ⟨hsupplied, ⟨by simpa only [hlog] using h.sourced.chain, fun a ha => ?_⟩, hserves, hatt⟩
  -- the message that is being read stays the current one
  obtain ⟨hlast, hget⟩ := h.sourced.current a (by simpa only [hlog] using ha)
  exact ⟨hlast.trans hmore.symm, fun hm => (hcur (hlast.symm.trans hm)).trans (hget hm)⟩

theorem Intact.xsend (h : s.Intact) {msg : Msg} {sndmore : Bool} {now : Nat}
    {r : Except Errno Unit}
    (hx : s.surveyor.xsend s.ends msg sndmore now = .ok (r, surveyor, ends)) :
    Intact ⟨surveyor, ends⟩ := by
  obtain ⟨r₁, surveyor₁, d, ends₁, hx₁, hbase, hserves, hatt, hsame, -⟩ :=
    xsend_sent h.serves msg sndmore now
  rw [hx, Except.ok.injEq, Prod.mk.injEq, Prod.mk.injEq] at hx₁
  obtain ⟨-, rfl, rfl⟩ := hx₁
  unfold Intact
  rw [hbase]
  exact ⟨h.supplied.sent hsame, ⟨h.sourced.chain, h.sourced.current⟩, hserves,
    fun p => (hatt p).trans (h.attached p)⟩

theorem Intact.step (h : s.Intact) {op : SurveyorOp α} (hk : s.Orderly op)
    (hs : s.step op = .ok s') : s'.Intact := by
  cases op with
  | setTimeout t =>
    rw [SurveyorSystem.step, Except.ok.injEq] at hs
    subst hs
    exact h
  | event ev =>
    simp only [SurveyorSystem.step] at hs
    split at hs
    · cases hs
    next hev =>
      cases hs
      exact h.event hk hev
  | xsend msg sndmore now => grind [SurveyorSystem.step, h.xsend]
  | xrecv now =>
    simp only [SurveyorSystem.step] at hs
    split at hs
    · cases hs
    next hx =>
      cases hs
      exact Surveyor.intact_xrecv h hx
  | xhasIn now =>
    simp only [SurveyorSystem.step] at hs
    split at hs
    · cases hs
    next hx =>
      cases hs
      exact Surveyor.intact_xhasIn h hx

/-! ## What is reported -/

def isResponse (id : UInt32) : List Msg → Bool
  | [a, b] => a.isId id && !b.more
  | _ => false

def HoldsResponse (s : SurveyorSystem α) : Prop :=
  ∃ m, Waiting (s.surveyor.toXSurveyor, s.ends) m ∧ isResponse s.surveyor.surveyId m = true

def ReportsTruly (s : SurveyorSystem α) (now : Nat) : Prop :=
  (∀ surveyor ends, s.surveyor.xrecv s.ends now = .ok (.error .eagain, surveyor, ends) →
      ¬ HoldsResponse ⟨surveyor, ends⟩) ∧
    ∀ surveyor ends, s.surveyor.receivingResponses = true →
      s.surveyor.xhasIn s.ends now = .ok (false, surveyor, ends) → ¬ HoldsResponse ⟨surveyor, ends⟩

def afterDrop : List (List Msg) → List (List Msg)
  | [] => []
  | m :: ms => if m.length = 1 then ms.drop 1 else ms

def Unhindered (s : SurveyorSystem α) : Prop :=
  s.Reading → (∃ a ∈ s.parts.head?, a.isId s.surveyor.surveyId = true) ∨
    ∀ m ∈ afterDrop (messages Msg.more s.parts), isResponse s.surveyor.surveyId m = false
deriving Decidable

theorem Reading.reportsTruly_iff (h : s.Reading) (now : Nat) : s.ReportsTruly now ↔
    ∀ surveyor ends, s.surveyor.recvResponse s.ends now = .ok (.error .eagain, surveyor, ends) →
      ¬ HoldsResponse ⟨surveyor, ends⟩ := by
  refine ⟨fun ht surveyor ends hr => ht.1 surveyor ends (by rwa [h.xrecv]), fun ht => ⟨?_, ?_⟩⟩
  · grind [h.xrecv]
  · intro surveyor ends _ hr
    simp only [Surveyor.xhasIn, h.1, h.2, Bool.not_true, Bool.false_eq_true, if_false, h.xrecv] at hr
    split at hr
    · cases hr
    next hx =>
      cases hr
      exact ht _ _ hx
    · cases hr
    · cases hr

inductive Ending (s : SurveyorSystem α) (now : Nat) : Prop where
  | returns : (∃ a ∈ s.parts.head?, a.isId s.surveyor.surveyId = true) →
      (∀ surveyor ends,
        s.surveyor.recvResponse s.ends now ≠ .ok (.error .eagain, surveyor, ends)) → Ending s now
  | fails : afterDrop (messages Msg.more s.parts) = [] →
      (∀ r, s.surveyor.recvResponse s.ends now ≠ .ok r) → Ending s now
  | reports {err : Errno} {x : XSurveyor α × Ends α} :
      s.surveyor.recvResponse s.ends now = .ok (.error err, s.surveyor.withBase x, x.2) →
      XSurveyor.Ready false x → (∀ a ∈ s.parts.head?, a.isId s.surveyor.surveyId = false) →
      messages Msg.more (supply.parts x) = afterDrop (messages Msg.more s.parts) →
      (err ≠ .eagain → supply.parts x = []) → Ending s now

theorem Intact.ending (h : s.Intact) (now : Nat) : s.Ending now := by
  cases hfirst : supply.recv (s.surveyor.toXSurveyor, s.ends) with
  | error err =>
    -- the pipe of a message that was begun was closed
    have hparts : s.parts = [] := by
      unfold parts Supply.parts
      cases supply.left (s.surveyor.toXSurveyor, s.ends) <;> simp [Supply.upcoming, hfirst]
    refine .fails (by rw [hparts]; rfl) fun r hr => ?_
    simp [Surveyor.recvResponse, Surveyor.recvPart, hfirst] at hr
  | ok w =>
    have hready := XSurveyor.ready_of_recv h.supplied.toIntake hfirst
    have hrec : Receives (s.surveyor.toXSurveyor, s.ends) _ (s.surveyor.toXSurveyor, s.ends) :=
      ⟨hready, h.sourced, .refl _⟩
    have hcases : s.parts = [] ∨ ∃ m rest, s.parts = m ++ rest ∧ Whole Msg.more m ∧
        Frames Msg.more false rest := by
      have hframes := XSurveyor.supply_ready.parts_frames hready
      cases hm : s.surveyor.fq.more with
      | false => exact (hm ▸ hframes).cases
      | true => exact Or.inr (hm ▸ hframes).split
    rcases hcases with hnil | ⟨m, rest, hp, hm, hrest⟩
    · obtain ⟨x, hx, hok, hparts⟩ := Surveyor.recvResponse_nothing hrec hnil
      exact .reports hx hok.1 (fun a ha => absurd ha (by simp [hnil]))
        (by rw [hparts, hnil]; rfl) fun _ => hparts
    · obtain ⟨a, m, rfl⟩ := List.exists_cons_of_ne_nil hm.ne_nil
      have hmsgs : messages Msg.more s.parts = (a :: m) :: messages Msg.more rest := by
        rw [hp]
        exact messages_append hm rest
      have hhead : s.parts.head? = some a := by rw [hp]; rfl
      cases ha : a.isId s.surveyor.surveyId with
      | true =>
        have hmore : a.more = true := by
          simp only [Msg.isId, Bool.and_eq_true] at ha
          exact ha.1.1
        obtain ⟨b, m, rfl⟩ := List.exists_cons_of_ne_nil ((whole_cons_more hmore).1 hm).ne_nil
        obtain ⟨x, hx⟩ :
            ∃ x, s.surveyor.recvResponse s.ends now = .ok (.ok b, s.surveyor.withBase x, x.2) := by
          obtain ⟨x, hx, -⟩ := Surveyor.recvResponse_response hrec hp ha
          exact ⟨x, hx⟩
        exact .returns ⟨a, hhead, ha⟩ fun surveyor ends hr => by simp [hx] at hr
      | false =>
        have hnot : ∀ b ∈ s.parts.head?, b.isId s.surveyor.surveyId = false := fun b hb => by grind
        cases hmore : a.more with
        | true =>
          have hm' := (whole_cons_more hmore).1 hm
          obtain ⟨x, hx, hok, hparts⟩ := Surveyor.recvResponse_discard hrec hp ha hm'
          refine .reports hx hok.1 hnot ?_ fun hc => absurd rfl hc
          rw [hparts, hmsgs, afterDrop, if_neg]
          simpa using hm'.ne_nil
        | false =>
          -- a message of one part takes the next one with it
          obtain rfl := (whole_cons_last hmore).1 hm
          rcases hrest.cases with rfl | ⟨m', rest', rfl, hm', -⟩
          · refine .fails (by rw [hmsgs]; rfl) fun r hr => ?_
            simp [Surveyor.recvResponse_lone hrec hp ha] at hr
          · obtain ⟨x, hx, hok, hparts⟩ :=
              Surveyor.recvResponse_discard (m := m') hrec hp ha hm'
            refine .reports hx hok.1 hnot ?_ fun hc => absurd rfl hc
            rw [hparts, hmsgs, messages_append hm']
            rfl

theorem Intact.reportsTruly_iff (h : s.Intact) (now : Nat) : s.ReportsTruly now ↔ s.Unhindered := by
  rcases s.reading_cases with hread | hno | ⟨hyes, m, hm⟩
  · rw [hread.reportsTruly_iff, Unhindered]
    cases h.ending now with
    | returns hid hr => exact ⟨fun _ _ => Or.inl hid, fun _ surveyor ends hx => absurd hx (hr _ _)⟩
    | fails hnil hr => grind
    | @reports err x hx hready hnot hmsgs herr =>
      have h' : XSurveyor.Intact x := Surveyor.intact_recvResponse h hx
      have hafter : HoldsResponse ⟨s.surveyor.withBase x, x.2⟩ ↔
          ∃ m ∈ afterDrop (messages Msg.more s.parts), isResponse s.surveyor.surveyId m = true := by
        rw [← hmsgs]
        refine exists_congr fun m => and_congr_left fun _ => ?_
        exact (XSurveyor.mem_parts_iff _ hready h'.sourced h'.supplied.tracks (Nat.le_refl _) m).symm
      have hfirst : ¬ ∃ a ∈ s.parts.head?, a.isId s.surveyor.surveyId = true := by grind
      by_cases hagain : err = .eagain
      · subst hagain
        constructor
        · grind
        · grind
      · grind [messages]
  · refine ⟨fun _ hr => absurd (hr.1.symm.trans hno) (by simp), fun _ => ⟨?_, ?_⟩⟩
    · grind [Surveyor.xrecv]
    · grind
  · refine ⟨fun _ hr => absurd (hr.2.symm.trans hm) (by simp), fun _ => ⟨?_, ?_⟩⟩
    · grind [Surveyor.xrecv]
    · exact fun surveyor ends _ hx => absurd hx (by simp [Surveyor.xhasIn, hyes, hm])

/-- **When a surveyor reports that there is nothing to receive.** -/
theorem reportsTruly_iff_unhindered (surveyTimeout : Int) (surveyId : UInt32)
    (ops : List (SurveyorOp α)) (s : SurveyorSystem α)
    (hmeets : RunMeets step Orderly (init surveyTimeout surveyId) ops)
    (hrun : run step (init surveyTimeout surveyId) ops = .ok s) (now : Nat) :
    s.ReportsTruly now ↔ s.Unhindered := by
  have h : s.Intact := run_invariant (fun _ _ _ hI hk hs => Intact.step hI hk hs) ops _ s
    (intact_init surveyTimeout surveyId) hmeets hrun
  exact h.reportsTruly_iff now

def onlyLate : List (SurveyorOp Nat) :=
  surveying ++ [.event (.attach 1 (.init 0 0 true))] ++ peerSends 1 [Msg.idPart 7, body [3]]

def lateThenCurrent : List (SurveyorOp Nat) :=
  surveying ++ peerSends 0 [Msg.idPart 7, body [3]] ++ peerSends 0 [Msg.idPart 8, body [4]]

set_option maxRecDepth 8000 in
theorem onlyLate_reportsTruly :
    RunMeets step Orderly (init 0 7) onlyLate ∧
      ∃ s, run step (init 0 7) onlyLate = .ok s ∧ s.ReportsTruly 100 := by
  have hmeets : RunMeets step Orderly (init 0 7) onlyLate := by decide
  obtain ⟨s, hs⟩ : ∃ s, run step (init 0 7) onlyLate = .ok s := ⟨_, rfl⟩
  have hfacts : (run step (init 0 7) onlyLate).map
      (fun s => decide s.Unhindered) = .ok true := by
    decide
  rw [hs] at hfacts
  simp only [Except.map, Except.ok.injEq, decide_eq_true_eq] at hfacts
  exact ⟨hmeets, s, hs, (reportsTruly_iff_unhindered 0 7 onlyLate s hmeets hs 100).2 hfacts⟩

set_option maxRecDepth 8000 in
theorem lateThenCurrent_hidden : ∃ s surveyor ends,
    run step (init 0 7) lateThenCurrent = .ok s ∧
      s.surveyor.xrecv s.ends 100 = .ok (.error .eagain, surveyor, ends) ∧
      s.surveyor.xhasIn s.ends 100 = .ok (false, surveyor, ends) ∧
      (ends 0).pipe.inActive = true ∧ (ends 0).unread = [Msg.idPart 8, body [4]] ∧
      HoldsResponse ⟨surveyor, ends⟩ := by
  refine ⟨_, _, _, rfl, rfl, rfl, rfl, rfl, [Msg.idPart 8, body [4]], ⟨0, ?_, ?_⟩, ?_⟩ <;> decide

end SurveyorSystem

end Libxs
