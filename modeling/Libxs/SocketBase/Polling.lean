import Libxs.Req
import Libxs.Router.Polling
import Libxs.XRep.Routing

/-! # Asking a socket before receiving -/

namespace Libxs

variable {α : Type} [DecidableEq α]

/-! ## `xreq_t` -/

namespace XReq

variable {s t : XReq α} {ends ends' : Ends α}

def pollable : Pollable Fault (XReq α × Ends α) Msg where
  recv := fun x => x.1.xrecv x.2
  poll := fun x => x.1.xhasIn x.2

theorem recvLoop_again : ∀ (fuel : Nat) {s : XReq α} {ends : Ends α} {r : Option Msg},
    recvLoop fuel s ends = .ok (r, t, ends') →
    t.prefetched = s.prefetched ∧ (r = none → t.fq.recvpipe ends' = .ok (none, t.fq, ends')) := by
  intro fuel
  induction fuel with
  | zero => exact fun hr => absurd hr (by simp [recvLoop])
  | succ fuel ih =>
    intro s ends r hr
    simp only [recvLoop] at hr
    split at hr
    · cases hr
    next hrun =>
      cases hr
      exact ⟨rfl, fun _ => (Fq.recvpipe_again hrun).2 _⟩
    next hrun => grind

inductive HasIn (s : XReq α) (ends : Ends α) : Except Fault (Bool × XReq α × Ends α) → Prop where
  | ready {msg : Msg} : s.prefetched = some msg → HasIn s ends (.ok (true, s, ends))
  | fails {err : Fault} : s.prefetched = none → s.xrecv ends = .error err →
      HasIn s ends (.error err)
  | nothing {t : XReq α} {ends' : Ends α} : s.prefetched = none →
      s.xrecv ends = .ok (none, t, ends') → t.prefetched = none →
      t.xrecv ends' = .ok (none, t, ends') → HasIn s ends (.ok (false, t, ends'))
  | fetched {msg : Msg} {t : XReq α} {ends' : Ends α} : s.prefetched = none →
      s.xrecv ends = .ok (some msg, t, ends') → t.prefetched = none →
      HasIn s ends (.ok (true, { t with prefetched := some msg }, ends'))

theorem hasIn_xhasIn (s : XReq α) (ends : Ends α) : HasIn s ends (s.xhasIn ends) := by
  unfold xhasIn
  cases hp : s.prefetched with
  | some msg => exact .ready hp
  | none =>
    have hx : s.xrecv ends = recvLoop (s.fq.backlog ends + 1) s ends := by simp [xrecv, hp]
    simp only
    split
    next hr => exact .fails hp hr
    next t ends' hr =>
      obtain ⟨hpre, hagain⟩ := recvLoop_again _ (hx ▸ hr)
      refine .nothing hp hr (hpre.trans hp) ?_
      rw [hp] at hpre
      simp only [xrecv, hpre, recvLoop, hagain rfl]
      rw [← hpre]
    next hr => exact .fetched hp hr ((recvLoop_again _ (hx ▸ hr)).1.trans hp)

theorem transparent : (@pollable α _).Transparent fun x y => x = y where
  equiv := ⟨fun _ => rfl, fun h => h.symm, fun h h' => h.trans h'⟩
  recv h := by
    rw [h]
    exact .refl (fun _ => rfl) _
  poll h := by
    rw [h]
    exact .refl (fun _ => rfl) _
  fails {x err} hp := by
    have hs := hasIn_xhasIn x.1 x.2
    simp only [pollable] at hp ⊢
    rw [hp] at hs
    cases hs with
    | fails _ hr => exact hr
  unnoticed {x b y} hp := by
    have hs := hasIn_xhasIn x.1 x.2
    simp only [pollable] at hp ⊢
    rw [hp] at hs
    cases hs with
    | ready _ => exact .refl (fun _ => rfl) _
    | nothing _ hr _ hagain =>
      rw [hr, hagain]
      exact .refl (fun _ => rfl) _
    | fetched _ hr hpre =>
      rw [hr]
      exact .ok _ (by rw [← hpre])
  settles {x b y} hp := by
    have hs := hasIn_xhasIn x.1 x.2
    simp only [pollable] at hp ⊢
    rw [hp] at hs
    cases hs with
    | ready hpre => simp only [xhasIn, hpre]
    | nothing _ _ hpre hagain => simp only [xhasIn, hpre, hagain]
    | fetched _ _ _ => simp only [xhasIn]

theorem tells (x : XReq α × Ends α) : pollable.Tells x := by
  intro b y hp
  have hs := hasIn_xhasIn x.1 x.2
  simp only [pollable] at hp ⊢
  rw [hp] at hs
  cases hs with
  | ready hpre => simp [xrecv, hpre]
  | nothing _ hr _ _ => simp [hr]
  | fetched _ hr _ => simp [hr]

end XReq

/-! ## `xrep_t` -/

namespace XRep

variable {s t : XRep α} {ends ends' : Ends α}

theorem processIdentity_keeps {p : α} {msg : Msg}
    (hr : s.processIdentity ends p msg = .ok (t, ends')) :
    t.prefetched = s.prefetched ∧ t.moreIn = s.moreIn := by
  cases processIdentity_identified hr <;> exact ⟨rfl, rfl⟩

theorem changeIdentity_stale (s : XRep α) (id : List UInt8) (p : α) (key : List UInt8) :
    changeIdentity { s with prefetchedId := id } p key =
      (s.changeIdentity p key).map fun t => { t with prefetchedId := id } := by
  unfold changeIdentity
  have hentry : Router.entryOf ({ s with prefetchedId := id } : XRep α) p = s.entryOf p := rfl
  rw [hentry]
  cases s.entryOf p with
  | none => rfl
  | some x =>
    simp only [Router.register]
    split <;> rfl

theorem processIdentity_stale (s : XRep α) (ends : Ends α) (id : List UInt8) (p : α) (msg : Msg) :
    processIdentity { s with prefetchedId := id } ends p msg =
      (s.processIdentity ends p msg).map fun x => ({ x.1 with prefetchedId := id }, x.2) := by
  unfold processIdentity
  simp only [changeIdentity_stale]
  split
  · rfl
  · split
    · rfl
    · split
      · cases (ends p).terminate false <;> rfl
      · cases s.changeIdentity p msg.data <;> rfl

theorem recvLoop_stale (id : List UInt8) : ∀ (fuel : Nat) (s : XRep α) (ends : Ends α),
    recvLoop fuel { s with prefetchedId := id } ends =
      (recvLoop fuel s ends).map fun x => (x.1, { x.2.1 with prefetchedId := id }, x.2.2) := by
  intro fuel
  induction fuel with
  | zero => exact fun _ _ => rfl
  | succ fuel ih =>
    intro s ends
    simp only [recvLoop]
    cases s.fq.recvpipe ends with
    | error err => rfl
    | ok r =>
      obtain ⟨_ | ⟨msg, p⟩, fq, ends₁⟩ := r
      · rfl
      · simp only
        split
        · have hproc := processIdentity_stale ({ s with fq := fq } : XRep α) ends₁ id p msg
          simp only at hproc
          rw [hproc]
          cases processIdentity ({ s with fq := fq } : XRep α) ends₁ p msg with
          | error err => rfl
          | ok x => exact ih x.1 x.2
        · have hdel := Router.deliver_stale ({ s with fq := fq } : XRep α) id p msg
          simp only at hdel
          rw [hdel]
          rfl

theorem recvLoop_gets : ∀ (fuel : Nat) {s : XRep α} {ends : Ends α} {r : Option Msg},
    recvLoop fuel s ends = .ok (r, t, ends') →
    ∃ u : XRep α, u.prefetched = s.prefetched ∧ u.moreIn = s.moreIn ∧
      ((r = none ∧ t = u ∧ u.fq.recvpipe ends' = .ok (none, u.fq, ends')) ∨
        ∃ p msg, r = some (u.deliver p msg).1 ∧
          t = (u.deliver p msg).2.note [.received p msg]) := by
  intro fuel
  induction fuel with
  | zero => exact fun hr => absurd hr (by simp [recvLoop])
  | succ fuel ih =>
    intro s ends r hr
    simp only [recvLoop] at hr
    split at hr
    · cases hr
    next fq _ hrun =>
      cases hr
      exact ⟨{ s with fq := fq }, rfl, rfl, Or.inl ⟨rfl, rfl, (Fq.recvpipe_again hrun).2 _⟩⟩
    next msg p fq _ hrun =>
      split at hr
      · split at hr
        · cases hr
        next hproc =>
          obtain ⟨u, hpre, hm, hu⟩ := ih hr
          obtain ⟨hpre', hm'⟩ := processIdentity_keeps hproc
          exact ⟨u, hpre.trans hpre', hm.trans hm', hu⟩
      · grind

theorem xrecv_eq_recvLoop (hp : s.prefetched = .nothing) (ends : Ends α) :
    s.xrecv ends = recvLoop (s.fq.backlog ends + 1) s ends := by
  simp only [xrecv, Router.takePrefetched_nothing hp]

theorem fetches : Router.Fetches (@xrecv α _) where
  ahead ends msg h := by simp only [xrecv, h]
  stale {s} ends id hp := by
    have hp' : Router.prefetched { s with prefetchedId := id } = .nothing := hp
    rw [xrecv_eq_recvLoop hp', xrecv_eq_recvLoop hp]
    exact recvLoop_stale id _ s ends
  handedOut {s t ends ends' r} hp hr := by
    rw [xrecv_eq_recvLoop hp] at hr
    obtain ⟨u, hpre, -, ⟨-, rfl, -⟩ | ⟨p, msg, -, rfl⟩⟩ := recvLoop_gets _ hr
    · rw [hpre, hp]
      simp
    · exact Router.deliver_handedOut (hpre.trans hp) p msg
  again {s t ends ends'} hp hr := by
    rw [xrecv_eq_recvLoop hp] at hr
    obtain ⟨u, hpre, hm, ⟨-, rfl, hagain⟩ | ⟨p, msg, hsome, -⟩⟩ := recvLoop_gets _ hr
    · refine ⟨hpre.trans hp, hm, ?_⟩
      rw [xrecv_eq_recvLoop (hpre.trans hp)]
      simp only [recvLoop, hagain]
    · cases hsome
  first {s t ends ends' msg} hp hidle hr := by
    rw [xrecv_eq_recvLoop hp] at hr
    obtain ⟨u, -, hm, ⟨hnone, -⟩ | ⟨p, msg, hsome, rfl⟩⟩ := recvLoop_gets _ hr
    · cases hnone
    · rw [Option.some.inj hsome]
      exact Router.deliver_first (hm.trans hidle) p msg

end XRep

/-! ## `xrespondent_t` -/

namespace XRespondent

variable {s t : XRespondent α} {ends ends' : Ends α}

theorem xrecv_gets {r : Option Msg} (hp : s.prefetched = .nothing)
    (hr : s.xrecv ends = .ok (r, t, ends')) :
    ∃ u : XRespondent α, u.prefetched = .nothing ∧ u.moreIn = s.moreIn ∧
      ((r = none ∧ t = u ∧ u.fq.recvpipe ends' = .ok (none, u.fq, ends')) ∨
        ∃ p msg, r = some (u.deliver p msg).1 ∧
          t = (u.deliver p msg).2.note [.received p msg]) := by
  simp only [xrecv, Router.takePrefetched_nothing hp] at hr
  split at hr
  · cases hr
  next fq _ hrun =>
    cases hr
    exact ⟨{ s with fq := fq }, hp, rfl, Or.inl ⟨rfl, rfl, (Fq.recvpipe_again hrun).2 _⟩⟩
  next msg p fq _ hrun => grind

theorem fetches : Router.Fetches (@xrecv α _) where
  ahead ends msg h := by simp only [xrecv, h]
  stale {s} ends id hp := by
    have hp' : Router.prefetched { s with prefetchedId := id } = .nothing := hp
    simp only [xrecv, Router.takePrefetched_nothing hp, Router.takePrefetched_nothing hp']
    cases s.fq.recvpipe ends with
    | error err => rfl
    | ok r =>
      obtain ⟨_ | ⟨msg, p⟩, fq, ends₁⟩ := r
      · rfl
      · have hdel := Router.deliver_stale ({ s with fq := fq } : XRespondent α) id p msg
        simp only at hdel
        simp only [hdel]
        rfl
  handedOut {s t ends ends' r} hp hr := by
    obtain ⟨u, hpre, -, ⟨-, rfl, -⟩ | ⟨p, msg, -, rfl⟩⟩ := xrecv_gets hp hr
    · simp [hpre]
    · exact Router.deliver_handedOut hpre p msg
  again {s t ends ends'} hp hr := by
    obtain ⟨u, hpre, hm, ⟨-, rfl, hagain⟩ | ⟨p, msg, hsome, -⟩⟩ := xrecv_gets hp hr
    · refine ⟨hpre, hm, ?_⟩
      simp only [xrecv, Router.takePrefetched_nothing hpre, hagain]
    · cases hsome
  first {s t ends ends' msg} hp hidle hr := by
    obtain ⟨u, -, hm, ⟨hnone, -⟩ | ⟨p, msg, hsome, rfl⟩⟩ := xrecv_gets hp hr
    · cases hnone
    · rw [Option.some.inj hsome]
      exact Router.deliver_first (hm.trans hidle) p msg

end XRespondent

/-! ## Whole sequences of calls -/

theorem polling_transparent (calls : List PollCall) (last : PollCall) :
    (∀ x : XReq α × Ends α,
      XReq.pollable.run (calls ++ [last]) x =
        XReq.pollable.run (Pollable.recvs calls ++ [last]) x ∧
      XReq.pollable.Tells x) ∧
    (∀ x : XRep α × Ends α,
      Agree Router.Same ((Router.pollable XRep.xrecv).run (calls ++ [last]) x)
        ((Router.pollable XRep.xrecv).run (Pollable.recvs calls ++ [last]) x) ∧
      (∀ b y, (Router.pollable XRep.xrecv).poll x = .ok (b, y) →
        y.1.outpipes = x.1.outpipes ∨ ∃ r z,
          (Router.pollable XRep.xrecv).recv x = .ok (r, z) ∧ y.1.outpipes = z.1.outpipes) ∧
      ((Router.pollable XRep.xrecv).Tells x ↔
        (x.1.moreIn = true → x.1.prefetched = .nothing →
          ∃ msg y, (Router.pollable XRep.xrecv).recv x = .ok (some msg, y)))) ∧
    ∀ x : XRespondent α × Ends α,
      Agree Router.Same ((Router.pollable XRespondent.xrecv).run (calls ++ [last]) x)
        ((Router.pollable XRespondent.xrecv).run (Pollable.recvs calls ++ [last]) x) ∧
      (∀ b y, (Router.pollable XRespondent.xrecv).poll x = .ok (b, y) →
        y.1.outpipes = x.1.outpipes ∨ ∃ r z,
          (Router.pollable XRespondent.xrecv).recv x = .ok (r, z) ∧ y.1.outpipes = z.1.outpipes) ∧
      ((Router.pollable XRespondent.xrecv).Tells x ↔
        (x.1.moreIn = true → x.1.prefetched = .nothing →
          ∃ msg y, (Router.pollable XRespondent.xrecv).recv x = .ok (some msg, y))) := by
  refine ⟨fun x => ⟨?_, XReq.tells x⟩, fun x => ⟨?_, fun b y hp => ?_, ?_⟩,
    fun x => ⟨?_, fun b y hp => ?_, ?_⟩⟩
  · exact (XReq.transparent.run_polled last calls x).eq_of_eq
  · exact XRep.fetches.transparent.run_polled last calls x
  · exact Router.poll_table hp
  · exact XRep.fetches.tells_iff x
  · exact XRespondent.fetches.transparent.run_polled last calls x
  · exact Router.poll_table hp
  · exact XRespondent.fetches.tells_iff x

def announcedOnly : List (XRepOp Nat) :=
  [.event (.attach 0 (.init 0 0 true)),
   .event (.peerWrite 0 ⟨false, Msg.identityFlag, [9]⟩), .event (.peerFlush 0)]

def survivedByPart : List (XRespondentOp Nat) :=
  [.event (.attach 0 (.init 0 0 false)), .event (.peerWrite 0 (.part true [1])),
   .event (.peerWrite 0 (.part false [2])), .event (.peerFlush 0), .xrecv, .xrecv,
   .event (.processPipeTerm 0), .event (.terminated 0)]

theorem polling_visible :
    (∃ s y, run XRepSystem.step (XRepSystem.init 7) announcedOnly = .ok s ∧
      (Router.pollable XRep.xrecv).run [.poll] (s.xrep, s.ends) = .ok ([], y) ∧
      s.xrep.outpipes.keys = [XRep.autoId 7] ∧ y.1.outpipes.keys = [[9]]) ∧
    ∃ s y z, run XRespondentSystem.step (XRespondentSystem.init 7) survivedByPart = .ok s ∧
      (Router.pollable XRespondent.xrecv).poll (s.xrespondent, s.ends) = .ok (true, y) ∧
      (Router.pollable XRespondent.xrecv).recv (s.xrespondent, s.ends) = .ok (none, z) :=
  ⟨⟨_, _, rfl, rfl, rfl, rfl⟩, ⟨_, _, _, rfl, rfl, rfl⟩⟩

end Libxs
