import Libxs.XRep.Receiving
import Mathlib.Data.List.Chain

/-! # `xrep_t` between calls that receive -/

namespace Libxs

variable {α Q : Type} {G : Grammar Q} {q q' : Q}

namespace Router

variable {κ : Type}

def arrivals (trace : List (RouteEvent α)) : List (α × Msg) :=
  trace.filterMap fun
    | .received p msg => some (p, msg)
    | _ => none

theorem arrivals_append (l l' : List (RouteEvent α)) :
    arrivals (l ++ l') = arrivals l ++ arrivals l' :=
  List.filterMap_append ..

@[simp] theorem idPart_more (id : List UInt8) : (idPart id).more = true := by
  simp [idPart, Msg.more, Msg.moreFlag]

@[simp] theorem idPart_size (id : List UInt8) : (idPart id).size = id.length := rfl

variable [DecidableEq κ] [DecidableEq α]

theorem Sent.arrivals {address : Msg → Option κ} {s t : Router κ α} {ends ends' : Ends α} {msg : Msg}
    (h : Sent address s ends msg t ends') : arrivals t.trace = arrivals s.trace := by
  cases h with
  | @closed pipe e _ _ _ =>
    simp only [note, arrivals_append]
    split <;> simp [Router.arrivals]
  | _ => simp [note, Router.arrivals]

end Router

namespace XRep

open Router (arrivals arrivals_append)

variable [DecidableEq α] {s t : XRep α} {ends ends' : Ends α} {ev : PipeEvent α}

theorem sink_queues : (sink : Sink (XRep α) α).Queues where
  attach h := by
    obtain ⟨fq, hfq, -, rfl⟩ := xattachPipe_ok h
    exact hfq
  readActivated h := by
    obtain ⟨fq, hfq, rfl⟩ := Router.xreadActivated_ok h
    exact hfq
  writeActivated h := by
    obtain ⟨k, out, -, -, -, rfl⟩ := Router.xwriteActivated_ok h
    rfl
  terminated h := by
    obtain ⟨fq, x, hfq, -, rfl⟩ := Router.xterminated_ok h
    exact hfq

inductive Reaction (s : XRep α) : PipeEvent α → XRep α → Prop where
  | same {ev : PipeEvent α} : Reaction s ev s
  | attach {p : α} {e : Endpoint} {fq : Fq α} : s.fq.attach p = .ok fq →
      s.pipeAt (autoId s.nextPeerId) = none →
      Reaction s (.attach p e)
        { s with fq := fq, nextPeerId := s.nextPeerId + 1,
                 outpipes := s.outpipes.insert (autoId s.nextPeerId) ⟨p, true⟩,
                 identity := Function.update s.identity p (autoId s.nextPeerId) }
  | dropped {p : α} {fq : Fq α} {k : List UInt8} : s.fq.attached p → s.fq.terminated p = .ok fq →
      s.pipeAt k = some p →
      Reaction s (.terminated p)
        (({ s with fq := fq, outpipes := s.outpipes.erase k,
                   currentOut := if s.currentOut = some p then none else s.currentOut } :
          XRep α).note [.closed p])
  | readActivated {p : α} {fq : Fq α} : s.fq.activated p = .ok fq →
      Reaction s (.processActivateRead p) { s with fq := fq }
  | writeActivated {p : α} {n : Nat} {k : List UInt8} {out : OutPipe α} :
      s.outpipes.lookup k = some out →
      Reaction s (.processActivateWrite p n)
        { s with outpipes := s.outpipes.insert k { out with active := true } }

theorem reaction (h : ev.Steps sink s ends t ends') : Reaction s ev t := by
  cases h with
  | attach _ _ hr =>
    obtain ⟨fq, hfq, hk, rfl⟩ := xattachPipe_ok hr
    exact .attach hfq hk
  | terminated hp hr =>
    obtain ⟨fq, x, hfq, hx, rfl⟩ := Router.xterminated_ok hr
    exact .dropped hp hfq (Router.entryOf_some hx).2
  | readActivated _ _ hr =>
    obtain ⟨fq, hfq, rfl⟩ := Router.xreadActivated_ok hr
    exact .readActivated hfq
  | writeActivated _ _ _ hr =>
    obtain ⟨k, out, hlook, -, -, rfl⟩ := Router.xwriteActivated_ok hr
    exact .writeActivated hlook
  | _ => exact .same

theorem Reaction.sameReceiving (h : Reaction s ev t) : Router.SameReceiving s t := by
  cases h <;> exact ⟨rfl, rfl, rfl, rfl⟩

theorem Reaction.arrivals (h : Reaction s ev t) : arrivals t.trace = arrivals s.trace := by
  cases h with
  | dropped _ _ _ => simp [Router.note, Router.arrivals]
  | _ => rfl

theorem Reaction.keys (h : Reaction s ev t) {k : List UInt8} (hk : t.pipeAt k ≠ none) :
    s.pipeAt k ≠ none ∨ (k = autoId s.nextPeerId ∧ ∃ p e, ev = .attach p e) := by
  cases h with
  | same => exact Or.inl hk
  | @attach p e fq _ _ =>
    by_cases hkn : k = autoId s.nextPeerId
    · exact Or.inr ⟨hkn, p, e, rfl⟩
    · rw [Router.pipeAt_insert (s := s) rfl, Function.update_of_ne hkn] at hk
      exact Or.inl hk
  | dropped _ _ _ =>
    refine Or.inl fun hc => hk ?_
    rw [Router.pipeAt_eq_none] at hc ⊢
    exact fun hm => hc (AList.mem_erase.1 hm).2
  | readActivated _ => exact Or.inl hk
  | @writeActivated p n k' out hlook =>
    rw [Router.pipeAt_flag (s := s) hlook rfl] at hk
    exact Or.inl hk

theorem Placed.event (h : Placed G q s ends) (hk : ev.Conforms G s.fq ends)
    (hs : ev.Steps sink s ends t ends') : Placed G q t ends' ∧ s.fq.SameSource t.fq := by
  obtain ⟨hintake, hsame⟩ := hs.intake sink_queues h.intake hk
  have hmore : t.fq.more = s.fq.more := hsame.1
  obtain ⟨hpre, -, hmsg, hin⟩ := (reaction hs).sameReceiving
  refine ⟨⟨hintake, fun hm => h.mid (hmore ▸ hm), fun hp => ?_, fun hp => ?_⟩, hsame⟩
  · rw [hin, hmore]
    exact h.more (hpre ▸ hp)
  · rw [hin, hmsg, hmore]
    exact h.ahead (hpre ▸ hp)

theorem Placed.sent {msg : Msg} (h : Placed G q s ends)
    (hs : Router.Sent address s ends msg t ends') : Placed G q t ends' := by
  obtain ⟨⟨hpre, -, hmsg, hin⟩, hfq, -, -, -, hinb⟩ := hs.sameReceiving
  refine ⟨hfq ▸ h.intake.sent hinb, fun hm => h.mid (hfq ▸ hm), fun hp => ?_, fun hp => ?_⟩
  · rw [hin, hfq]
    exact h.more (hpre ▸ hp)
  · rw [hin, hmsg, hfq]
    exact h.ahead (hpre ▸ hp)

theorem Ready.event (h : Ready G q s ends) (hk : ev.Conforms G s.fq ends) (hclean : ev.Clean)
    (hs : ev.Steps sink s ends t ends') : Ready G q t ends' :=
  ⟨(h.toPlaced.event hk hs).1,
    h.live.event reacts hs.outboundStep (hs.outq_good h.live.good hclean)⟩

theorem Ready.sent {msg : Msg} (h : Ready G q s ends)
    (hs : Router.Sent address s ends msg t ends') : Ready G q t ends' :=
  ⟨h.toPlaced.sent hs, h.live.sent hs⟩

/-! ## The log -/

structure Heard (G : Grammar Q) (q : Q) (s : XRep α) : Prop where
  place : G.after G.start ((arrivals s.trace).map Prod.snd) = some q
  whole : (arrivals s.trace).IsChain fun a b => a.2.more = true → b.1 = a.1
  mid : s.fq.more = true → ∃ a, (arrivals s.trace).getLast? = some a ∧
    s.fq.pipes.get s.fq.current = some a.1
  idle : s.fq.more = false → ∀ a ∈ (arrivals s.trace).getLast?, a.2.more = false

omit [DecidableEq α] in
theorem heard_init (nextPeerId : UInt32) : Heard G G.start (Router.init nextPeerId : XRep α) where
  place := rfl
  whole := List.isChain_nil
  mid h := absurd h (by simp [Router.init, Fq.init])
  idle _ a h := absurd h (by simp [Router.init, arrivals])

omit [DecidableEq α] in
theorem Heard.kept (h : Heard G q s) (harr : arrivals t.trace = arrivals s.trace)
    (hsame : s.fq.SameSource t.fq) : Heard G q t := by
  obtain ⟨hmore, hget⟩ := hsame
  refine ⟨harr ▸ h.place, harr ▸ h.whole, fun hm => ?_, fun hm => ?_⟩
  · rw [hmore] at hm
    rw [harr, hget hm]
    exact h.mid hm
  · rw [harr]
    exact h.idle (hmore ▸ hm)

theorem Heard.event (h : Heard G q s) (hplaced : Placed G q s ends) (hk : ev.Conforms G s.fq ends)
    (hs : ev.Steps sink s ends t ends') : Heard G q t :=
  h.kept (reaction hs).arrivals (hplaced.event hk hs).2

theorem Heard.sent {msg : Msg} (h : Heard G q s) (hs : Router.Sent address s ends msg t ends') :
    Heard G q t := by
  obtain ⟨-, hfq, -⟩ := hs.sameReceiving
  exact h.kept hs.arrivals (by rw [hfq]; exact ⟨rfl, fun _ => rfl⟩)

omit [DecidableEq α] in
theorem Heard.took {u : XRep α} {p : α} {msg : Msg} (h : Heard G q s) (hren : Renamed G s u)
    (htook : Took G q s ends p msg q' u ends') (htrace : t.trace = u.trace ++ [.received p msg])
    (hfq : t.fq = u.fq) : Heard G q' t := by
  have harr : arrivals t.trace = arrivals s.trace ++ [(p, msg)] := by
    rw [htrace, hren.eq, arrivals_append]
    rfl
  refine ⟨?_, ?_, fun hm => ?_, fun hm a ha => ?_⟩
  · rw [harr, List.map_append, Grammar.after_append, h.place]
    simpa [Grammar.after] using htook.place
  · rw [harr, List.isChain_append]
    refine ⟨h.whole, List.isChain_singleton _, fun a ha b hb hmore => ?_⟩
    obtain rfl : (p, msg) = b := by simpa using hb
    cases hs : s.fq.more with
    | true =>
      obtain ⟨a', hlast, hget⟩ := h.mid hs
      obtain rfl : a' = a := by simpa [hlast] using ha
      rw [htook.source hs, Option.some.injEq] at hget
      exact hget
    | false => grind [h.idle]
  · rw [hfq] at hm ⊢
    exact ⟨(p, msg), by rw [harr]; simp, htook.current (htook.more ▸ hm)⟩
  · grind [htook.more]

theorem Heard.gets {r : Option Msg} (h : Heard G q s) (hplaced : Placed G q s ends)
    (hg : Gets G q s ends r q' t ends') : Heard G q' t := by
  cases hg with
  | prefetchedId _ => exact ⟨h.place, h.whole, h.mid, h.idle⟩
  | prefetchedBody _ => exact ⟨h.place, h.whole, h.mid, h.idle⟩
  | nothing hpre hin hren hidle _ =>
    have hs : s.fq.more = false := (hplaced.more hpre).symm.trans hin
    refine h.kept (by rw [hren.eq]) ⟨hidle.trans hs.symm, fun hm => ?_⟩
    exact absurd (hs.symm.trans hm) (by simp)
  | first _ _ hren htook => exact h.took hren htook rfl rfl
  | next _ _ hren htook => exact h.took hren htook rfl rfl

end XRep

end Libxs
