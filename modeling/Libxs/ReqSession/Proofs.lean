import Libxs.ReqSession

/-! # Which streams of replies a session accepts -/

namespace Libxs

open scoped Computability

open ReplyFormat

/-! ## One reply as a machine -/

namespace ReqState

def first (version : Int) : ReqState := if 3 ≤ version then .reqid else .bottom

def next (version : Int) : ReqState → WirePart → Option (Option ReqState)
  | .identity, p => if p.more then none else some (some (first version))
  | .reqid, p => if p.more = true ∧ p.data.length = 4 then some (some .bottom) else none
  | .bottom, p => if p.more = true ∧ p.data = [] then some (some .body) else none
  | .body, p => if p.more then some (some .body) else some none

def rest (version : Int) : ReqState → Language WirePart
  | .identity => ReplyFormat.identity * reply version
  | .reqid => requestId * (ReplyFormat.bottom * ReplyFormat.body)
  | .bottom => ReplyFormat.bottom * ReplyFormat.body
  | .body => ReplyFormat.body

theorem rest_first (version : Int) : rest version (first version) = reply version := by
  unfold first reply
  split <;> rfl

end ReqState

theorem ReplyFormat.cons_mem_body {p : WirePart} {w : List WirePart} :
    p :: w ∈ body ↔ p.more = true ∧ w ∈ body ∨ p.more = false ∧ w = [] := by
  unfold body
  rw [cons_mem_kstar_letter_mul, mem_letter]
  simp

theorem ReplyFormat.exists_mem_reply : ∃ w, w ∈ bottom * body :=
  ⟨[⟨[], true⟩, ⟨[], false⟩], cons_mem_letter_mul.2 ⟨⟨rfl, rfl⟩, cons_mem_body.2 (Or.inr ⟨rfl, rfl⟩)⟩⟩

def replies (version : Int) : RoundMachine WirePart ReqState where
  next := ReqState.next version
  rest := ReqState.rest version
  nil_not_mem s := by
    cases s with
    | body => exact nil_not_mem_mul_letter _ _
    | _ => exact nil_not_mem_letter_mul _ _
  completes s := by
    obtain ⟨w, hw⟩ := exists_mem_reply
    have hreqid : ⟨[0, 0, 0, 0], true⟩ :: w ∈ requestId * (bottom * body) :=
      cons_mem_letter_mul.2 ⟨⟨rfl, rfl⟩, hw⟩
    cases s with
    | identity =>
      obtain ⟨v, hv⟩ : ∃ v, v ∈ reply version := by
        unfold reply
        split
        · exact ⟨_, hreqid⟩
        · exact ⟨_, hw⟩
      exact ⟨⟨[], false⟩ :: v, cons_mem_letter_mul.2 ⟨rfl, hv⟩⟩
    | reqid => exact ⟨_, hreqid⟩
    | bottom => exact ⟨_, hw⟩
    | body => exact ⟨[⟨[], false⟩], cons_mem_body.2 (Or.inr ⟨rfl, rfl⟩)⟩
  cons_mem s p w := by
    cases s with
    | identity =>
      rw [ReqState.rest, ReplyFormat.identity, cons_mem_letter_mul]
      cases hp : p.more <;> simp [ReqState.next, remaining, hp, ReqState.rest_first]
    | reqid =>
      rw [ReqState.rest, requestId, cons_mem_letter_mul]
      by_cases hp : p.more = true ∧ p.data.length = 4 <;>
        simp [ReqState.next, remaining, hp, ReqState.rest]
    | bottom =>
      rw [ReqState.rest, ReplyFormat.bottom, cons_mem_letter_mul]
      by_cases hp : p.more = true ∧ p.data = [] <;>
        simp [ReqState.next, remaining, hp, ReqState.rest]
    | body =>
      rw [ReqState.rest, cons_mem_body]
      cases hp : p.more <;> simp [ReqState.next, remaining, hp, ReqState.rest]

@[simp] theorem replies_next (version : Int) : (replies version).next = ReqState.next version := rfl

@[simp] theorem replies_rest (version : Int) : (replies version).rest = ReqState.rest version := rfl

theorem accepts_first_iff (version : Int) (w : List WirePart) :
    (replies version).accepts (ReqState.first version) .identity w = true ↔
      w ∈ prefixes (stream version) := by
  have hreply : ∃ w, w ∈ reply version := by
    rw [← ReqState.rest_first]
    exact (replies version).completes _
  rw [RoundMachine.accepts_iff, replies_rest, ReqState.rest_first, ReqState.rest, mul_assoc,
    prefixes_mul_self_kstar _ hreply, stream]

/-! ## The session follows the machine -/

def ReqSessionOp.Keeps (options : Options) : ReqSessionOp → Prop
  | .write _ => True
  | .change base => base.options = options ∧ base.Sound

namespace ReqSession

variable {s : ReqSession}

theorem pass_spec (h : s.Sound) (state : ReqState) (msg : Msg) :
    ∃ errno msg' base, s.pass state msg = .ok (errno, msg', ⟨base, state⟩) ∧
      errno ≠ some .efault ∧ base.options = s.options ∧ base.Sound := by
  obtain ⟨ok, msg', base, hw, hoptions, hsound⟩ := SessionBase.Sound.write h msg
  simp only [pass, hw]
  exact ⟨_, _, _, rfl, by cases ok <;> simp, hoptions, hsound⟩

theorem write_eq (s : ReqSession) (part : WirePart) :
    s.write part.msg =
      match ReqState.next s.options.spVersion s.state part with
      | none => .ok (some .efault, part.msg, s)
      | some state => s.pass (state.getD .bottom) part.msg := by
  have hmore : part.msg.flags = Msg.moreFlag ↔ part.more = true := by
    cases hp : part.more <;> simp [WirePart.msg, hp, Msg.moreFlag]
  have hlast : part.msg.flags = 0 ↔ part.more = false := by
    cases hp : part.more <;> simp [WirePart.msg, hp, Msg.moreFlag]
  have hsize : part.msg.size = part.data.length := rfl
  simp only [write, hmore, hlast, hsize]
  grind [ReqState.next, ReqState.first]

theorem accepts_eq (ops : List ReqSessionOp) : ∀ s : ReqSession, s.Sound →
    (∀ op ∈ ops, op.Keeps s.options) →
    s.accepts ops = (replies s.options.spVersion).accepts .bottom s.state (arriving ops) := by
  induction ops with
  | nil => exact fun _ _ _ => rfl
  | cons op ops ih =>
    intro s h hops
    obtain ⟨hop, hrest⟩ := List.forall_mem_cons.1 hops
    cases op with
    | change base =>
      obtain ⟨hoptions, hsound⟩ : base.options = s.options ∧ base.Sound := hop
      have := ih { s with toSessionBase := base } hsound (by simpa [hoptions] using hrest)
      simpa [accepts, arriving, hoptions] using this
    | write part =>
      show s.accepts (.write part :: ops) =
        (replies _).accepts .bottom s.state (part :: arriving ops)
      simp only [accepts, write_eq, RoundMachine.accepts, replies_next]
      cases hn : ReqState.next s.options.spVersion s.state part with
      | none => rfl
      | some state =>
        obtain ⟨errno, msg', base, hpass, herrno, hoptions, hsound⟩ :=
          pass_spec h (state.getD .bottom) part.msg
        have := ih ⟨base, state.getD .bottom⟩ hsound (by simpa [hoptions] using hrest)
        simpa [hpass, herrno, hoptions] using this

theorem Fresh.start {options : Options} (h : Fresh options s) (hrecv : options.recvIdentity = true) :
    s.options = options ∧ s.state = .identity := by
  cases h with
  | created connect => exact ⟨rfl, rfl⟩
  | @detached t s hoptions hd =>
    unfold detach at hd
    cases hbase : t.toSessionBase.detach with
    | error e => simp [hbase] at hd
    | ok base =>
      simp only [hbase] at hd
      cases hd
      exact ⟨(SessionBase.detach_keeps hbase).options.trans hoptions, by simp [hoptions, hrecv]⟩

theorem letter_begins (version : Int) :
    letter ((replies version).Begins .bottom .reqid) = requestId + bottom := by
  ext w
  rw [Language.mem_add, requestId, bottom, mem_letter, mem_letter, mem_letter]
  simp only [RoundMachine.Begins, replies_next, ReqState.next]
  grind

/-- **A connection is checked against the format of replies** exactly if the protocol has no request
    ids or the peer does not go on to a second reply. -/
theorem accepts_replies_iff (id : List UInt8) (version : Int) (s : ReqSession)
    (hfresh : Fresh (.req id version) s) (hsound : s.Sound) (ops : List ReqSessionOp)
    (hops : ∀ op ∈ ops, op.Keeps (.req id version)) :
    (∀ ops', ops' <+: ops →
        (s.accepts ops' = true ↔ arriving ops' ∈ prefixes (stream version))) ↔
      (3 ≤ version → ∀ parts, parts <+: arriving ops →
        parts ∉ ReplyFormat.identity * reply version * (requestId + ReplyFormat.bottom)) := by
  obtain ⟨hoptions, hstate⟩ := hfresh.start rfl
  have hversion : s.options.spVersion = version := by rw [hoptions]; rfl
  have hverdict : ∀ ops', ops' <+: ops →
      s.accepts ops' = (replies version).accepts .bottom .identity (arriving ops') := by
    intro ops' hpre
    rw [accepts_eq ops' s hsound fun op hop => hoptions ▸ hops op (hpre.subset hop), hversion, hstate]
  have hagree : (∀ ops', ops' <+: ops →
      (s.accepts ops' = true ↔ arriving ops' ∈ prefixes (stream version))) ↔
      ∀ parts, parts <+: arriving ops → (replies version).accepts .bottom .identity parts =
        (replies version).accepts (ReqState.first version) .identity parts := by
    unfold arriving
    rw [← forall_prefixes_filterMap]
    refine forall_congr' fun ops' => forall_congr' fun hpre => ?_
    rw [← accepts_first_iff, hverdict ops' hpre]
    exact Bool.eq_iff_iff.symm
  rw [hagree]
  by_cases hv : 3 ≤ version
  · have hdiff : ∀ p, ((replies version).next .bottom p).isSome = true →
        ((replies version).next .reqid p).isSome = false := by
      intro p hp
      obtain ⟨-, hempty⟩ : p.more = true ∧ p.data = [] := by
        simpa [ReqState.next] using hp
      simp [ReqState.next, hempty]
    have hreplies := RoundMachine.accepts_agree_iff hdiff (arriving ops) .identity
    rw [letter_begins] at hreplies
    simpa [ReqState.first, hv, ReqState.rest] using hreplies
  · simp [ReqState.first, hv]

def connected (version : Int) : SessionBase :=
  { SessionBase.init (.req [] version) true with pipe := some (.init 0 0 true) }

def arrive (parts : List WirePart) : List ReqSessionOp := parts.map .write

def plainReplies : List WirePart :=
  [⟨[], false⟩, ⟨[], true⟩, ⟨[1], true⟩, ⟨[2], false⟩, ⟨[], true⟩, ⟨[3], false⟩]

theorem plainReplies_accepted :
    ∃ s, detach ⟨connected 1, .body⟩ = .ok s ∧
      (∀ ops', ops' <+: arrive plainReplies →
        (s.accepts ops' = true ↔ arriving ops' ∈ prefixes (stream 1))) ∧
      s.accepts (arrive plainReplies) = true := by
  obtain ⟨s, hs⟩ : ∃ s, detach ⟨connected 1, .body⟩ = .ok s := ⟨_, rfl⟩
  have hsound : s.Sound := by
    have hall : ∀ r, detach ⟨connected 1, .body⟩ = .ok r → r.Sound := by
      rintro - ⟨⟩
      decide
    exact hall s hs
  have hops : ∀ op ∈ arrive plainReplies, op.Keeps (.req [] 1) := by
    simp [arrive, plainReplies, ReqSessionOp.Keeps]
  have hright := (accepts_replies_iff [] 1 s (.detached rfl hs) hsound _ hops).2
    fun h => absurd h (by decide)
  refine ⟨s, hs, hright, (hright _ (List.prefix_refl _)).2 ?_⟩
  exact (accepts_first_iff 1 _).1 (by decide)

def secondReply (start : WirePart) : List ReqSessionOp :=
  .change (connected 3) :: arrive [⟨[], false⟩, ⟨[0, 0, 0, 1], true⟩, ⟨[], true⟩, ⟨[1], false⟩, start]

theorem secondReply_refused :
    (arriving (secondReply ⟨[0, 0, 0, 2], true⟩) ∈ prefixes (stream 3) ∧
        (init (.req [] 3) true).accepts (secondReply ⟨[0, 0, 0, 2], true⟩) = false) ∧
      arriving (secondReply ⟨[], true⟩) ∉ prefixes (stream 3) ∧
        (init (.req [] 3) true).accepts (secondReply ⟨[], true⟩) = true := by
  refine ⟨⟨(accepts_first_iff 3 _).1 (by decide), by decide⟩, fun h => ?_, by decide⟩
  exact absurd ((accepts_first_iff 3 _).2 h) (by decide)

end ReqSession

end Libxs
