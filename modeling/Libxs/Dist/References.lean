import Mathlib.Data.Fintype.Option
import Libxs.Dist.Proofs
import Libxs.Msg.Release

/-! # Distribution and the reference counter -/

namespace Libxs

variable {α ι : Type} [DecidableEq α] [DecidableEq ι]

/-! ## The code -/

def MsgHeap.discard (s : MsgHeap ι) (h : ι) : Except Fault (MsgHeap ι) :=
  match s.close h with
  | .error e => .error e
  | .ok (.error _, _) => .error .assertFailed
  | .ok (.ok (), s) => .ok (s.init h)

def MsgHeap.detach (s : MsgHeap ι) (h : ι) (failed : Nat) : Except Fault (MsgHeap ι) :=
  if failed = 0 then .ok (s.init h)
  else
    match s.rmRefs h failed with
    | .error e => .error e
    | .ok (_, s) => .ok (s.init h)

namespace Dist

def copyLoop (h : ι) (slot : α → ι) (msg : Msg) : Nat → Nat → Dist α → Ends α → MsgHeap ι →
    Except Fault (Nat × Dist α × Ends α × MsgHeap ι)
  | 0, i, d, ends, heap => if i < d.matching then .error .outOfFuel else .ok (0, d, ends, heap)
  | fuel + 1, i, d, ends, heap =>
    if i < d.matching then
      match d.pipes.get i with
      | none => .error .badIndex
      | some pipe =>
        match d.write ends pipe msg with
        | .error e => .error e
        | .ok (true, d, ends) =>
          copyLoop h slot msg fuel (i + 1) d ends (heap.setHandle (slot pipe) (heap.handles h))
        | .ok (false, d, ends) =>
          match copyLoop h slot msg fuel i d ends heap with
          | .error e => .error e
          | .ok (failed, d, ends, heap) => .ok (failed + 1, d, ends, heap)
    else .ok (0, d, ends, heap)

def distributeMsg (d : Dist α) (ends : Ends α) (heap : MsgHeap ι) (h : ι) (slot : α → ι) (msg : Msg) :
    Except Fault (Dist α × Ends α × MsgHeap ι) :=
  if d.matching = 0 then
    match heap.discard h with
    | .error e => .error e
    | .ok heap => .ok (d, ends, heap)
  else
    match heap.handles h with
    | .vsm _ _ _ =>
      match copyLoop h slot msg d.matching 0 d ends heap with
      | .error e => .error e
      | .ok (_, d, ends, heap) =>
        match heap.discard h with
        | .error e => .error e
        | .ok heap => .ok (d, ends, heap)
    | _ =>
      -- the conversion to int keeps the value modulo 2 ^ 32
      match heap.addRefs h ((d.matching : Int).bmod (2 ^ 32) - 1) with
      | .error e => .error e
      | .ok heap =>
        match copyLoop h slot msg d.matching 0 d ends heap with
        | .error e => .error e
        | .ok (failed, d, ends, heap) =>
          -- the loop counts the refused writes in an int
          if 2 ^ 31 ≤ failed then .error .signedOverflow
          else
            match heap.detach h failed with
            | .error e => .error e
            | .ok heap => .ok (d, ends, heap)

theorem copyLoop_eq (h : ι) (slot : α → ι) (msg : Msg) (fuel : Nat) :
    ∀ (i : Nat) (d : Dist α) (ends : Ends α) (heap : MsgHeap ι),
      (copyLoop h slot msg fuel i d ends heap).map (fun r => (r.1, r.2.1, r.2.2.1)) =
        distributeLoop fuel i d ends msg := by
  induction fuel with
  | zero =>
    intro i d ends heap
    unfold copyLoop distributeLoop
    split <;> rfl
  | succ fuel ih =>
    intro i d ends heap
    unfold copyLoop distributeLoop
    split
    · cases d.pipes.get i with
      | none => rfl
      | some pipe =>
        simp only
        rcases d.write ends pipe msg with e | ⟨_ | _, d, ends⟩
        · rfl
        · simp only
          rw [← ih i d ends heap]
          cases copyLoop h slot msg fuel i d ends heap <;> rfl
        · exact ih ..
    · rfl

end Dist

/-! ## Copies in the pipes -/

namespace MsgHeap

def place (s : MsgHeap ι) (xs : List ι) (v : Handle) : MsgHeap ι :=
  { s with handles := fun x => if x ∈ xs then v else s.handles x }

theorem place_nil (s : MsgHeap ι) (v : Handle) : s.place [] v = s := by
  simp [place]

theorem place_setHandle (s : MsgHeap ι) (y : ι) (xs : List ι) (v : Handle) :
    (s.setHandle y v).place xs v = s.place (y :: xs) v := by
  have hhandles : (fun x => if x ∈ xs then v else Function.update s.handles y v x) =
      fun x => if x ∈ y :: xs then v else s.handles x := by
    funext x
    by_cases hx : x = y
    · simp [hx]
    · simp [hx]
  simp only [place, setHandle, hhandles]

theorem setHandle_self (s : MsgHeap ι) (h : ι) : s.setHandle h (s.handles h) = s := by
  simp [setHandle]

omit [DecidableEq ι] in
theorem store_self {s : MsgHeap ι} {c : Nat} {y : Content} (hy : s.contents c = some y) :
    s.store c y = s := by
  simp [store, ← hy]

theorem init_setHandle (s : MsgHeap ι) (h : ι) (v : Handle) : (s.setHandle h v).init h = s.init h := by
  simp [init, setHandle]

theorem setHandle_store_comm (s : MsgHeap ι) (h : ι) (v : Handle) (c : Nat) (y : Content) :
    (s.store c y).setHandle h v = (s.setHandle h v).store c y := rfl

theorem place_congr (s : MsgHeap ι) {xs ys : List ι} (hmem : ∀ x, x ∈ xs ↔ x ∈ ys) (v : Handle) :
    s.place xs v = s.place ys v := by
  simp only [place, hmem]

end MsgHeap

namespace Dist

theorem copyLoop_spec (h : ι) (slot : α → ι) (msg : Msg) (fuel : Nat) :
    ∀ (i : Nat) (d : Dist α) (ends : Ends α) (heap : MsgHeap ι) (M A E D : α → Prop),
      d.Layered M A E → d.pipes.Partitioned i D → d.matching = i + fuel →
      (∀ x, d.attached x → (ends x).Sound) → (∀ x, d.attached x → slot x ≠ h) →
      ∃ (failed : Nat) (d' : Dist α) (ends' : Ends α) (acc : List α), copyLoop h slot msg fuel i d ends heap =
          .ok (failed, d', ends', heap.place (acc.map slot) (heap.handles h)) ∧
        acc.length + failed = fuel ∧ acc.Nodup ∧
        ∀ x, x ∈ acc ↔ d.attached x ∧ M x ∧ ¬ D x ∧ (ends x).accepts = true := by
  induction fuel with
  | zero =>
    intro i d ends heap M A E D h hD hfuel _ _
    refine ⟨0, d, ends, [], ?_, rfl, List.nodup_nil, fun x => ?_⟩
    · rw [copyLoop, if_neg (by omega), List.map_nil, MsgHeap.place_nil]
    · have hMD : d.attached x → (M x ↔ D x) := fun hx => by
        rw [← h.matching.mem_iff x hx, ← hD.mem_iff x hx, hfuel, Nat.add_zero]
      simp only [List.not_mem_nil, false_iff]
      tauto
  | succ fuel ih =>
    intro i d ends heap M A E D hlay hD hfuel hsound hslot
    obtain ⟨p, hp, hatt, hidx, hM, hnD⟩ := hlay.next hD (by omega)
    have hsound' := Layered.sound_update_sent hsound p msg
    have hsame : ∀ x, x ≠ p → Function.update ends p ((ends p).sent msg) x = ends x :=
      fun x hx => Function.update_of_ne hx ..
    rw [copyLoop, if_pos (by omega)]
    simp only [hp]
    cases hacc : (ends p).accepts with
    | true =>
      rw [Layered.write_accepted d (hsound p hatt) hacc]
      simp only
      obtain ⟨failed, d', ends', acc, hloop, hlen, hnodup, hmem⟩ :=
        ih (i + 1) d _ (heap.setHandle (slot p) (heap.handles h)) M A E _ hlay (hD.extend hp)
          (by omega) hsound' hslot
      have hhandle : (heap.setHandle (slot p) (heap.handles h)).handles h = heap.handles h := by
        rw [MsgHeap.handles_setHandle, Function.update_of_ne (hslot p hatt).symm]
      rw [hhandle, MsgHeap.place_setHandle] at hloop
      refine ⟨failed, d', ends', p :: acc, hloop, by simp only [List.length_cons]; omega,
        List.nodup_cons.2 ⟨fun hc => ((hmem p).1 hc).2.2.1 (Or.inl rfl), hnodup⟩, fun x => ?_⟩
      rw [List.mem_cons, hmem x]
      grind
    | false =>
      obtain ⟨d₁, hd₁, hlay₁, hatt₁, -, hmatching, hkeep⟩ := hlay.makePassive hatt hM
      rw [Layered.write_refused (hsound p hatt) hacc hd₁]
      simp only
      obtain ⟨failed, d', ends', acc, hloop, hlen, hnodup, hmem⟩ :=
        ih i d₁ _ heap _ _ _ _ hlay₁ (hkeep i D (by omega) hD) (by omega)
          (fun x hx => hsound' x ((hatt₁ x).1 hx)) (fun x hx => hslot x ((hatt₁ x).1 hx))
      simp only [hloop]
      refine ⟨failed + 1, d', ends', acc, rfl, by omega, hnodup, fun x => ?_⟩
      rw [hmem x, hatt₁]
      grind

end Dist

/-! ## Removing references -/

namespace MsgHeap

variable {s : MsgHeap ι} {h : ι} {flags : UInt8} {c : Nat} {y : Content} {n : Nat}

omit [DecidableEq ι] in
theorem deref_of_live (hy : s.contents c = some y) (hlive : y.released = 0) :
    s.deref (some c) = .ok (c, y) := by
  simp [deref, hy, hlive]

theorem rmRefs_unshared (hh : s.handles h = .lmsg flags (some c)) (hflag : flags &&& Msg.sharedFlag = 0)
    (hy : s.contents c = some y) (hlive : y.released = 0) (hn : n ≠ 0) :
    s.rmRefs h n = .ok (false, (s.store c y.release).setHandle h .invalid) := by
  have hclose : s.close h = .ok (.ok (), (s.store c y.release).setHandle h .invalid) := by
    simp only [close, hh, dropRef, deref_of_live hy hlive, if_pos hflag]
  unfold rmRefs
  rw [if_neg (by omega), if_neg (by omega), hh]
  simp only [if_pos hflag, hclose, Except.map]

theorem rmRefs_shared (hh : s.handles h = .lmsg flags (some c)) (hflag : flags &&& Msg.sharedFlag ≠ 0)
    (hy : s.contents c = some y) (hlive : y.released = 0) (hn : n ≠ 0) :
    s.rmRefs h n = .ok (
      if y.refcnt - .ofNat n = 0 then
        (false, (s.store c { y with refcnt := 4294967295 }).setHandle h .invalid)
      else (true, s.store c { y with refcnt := y.refcnt - .ofNat n })) := by
  unfold rmRefs
  rw [if_neg (by omega), if_neg (by omega), hh]
  simp only [if_neg hflag, deref_of_live hy hlive, Int.toNat_natCast]
  split
  next hzero =>
    have hstored : (s.store c { y with refcnt := 0 }).contents c = some { y with refcnt := 0 } :=
      Function.update_self ..
    have htwice : ∀ z z', (s.store c z).store c z' = s.store c z' := fun z z' => by
      simp only [store, Function.update_idem]
    have hwrap : (0 : UInt32) - 1 = 4294967295 := by decide
    rw [hzero]
    simp only [close, handles_store, hh, dropRef, deref_of_live hstored hlive, if_neg hflag, hwrap, htwice]
    rfl
  · rfl

end MsgHeap

/-! ## A long message and its distributor -/

structure FanOut (α ι : Type) [DecidableEq α] [DecidableEq ι] [Fintype ι] where
  sys : DistSystem α
  inv : sys.Inv
  matching_pos : 1 ≤ sys.dist.matching
  heap : MsgHeap ι
  accounted : heap.Accounted
  message : ι
  flags : UInt8
  content : Nat
  long : heap.handles message = .lmsg flags (some content)
  slot : α → ι
  slot_injective : ∀ p q, sys.attached p → sys.attached q → slot p = slot q → p = q
  slot_free : ∀ p, sys.attached p → (heap.handles (slot p)).content = none
  msg : Msg

namespace FanOut

variable [Fintype ι] (f : FanOut α ι)

def matching : Nat := f.sys.dist.matching

def accepting : List α :=
  (f.sys.dist.pipes.items.take f.matching).filter fun p => (f.sys.ends p).accepts

def accepted : Nat := f.accepting.length

def others : Finset ι :=
  Finset.univ.filter fun h => h ≠ f.message ∧ (f.heap.handles h).content = some f.content

def elsewhere : Nat := f.others.card

def remaining : Nat := f.accepted + f.elsewhere

def shared : Bool := f.flags &&& Msg.sharedFlag != 0

def intMatching : Int := (f.matching : Int).bmod (2 ^ 32)

def Exact : Prop :=
  ∃ d ends heap, f.sys.dist.distributeMsg f.sys.ends f.heap f.message f.slot f.msg = .ok (d, ends, heap) ∧
    heap.Accounted ∧ heap.refs f.content = f.remaining ∧ heap.handles f.message = .vsm 0 0 []

/-! ### The references before the call -/

theorem slot_ne {p : α} (hp : f.sys.attached p) : f.slot p ≠ f.message := by
  intro heq
  have hfree := f.slot_free p hp
  rw [heq, f.long] at hfree
  cases hfree

theorem refs_content : f.heap.refs f.content = f.elsewhere + 1 := by
  have hinsert : (Finset.univ.filter fun h => (f.heap.handles h).content = some f.content) =
      insert f.message f.others := by
    ext h
    by_cases hh : h = f.message
    · simp [hh, f.long]
    · simp [hh, others]
  rw [MsgHeap.refs, hinsert, Finset.card_insert_of_notMem (by simp [others]), elsewhere]

theorem block : ∃ x, f.heap.contents f.content = some x ∧ x.released = 0 ∧ x.freeCalls = [] ∧
    f.elsewhere + 1 = if f.shared then x.refcnt.toNat else 1 := by
  have hcontent : (f.heap.handles f.message).content = some f.content := by rw [f.long]; rfl
  obtain ⟨x, hx, hcount⟩ := f.accounted.counted f.message f.content hcontent
  obtain ⟨hlive, hcalls⟩ := (f.accounted.released f.content x hx).2 (by rw [f.refs_content]; omega)
  refine ⟨x, hx, hlive, hcalls, ?_⟩
  rw [f.refs_content, f.long] at hcount
  exact hcount

theorem shared_of_mem_others {h : ι} (hh : h ∈ f.others) : (f.heap.handles h).shared = true := by
  obtain ⟨-, hc⟩ := (Finset.mem_filter.1 hh).2
  obtain ⟨x, -, hcount⟩ := f.accounted.counted h f.content hc
  have hpos : 0 < f.elsewhere := Finset.card_pos.2 ⟨h, hh⟩
  rw [f.refs_content] at hcount
  by_contra hshared
  rw [if_neg hshared] at hcount
  omega

/-! ### The pipes that accept the message -/

theorem nodup_items : f.sys.dist.pipes.items.Nodup := by
  rw [List.nodup_iff_getElem?_ne_getElem?]
  intro i j hij hj heq
  have hx := List.getElem?_eq_getElem hj
  have hi := f.inv.layered.wf i _ (heq.trans hx)
  have hj' := f.inv.layered.wf j _ hx
  omega

theorem nodup_accepting : f.accepting.Nodup :=
  (f.nodup_items.sublist (List.take_sublist ..)).filter _

theorem mem_accepting (p : α) : p ∈ f.accepting ↔
    f.sys.attached p ∧ f.sys.dist.pipes.index p < f.matching ∧ (f.sys.ends p).accepts = true := by
  rw [accepting, List.mem_filter, List.mem_take_iff_getElem, ← and_assoc]
  refine and_congr_left fun _ => ⟨?_, fun ⟨hp, hlt⟩ => ?_⟩
  · rintro ⟨i, hi, rfl⟩
    have hidx := f.inv.layered.wf i _ (List.getElem?_eq_getElem (by omega))
    exact ⟨List.getElem_mem _, by rw [hidx]; omega⟩
  · have hget := f.inv.layered.wf.get_index hp
    obtain ⟨hlen, hget⟩ := List.getElem?_eq_some_iff.1 hget
    exact ⟨_, by omega, hget⟩

def copies : List ι := f.accepting.map f.slot

theorem attached_of_mem_accepting {p : α} (hp : p ∈ f.accepting) : f.sys.attached p :=
  ((f.mem_accepting p).1 hp).1

theorem nodup_copies : f.copies.Nodup :=
  (List.nodup_map_iff_inj_on f.nodup_accepting).2 fun p hp q hq =>
    f.slot_injective p q (f.attached_of_mem_accepting hp) (f.attached_of_mem_accepting hq)

theorem free_of_mem_copies {h : ι} (hh : h ∈ f.copies) : (f.heap.handles h).content = none := by
  obtain ⟨p, hp, rfl⟩ := List.mem_map.1 hh
  exact f.slot_free p (f.attached_of_mem_accepting hp)

theorem message_notMem_copies : f.message ∉ f.copies := fun hh => by
  have hfree := f.free_of_mem_copies hh
  rw [f.long] at hfree
  cases hfree

theorem copyLoop_copies (heap : MsgHeap ι) : ∃ failed d ends,
    Dist.copyLoop f.message f.slot f.msg f.matching 0 f.sys.dist f.sys.ends heap =
      .ok (failed, d, ends, heap.place f.copies (heap.handles f.message)) ∧
    f.accepted + failed = f.matching := by
  have hstart : f.sys.dist.pipes.Partitioned 0 (fun _ => False) :=
    ⟨f.inv.layered.wf, Nat.zero_le _, fun _ _ => by simp⟩
  obtain ⟨failed, d, ends, acc, hloop, hlen, hnodup, hmem⟩ :=
    Dist.copyLoop_spec f.message f.slot f.msg f.matching 0 f.sys.dist f.sys.ends heap _ _ _ _ f.inv.layered
      hstart (by simp [matching]) f.inv.sound (fun p hp => f.slot_ne hp)
  have hperm : acc.Perm f.accepting := by
    refine (List.perm_ext_iff_of_nodup hnodup f.nodup_accepting).2 fun p => ?_
    rw [hmem, f.mem_accepting]
    simp [matching]
  refine ⟨failed, d, ends, ?_, by rw [accepted, ← hperm.length_eq, hlen]⟩
  rw [hloop, MsgHeap.place_congr heap fun x => (hperm.map f.slot).mem_iff]
  rfl

/-! ### The heap after the call -/

def after (v : Handle) (y : Content) : MsgHeap ι where
  handles h := if h ∈ f.copies then v else if h = f.message then .vsm 0 0 [] else f.heap.handles h
  contents := Function.update f.heap.contents f.content (some y)
  fresh := f.heap.fresh

variable {f} {v : Handle} {y : Content}

theorem handles_after_message : (f.after v y).handles f.message = .vsm 0 0 [] := by
  simp [after, f.message_notMem_copies]

theorem content_after_iff (hv : v.content = some f.content) (h : ι) (c : Nat) :
    ((f.after v y).handles h).content = some c ↔
      (h ∈ f.copies ∧ c = f.content) ∨ (h ≠ f.message ∧ (f.heap.handles h).content = some c) := by
  by_cases hh : h ∈ f.copies
  · simp [after, hh, hv, f.free_of_mem_copies hh, eq_comm]
  · by_cases hm : h = f.message
    · simp [after, hm, f.message_notMem_copies]
    · simp [after, hh, hm]

theorem refs_after_content (hv : v.content = some f.content) :
    (f.after v y).refs f.content = f.remaining := by
  have hunion : (Finset.univ.filter fun h => ((f.after v y).handles h).content = some f.content) =
      f.copies.toFinset ∪ f.others := by
    ext h
    simp [content_after_iff hv, others]
  have hdisjoint : Disjoint f.copies.toFinset f.others := by
    rw [Finset.disjoint_left]
    intro h hh hother
    have hfree := f.free_of_mem_copies (List.mem_toFinset.1 hh)
    rw [(Finset.mem_filter.1 hother).2.2] at hfree
    cases hfree
  rw [MsgHeap.refs, hunion, Finset.card_union_of_disjoint hdisjoint,
    List.toFinset_card_of_nodup f.nodup_copies, copies, List.length_map]
  rfl

theorem refs_after_of_ne (hv : v.content = some f.content) {c : Nat} (hc : c ≠ f.content) :
    (f.after v y).refs c = f.heap.refs c := by
  unfold MsgHeap.refs
  congr 1
  ext h
  simp only [Finset.mem_filter, Finset.mem_univ, true_and, content_after_iff hv, hc, and_false, false_or]
  refine ⟨fun hh => hh.2, fun hh => ⟨?_, hh⟩⟩
  rintro rfl
  rw [f.long] at hh
  exact hc (Option.some.inj hh).symm

theorem accounted_after (hv : v.content = some f.content)
    (hcopies : 0 < f.accepted → f.remaining = if v.shared then y.refcnt.toNat else 1)
    (hothers : 0 < f.elsewhere → f.remaining = y.refcnt.toNat)
    (hzero : f.remaining = 0 → y.released = 1 ∧ y.freeCalls = y.freeCall)
    (hlive : f.remaining ≠ 0 → y.released = 0 ∧ y.freeCalls = []) : (f.after v y).Accounted where
  counted h c hc := by
    rcases (content_after_iff hv h c).1 hc with ⟨hh, rfl⟩ | ⟨hm, hold⟩
    · refine ⟨y, Function.update_self .., ?_⟩
      have hhandle : (f.after v y).handles h = v := if_pos hh
      rw [refs_after_content hv, hhandle]
      refine hcopies ?_
      rw [accepted, ← List.length_map f.slot]
      exact List.length_pos_of_mem hh
    · have hcopy : h ∉ f.copies := fun hh => by
        rw [f.free_of_mem_copies hh] at hold
        cases hold
      have hhandle : (f.after v y).handles h = f.heap.handles h := by simp [after, hcopy, hm]
      rw [hhandle]
      by_cases hne : c = f.content
      · subst hne
        have hother : h ∈ f.others := by simp [others, hm, hold]
        refine ⟨y, Function.update_self .., ?_⟩
        rw [refs_after_content hv, if_pos (f.shared_of_mem_others hother)]
        exact hothers (Finset.card_pos.2 ⟨h, hother⟩)
      · obtain ⟨x, hx, hcount⟩ := f.accounted.counted h c hold
        exact ⟨x, (Function.update_of_ne hne ..).trans hx, by rw [refs_after_of_ne hv hne]; exact hcount⟩
  released c x hx := by
    by_cases hne : c = f.content
    · subst hne
      have hcontent : (f.after v y).contents f.content = some y := Function.update_self ..
      obtain rfl : y = x := Option.some.inj (hcontent.symm.trans hx)
      rw [refs_after_content hv]
      exact ⟨hzero, hlive⟩
    · rw [refs_after_of_ne hv hne]
      exact f.accounted.released c x ((Function.update_of_ne hne ..).symm.trans hx)

theorem remaining_of_accounted (hv : v.content = some f.content) (hy : y.released = 0)
    (hacc : (f.after v y).Accounted) : f.remaining ≠ 0 ∧ f.remaining < 2 ^ 32 := by
  have hcontent : (f.after v y).contents f.content = some y := Function.update_self ..
  have hne : f.remaining ≠ 0 := by
    intro hzero
    rw [← refs_after_content hv] at hzero
    have := ((hacc.released f.content y hcontent).1 hzero).1
    omega
  refine ⟨hne, ?_⟩
  rw [← refs_after_content (y := y) hv] at hne ⊢
  obtain ⟨h, hh⟩ := Finset.card_pos.1 (Nat.pos_of_ne_zero hne)
  obtain ⟨x, hx, hcount⟩ := hacc.counted h f.content (Finset.mem_filter.1 hh).2
  have hlt := x.refcnt.toNat_lt
  rw [hcount]
  split <;> omega

theorem remaining_of_unshared (hv : v.content = some f.content) (hshared : v.shared = false)
    (hpos : 0 < f.accepted) (hacc : (f.after v y).Accounted) : f.remaining = 1 := by
  obtain ⟨p, hp⟩ := List.exists_mem_of_length_pos hpos
  have hhandle : (f.after v y).handles (f.slot p) = v := if_pos (List.mem_map_of_mem hp)
  obtain ⟨x, -, hcount⟩ := hacc.counted (f.slot p) f.content (by rw [hhandle, hv])
  rw [refs_after_content hv, hhandle, hshared] at hcount
  exact hcount

theorem exact_iff_accounted {d : Dist α} {ends : Ends α} (hv : v.content = some f.content)
    (hd : f.sys.dist.distributeMsg f.sys.ends f.heap f.message f.slot f.msg = .ok (d, ends, f.after v y)) :
    f.Exact ↔ (f.after v y).Accounted := by
  constructor
  · rintro ⟨d', ends', heap, hd', hacc, -⟩
    rw [hd, Except.ok.injEq, Prod.mk.injEq, Prod.mk.injEq] at hd'
    exact hd'.2.2 ▸ hacc
  · intro hacc
    exact ⟨d, ends, _, hd, hacc, refs_after_content hv, handles_after_message⟩

/-! ### The call -/

variable (f) in
def prepared (flags : UInt8) (y : Content) : MsgHeap ι :=
  (f.heap.store f.content y).setHandle f.message (.lmsg flags (some f.content))

variable (f) in
def pushed (flags : UInt8) (y : Content) : MsgHeap ι :=
  (f.prepared flags y).place f.copies (.lmsg flags (some f.content))

section

variable {flags : UInt8} {y' : Content}

theorem handles_pushed_message : (f.pushed flags y).handles f.message = .lmsg flags (some f.content) := by
  simp [pushed, prepared, MsgHeap.place, f.message_notMem_copies]

theorem contents_pushed : (f.pushed flags y).contents f.content = some y :=
  Function.update_self ..

theorem init_store_pushed (y' : Content) :
    ((f.pushed flags y).store f.content y').init f.message =
      f.after (.lmsg flags (some f.content)) y' := by
  have hhandles : (((f.pushed flags y).store f.content y').init f.message).handles =
      (f.after (.lmsg flags (some f.content)) y').handles := by
    funext h
    by_cases hm : h = f.message
    · simp [hm, MsgHeap.init, handles_after_message]
    · by_cases hh : h ∈ f.copies
      · simp [MsgHeap.init, pushed, MsgHeap.place, after, hm, hh]
      · simp [MsgHeap.init, pushed, prepared, MsgHeap.place, after, hm, hh]
  have hcontents : Function.update (Function.update f.heap.contents f.content (some y)) f.content (some y') =
      Function.update f.heap.contents f.content (some y') := Function.update_idem ..
  exact MsgHeap.mk.injEq .. ▸ ⟨hhandles, hcontents, rfl⟩

theorem detach_zero : (f.pushed flags y).detach f.message 0 =
    .ok (f.after (.lmsg flags (some f.content)) y) := by
  rw [MsgHeap.detach, if_pos rfl, ← init_store_pushed y, MsgHeap.store_self contents_pushed]

theorem detach_unshared (hflag : flags &&& Msg.sharedFlag = 0) (hlive : y.released = 0) {failed : Nat}
    (hfailed : failed ≠ 0) : (f.pushed flags y).detach f.message failed =
      .ok (f.after (.lmsg flags (some f.content)) y.release) := by
  rw [MsgHeap.detach, if_neg hfailed,
    MsgHeap.rmRefs_unshared handles_pushed_message hflag contents_pushed hlive hfailed]
  simp only [MsgHeap.init_setHandle, init_store_pushed]

theorem detach_shared (hflag : flags &&& Msg.sharedFlag ≠ 0) (hlive : y.released = 0) (failed : Nat) :
    ∃ r, (f.pushed flags y).detach f.message failed =
        .ok (f.after (.lmsg flags (some f.content)) { y with refcnt := r }) ∧
      (y.refcnt - .ofNat failed ≠ 0 → r = y.refcnt - .ofNat failed) := by
  by_cases hfailed : failed = 0
  · subst hfailed
    exact ⟨y.refcnt, detach_zero, fun _ => by simp⟩
  · rw [MsgHeap.detach, if_neg hfailed,
      MsgHeap.rmRefs_shared handles_pushed_message hflag contents_pushed hlive hfailed]
    by_cases hzero : y.refcnt - .ofNat failed = 0
    · refine ⟨4294967295, ?_, fun hne => absurd hzero hne⟩
      simp only [if_pos hzero, MsgHeap.init_setHandle, init_store_pushed]
    · refine ⟨_, ?_, fun _ => rfl⟩
      simp only [if_neg hzero, init_store_pushed]

theorem distributeMsg_eq
    (hadd : f.heap.addRefs f.message (f.intMatching - 1) = .ok (f.prepared flags y)) :
    ∃ failed d ends, f.accepted + failed = f.matching ∧
      f.sys.dist.distributeMsg f.sys.ends f.heap f.message f.slot f.msg =
        if 2 ^ 31 ≤ failed then .error .signedOverflow
        else
          match (f.pushed flags y).detach f.message failed with
          | .error e => .error e
          | .ok heap => .ok (d, ends, heap) := by
  have hpos := f.matching_pos
  obtain ⟨failed, d, ends, hloop, hcount⟩ := f.copyLoop_copies (f.prepared flags y)
  have hhandle : (f.prepared flags y).handles f.message = .lmsg flags (some f.content) :=
    Function.update_self ..
  refine ⟨failed, d, ends, hcount, ?_⟩
  unfold Dist.distributeMsg
  rw [hhandle] at hloop
  have hint : (f.sys.dist.matching : Int).bmod (2 ^ 32) = f.intMatching := rfl
  unfold matching at hloop
  rw [if_neg (by omega), hint, f.long, hadd]
  simp only [hloop]
  rfl

end

variable (f)

theorem toNat_intMatching (hint : 1 ≤ f.intMatching) : f.intMatching.toNat = f.matching % 2 ^ 32 := by
  have hdef := Int.bmod_def (f.matching : Int) (2 ^ 32)
  change f.intMatching = _ at hdef
  split at hdef <;> omega

theorem intMatching_of_lt (hlt : f.matching < 2 ^ 31) : f.intMatching = f.matching := by
  unfold intMatching
  exact Int.bmod_eq_of_le (by omega) (by omega)

theorem addRefs_counted (hint : 1 ≤ f.intMatching) (hcounted : f.shared = true ∨ f.intMatching ≠ 1) :
    ∃ flags y, f.heap.addRefs f.message (f.intMatching - 1) = .ok (f.prepared flags y) ∧
      flags &&& Msg.sharedFlag ≠ 0 ∧ y.released = 0 ∧ y.freeCalls = [] ∧
      y.refcnt.toNat = (f.elsewhere + f.matching) % 2 ^ 32 := by
  obtain ⟨x, hx, hlive, hcalls, hcount⟩ := f.block
  have hmod := f.toNat_intMatching hint
  have hsame : f.heap.setHandle f.message (.lmsg f.flags (some f.content)) = f.heap := by
    rw [← f.long]
    exact f.heap.setHandle_self f.message
  by_cases hflag : f.flags &&& Msg.sharedFlag = 0
  · have hunshared : f.shared = false := by simp [shared, hflag]
    rw [hunshared, if_neg (by simp)] at hcount
    have hne : f.intMatching ≠ 1 := by simpa [hunshared] using hcounted
    refine ⟨f.flags ||| Msg.sharedFlag, { x with refcnt := .ofNat ((f.intMatching - 1).toNat + 1) }, ?_,
      Msg.sharedFlag_set _, hlive, hcalls, ?_⟩
    · unfold MsgHeap.addRefs
      rw [if_neg (by omega), if_neg (by omega), f.long]
      simp only [MsgHeap.deref_of_live hx hlive, if_pos hflag]
      rfl
    · simp only [UInt32.toNat_ofNat']
      omega
  · have hshared : f.shared = true := by simp [shared, hflag]
    rw [hshared, if_pos rfl] at hcount
    by_cases hone : f.intMatching = 1
    · refine ⟨f.flags, x, ?_, hflag, hlive, hcalls, ?_⟩
      · unfold MsgHeap.addRefs
        rw [if_neg (by omega), if_pos (by omega), prepared, MsgHeap.store_self hx, hsame]
      · have hlt := x.refcnt.toNat_lt
        omega
    · refine ⟨f.flags, { x with refcnt := x.refcnt + .ofNat (f.intMatching - 1).toNat }, ?_, hflag, hlive,
        hcalls, ?_⟩
      · unfold MsgHeap.addRefs
        rw [if_neg (by omega), if_neg (by omega), f.long]
        simp only [MsgHeap.deref_of_live hx hlive, if_neg hflag]
        rw [prepared, MsgHeap.setHandle_store_comm, hsame]
      · simp only [UInt32.toNat_add, UInt32.toNat_ofNat']
        omega

theorem addRefs_one {x : Content} (hx : f.heap.contents f.content = some x) (hone : f.intMatching = 1) :
    f.heap.addRefs f.message (f.intMatching - 1) = .ok (f.prepared f.flags x) := by
  unfold MsgHeap.addRefs
  rw [if_neg (by omega), if_pos (by omega), prepared, MsgHeap.store_self hx, ← f.long, MsgHeap.setHandle_self]

structure Countable : Prop where
  positive : 1 ≤ f.intMatching
  single : f.intMatching = 1 → f.shared = true ∨ f.matching = 1
  refused : f.matching - f.accepted < 2 ^ 31
  fits : f.remaining < 2 ^ 32
  last : f.remaining = 0 → f.shared = false ∧ f.matching = 1

variable {f}

theorem exact_iff_of_counted (hint : 1 ≤ f.intMatching) (hcounted : f.shared = true ∨ f.intMatching ≠ 1) :
    f.Exact ↔ f.Countable := by
  obtain ⟨flags, y, hadd, hflag, hlive, hcalls, hrefcnt⟩ := f.addRefs_counted hint hcounted
  obtain ⟨failed, d, ends, hcount, hd⟩ := distributeMsg_eq hadd
  by_cases hoverflow : 2 ^ 31 ≤ failed
  · rw [if_pos hoverflow] at hd
    refine iff_of_false ?_ fun hc => ?_
    · rintro ⟨d', ends', heap, hd', -⟩
      rw [hd] at hd'
      cases hd'
    · have := hc.refused
      omega
  · obtain ⟨r, hdetach, hr⟩ := detach_shared (f := f) hflag hlive failed
    rw [if_neg hoverflow, hdetach] at hd
    have hsub : (y.refcnt - .ofNat failed).toNat = f.remaining % 2 ^ 32 := by
      rw [UInt32.toNat_sub, UInt32.toNat_ofNat', hrefcnt]
      unfold remaining
      omega
    have hshared : (Handle.lmsg flags (some f.content)).shared = true := by simp [Handle.shared, hflag]
    rw [exact_iff_accounted rfl hd]
    constructor
    · intro hacc
      obtain ⟨hne, hlt⟩ := remaining_of_accounted rfl (by exact hlive) hacc
      exact ⟨hint, fun hone => Or.inl (hcounted.resolve_right fun h => h hone), by omega, hlt,
        fun hzero => absurd hzero hne⟩
    · intro hc
      have hne : f.remaining ≠ 0 := by
        intro hzero
        obtain ⟨hunshared, hone⟩ := hc.last hzero
        rcases hcounted with h | h
        · rw [hunshared] at h
          cases h
        · exact h (by rw [f.intMatching_of_lt (by omega), hone]; rfl)
      have hfits := hc.fits
      have hrest : r.toNat = f.remaining := by
        rw [hr fun hzero => ?_, hsub]
        · omega
        · rw [hzero] at hsub
          simp only [UInt32.toNat_zero] at hsub
          omega
      refine accounted_after rfl (fun _ => ?_) (fun _ => hrest.symm) (fun hzero => absurd hzero hne)
        fun _ => ⟨hlive, hcalls⟩
      rw [hshared, if_pos rfl]
      exact hrest.symm

theorem exact_iff_of_single (hone : f.intMatching = 1) (hunshared : f.shared = false) :
    f.Exact ↔ f.Countable := by
  obtain ⟨x, hx, hlive, hcalls, hrefs⟩ := f.block
  have hflag : f.flags &&& Msg.sharedFlag = 0 := by simpa [shared] using hunshared
  have hmod := f.toNat_intMatching (by omega)
  rw [hunshared, if_neg (by simp)] at hrefs
  have hremaining : f.remaining = f.accepted := by unfold remaining; omega
  obtain ⟨failed, d, ends, hcount, hd⟩ := distributeMsg_eq (f.addRefs_one hx hone)
  by_cases hsingle : f.matching = 1
  · rw [if_neg (by omega)] at hd
    have hc : f.Countable :=
      ⟨by omega, fun _ => Or.inr hsingle, by omega, by omega, fun _ => ⟨hunshared, hsingle⟩⟩
    refine iff_of_true ?_ hc
    by_cases hfailed : failed = 0
    · rw [hfailed, detach_zero] at hd
      rw [exact_iff_accounted rfl hd]
      have hshared : (Handle.lmsg f.flags (some f.content)).shared = false := by
        simp [Handle.shared, hflag]
      refine accounted_after rfl (fun _ => ?_) (fun _ => by omega) (fun _ => by omega)
        fun _ => ⟨hlive, hcalls⟩
      rw [hshared, if_neg (by simp)]
      omega
    · rw [detach_unshared hflag hlive hfailed] at hd
      rw [exact_iff_accounted rfl hd]
      refine accounted_after rfl (fun _ => by omega) (fun _ => by omega) (fun _ => ?_) fun _ => by omega
      simp [Content.release, Content.freeCall, hlive, hcalls]
  · -- so many pipes that their number wraps around to one
    refine iff_of_false ?_ fun hc => ?_
    · rintro hexact
      by_cases hoverflow : 2 ^ 31 ≤ failed
      · rw [if_pos hoverflow] at hd
        obtain ⟨d', ends', heap, hd', -⟩ := hexact
        rw [hd] at hd'
        cases hd'
      · rw [if_neg hoverflow] at hd
        have hshared : (Handle.lmsg f.flags (some f.content)).shared = false := by
          simp [Handle.shared, hflag]
        have hunique : ∀ y, f.sys.dist.distributeMsg f.sys.ends f.heap f.message f.slot f.msg =
            .ok (d, ends, f.after (.lmsg f.flags (some f.content)) y) → False := by
          intro y hy
          have hacc := (exact_iff_accounted rfl hy).1 hexact
          have := remaining_of_unshared rfl hshared (by omega) hacc
          omega
        by_cases hfailed : failed = 0
        · rw [hfailed, detach_zero] at hd
          exact hunique _ hd
        · rw [detach_unshared hflag hlive hfailed] at hd
          exact hunique _ hd
    · grind [hc.single]

/-- **The references are counted exactly**, unless all the references to a counted block are removed
    at once. -/
theorem exact_iff (f : FanOut α ι) : f.Exact ↔ f.Countable := by
  by_cases hint : 1 ≤ f.intMatching
  · grind [exact_iff_of_counted, exact_iff_of_single]
  · -- the assertion of add_refs
    refine iff_of_false ?_ fun hc => hint hc.positive
    rintro ⟨d, ends, heap, hd, -⟩
    have hadd : f.heap.addRefs f.message (f.intMatching - 1) = .error .assertFailed := by
      rw [MsgHeap.addRefs, if_pos (by omega)]
    have hcast : (f.sys.dist.matching : Int).bmod (2 ^ 32) = f.intMatching := rfl
    have hpos := f.matching_pos
    unfold Dist.distributeMsg at hd
    rw [if_neg (by omega), hcast, f.long, hadd] at hd
    cases hd

def fullPipes : DistSystem (Fin 2) :=
  (run DistSystem.step DistSystem.init ((List.finRange 2).map (.attach · (Endpoint.init 0 1 true)) ++
    [.sendToAll ⟨false, 0, [1]⟩])).toOption.getD DistSystem.init

theorem inv_fullPipes : fullPipes.Inv := by
  obtain ⟨s, hrun, hinv⟩ := run_safe_meets (fun s op hI hop => DistSystem.Inv.step hI op hop)
    ((List.finRange 2).map (.attach · (Endpoint.init 0 1 true)) ++ [.sendToAll ⟨false, 0, [1]⟩])
    (DistSystem.init : DistSystem (Fin 2)) DistSystem.inv_init (by decide)
  rw [fullPipes, hrun]
  exact hinv

def oneMessage : MsgHeap (Option (Fin 2)) := (MsgHeap.empty.initData none 1000 100 (some 7) 42 true).2

theorem accounted_oneMessage : oneMessage.Accounted := by
  obtain ⟨⟨count, hinv⟩, -⟩ := (MsgHeap.inv_empty (ι := Option (Fin 2))).initLong (h := none) rfl
    (fun _ => .user 1000) 100 (some 7) 42
  exact hinv.accounted

def bothRefuse : FanOut (Fin 2) (Option (Fin 2)) where
  sys := fullPipes
  inv := inv_fullPipes
  matching_pos := by decide
  heap := oneMessage
  accounted := accounted_oneMessage
  message := none
  flags := 0
  content := 0
  long := rfl
  slot := some
  slot_injective _ _ _ _ h := Option.some.inj h
  slot_free _ _ := rfl
  msg := ⟨false, 0, [2]⟩

theorem bothRefuse_leaks : bothRefuse.matching = 2 ∧ bothRefuse.remaining = 0 ∧
    (fullPipes.dist.distributeMsg fullPipes.ends oneMessage none some bothRefuse.msg).map
      (fun r => r.2.2.contents 0) = .ok (some ⟨.user 1000, 100, some 7, 42, 4294967295, 0, []⟩) ∧
    ¬ bothRefuse.Exact := by
  have hleak : (fullPipes.dist.distributeMsg fullPipes.ends oneMessage none some bothRefuse.msg).map
      (fun r => r.2.2.contents 0) = .ok (some ⟨.user 1000, 100, some 7, 42, 4294967295, 0, []⟩) := by
    decide
  have hnone : bothRefuse.remaining = 0 := by decide
  refine ⟨by decide, hnone, hleak, ?_⟩
  rintro ⟨d, ends, heap, hd, hacc, hrefs, -⟩
  have hd' : fullPipes.dist.distributeMsg fullPipes.ends oneMessage none some bothRefuse.msg =
      .ok (d, ends, heap) := hd
  rw [hd'] at hleak
  have hcontent : heap.contents 0 = some ⟨.user 1000, 100, some 7, 42, 4294967295, 0, []⟩ :=
    Except.ok.inj hleak
  have hreleased := ((hacc.released 0 _ hcontent).1 (hrefs.trans hnone)).1
  exact absurd hreleased (by decide)

end FanOut

end Libxs
