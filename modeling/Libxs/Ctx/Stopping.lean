import Libxs.Ctx
import Libxs.Foundation.Run
import Mathlib.Data.List.Nodup

/-! # How often the reaper is stopped -/

namespace Libxs

def ReaperCommand.toReap {σ : Type} : ReaperCommand σ → Option σ
  | .reap socket => some socket
  | _ => none

namespace CtxSystem

variable {σ : Type}

def pending (mailbox : List (ReaperCommand σ)) (reaping : List σ) : List σ :=
  mailbox.filterMap ReaperCommand.toReap ++ reaping

/-! ## What always holds -/

structure Inv (s : CtxSystem σ) : Prop where
  nodup : s.sockets.Nodup
  created : ∀ x ∈ s.sockets, x ∈ s.created
  closed : ∀ x ∈ s.closed, x ∈ s.created
  pendingNodup : (pending s.mailbox s.reaping).Nodup
  pendingSockets : ∀ x ∈ pending s.mailbox s.reaping, x ∈ s.sockets
  pendingClosed : ∀ x ∈ pending s.mailbox s.reaping, x ∈ s.closed
  stopped : 0 < s.stops → s.terminating = true ∧ s.sockets = []
  inMailbox : .stop ∈ s.mailbox → 0 < s.stops
  reaper : s.reaper.terminating = true → 0 < s.stops
  dones : 0 < s.dones → 0 < s.stops
  termMailbox : s.termMailbox ≤ s.dones
  between : s.call = .between → s.terminating = true

theorem inv_init : Inv (init : CtxSystem σ) where
  nodup := List.nodup_nil
  created := by simp [init]
  closed := by simp [init]
  pendingNodup := List.nodup_nil
  pendingSockets := by simp [init, pending]
  pendingClosed := by simp [init, pending]
  stopped h := absurd h (by simp [init])
  inMailbox h := absurd h (by simp [init])
  reaper h := absurd h (by simp [init])
  dones h := absurd h (by simp [init])
  termMailbox := Nat.le_refl _
  between h := absurd h (by simp [init])

variable {s s' : CtxSystem σ} {x : σ}

theorem pending_append (l : List (ReaperCommand σ)) (cmd : ReaperCommand σ) (reaping : List σ)
    (h : ReaperCommand.toReap cmd = none) : pending (l ++ [cmd]) reaping = pending l reaping := by
  simp [pending, h]

theorem pending_reap (l : List (ReaperCommand σ)) (reaping : List σ) :
    (pending (l ++ [.reap x]) reaping).Perm (x :: pending l reaping) := by
  simp only [pending, List.filterMap_append, List.append_assoc]
  exact List.perm_middle

theorem Inv.stopReaper (h : Inv s) (hterm : s.terminating = true) (hempty : s.sockets = []) :
    Inv s.stopReaper := by
  have hpending := pending_append s.mailbox .stop s.reaping rfl
  exact { h with
    pendingNodup := hpending ▸ h.pendingNodup
    pendingSockets := hpending ▸ h.pendingSockets
    pendingClosed := hpending ▸ h.pendingClosed
    stopped := fun _ => ⟨hterm, hempty⟩
    inMailbox := fun _ => Nat.succ_pos _
    reaper := fun _ => Nat.succ_pos _
    dones := fun _ => Nat.succ_pos _ }

theorem Inv.createSocket (h : Inv s) (hx : x ∉ s.created) : Inv (s.createSocket x) := by
  unfold CtxSystem.createSocket
  simp only
  split
  · exact { h with }
  next hterm =>
    have hnone : ¬ 0 < s.stops := fun hc => hterm (h.stopped hc).1
    refine { h with
      nodup := ?_, created := fun y hy => ?_, closed := fun y hy => ?_
      pendingSockets := fun y hy => List.mem_append_left _ (h.pendingSockets y hy)
      stopped := fun hc => absurd hc hnone }
    · rw [List.nodup_append]
      refine ⟨h.nodup, by simp, fun a ha b hb => ?_⟩
      rw [List.mem_singleton] at hb
      rintro rfl
      exact hx (hb ▸ h.created a ha)
    · rw [List.mem_append] at hy ⊢
      exact hy.imp (h.created y) id
    · exact List.mem_append_left _ (h.closed y hy)

theorem Inv.close (h : Inv s) (hx : x ∈ s.sockets) (hclosed : x ∉ s.closed) :
    Inv { s with mailbox := s.mailbox ++ [.reap x], closed := s.closed ++ [x] } := by
  have hperm := pending_reap (x := x) s.mailbox s.reaping
  refine { h with
    closed := fun y hy => ?_, pendingNodup := ?_, pendingSockets := fun y hy => ?_
    pendingClosed := fun y hy => ?_, inMailbox := fun hm => ?_ }
  · grind [h.closed, h.created]
  · grind [h.pendingClosed, h.pendingNodup]
  · grind [h.pendingSockets]
  · grind [h.pendingClosed]
  · exact h.inMailbox (by simpa using hm)

section
variable [DecidableEq σ]

theorem Inv.destroySocket (h : Inv s) (hx : x ∈ s.reaping) : Inv (s.destroySocket x) := by
  have hpending : ∀ y, y ∈ pending s.mailbox (s.reaping.erase x) →
      y ∈ pending s.mailbox s.reaping ∧ y ≠ x := fun y hy => by
    have hnodup := h.pendingNodup
    rw [pending, List.nodup_append] at hnodup
    rw [pending, List.mem_append] at hy ⊢
    grind
  have hinv : Inv { s with
      sockets := s.sockets.erase x, reaping := s.reaping.erase x, leaving := true } := by
    refine { h with
      nodup := h.nodup.erase x, created := fun y hy => h.created y (List.mem_of_mem_erase hy)
      pendingNodup := ?_, pendingSockets := fun y hy => ?_
      pendingClosed := fun y hy => h.pendingClosed y (hpending y hy).1
      stopped := fun hc => ?_ }
    · exact h.pendingNodup.sublist (List.Sublist.append_left List.erase_sublist _)
    · grind [h.pendingSockets]
    · grind [h.stopped]
  unfold CtxSystem.destroySocket
  simp only
  grind [hinv.stopReaper]

end

theorem Inv.moved (h : Inv s) {call : TermCall} (hne : call ≠ .between) :
    Inv { s with call := call } :=
  { h with between := fun hc => absurd hc hne }

theorem Inv.terminate (h : Inv s) : Inv s.terminate := by
  unfold CtxSystem.terminate
  split
  · exact h.moved (by simp)
  · split
    · exact h.moved (by simp)
    next hterm =>
      exact { h with stopped := fun hc => absurd (h.stopped hc).1 hterm, between := fun _ => rfl }

theorem Inv.stopSockets (h : Inv s) (hcall : s.call = .between) : Inv s.stopSockets := by
  have hmoved : Inv { s with call := .waiting } := h.moved (by simp)
  unfold CtxSystem.stopSockets
  simp only
  grind [hmoved.stopReaper, h.between]

theorem Inv.finish (h : Inv s) (hstops : 0 < s.stops) : Inv s.finish :=
  { h with dones := fun _ => hstops, termMailbox := Nat.succ_le_succ h.termMailbox }

theorem Inv.nextCommand (h : Inv s) : Inv s.nextCommand := by
  unfold CtxSystem.nextCommand
  split
  · split
    · exact h
    · exact { h with }
  next cmd mailbox hm =>
    have hin : .stop ∈ mailbox → 0 < s.stops := fun hc =>
      h.inMailbox (by rw [hm]; exact List.mem_cons_of_mem _ hc)
    have hnodup := h.pendingNodup
    have hsockets := h.pendingSockets
    have hclosed := h.pendingClosed
    rw [hm] at hnodup hsockets hclosed
    cases cmd with
    | stop =>
      have hstops : 0 < s.stops := h.inMailbox (by rw [hm]; exact List.mem_cons_self)
      have hinv : Inv { s with
          mailbox := mailbox, reaper := { s.reaper with terminating := true } } :=
        { h with
          pendingNodup := hnodup, pendingSockets := hsockets, pendingClosed := hclosed
          inMailbox := hin, reaper := fun _ => hstops }
      simp only [processCommand, processStop]
      split
      · exact hinv.finish hstops
      · exact hinv
    | reap x =>
      have hperm : (pending mailbox (s.reaping ++ [x])).Perm (pending (.reap x :: mailbox) s.reaping) := by
        simp only [pending, List.filterMap_cons, ReaperCommand.toReap, List.cons_append]
        rw [← List.append_assoc]
        exact List.perm_append_singleton _ _
      exact { h with
        pendingNodup := hperm.nodup_iff.2 hnodup
        pendingSockets := fun y hy => hsockets y (hperm.mem_iff.1 hy)
        pendingClosed := fun y hy => hclosed y (hperm.mem_iff.1 hy)
        inMailbox := hin }
    | reaped =>
      have hinv : Inv { s with
          mailbox := mailbox, reaper := { s.reaper with sockets := s.reaper.sockets - 1 } } :=
        { h with
          pendingNodup := hnodup, pendingSockets := hsockets, pendingClosed := hclosed
          inMailbox := hin }
      simp only [processCommand, processReaped]
      grind [hinv.finish, h.reaper]

theorem Inv.sendReaped (h : Inv s) :
    Inv { s with leaving := false, mailbox := s.mailbox ++ [.reaped] } := by
  have hpending := pending_append s.mailbox .reaped s.reaping rfl
  exact { h with
    pendingNodup := hpending ▸ h.pendingNodup
    pendingSockets := hpending ▸ h.pendingSockets
    pendingClosed := hpending ▸ h.pendingClosed
    inMailbox := fun hm => h.inMailbox (by simpa using hm) }

/-! ## When the reaper is stopped once -/

structure Once [DecidableEq σ] (s : CtxSystem σ) : Prop where
  stops : s.stops = if s.terminating = true ∧ s.call ≠ .between ∧ s.sockets = [] then 1 else 0
  stopCount : s.mailbox.count .stop + s.reaper.terminating.toNat = s.stops
  sockets : s.reaper.sockets = s.reaping.length + s.leaving.toNat + s.mailbox.count .reaped
  dones : s.dones = if s.reaper.terminating = true ∧ s.reaper.sockets = 0 then 1 else 0
  unregistered : s.unregistered = s.dones

variable [DecidableEq σ]

theorem once_init : Once (init : CtxSystem σ) where
  stops := rfl
  stopCount := rfl
  sockets := rfl
  dones := rfl
  unregistered := rfl

theorem Once.createSocket (h : Once s) (x : σ) : Once (s.createSocket x) := by
  have hstops := h.stops
  unfold CtxSystem.createSocket
  simp only
  split
  · exact { h with }
  next hterm =>
    refine { h with stops := ?_ }
    simpa [hterm] using hstops

theorem Once.close (h : Once s) (x : σ) :
    Once { s with mailbox := s.mailbox ++ [.reap x], closed := s.closed ++ [x] } :=
  { h with
    stopCount := by simpa [List.count_append, List.count_cons] using h.stopCount
    sockets := by simpa [List.count_append, List.count_cons] using h.sockets }

theorem Once.terminate (h : Once s) (hcall : s.call = .idle) : Once s.terminate := by
  have hstops := h.stops
  unfold CtxSystem.terminate
  split
  · refine { h with stops := ?_ }
    simpa [hcall] using hstops
  · split
    · refine { h with stops := ?_ }
      simpa [hcall] using hstops
    next hterm =>
      refine { h with stops := ?_ }
      simpa [hterm] using hstops

theorem Once.stopWaiting (h : Once s) (hcall : s.call = .waiting) {call : TermCall} {n : Nat}
    (hne : call ≠ .between) : Once { s with termMailbox := n, call := call } := by
  have hstops := h.stops
  refine { h with stops := ?_ }
  simpa [hcall, hne] using hstops

theorem Once.stopReaper (h : Once s) (call : TermCall) (sockets reaping : List σ) (leaving : Bool)
    (hstops : s.stops = 0) (hterm : s.terminating = true) (hcall : call ≠ .between)
    (hempty : sockets = [])
    (hreaping : reaping.length + leaving.toNat = s.reaping.length + s.leaving.toNat) :
    Once ({ s with call := call, sockets := sockets, reaping := reaping,
                   leaving := leaving } : CtxSystem σ).stopReaper := by
  have hcount := h.stopCount
  have hsum := h.sockets
  refine ⟨?_, ?_, ?_, h.dones, h.unregistered⟩
  · simp [CtxSystem.stopReaper, hstops, hterm, hcall, hempty]
  · grind [CtxSystem.stopReaper]
  · have hnone : [ReaperCommand.stop].count (ReaperCommand.reaped : ReaperCommand σ) = 0 := rfl
    simp only [CtxSystem.stopReaper, List.count_append, hnone]
    omega

theorem Once.stopSockets (h : Once s) (hterm : s.terminating = true) (hcall : s.call = .between) :
    Once s.stopSockets := by
  have hzero : s.stops = 0 := by simpa [hcall] using h.stops
  unfold CtxSystem.stopSockets
  simp only
  split
  next hc => grind [h.stopReaper]
  next hc =>
    have hne : s.sockets ≠ [] := by simpa using hc
    refine { h with stops := ?_ }
    simpa [hne] using hzero

def Apart (s : CtxSystem σ) : CtxOp σ → Prop
  | .destroySocket x =>
    s.leaving = false ∧ x ∈ s.reaping → s.call = .between → s.sockets.erase x ≠ []
  | _ => True

instance (s : CtxSystem σ) (op : CtxOp σ) : Decidable (s.Apart op) := by
  unfold Apart; split <;> infer_instance

omit [DecidableEq σ] in
theorem Inv.stops_eq_zero (h : Inv s) (hx : x ∈ s.reaping) : s.stops = 0 := by
  by_contra hc
  have hempty := (h.stopped (by omega)).2
  have hmem := h.pendingSockets x (List.mem_append_right _ hx)
  exact absurd hmem (by simp [hempty])

theorem Once.destroySocket (h : Once s) (hinv : Inv s) (hx : x ∈ s.reaping)
    (hleaving : s.leaving = false) (hapart : s.call = .between → s.sockets.erase x ≠ []) :
    Once (s.destroySocket x) := by
  have hzero := hinv.stops_eq_zero hx
  have hlength : (s.reaping.erase x).length + (true).toNat = s.reaping.length + s.leaving.toNat := by
    have hpos := List.length_pos_of_mem hx
    rw [List.length_erase_of_mem hx, hleaving]
    simp only [Bool.toNat_true, Bool.toNat_false]
    omega
  unfold CtxSystem.destroySocket
  simp only
  split
  next hc => grind [h.stopReaper]
  next hc =>
    refine { h with stops := ?_, sockets := ?_ }
    · grind
    · have hsum := h.sockets
      simp only
      omega

theorem Once.sendReaped (h : Once s) (hleaving : s.leaving = true) :
    Once { s with leaving := false, mailbox := s.mailbox ++ [.reaped] } := by
  have hsum := h.sockets
  refine { h with stopCount := ?_, sockets := ?_ }
  · simpa [List.count_append, List.count_cons] using h.stopCount
  · grind

theorem Once.nextCommand (h : Once s) (hinv : Inv s) : Once s.nextCommand := by
  have hcount := h.stopCount
  have hsum := h.sockets
  have hdones := h.dones
  have hone : s.stops ≤ 1 := by
    rw [h.stops]
    split <;> simp
  unfold CtxSystem.nextCommand
  split
  · split
    · exact h
    · exact { h with }
  next cmd mailbox hm =>
    rw [hm] at hcount hsum
    cases cmd with
    | stop =>
      have hnone : (ReaperCommand.stop :: mailbox).count (ReaperCommand.reaped : ReaperCommand σ) =
          mailbox.count .reaped := List.count_cons_of_ne (by simp)
      rw [hnone] at hsum
      rw [List.count_cons_self] at hcount
      have hfirst : s.reaper.terminating = false := by grind
      simp only [hfirst, Bool.false_eq_true, false_and, if_false, Bool.toNat_false] at hdones hcount
      simp only [processCommand, processStop]
      split
      next hz =>
        refine { h with stopCount := ?_, sockets := hsum, dones := ?_, unregistered := ?_ }
        · simpa [finish] using hcount
        · simp [finish, hz, hdones]
        · simp [finish, h.unregistered]
      next hz =>
        refine { h with stopCount := ?_, sockets := hsum, dones := ?_ }
        · simpa using hcount
        · simpa [hz] using hdones
    | reap y =>
      have hmem : y ∈ s.sockets :=
        hinv.pendingSockets y (List.mem_append_left _ (by simp [hm, ReaperCommand.toReap]))
      have hzero : s.stops = 0 := by
        by_contra hc
        exact absurd hmem (by simp [(hinv.stopped (by omega)).2])
      have hfirst : s.reaper.terminating = false := by grind
      rw [List.count_cons_of_ne (by simp)] at hcount hsum
      refine { h with stopCount := hcount, sockets := ?_, dones := ?_ }
      · grind [processCommand, processReap]
      · simpa [processCommand, processReap, hfirst] using hdones
    | reaped =>
      rw [List.count_cons_of_ne (by simp)] at hcount
      rw [List.count_cons_self] at hsum
      have hpos : s.reaper.sockets ≠ 0 := by omega
      rw [if_neg (fun hc => hpos hc.2)] at hdones
      simp only [processCommand, processReaped]
      split
      next hc =>
        simp only [Bool.and_eq_true, decide_eq_true_eq] at hc
        refine { h with stopCount := hcount, sockets := ?_, dones := ?_, unregistered := ?_ }
        · simp only [finish]
          omega
        · simp [finish, hc, hdones]
        · simp [finish, h.unregistered]
      next hc =>
        refine { h with stopCount := hcount, sockets := ?_, dones := ?_ }
        · simp only
          omega
        · grind

/-! ## When it is stopped twice -/

structure Twice (s : CtxSystem σ) : Prop where
  terminating : s.terminating = true
  sockets : s.sockets = []
  between : s.call = .between → 1 ≤ s.stops
  after : s.call ≠ .between → 2 ≤ s.stops

theorem twice_destroySocket (hterm : s.terminating = true) (hcall : s.call = .between)
    (hempty : s.sockets.erase x = []) : Twice (s.destroySocket x) := by
  have hc : (s.terminating && (s.sockets.erase x).isEmpty) = true := by grind
  simp only [destroySocket, hc, if_true, stopReaper]
  exact ⟨hterm, hempty, fun _ => Nat.succ_pos _, fun hc => absurd hcall hc⟩

omit [DecidableEq σ] in
theorem Twice.more (h : Twice s) {t : CtxSystem σ} (hterm : t.terminating = s.terminating)
    (hsockets : t.sockets = s.sockets) (hcall : t.call = .between ↔ s.call = .between)
    (hstops : s.stops ≤ t.stops) : Twice t where
  terminating := hterm.trans h.terminating
  sockets := hsockets.trans h.sockets
  between hc := Nat.le_trans (h.between (hcall.1 hc)) hstops
  after hc := Nat.le_trans (h.after (mt hcall.2 hc)) hstops

omit [DecidableEq σ] in
theorem Twice.nextCommand (h : Twice s) : Twice s.nextCommand := by
  unfold CtxSystem.nextCommand
  split
  · grind [h.more]
  next cmd mailbox hm =>
    cases cmd with
    | stop =>
      simp only [processCommand, processStop]
      split <;> exact h.more rfl rfl Iff.rfl (Nat.le_refl _)
    | reap y => exact h.more rfl rfl Iff.rfl (Nat.le_refl _)
    | reaped =>
      simp only [processCommand, processReaped]
      split <;> exact h.more rfl rfl Iff.rfl (Nat.le_refl _)

theorem Twice.step (h : Twice s) {op : CtxOp σ} (hs : s.step op = .ok s') : Twice s' := by
  have hsame : ∀ {t : CtxSystem σ}, .ok t = (.ok s' : Except Fault _) → Twice t → Twice s' :=
    fun ht htwice => Except.ok.inj ht ▸ htwice
  cases op with
  | createSocket x => grind [CtxSystem.step, CtxSystem.createSocket, h.terminating, h.more]
  | close x => grind [CtxSystem.step, h.more]
  | terminate =>
    simp only [CtxSystem.step] at hs
    split at hs
    next hcall =>
      refine hsame hs ?_
      have hleave : ∀ {call : TermCall}, call ≠ .between → Twice { s with call := call } :=
        fun hne => h.more rfl rfl (by simp [hne, hcall]) (Nat.le_refl _)
      unfold CtxSystem.terminate
      grind [h.terminating]
    · exact hsame hs h
  | stopSockets =>
    simp only [CtxSystem.step] at hs
    split at hs
    next hcall =>
      refine hsame hs ?_
      simp only [CtxSystem.stopSockets, h.sockets, List.isEmpty_nil, if_true, stopReaper]
      exact ⟨h.terminating, rfl, fun hc => absurd hc (by simp),
        fun _ => Nat.succ_le_succ (h.between hcall)⟩
    · exact hsame hs h
  | interrupt => grind [CtxSystem.step, h.more]
  | receiveDone => grind [CtxSystem.step, CtxSystem.receiveDone, h.more]
  | nextCommand => grind [CtxSystem.step, h.nextCommand]
  | destroySocket x =>
    simp only [CtxSystem.step] at hs
    split at hs
    · refine hsame hs ?_
      simp only [CtxSystem.destroySocket, h.terminating, h.sockets, List.erase_nil, List.isEmpty_nil,
        Bool.and_self, if_true, stopReaper]
      exact h.more h.terminating.symm h.sockets.symm Iff.rfl (Nat.le_succ _)
    · exact hsame hs h
  | sendReaped => grind [CtxSystem.step, h.more]

theorem Inv.step (h : Inv s) (op : CtxOp σ) : ∃ t, s.step op = .ok t ∧ Inv t := by
  cases op with
  | createSocket x => grind [CtxSystem.step, h.createSocket]
  | close x => grind [CtxSystem.step, h.close]
  | terminate => grind [CtxSystem.step, h.terminate]
  | stopSockets => grind [CtxSystem.step, h.stopSockets]
  | interrupt => grind [CtxSystem.step, h.moved]
  | receiveDone =>
    simp only [CtxSystem.step]
    split
    next hcall =>
      have hempty := (h.stopped (h.dones (Nat.lt_of_lt_of_le hcall.2 h.termMailbox))).2
      have hpass : (!s.sockets.isEmpty) = false := by simp [hempty]
      simp only [CtxSystem.receiveDone, hpass, Bool.false_eq_true, if_false]
      exact ⟨_, rfl, { h with
        termMailbox := Nat.le_trans (Nat.sub_le _ _) h.termMailbox
        between := fun hc => absurd hc (by simp) }⟩
    · exact ⟨s, rfl, h⟩
  | nextCommand => grind [CtxSystem.step, h.nextCommand]
  | destroySocket x => grind [CtxSystem.step, h.destroySocket]
  | sendReaped => grind [CtxSystem.step, h.sendReaped]

theorem Once.step (h : Once s) (hinv : Inv s) {op : CtxOp σ} (hk : s.Apart op)
    (hs : s.step op = .ok s') : Once s' := by
  have hsame : ∀ {t : CtxSystem σ}, .ok t = (.ok s' : Except Fault _) → Once t → Once s' :=
    fun ht honce => Except.ok.inj ht ▸ honce
  cases op with
  | createSocket x => grind [CtxSystem.step, h.createSocket]
  | close x => grind [CtxSystem.step, h.close]
  | terminate => grind [CtxSystem.step, h.terminate]
  | stopSockets => grind [CtxSystem.step, h.stopSockets, hinv.between]
  | interrupt => grind [CtxSystem.step, h.stopWaiting]
  | receiveDone => grind [CtxSystem.step, CtxSystem.receiveDone, h.stopWaiting]
  | nextCommand => grind [CtxSystem.step, h.nextCommand]
  | destroySocket x =>
    simp only [CtxSystem.step] at hs
    split at hs
    next hx => exact hsame hs (h.destroySocket hinv hx.2 hx.1 (hk hx))
    · exact hsame hs h
  | sendReaped => grind [CtxSystem.step, h.sendReaped]

theorem twice_of_not_apart (hinv : Inv s) {op : CtxOp σ} (hk : ¬ s.Apart op)
    (hs : s.step op = .ok s') : Twice s' := by
  cases op with
  | destroySocket x => grind [Apart, step, twice_destroySocket, hinv.between]
  | _ => exact absurd trivial hk

def Finished (s : CtxSystem σ) : Prop :=
  s.terminating = true ∧ s.call ≠ .between ∧ s.sockets = []

structure StoppedOnce (s : CtxSystem σ) : Prop where
  stops : s.stops = 1
  done : s.dones ≤ 1
  unregistered : s.unregistered = s.dones
  quiet : s.mailbox = [] → s.leaving = false → s.dones = 1

theorem Once.stoppedOnce (h : Once s) (hinv : Inv s) (hfinished : s.Finished) : StoppedOnce s := by
  have hstops : s.stops = 1 := h.stops.trans (if_pos hfinished)
  refine ⟨hstops, ?_, h.unregistered, fun hm hleaving => ?_⟩
  · rw [h.dones]
    split <;> simp
  · have hreaping : s.reaping = [] := by
      rw [List.eq_nil_iff_forall_not_mem]
      intro x hx
      have := hinv.stops_eq_zero hx
      omega
    have hterm : s.reaper.terminating = true := by
      have hcount := h.stopCount
      rw [hm, List.count_nil, hstops] at hcount
      grind
    have hzero : s.reaper.sockets = 0 := by
      rw [h.sockets, hm, hreaping, hleaving]
      rfl
    rw [h.dones, if_pos ⟨hterm, hzero⟩]

/-- **The reaper is stopped once** exactly if the last socket is not removed between the two
    critical sections of `terminate`. -/
theorem reaper_stopped_once_iff (ops : List (CtxOp σ)) :
    ∃ s, run step init ops = .ok s ∧ (0 < s.stops → s.terminating = true ∧ s.sockets = []) ∧
      (s.Finished → (s.StoppedOnce ↔ RunMeets step Apart init ops)) := by
  obtain ⟨s, hrun, hinv⟩ := run_safe (I := Inv) (fun s op hI => hI.step op) ops init inv_init
  refine ⟨s, hrun, hinv.stopped, fun hfinished => ?_⟩
  have hsplit : (RunMeets step Apart init ops ∧ Inv s ∧ Once s) ∨
      (¬ RunMeets step Apart init ops ∧ Twice s) := run_dichotomy (I := fun s => Inv s ∧ Once s)
    (fun s op s' hI hk hs => by
      obtain ⟨t, ht, hinv'⟩ := hI.1.step op
      exact ⟨Except.ok.inj (ht.symm.trans hs) ▸ hinv', hI.2.step hI.1 hk hs⟩)
    (fun s op s' hI hk hs => twice_of_not_apart hI.1 hk hs)
    (fun s op s' hJ hs => hJ.step hs) ops init s ⟨inv_init, once_init⟩ hrun
  rcases hsplit with ⟨hmeets, -, honce⟩ | ⟨hmeets, htwice⟩
  · grind [honce.stoppedOnce]
  · refine ⟨fun hstopped => ?_, fun hc => absurd hc hmeets⟩
    have := htwice.after hfinished.2.1
    have := hstopped.stops
    omega

def interruptedTermination : List (CtxOp Nat) :=
  [.createSocket 0, .createSocket 1, .close 0, .nextCommand, .terminate, .destroySocket 0, .sendReaped,
   .stopSockets, .interrupt, .close 1, .terminate, .nextCommand, .nextCommand, .destroySocket 1,
   .interrupt, .sendReaped, .terminate, .nextCommand, .nextCommand, .receiveDone, .nextCommand]

theorem interruptedTermination_stops_once :
    ∃ s, run step init interruptedTermination = .ok s ∧ s.Finished ∧ s.StoppedOnce ∧
      s.call = .returned := by
  obtain ⟨s, hrun, -, hiff⟩ := reaper_stopped_once_iff interruptedTermination
  obtain ⟨t, ht, hfinished, hcall⟩ : ∃ t, run step init interruptedTermination = .ok t ∧ t.Finished ∧
      t.call = .returned := ⟨_, rfl, by unfold Finished; decide, by decide⟩
  obtain rfl := Except.ok.inj (ht.symm.trans hrun)
  exact ⟨t, ht, hfinished, (hiff hfinished).2 (by decide), hcall⟩

def lateSocket : List (CtxOp Nat) :=
  [.createSocket 0, .close 0, .nextCommand, .terminate, .destroySocket 0, .sendReaped, .stopSockets,
   .nextCommand, .nextCommand, .nextCommand]

theorem lateSocket_stops_twice :
    ∃ s, run step init lateSocket = .ok s ∧ s.Finished ∧ s.stops = 2 ∧ s.dones = 2 ∧
      s.unregistered = 2 :=
  ⟨_, rfl, by unfold Finished; decide, by decide, by decide, by decide⟩

end CtxSystem

end Libxs
