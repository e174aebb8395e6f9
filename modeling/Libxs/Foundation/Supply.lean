import Mathlib.Data.List.Basic

/-! # Messages that arrive in parts -/

namespace Libxs

variable {ε σ β : Type}

/-! ## Messages in a list of parts -/

section

variable (more : β → Bool)

def Whole : List β → Prop
  | [] => False
  | m :: ms => if more m then Whole ms else ms = []

def Frames : Bool → List β → Prop
  | mid, [] => mid = false
  | _, m :: ms => Frames (more m) ms

def messages : List β → List (List β)
  | [] => []
  | m :: ms =>
    if more m then
      match messages ms with
      | [] => [[m]]
      | l :: ls => (m :: l) :: ls
    else [m] :: messages ms

variable {more}
variable {l ms : List β} {m : β}

theorem Whole.ne_nil (h : Whole more l) : l ≠ [] := by
  rintro rfl
  exact h

theorem whole_cons_more (h : more m = true) : Whole more (m :: ms) ↔ Whole more ms := by
  simp [Whole, h]

theorem whole_cons_last (h : more m = false) : Whole more (m :: ms) ↔ ms = [] := by
  simp [Whole, h]

theorem messages_append (h : Whole more l) (rest : List β) :
    messages more (l ++ rest) = l :: messages more rest := by
  induction l with
  | nil => exact absurd h id
  | cons m l ih =>
    cases hm : more m with
    | true => simp [messages, hm, ih ((whole_cons_more hm).1 h)]
    | false =>
      obtain rfl := (whole_cons_last hm).1 h
      simp [messages, hm]

theorem Frames.split : ∀ {l : List β}, Frames more true l →
    ∃ m rest, l = m ++ rest ∧ Whole more m ∧ Frames more false rest := by
  intro l
  induction l with
  | nil => exact fun h => absurd h (by simp [Frames])
  | cons m l ih =>
    intro h
    have h : Frames more (more m) l := h
    cases hm : more m with
    | true =>
      rw [hm] at h
      obtain ⟨ms, rest, rfl, hms, hrest⟩ := ih h
      exact ⟨m :: ms, rest, rfl, (whole_cons_more hm).2 hms, hrest⟩
    | false =>
      rw [hm] at h
      exact ⟨[m], l, rfl, (whole_cons_last hm).2 rfl, h⟩

theorem Whole.frames : ∀ {mid : Bool}, Whole more l → Frames more mid l := by
  induction l with
  | nil => exact fun h => absurd h id
  | cons m l ih =>
    intro mid h
    show Frames more (more m) l
    cases hm : more m with
    | true => exact ih ((whole_cons_more hm).1 h)
    | false =>
      obtain rfl := (whole_cons_last hm).1 h
      rfl

theorem Frames.append {l' : List β} (h' : Frames more false l') : ∀ {mid : Bool},
    Frames more mid l → Frames more mid (l ++ l') := by
  induction l with
  | nil =>
    intro mid h
    rw [show mid = false from h]
    exact h'
  | cons m l ih => exact fun h => @ih (more m) h

theorem Frames.cases (h : Frames more false l) :
    l = [] ∨ ∃ m rest, l = m ++ rest ∧ Whole more m ∧ Frames more false rest := by
  cases l with
  | nil => exact Or.inl rfl
  | cons m l => exact Or.inr (Frames.split (l := m :: l) h)

theorem Frames.induction {P : List β → Prop} (hnil : P [])
    (hmsg : ∀ m rest, Whole more m → Frames more false rest → P rest → P (m ++ rest)) :
    ∀ {l : List β}, Frames more false l → P l := by
  intro l
  generalize hn : l.length = n
  induction n using Nat.strongRecOn generalizing l with
  | ind n ih =>
    intro h
    rcases h.cases with rfl | ⟨m, rest, rfl, hm, hrest⟩
    · exact hnil
    · have hlen : rest.length < n := by
        have := List.length_pos_iff.2 hm.ne_nil
        rw [List.length_append] at hn
        omega
      exact hmsg m rest hm hrest (ih _ hlen rfl hrest)

theorem Frames.messages_spec (h : Frames more false l) :
    (messages more l).flatten = l ∧ ∀ m ∈ messages more l, Whole more m := by
  refine Frames.induction (P := fun l => (messages more l).flatten = l ∧
    ∀ m ∈ messages more l, Whole more m) (by simp [messages]) (fun m rest hm _ ih => ?_) h
  rw [messages_append hm]
  refine ⟨by simp [ih.1], fun m' hm' => ?_⟩
  grind

end

/-! ## A supply of parts -/

structure Supply (ε σ β : Type) where
  recv : σ → Except ε (Option β × σ)
  more : β → Bool
  left : σ → Nat

namespace Supply

variable (S : Supply ε σ β)

def upcoming : Nat → σ → List β
  | 0, _ => []
  | n + 1, s =>
    match S.recv s with
    | .ok (some m, s') => m :: upcoming n s'
    | _ => []

def parts (s : σ) : List β := S.upcoming (S.left s) s

structure Sound (ok : Bool → σ → Prop) : Prop where
  recv : ∀ {mid : Bool} {s : σ}, ok mid s →
    (∃ m s', S.recv s = .ok (some m, s') ∧ ok (S.more m) s' ∧ S.left s' < S.left s) ∨
      (mid = false ∧ ∃ s', S.recv s = .ok (none, s') ∧ ok false s' ∧ S.recv s' = .ok (none, s'))

def drain (idle long : ε) : Nat → σ → Except ε σ
  | 0, _ => .error long
  | n + 1, s =>
    match S.recv s with
    | .error e => .error e
    | .ok (none, _) => .error idle
    | .ok (some m, s') => if S.more m then drain idle long n s' else .ok s'

variable {S} {ok : Bool → σ → Prop} {mid : Bool} {s s' : σ} {m : β}
variable {P : σ → Prop}

theorem upcoming_nothing (h : S.recv s = .ok (none, s')) (n : Nat) : S.upcoming n s = [] := by
  cases n <;> simp [upcoming, h]

theorem Sound.upcoming_eq (hS : S.Sound ok) : ∀ (b : Nat) {mid : Bool} {s : σ} {n k : Nat}, ok mid s →
    S.left s ≤ b → S.left s ≤ n → S.left s ≤ k → S.upcoming n s = S.upcoming k s := by
  intro b
  induction b with
  | zero => grind [hS.recv, upcoming_nothing]
  | succ b ih =>
    intro mid s n k h hb hn hk
    rcases hS.recv h with ⟨m, s', hr, hok, hlt⟩ | ⟨-, s', hr, -⟩
    · obtain ⟨n, rfl⟩ : ∃ n', n = n' + 1 := ⟨n - 1, by omega⟩
      obtain ⟨k, rfl⟩ : ∃ k', k = k' + 1 := ⟨k - 1, by omega⟩
      have hrest : S.upcoming n s' = S.upcoming k s' := ih hok (by omega) (by omega) (by omega)
      simp only [upcoming, hr, hrest]
    · rw [upcoming_nothing hr, upcoming_nothing hr]

theorem Sound.parts_some (hS : S.Sound ok) (h : ok mid s) (hr : S.recv s = .ok (some m, s')) :
    ok (S.more m) s' ∧ S.left s' < S.left s ∧ S.parts s = m :: S.parts s' := by
  rcases hS.recv h with ⟨m₁, s₁, hr₁, hok, hlt⟩ | ⟨-, s₁, hr₁, -⟩
  · rw [hr, Except.ok.injEq, Prod.mk.injEq, Option.some.injEq] at hr₁
    obtain ⟨rfl, rfl⟩ := hr₁
    refine ⟨hok, hlt, ?_⟩
    obtain ⟨k, hk⟩ : ∃ k, S.left s = k + 1 := ⟨S.left s - 1, by omega⟩
    rw [parts, hk]
    simp only [upcoming, hr]
    rw [parts, hS.upcoming_eq k hok (by omega) (by omega) (Nat.le_refl _)]
  · rw [hr] at hr₁
    cases hr₁

theorem Sound.recv_cons (hS : S.Sound ok) (h : ok mid s) {rest : List β}
    (hp : S.parts s = m :: rest) :
    ∃ s', S.recv s = .ok (some m, s') ∧ ok (S.more m) s' ∧ S.parts s' = rest ∧
      S.left s' < S.left s := by
  grind [hS.recv, hS.parts_some, parts, upcoming_nothing]

theorem Sound.recv_nil (hS : S.Sound ok) (h : ok mid s) (hp : S.parts s = []) :
    mid = false ∧ ∃ s', S.recv s = .ok (none, s') ∧ ok false s' ∧ S.parts s' = [] := by
  grind [hS.recv, hS.parts_some, parts, upcoming_nothing]

theorem Sound.frames (hS : S.Sound ok) : ∀ (b : Nat) {mid : Bool} {s : σ}, ok mid s → S.left s ≤ b →
    Frames S.more mid (S.parts s) := by
  intro b
  induction b with
  | zero =>
    intro mid s h hb
    rcases hS.recv h with ⟨m, s', -, -, hlt⟩ | ⟨hmid, s', hr, -⟩
    · omega
    · rw [parts, upcoming_nothing hr]
      exact hmid
  | succ b ih =>
    intro mid s h hb
    rcases hS.recv h with ⟨m, s', hr, -⟩ | ⟨hmid, s', hr, -⟩
    · obtain ⟨hok, hlt, hparts⟩ := hS.parts_some h hr
      rw [hparts]
      exact ih hok (by omega)
    · rw [parts, upcoming_nothing hr]
      exact hmid

theorem Sound.and (hS : S.Sound ok)
    (hP : ∀ {mid : Bool} {s s' : σ} {r : Option β}, ok mid s → P s → S.recv s = .ok (r, s') → P s') :
    S.Sound (fun mid s => ok mid s ∧ P s) where
  recv := by grind [hS.recv]

theorem Sound.parts_frames (hS : S.Sound ok) (h : ok mid s) : Frames S.more mid (S.parts s) :=
  hS.frames _ h (Nat.le_refl _)

theorem Sound.length_parts (hS : S.Sound ok) : ∀ (l : List β) {mid : Bool} {s : σ}, ok mid s →
    S.parts s = l → l.length ≤ S.left s := by
  intro l
  induction l with
  | nil => exact fun _ _ => Nat.zero_le _
  | cons m l ih =>
    intro mid s h hp
    obtain ⟨s', -, hok, hp', hlt⟩ := hS.recv_cons h hp
    have := ih hok hp'
    rw [List.length_cons]
    omega

theorem drain_keeps
    (hP : ∀ {s s' : σ} {r : Option β}, P s → S.recv s = .ok (r, s') → P s') {idle long : ε} :
    ∀ (n : Nat) {s s' : σ}, P s → S.drain idle long n s = .ok s' → P s' := by
  intro n
  induction n with
  | zero => exact fun _ hd => absurd hd (by simp [drain])
  | succ n ih => grind [drain]

theorem Sound.drain_whole (hS : S.Sound ok) (idle long : ε) : ∀ {l : List β} {mid : Bool} {s : σ}
    {n : Nat} {rest : List β}, ok mid s → S.parts s = l ++ rest → Whole S.more l → l.length ≤ n →
    ∃ s', S.drain idle long n s = .ok s' ∧ ok false s' ∧ S.parts s' = rest ∧
      S.left s' < S.left s := by
  intro l
  induction l with
  | nil => exact fun _ _ h _ => absurd h id
  | cons m l ih =>
    intro mid s n rest h hp hl hn
    obtain ⟨n, rfl⟩ : ∃ n', n = n' + 1 := ⟨n - 1, by rw [List.length_cons] at hn; omega⟩
    obtain ⟨s₁, hr, hok, hp₁, hlt⟩ := hS.recv_cons h hp
    cases hm : S.more m with
    | true =>
      rw [hm] at hok
      obtain ⟨s', hd, hok', hp', hlt'⟩ := ih (n := n) hok hp₁ ((whole_cons_more hm).1 hl)
        (by rw [List.length_cons] at hn; omega)
      exact ⟨s', by simpa [drain, hr, hm] using hd, hok', hp', by omega⟩
    | false =>
      obtain rfl := (whole_cons_last hm).1 hl
      rw [hm] at hok
      exact ⟨s₁, by simp [drain, hr, hm], hok, hp₁, hlt⟩

end Supply

end Libxs
