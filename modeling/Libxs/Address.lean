import Libxs.Msg
import Mathlib.Data.List.TakeWhile

/-! # TCP addresses -/

namespace Libxs

namespace Address

variable {α : Type} {resolve : List Char → Option α} {name host text : List Char}

def lastColon : List Char → Option (List Char × List Char)
  | [] => none
  | c :: cs =>
    match lastColon cs with
    | some (host, text) => some (c :: host, text)
    | none => if c = ':' then some ([], cs) else none

def isSpace (c : Char) : Bool := c == ' ' || (9 ≤ c.toNat && c.toNat ≤ 13)

def decimal (digits : List Char) : Nat := digits.foldl (fun n c => 10 * n + (c.toNat - 48)) 0

def strtol (text : List Char) : Int :=
  match text.dropWhile isSpace with
  | '-' :: text => max (-(2 ^ 63)) (-decimal (text.takeWhile Char.isDigit))
  | '+' :: text => min (2 ^ 63 - 1) (decimal (text.takeWhile Char.isDigit))
  | text => min (2 ^ 63 - 1) (decimal (text.takeWhile Char.isDigit))

def portOf (text : List Char) : Nat := (strtol text % 2 ^ 16).toNat

def unbracket (host : List Char) : List Char :=
  if 2 ≤ host.length ∧ host.head? = some '[' ∧ host.getLast? = some ']' then host.tail.dropLast
  else host

def addressResolveTcp (resolve : List Char → Option α) (ignorePort : Bool) (name : List Char) :
    Option (α × Nat) :=
  if ignorePort then (resolve (unbracket name)).map (·, 0)
  else
    match lastColon name with
    | none => none
    | some (host, text) =>
      if portOf text = 0 then none else (resolve (unbracket host)).map (·, portOf text)

/-! ## Port numbers -/

def IsPort (text : List Char) (n : Nat) : Prop :=
  text ≠ [] ∧ (∀ c ∈ text, c.isDigit = true) ∧ decimal text = n ∧ 1 ≤ n ∧ n ≤ 65535

def Exact (resolve : List Char → Option α) (name : List Char) : Prop :=
  ∀ a n, addressResolveTcp resolve false name = some (a, n) ↔
    ∃ host text, name = host ++ ':' :: text ∧ IsPort text n ∧ resolve (unbracket host) = some a

def PlainPort (resolve : List Char → Option α) (name : List Char) : Prop :=
  ∀ host text, lastColon name = some (host, text) → (resolve (unbracket host)).isSome = true →
    portOf text ≠ 0 → (∀ c ∈ text, c.isDigit = true) ∧ decimal text ≤ 65535

theorem lastColon_eq_none : ∀ {name : List Char}, lastColon name = none ↔ ':' ∉ name := by
  intro name
  induction name with
  | nil => simp [lastColon]
  | cons c cs ih => grind [lastColon]

theorem lastColon_eq_some : ∀ {name host : List Char},
    lastColon name = some (host, text) ↔ name = host ++ ':' :: text ∧ ':' ∉ text := by
  intro name
  induction name with
  | nil => simp [lastColon]
  | cons c cs ih =>
    intro host
    have hnone := @lastColon_eq_none cs
    cases host <;> grind [lastColon]

theorem portOf_digits (hdigits : ∀ c ∈ text, c.isDigit = true) (hle : decimal text ≤ 65535) :
    portOf text = decimal text := by
  have htake : text.takeWhile Char.isDigit = text := List.takeWhile_eq_self_iff.2 hdigits
  have hstart : ∀ c ∈ text, isSpace c = false ∧ c ≠ '-' ∧ c ≠ '+' := by
    intro c hc
    have hdigit := hdigits c hc
    have h48 : 48 ≤ c.toNat := by
      simp only [Char.isDigit, Bool.and_eq_true, decide_eq_true_eq] at hdigit
      exact hdigit.1
    refine ⟨?_, ?_, ?_⟩
    · have : c ≠ ' ' := by rintro rfl; revert hdigit; decide
      simp only [isSpace, Bool.or_eq_false_iff, beq_eq_false_iff_ne, Bool.and_eq_false_iff,
        decide_eq_false_iff_not]
      exact ⟨this, Or.inr (by omega)⟩
    · rintro rfl; revert hdigit; decide
    · rintro rfl; revert hdigit; decide
  have hstrtol : strtol text = min (2 ^ 63 - 1 : Int) (decimal text) := by
    unfold strtol
    cases text with
    | nil => rfl
    | cons c text =>
      obtain ⟨hspace, hminus, hplus⟩ := hstart c (by simp)
      rw [List.dropWhile_cons_of_neg (by simp [hspace])]
      split
      · grind
      · grind
      · rw [htake]
  rw [portOf, hstrtol]
  omega

/-- **Ports are parsed exactly if nothing but a port number gets past `atoi`.** -/
theorem ports_exact_iff (resolve : List Char → Option α) (name : List Char) :
    Exact resolve name ↔ PlainPort resolve name := by
  have hcolon : ∀ {text n}, IsPort text n → ':' ∉ text := fun h hc => by
    have := h.2.1 _ hc
    revert this
    decide
  constructor
  · intro h host text hlast hresolve hport
    obtain ⟨a, ha⟩ := Option.isSome_iff_exists.1 hresolve
    obtain ⟨host', text', hname, hisPort, -⟩ := (h a (portOf text)).1
      (by simp [addressResolveTcp, hlast, hport, ha])
    have hlast' := lastColon_eq_some.2 ⟨hname, hcolon hisPort⟩
    rw [hlast'] at hlast
    obtain ⟨rfl, rfl⟩ := Prod.mk.inj (Option.some.inj hlast)
    obtain ⟨-, hdigits, hn, -, hle⟩ := hisPort
    exact ⟨hdigits, hn ▸ hle⟩
  · intro h a n
    constructor
    · intro hok
      cases hlast : lastColon name with
      | none => simp [addressResolveTcp, hlast] at hok
      | some w =>
        obtain ⟨host, text⟩ := w
        simp only [addressResolveTcp, hlast, Bool.false_eq_true, if_false] at hok
        split at hok
        · cases hok
        · rename_i hport
          obtain ⟨b, hb, hab⟩ := Option.map_eq_some_iff.1 hok
          obtain ⟨rfl, rfl⟩ := Prod.mk.inj hab
          obtain ⟨hdigits, hle⟩ := h host text hlast (by simp [hb]) hport
          have heq := portOf_digits hdigits hle
          refine ⟨host, text, (lastColon_eq_some.1 hlast).1, ⟨?_, hdigits, heq.symm, by omega, by omega⟩,
            hb⟩
          rintro rfl
          exact hport heq
    · rintro ⟨host, text, hname, hisPort, ha⟩
      have hlast := lastColon_eq_some.2 ⟨hname, hcolon hisPort⟩
      obtain ⟨-, hdigits, rfl, hpos, hle⟩ := hisPort
      have heq := portOf_digits hdigits hle
      simp [addressResolveTcp, hlast, heq, ha, Nat.ne_of_gt hpos]

theorem garbage_accepted :
    addressResolveTcp (fun _ => some ()) false ['h', ':', '8', '0', 'x'] = some ((), 80) ∧
      addressResolveTcp (fun _ => some ()) false ['h', ':', '6', '5', '6', '1', '7'] = some ((), 81) ∧
      addressResolveTcp (fun _ => some ()) false ['h', ':', '-', '1'] = some ((), 65535) ∧
      ¬ IsPort ['8', '0', 'x'] 80 :=
  ⟨by decide, by decide, by decide, fun h => absurd (h.2.1 'x' (by simp)) (by decide)⟩

end Address

end Libxs
