import DatasetAlgebra.Json.Printer
import DatasetAlgebra.Json.Token
import Mathlib.Tactic.IntervalCases

/-! A quoted string ends at the quote that closes it, and tells what is quoted. -/
namespace DatasetAlgebra
namespace Document

/-- The first character of an escaped text, and the text behind it. -/
def unescape : List Char → Option (Char × List Char)
  | '\\' :: 'u' :: _ :: _ :: a :: b :: rest => do
    let high ← Token.hexDigit? a
    let low ← Token.hexDigit? b
    some (Char.ofNat (16 * high + low), rest)
  | '\\' :: c :: rest => (Token.escaped? c).map fun n => (Char.ofNat n, rest)
  | c :: rest => some (c, rest)
  | [] => none

theorem unescape_control {n : Nat} (h : n < 32) (r : List Char) :
    unescape ((escape (Char.ofNat n)).toList ++ r) = some (Char.ofNat n, r) := by
  interval_cases n <;> rfl

theorem escape_plain {c : Char} (hc : 32 ≤ c.toNat) (hq : c ≠ '"') (hb : c ≠ '\\') :
    (escape c).toList = [c] := by
  have hn : c ≠ '\n' ∧ c ≠ '\r' ∧ c ≠ '\t' := by
    refine ⟨?_, ?_, ?_⟩ <;> (rintro rfl; revert hc; decide)
  simp [escape, hq, hb, hn, show c.toNat ≠ 8 by omega, show c.toNat ≠ 12 by omega,
    show ¬ c.toNat < 16 by omega, show ¬ c.toNat < 32 by omega]

theorem unescape_escape (c : Char) (r : List Char) :
    unescape ((escape c).toList ++ r) = some (c, r) := by
  rcases Nat.lt_or_ge c.toNat 32 with hc | hc
  · simpa using unescape_control hc r
  · by_cases hq : c = '"'
    · subst hq
      rfl
    · by_cases hb : c = '\\'
      · subst hb
        rfl
      · rw [escape_plain hc hq hb, List.singleton_append]
        unfold unescape
        split <;> simp_all

theorem escape_append_ne (c : Char) (r r' : List Char) :
    (escape c).toList ++ r ≠ '"' :: r' := by
  intro h
  have hc := congrArg unescape h
  rw [unescape_escape] at hc
  have hq : c = '"' := (Prod.ext_iff.mp (Option.some.inj hc)).1
  subst hq
  cases h

/-- Escaped characters, up to the quote that closes the string. -/
theorem escaped_append_inj {s t r r' : List Char}
    (h : s.flatMap (fun c => (escape c).toList) ++ '"' :: r =
      t.flatMap (fun c => (escape c).toList) ++ '"' :: r') : s = t ∧ r = r' := by
  induction s generalizing t with
  | nil =>
    cases t with
    | nil => simpa using h
    | cons d t =>
      rw [List.flatMap_cons, List.append_assoc] at h
      exact absurd h.symm (escape_append_ne d _ _)
  | cons c s ih =>
    cases t with
    | nil =>
      rw [List.flatMap_cons, List.append_assoc] at h
      exact absurd h (escape_append_ne c _ _)
    | cons d t =>
      simp only [List.flatMap_cons, List.append_assoc] at h
      have hc := congrArg unescape h
      rw [unescape_escape, unescape_escape, Option.some.injEq, Prod.mk.injEq] at hc
      obtain ⟨hst, hr⟩ := ih hc.2
      exact ⟨by rw [hc.1, hst], hr⟩

theorem toList_quote (s : String) :
    (quote s).toList = '"' :: (s.toList.flatMap (fun c => (escape c).toList) ++ ['"']) := by
  simp [quote, String.toList_join, List.flatMap_map]

theorem quote_append_inj {s t : String} {r r' : List Char}
    (h : (quote s).toList ++ r = (quote t).toList ++ r') : s = t ∧ r = r' := by
  simp only [toList_quote, List.cons_append, List.append_assoc, List.nil_append,
    List.cons.injEq, true_and] at h
  obtain ⟨hs, hr⟩ := escaped_append_inj h
  exact ⟨String.toList_inj.mp hs, hr⟩

end Document
end DatasetAlgebra
