import DatasetAlgebra.Proofs.Json.Numeral
import DatasetAlgebra.Proofs.Json.Quoting

/-!
The text of stored JSON values against their equality. The text tells apart all that equality
tells apart, and the two zeros besides.
-/
namespace DatasetAlgebra
namespace Document

open Binary64

mutual
/-- Of every float zero, in their order in the text, whether it is the negative one. -/
def zeroSigns : Document → List Bool
  | .float x => if isZero x then [isNegative x] else []
  | .array items => allZeroSigns items
  | .object fields => fieldZeroSigns fields
  | _ => []

def allZeroSigns : List Document → List Bool
  | [] => []
  | d :: rest => d.zeroSigns ++ allZeroSigns rest

def fieldZeroSigns : List (String × Document) → List Bool
  | [] => []
  | (_, d) :: rest => d.zeroSigns ++ fieldZeroSigns rest
end

/-- Equal, zeros of one sign at the same places. -/
def Alike (d e : Document) : Prop := d.same e ∧ d.zeroSigns = e.zeroSigns

/-! ### Numbers -/

/-- What comes next is not part of a number. -/
def Stops (r : List Char) : Prop := ∀ c ∈ r.head?, Numeral.isPart c = false

theorem parts_append_inj {u v r s : List Char} (hu : u.all Numeral.isPart)
    (hv : v.all Numeral.isPart) (hr : Stops r) (hs : Stops s) (h : u ++ r = v ++ s) :
    u = v ∧ r = s := by
  induction u generalizing v with
  | nil =>
    cases v with
    | nil => exact ⟨rfl, h⟩
    | cons c v =>
      rw [List.nil_append] at h
      subst h
      simp_all [Stops]
  | cons c u ih =>
    cases v with
    | nil =>
      rw [List.nil_append] at h
      subst h
      simp_all [Stops]
    | cons d v =>
      simp only [List.cons_append, List.cons.injEq] at h
      simp only [List.all_cons, Bool.and_eq_true] at hu hv
      obtain ⟨huv, hrs⟩ := ih hu.2 hv.2 h.2
      exact ⟨by rw [h.1, huv], hrs⟩

theorem rank_finite {x : Float} (hx : isFinite x) :
    rank x = if isNegative x then -(magnitude x : Int) else magnitude x := by
  have hnan : isNaN x = false := decide_eq_false (magnitude_lt hx).not_gt
  simp only [rank, hnan, Bool.false_eq_true, if_false]

theorem magnitude_eq_of_rank {x y : Float} (hx : isFinite x) (hy : isFinite y)
    (h : rank x = rank y) : magnitude x = magnitude y := by
  rw [rank_finite hx, rank_finite hy] at h
  split at h <;> split at h <;> omega

theorem isZero_congr {x y : Float} (h : magnitude x = magnitude y) : isZero x = isZero y := by
  rw [isZero, isZero, h]

theorem alike_float {x y : Float} (hx : isFinite x) (hy : isFinite y) :
    Alike (.float x) (.float y) ↔ isNegative x = isNegative y ∧ magnitude x = magnitude y := by
  simp only [Alike, same, zeroSigns, beq_iff_eq]
  constructor
  · rintro ⟨hr, hz⟩
    have hm := magnitude_eq_of_rank hx hy hr
    refine ⟨?_, hm⟩
    rw [isZero_congr hm] at hz
    cases h₀ : isZero y with
    | true => simpa [h₀] using hz
    | false =>
      -- apart from zero the rank has the sign
      have hm₀ : magnitude y ≠ 0 := by simpa [isZero] using h₀
      rw [rank_finite hx, rank_finite hy] at hr
      cases hx : isNegative x <;> cases hy : isNegative y <;> simp [hx, hy] at hr ⊢ <;> omega
  · rintro ⟨hs, hm⟩
    rw [rank_finite hx, rank_finite hy, hs, hm, isZero_congr hm]
    exact ⟨rfl, rfl⟩

theorem isPart_integer (n : Int) : (toString n).toList.all Numeral.isPart :=
  Numeral.all_isPart_of_read? (Numeral.read?_toString n)

theorem isPart_float {x : Float} (hx : isFinite x) : (numeral x).toList.all Numeral.isPart := by
  obtain ⟨n, hn, -⟩ := Numeral.read?_write hx
  rw [numeral, if_pos hx]
  exact Numeral.all_isPart_of_read? hn

theorem integer_eq_of_text {n m : Int} (h : toString n = toString m) : n = m := by
  have hread := Numeral.read?_toString n
  rw [h, Numeral.read?_toString, Option.some.injEq, Numeral.mk.injEq] at hread
  have hsign : m < 0 ↔ n < 0 := by simpa using hread.1
  have habs : m.natAbs = n.natAbs := by
    have := congrArg Numeral.ofDigits hread.2.1
    simpa only [Numeral.ofDigits_places, Nat.ofDigitChars_ten_toDigits] using this
  omega

theorem float_eq_of_text {x y : Float} (hx : isFinite x) (hy : isFinite y)
    (h : numeral x = numeral y) : isNegative x = isNegative y ∧ magnitude x = magnitude y := by
  rw [numeral, numeral, if_pos hx, if_pos hy] at h
  exact Layout.eq_of_write hx hy h

theorem integer_ne_float (n : Int) {x : Float} (hx : isFinite x) : toString n ≠ numeral x := by
  intro h
  obtain ⟨m, hm, hd⟩ := Numeral.read?_write hx
  rw [numeral, if_pos hx] at h
  rw [← h, Numeral.read?_toString, Option.some.injEq] at hm
  subst hm
  simpa using hd.float

/-! ### First characters -/

/-- What a text is, by its first character. -/
inductive Kind where
  | null
  | boolean
  | number
  | string
  | array
  | object
  deriving DecidableEq

def kind : Document → Kind
  | .null | .unreadable => .null
  | .boolean _ => .boolean
  | .integer _ | .float _ => .number
  | .string _ => .string
  | .array _ => .array
  | .object _ => .object

/-- The kind of text that a character begins. -/
def kindOf? (c : Char) : Option Kind :=
  if c = 'n' then some .null
  else if c = 't' || c = 'f' then some .boolean
  else if c = '"' then some .string
  else if c = '[' then some .array
  else if c = '\x7b' then some .object
  else if c.isDigit || c = '-' then some .number
  else none

theorem kindOf?_of_read? {text : List Char} {n : Numeral} (h : Numeral.read? text = some n) :
    text.head?.bind kindOf? = some .number := by
  obtain ⟨c, rest, rfl, rfl | hc⟩ := Numeral.exists_head_of_read? h
  · rfl
  · have hne : c ≠ 'n' ∧ c ≠ 't' ∧ c ≠ 'f' ∧ c ≠ '"' ∧ c ≠ '[' ∧ c ≠ '\x7b' := by
      refine ⟨?_, ?_, ?_, ?_, ?_, ?_⟩ <;> (rintro rfl; revert hc; decide)
    simp [kindOf?, hne, hc]

theorem head?_text {d : Document} (hd : d.isCanonical) :
    d.text.toList.head?.bind kindOf? = some d.kind := by
  cases d with
  | null => rfl
  | unreadable => rfl
  | boolean b => cases b <;> rfl
  | integer n => exact kindOf?_of_read? (Numeral.read?_toString n)
  | float x =>
    obtain ⟨n, hn, -⟩ := Numeral.read?_write (x := x) hd
    rw [text, numeral, if_pos (by exact hd)]
    exact kindOf?_of_read? hn
  | string s =>
    rw [text, toList_quote]
    rfl
  | array items =>
    rw [text, String.toList_append, String.toList_append]
    rfl
  | object fields =>
    rw [text, String.toList_append, String.toList_append]
    rfl

theorem head?_text_append {d : Document} (hd : d.isCanonical) (r : List Char) :
    (d.text.toList ++ r).head?.bind kindOf? = some d.kind := by
  have h := head?_text hd
  cases ht : d.text.toList with
  | nil => simp [ht] at h
  | cons c rest => simpa [ht] using h

theorem kind_eq {d e : Document} (hd : d.isCanonical) (he : e.isCanonical) {r s : List Char}
    (h : d.text.toList ++ r = e.text.toList ++ s) : d.kind = e.kind := by
  have hk := head?_text_append hd r
  rw [h, head?_text_append he s] at hk
  exact (Option.some.inj hk).symm

theorem text_append_ne {e : Document} (he : e.isCanonical) {c : Char} (hc : kindOf? c = none)
    (r s : List Char) : c :: r ≠ e.text.toList ++ s := by
  intro h
  have hk := head?_text_append he s
  simp [← h, hc] at hk

/-! ### Containers -/

/-- The texts of the parts of a container, as they stand between its brackets. -/
def joined (ts : List String) : List Char := (",".intercalate ts).toList

/-- What stands behind the first part. -/
def following : List String → List Char
  | [] => []
  | t :: ts => ',' :: joined (t :: ts)

theorem joined_cons (t : String) (ts : List String) :
    joined (t :: ts) = t.toList ++ following ts := by
  cases ts with
  | nil => simp [joined, following]
  | cons u ts =>
    rw [joined, String.intercalate_cons_cons, String.toList_append, String.toList_append]
    simp [joined, following]

theorem stops_following (ts : List String) {c : Char} (hc : Numeral.isPart c = false)
    (r : List Char) : Stops (following ts ++ c :: r) := by
  cases ts with
  | nil => simpa [Stops, following] using hc
  | cons t ts =>
    rintro _ ⟨⟩
    rfl

theorem joined_of_following {ts us : List String} {c : Char} (hc : c ≠ ',') {r s : List Char}
    (h : following ts ++ c :: r = following us ++ c :: s) :
    joined ts ++ c :: r = joined us ++ c :: s := by
  match ts, us with
  | [], [] => exact h
  | t :: ts, u :: us => exact (List.cons.inj h).2
  | [], u :: us => exact absurd (List.cons.inj h).1 hc
  | t :: ts, [] => exact absurd (List.cons.inj h).1.symm hc

theorem toList_text_array (ds : List Document) :
    (array ds).text.toList = '[' :: (joined (texts ds) ++ [']']) := by
  simp [text, joined]

theorem toList_text_object (fs : List (String × Document)) :
    (object fs).text.toList = '\x7b' :: (joined (fieldTexts fs) ++ ['\x7d']) := by
  simp [text, joined]

mutual
/-- No text continues another: where the texts of two stored documents begin alike, the documents
are alike. The induction carries what stands behind either text. -/
theorem text_append_inj : (d : Document) → d.isCanonical → {e : Document} → e.isCanonical →
    {r s : List Char} → Stops r → Stops s → d.text.toList ++ r = e.text.toList ++ s →
    Alike d e ∧ r = s
  | .null, hd, e, he, r, s, _, _, h => by
    have hk := kind_eq hd he h
    cases e <;> simp only [kind, reduceCtorEq] at hk
    case null => exact ⟨⟨rfl, rfl⟩, List.append_cancel_left h⟩
    case unreadable => simp [isCanonical] at he
  | .unreadable, hd, _, _, _, _, _, _, _ => by simp [isCanonical] at hd
  | .boolean b, hd, e, he, r, s, _, _, h => by
    have hk := kind_eq hd he h
    cases e <;> simp only [kind, reduceCtorEq] at hk
    case boolean c =>
      cases b <;> cases c
      case false.false | true.true => exact ⟨⟨rfl, rfl⟩, List.append_cancel_left h⟩
      case false.true | true.false => simp [text] at h
  | .integer n, hd, e, he, r, s, hr, hs, h => by
    have hk := kind_eq hd he h
    cases e <;> simp only [kind, reduceCtorEq] at hk
    case integer m =>
      obtain ⟨ht, hrs⟩ := parts_append_inj (isPart_integer n) (isPart_integer m) hr hs h
      cases integer_eq_of_text (String.toList_inj.mp ht)
      exact ⟨⟨by simp [same], rfl⟩, hrs⟩
    case float y =>
      have ht := parts_append_inj (isPart_integer n) (isPart_float he) hr hs h
      exact absurd (String.toList_inj.mp ht.1) (integer_ne_float n he)
  | .float x, hd, e, he, r, s, hr, hs, h => by
    have hk := kind_eq hd he h
    cases e <;> simp only [kind, reduceCtorEq] at hk
    case integer m =>
      have ht := parts_append_inj (isPart_float hd) (isPart_integer m) hr hs h
      exact absurd (String.toList_inj.mp ht.1).symm (integer_ne_float m hd)
    case float y =>
      obtain ⟨ht, hrs⟩ := parts_append_inj (isPart_float hd) (isPart_float he) hr hs h
      exact ⟨(alike_float hd he).mpr (float_eq_of_text hd he (String.toList_inj.mp ht)), hrs⟩
  | .string a, hd, e, he, r, s, _, _, h => by
    have hk := kind_eq hd he h
    cases e <;> simp only [kind, reduceCtorEq] at hk
    case string b =>
      obtain ⟨rfl, hrs⟩ := quote_append_inj h
      exact ⟨⟨by simp [same], rfl⟩, hrs⟩
  | .array ds, hd, e, he, r, s, _, _, h => by
    have hk := kind_eq hd he h
    cases e <;> simp only [kind, reduceCtorEq] at hk
    case array es =>
      simp only [toList_text_array, List.cons_append, List.append_assoc, List.nil_append,
        List.cons.injEq, true_and] at h
      obtain ⟨hsame, hz, hrs⟩ := joined_texts_inj ds hd he h
      exact ⟨⟨hsame, hz⟩, hrs⟩
  | .object fs, hd, e, he, r, s, _, _, h => by
    have hk := kind_eq hd he h
    cases e <;> simp only [kind, reduceCtorEq] at hk
    case object gs =>
      simp only [toList_text_object, List.cons_append, List.append_assoc, List.nil_append,
        List.cons.injEq, true_and] at h
      obtain ⟨hsame, hz, hrs⟩ := joined_fieldTexts_inj fs hd he h
      exact ⟨⟨hsame, hz⟩, hrs⟩

theorem joined_texts_inj : (ds : List Document) → allCanonical ds → {es : List Document} →
    allCanonical es → {r s : List Char} →
    joined (texts ds) ++ ']' :: r = joined (texts es) ++ ']' :: s →
    sameAll ds es ∧ allZeroSigns ds = allZeroSigns es ∧ r = s
  | [], _, [], _, r, s, h => ⟨rfl, rfl, (List.cons.inj h).2⟩
  | [], _, e :: es, he, _, _, h => by
    simp only [allCanonical, Bool.and_eq_true] at he
    simp only [texts, joined_cons, List.append_assoc] at h
    exact absurd h (text_append_ne he.1 (by decide) _ _)
  | d :: ds, hd, [], _, _, _, h => by
    simp only [allCanonical, Bool.and_eq_true] at hd
    simp only [texts, joined_cons, List.append_assoc] at h
    exact absurd h.symm (text_append_ne hd.1 (by decide) _ _)
  | d :: ds, hd, e :: es, he, r, s, h => by
    simp only [allCanonical, Bool.and_eq_true] at hd he
    simp only [texts, joined_cons, List.append_assoc] at h
    obtain ⟨⟨hsame, hz⟩, hrest⟩ := text_append_inj d hd.1 he.1
      (stops_following _ (by decide) _) (stops_following _ (by decide) _) h
    obtain ⟨hall, hzs, hrs⟩ := joined_texts_inj ds hd.2 he.2
      (joined_of_following (by decide) hrest)
    exact ⟨by simp [sameAll, hsame, hall], by rw [allZeroSigns, allZeroSigns, hz, hzs], hrs⟩

theorem joined_fieldTexts_inj : (fs : List (String × Document)) → fieldsCanonical fs →
    {gs : List (String × Document)} → fieldsCanonical gs → {r s : List Char} →
    joined (fieldTexts fs) ++ '\x7d' :: r = joined (fieldTexts gs) ++ '\x7d' :: s →
    sameFields fs gs ∧ fieldZeroSigns fs = fieldZeroSigns gs ∧ r = s
  | [], _, [], _, r, s, h => ⟨rfl, rfl, (List.cons.inj h).2⟩
  | [], _, (l, e) :: gs, he, _, _, h => by
    simp [fieldTexts, toList_quote, joined] at h
  | (k, d) :: fs, hd, [], _, _, _, h => by
    simp [fieldTexts, toList_quote, joined] at h
  | (k, d) :: fs, hd, (l, e) :: gs, he, r, s, h => by
    simp only [fieldsCanonical, Bool.and_eq_true] at hd he
    simp only [fieldTexts, joined_cons, String.toList_append, List.append_assoc] at h
    obtain ⟨rfl, hvalue⟩ := quote_append_inj h
    obtain ⟨⟨hsame, hz⟩, hrest⟩ := text_append_inj d hd.1.2 he.1.2
      (stops_following _ (by decide) _) (stops_following _ (by decide) _)
      (List.append_cancel_left hvalue)
    obtain ⟨hall, hzs, hrs⟩ := joined_fieldTexts_inj fs hd.2 he.2
      (joined_of_following (by decide) hrest)
    exact ⟨by simp [sameFields, hsame, hall], by rw [fieldZeroSigns, fieldZeroSigns, hz, hzs], hrs⟩
end

/-! ### Equal documents -/

mutual
theorem length_zeroSigns : (d : Document) → d.isCanonical → {e : Document} → e.isCanonical →
    d.same e → d.zeroSigns.length = e.zeroSigns.length
  | .null, _, e, _, h | .boolean _, _, e, _, h | .integer _, _, e, _, h | .string _, _, e, _, h
  | .unreadable, _, e, _, h => by
    cases e <;> simp [same, zeroSigns] at h ⊢
  | .float x, hd, e, he, h => by
    cases e <;> simp only [same, Bool.false_eq_true] at h
    case float y =>
      rw [zeroSigns, zeroSigns, isZero_congr (magnitude_eq_of_rank hd he (eq_of_beq h))]
      split <;> rfl
  | .array ds, hd, e, he, h => by
    cases e <;> simp only [same, Bool.false_eq_true] at h
    case array es => exact length_allZeroSigns ds hd he h
  | .object fs, hd, e, he, h => by
    cases e <;> simp only [same, Bool.false_eq_true] at h
    case object gs => exact length_fieldZeroSigns fs hd he h

theorem length_allZeroSigns : (ds : List Document) → allCanonical ds → {es : List Document} →
    allCanonical es → sameAll ds es → (allZeroSigns ds).length = (allZeroSigns es).length
  | [], _, [], _, _ => rfl
  | d :: ds, hd, e :: es, he, h => by
    simp only [allCanonical, sameAll, Bool.and_eq_true] at hd he h
    simp only [allZeroSigns, List.length_append, length_zeroSigns d hd.1 he.1 h.1,
      length_allZeroSigns ds hd.2 he.2 h.2]
  | [], _, _ :: _, _, h | _ :: _, _, [], _, h => by simp [sameAll] at h

theorem length_fieldZeroSigns : (fs : List (String × Document)) → fieldsCanonical fs →
    {gs : List (String × Document)} → fieldsCanonical gs → sameFields fs gs →
    (fieldZeroSigns fs).length = (fieldZeroSigns gs).length
  | [], _, [], _, _ => rfl
  | (_, d) :: fs, hd, (_, e) :: gs, he, h => by
    simp only [fieldsCanonical, sameFields, Bool.and_eq_true] at hd he h
    simp only [fieldZeroSigns, List.length_append, length_zeroSigns d hd.1.2 he.1.2 h.1.2,
      length_fieldZeroSigns fs hd.2 he.2 h.2]
  | [], _, _ :: _, _, h | _ :: _, _, [], _, h => by simp [sameFields] at h
end

mutual
/-- The signs of a container are split among its parts at the lengths that equality gives. -/
theorem text_eq_of_alike : (d : Document) → d.isCanonical → {e : Document} → e.isCanonical →
    Alike d e → d.text = e.text
  | .null, _, e, _, h | .unreadable, _, e, _, h => by
    cases e <;> simp [Alike, same, text] at h ⊢
  | .boolean _, _, e, _, h | .integer _, _, e, _, h | .string _, _, e, _, h => by
    cases e <;> simp [Alike, same] at h
    rw [h.1]
  | .float x, hd, e, he, h => by
    cases e <;> simp only [Alike, same, Bool.false_eq_true, false_and] at h
    case float y =>
      obtain ⟨hs, hm⟩ := (alike_float hd he).mp h
      rw [text, text, numeral, numeral, if_pos (by exact hd), if_pos (by exact he)]
      exact Layout.write_congr _ hd he hs hm
  | .array ds, hd, e, he, h => by
    cases e <;> simp only [Alike, same, Bool.false_eq_true, false_and] at h
    case array es => rw [text, text, texts_eq_of_alike ds hd he h.1 h.2]
  | .object fs, hd, e, he, h => by
    cases e <;> simp only [Alike, same, Bool.false_eq_true, false_and] at h
    case object gs => rw [text, text, fieldTexts_eq_of_alike fs hd he h.1 h.2]

theorem texts_eq_of_alike : (ds : List Document) → allCanonical ds → {es : List Document} →
    allCanonical es → sameAll ds es → allZeroSigns ds = allZeroSigns es → texts ds = texts es
  | [], _, [], _, _, _ => rfl
  | d :: ds, hd, e :: es, he, h, hz => by
    simp only [allCanonical, sameAll, Bool.and_eq_true] at hd he h
    obtain ⟨hz, hzs⟩ := List.append_inj hz (length_zeroSigns d hd.1 he.1 h.1)
    rw [texts, texts, text_eq_of_alike d hd.1 he.1 ⟨h.1, hz⟩,
      texts_eq_of_alike ds hd.2 he.2 h.2 hzs]
  | [], _, _ :: _, _, h, _ | _ :: _, _, [], _, h, _ => by simp [sameAll] at h

theorem fieldTexts_eq_of_alike : (fs : List (String × Document)) → fieldsCanonical fs →
    {gs : List (String × Document)} → fieldsCanonical gs → sameFields fs gs →
    fieldZeroSigns fs = fieldZeroSigns gs → fieldTexts fs = fieldTexts gs
  | [], _, [], _, _, _ => rfl
  | (k, d) :: fs, hd, (l, e) :: gs, he, h, hz => by
    simp only [fieldsCanonical, sameFields, Bool.and_eq_true, beq_iff_eq] at hd he h
    obtain ⟨hz, hzs⟩ := List.append_inj hz (length_zeroSigns d hd.1.2 he.1.2 h.1.2)
    rw [fieldTexts, fieldTexts, h.1.1, text_eq_of_alike d hd.1.2 he.1.2 ⟨h.1.2, hz⟩,
      fieldTexts_eq_of_alike fs hd.2 he.2 h.2 hzs]
  | [], _, _ :: _, _, h, _ | _ :: _, _, [], _, h, _ => by simp [sameFields] at h
end

end Document

namespace Json

def zeroSigns (j : Json) : List Bool := j.document.zeroSigns

theorem text_eq_iff {a b : Json} : a.text = b.text ↔ a.same b ∧ a.zeroSigns = b.zeroSigns := by
  constructor
  · intro h
    refine (a.document.text_append_inj a.canonical b.canonical (r := []) (s := []) ?_ ?_ ?_).1
    · simp [Document.Stops]
    · simp [Document.Stops]
    · rw [← text, h, text]
  · exact a.document.text_eq_of_alike a.canonical b.canonical

end Json
end DatasetAlgebra
