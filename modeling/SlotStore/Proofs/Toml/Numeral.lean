import Mathlib.Algebra.Group.Nat.Defs
import Mathlib.Data.List.Basic
import Mathlib.Data.List.TakeWhile
import SlotStore.Toml.Scalar

/-!
# Words for whole numbers

A document can write a whole number in decimal, with or without a sign, or with a prefix to the base
sixteen, eight or two, and can put its digits in groups (`IntegerWord`). Exactly these words are
read as whole numbers, as far as a document may hold the number (`scalar?_eq_integer`): none of them
is a date, a time of day or a floating point number. The digits in which a number is written are one
of them (`integerWord_digits`).
-/

namespace SlotStore.Toml

theorem isInRange_natCast (n : Nat) : isInRange n = true ↔ n ≤ 2 ^ 63 - 1 := by
  have hlow : -1 <<< 63 ≤ (n : Int) := Int.le_trans (by decide) (Int.natCast_nonneg n)
  have hhigh : (1 <<< 63 : Int) = 9223372036854775808 := rfl
  rw [isInRange, decide_eq_true hlow, Bool.true_and, hhigh, decide_eq_true_eq]
  omega

/-! ## Digits in groups -/

theorem run_append {p : Char → Bool} {l r : List Char} (hl : ∀ c ∈ l, p c = true)
    (hr : ∀ c ∈ r.head?, p c = false) :
    (l ++ r).takeWhile p = l ∧ (l ++ r).dropWhile p = r := by
  rw [List.takeWhile_append_of_pos hl, List.dropWhile_append_of_pos hl]
  cases r with
  | nil => exact ⟨List.append_nil l, rfl⟩
  | cons c r =>
    have hc : ¬p c = true := by simp [hr c rfl]
    rw [List.takeWhile_cons_of_neg hc, List.dropWhile_cons_of_neg hc, List.append_nil]
    exact ⟨rfl, rfl⟩

theorem ne_of_isDigitOf {base : Nat} {c m : Char} (h : isDigitOf base c = true)
    (hm : isDigitOf base m = false) : c ≠ m := by
  rintro rfl
  simp [h] at hm

/-- Digits to a base, with an underscore between any two groups of them; and the digits alone. -/
inductive Grouped (base : Nat) : List Char → List Char → Prop where
  | last {ds : List Char} (hne : ds ≠ []) (hds : ∀ c ∈ ds, isDigitOf base c = true) :
      Grouped base ds ds
  | more {ds cs ds' : List Char} (hne : ds ≠ []) (hds : ∀ c ∈ ds, isDigitOf base c = true)
      (h : Grouped base cs ds') : Grouped base (ds ++ '_' :: cs) (ds ++ ds')

theorem isDigitOf_underscore (base : Nat) : isDigitOf base '_' = false := rfl

namespace Grouped

variable {base : Nat} {cs ds r : List Char}

/-- Whatever digits are read stand in groups before the rest. -/
theorem of_digitGroups (h : digitGroups base cs = some (ds, r)) :
    ∃ front, cs = front ++ r ∧ Grouped base front ds := by
  have hds (cs : List Char) : ∀ c ∈ cs.takeWhile (isDigitOf base), isDigitOf base c = true :=
    fun c hc => List.mem_takeWhile_imp hc
  fun_induction digitGroups base cs generalizing ds r with
  | case1 => cases h
  | case2 cs r' hmark _ hne ih =>
    simp only [Option.map_eq_some_iff, Prod.mk.injEq] at h
    obtain ⟨⟨ds', t⟩, hrest, rfl, rfl⟩ := h
    obtain ⟨front, rfl, hfront⟩ := ih hrest
    refine ⟨cs.takeWhile (isDigitOf base) ++ '_' :: front, ?_, .more hne (hds cs) hfront⟩
    rw [List.append_assoc, List.cons_append, ← hmark, List.takeWhile_append_dropWhile]
  | case3 cs hne _ =>
    cases h
    exact ⟨_, List.takeWhile_append_dropWhile.symm, .last hne (hds cs)⟩

theorem digitGroups_append (h : Grouped base cs ds)
    (hr : ∀ c ∈ r.head?, isDigitOf base c = false ∧ c ≠ '_') :
    digitGroups base (cs ++ r) = some (ds, r) := by
  induction h with
  | @last ds hne hds =>
    obtain ⟨htake, hdrop⟩ := run_append hds fun c hc => (hr c hc).1
    rw [digitGroups]
    split
    case h_1 h => exact absurd (htake.symm.trans h) hne
    case h_2 t h _ =>
      rw [hdrop] at h
      exact absurd rfl (hr '_' (by simp [h])).2
    case h_3 => rw [htake, hdrop]
  | @more ds cs ds' hne hds _ ih =>
    obtain ⟨htake, hdrop⟩ := run_append (r := '_' :: (cs ++ r)) hds
      fun c hc => Option.some.inj hc ▸ isDigitOf_underscore base
    rw [List.append_assoc, List.cons_append, digitGroups]
    split
    case h_1 h => exact absurd (htake.symm.trans h) hne
    case h_2 t h _ =>
      cases hdrop.symm.trans h
      rw [htake, ih]
      rfl
    case h_3 h => exact absurd hdrop (h _)

theorem digitGroups_eq (h : Grouped base cs ds) : digitGroups base cs = some (ds, []) := by
  simpa using h.digitGroups_append (r := []) (by simp)

theorem mem (h : Grouped base cs ds) {c : Char} (hc : c ∈ cs) :
    isDigitOf base c = true ∨ c = '_' := by
  induction h with
  | last hne hds => exact .inl (hds c hc)
  | more hne hds _ ih =>
    rcases List.mem_append.mp hc with hc | hc
    · exact .inl (hds c hc)
    · rcases List.mem_cons.mp hc with rfl | hc
      · exact .inr rfl
      · exact ih hc

theorem not_mem (h : Grouped base cs ds) {m : Char} (hm : isDigitOf base m = false)
    (hm' : m ≠ '_') : m ∉ cs := by
  intro hmem
  rcases h.mem hmem with hdigit | heq
  · exact ne_of_isDigitOf hdigit hm rfl
  · exact hm' heq

theorem exists_cons (h : Grouped base cs ds) : ∃ c t, cs = c :: t ∧ isDigitOf base c = true := by
  obtain ⟨group, rest, rfl, hne, hds⟩ :
      ∃ group rest, cs = group ++ rest ∧ group ≠ [] ∧ ∀ c ∈ group, isDigitOf base c = true := by
    cases h with
    | last hne hds => exact ⟨cs, [], (List.append_nil cs).symm, hne, hds⟩
    | more hne hds _ => exact ⟨_, _, rfl, hne, hds⟩
  obtain ⟨c, t, rfl⟩ := List.exists_cons_of_ne_nil hne
  exact ⟨c, t ++ rest, rfl, hds c List.mem_cons_self⟩

end Grouped

theorem digitGroups_eq_some {base : Nat} {cs ds : List Char} :
    digitGroups base cs = some (ds, []) ↔ Grouped base cs ds := by
  refine ⟨fun h => ?_, Grouped.digitGroups_eq⟩
  obtain ⟨front, rfl, hfront⟩ := Grouped.of_digitGroups h
  rwa [List.append_nil]

/-! ## Words for whole numbers -/

/-- Decimal digits in groups, which do not begin with a zero unless that is all. -/
structure Decimal (cs ds : List Char) : Prop where
  grouped : Grouped 10 cs ds
  head_zero : ds.head? = some '0' → ds = ['0']

/-- Words for whole numbers. -/
inductive IntegerWord : List Char → Int → Prop where
  | unsigned {cs ds : List Char} (h : Decimal cs ds) : IntegerWord cs (numeral 10 ds)
  | positive {cs ds : List Char} (h : Decimal cs ds) : IntegerWord ('+' :: cs) (numeral 10 ds)
  | negative {cs ds : List Char} (h : Decimal cs ds) : IntegerWord ('-' :: cs) (-numeral 10 ds)
  | hexadecimal {cs ds : List Char} (h : Grouped 16 cs ds) :
      IntegerWord ('0' :: 'x' :: cs) (numeral 16 ds)
  | octal {cs ds : List Char} (h : Grouped 8 cs ds) :
      IntegerWord ('0' :: 'o' :: cs) (numeral 8 ds)
  | binary {cs ds : List Char} (h : Grouped 2 cs ds) :
      IntegerWord ('0' :: 'b' :: cs) (numeral 2 ds)

theorem decimalDigits_eq_some {cs ds : List Char} :
    decimalDigits cs = some (ds, []) ↔ Decimal cs ds := by
  constructor
  · intro h
    unfold decimalDigits at h
    split at h
    case h_1 => cases h
    case h_2 hzero =>
      refine ⟨digitGroups_eq_some.mp h, fun hhead => ?_⟩
      obtain ⟨t, rfl⟩ : ∃ t, ds = '0' :: t := List.head?_eq_some_iff.mp hhead
      cases t with
      | nil => rfl
      | cons c t => exact absurd h (hzero c t [])
  · rintro ⟨hgrouped, hzero⟩
    rw [decimalDigits, hgrouped.digitGroups_eq]
    split
    case h_1 c t r h =>
      -- A zero with more digits behind it.
      cases h
      cases hzero rfl
    case h_2 => rfl

theorem basedNumber?_eq_some {base : Nat} {cs : List Char} {i : Int} :
    basedNumber? base cs = some i ↔ ∃ ds, Grouped base cs ds ∧ i = numeral base ds := by
  constructor
  · intro h
    unfold basedNumber? at h
    split at h
    case h_1 ds hread =>
      cases h
      exact ⟨ds, digitGroups_eq_some.mp hread, rfl⟩
    case h_2 => cases h
  · rintro ⟨ds, hgrouped, rfl⟩
    rw [basedNumber?, hgrouped.digitGroups_eq]

theorem IntegerWord.of_decimalNumber? {cs : List Char} {i : Int} (h : decimalNumber? cs = some i) :
    IntegerWord cs i := by
  simp only [decimalNumber?] at h
  split at h
  case h_2 => cases h
  case h_1 ds hread =>
    have hdecimal := decimalDigits_eq_some.mp hread
    cases h
    unfold sign at hdecimal ⊢
    split at hdecimal
    case h_1 r => exact .negative hdecimal
    case h_2 r => exact .positive hdecimal
    case h_3 => exact .unsigned hdecimal

theorem sign_cons {c : Char} (h : isDigitOf 10 c = true) (t : List Char) :
    sign (c :: t) = (false, c :: t) := by
  unfold sign
  split
  case h_1 heq => exact absurd (List.cons.inj heq).1 (ne_of_isDigitOf h rfl)
  case h_2 heq => exact absurd (List.cons.inj heq).1 (ne_of_isDigitOf h rfl)
  case h_3 => rfl

theorem Decimal.sign_eq {cs ds : List Char} (h : Decimal cs ds) : sign cs = (false, cs) := by
  obtain ⟨c, t, rfl, hc⟩ := h.grouped.exists_cons
  exact sign_cons hc t

theorem Decimal.not_mem {cs ds : List Char} (h : Decimal cs ds) :
    'x' ∉ cs ∧ 'o' ∉ cs ∧ 'b' ∉ cs :=
  ⟨h.grouped.not_mem rfl (by decide), h.grouped.not_mem rfl (by decide),
    h.grouped.not_mem rfl (by decide)⟩

theorem integer?_of_not_mem {w : List Char} (h : 'x' ∉ w ∧ 'o' ∉ w ∧ 'b' ∉ w) :
    integer? w = (decimalNumber? w).filter isInRange := by
  unfold integer?
  split
  case h_1 => exact absurd (by simp) h.1
  case h_2 => exact absurd (by simp) h.2.1
  case h_3 => exact absurd (by simp) h.2.2
  case h_4 => rfl

theorem IntegerWord.integer?_eq {w : List Char} {i : Int} (h : IntegerWord w i) :
    integer? w = (some i).filter isInRange := by
  cases h with
  | @unsigned _ ds h =>
    rw [integer?_of_not_mem h.not_mem]
    simp only [decimalNumber?, h.sign_eq, decimalDigits_eq_some.mpr h]
    rfl
  | @positive cs ds h =>
    rw [integer?_of_not_mem (by simpa using h.not_mem)]
    simp only [decimalNumber?, sign, decimalDigits_eq_some.mpr h]
    rfl
  | @negative cs ds h =>
    rw [integer?_of_not_mem (by simpa using h.not_mem)]
    simp only [decimalNumber?, sign, decimalDigits_eq_some.mpr h]
    rfl
  | hexadecimal h => simp only [integer?, basedNumber?, h.digitGroups_eq]
  | octal h => simp only [integer?, basedNumber?, h.digitGroups_eq]
  | binary h => simp only [integer?, basedNumber?, h.digitGroups_eq]

theorem integer?_eq_some {w : List Char} {i : Int} :
    integer? w = some i ↔ IntegerWord w i ∧ isInRange i = true := by
  constructor
  · intro h
    simp only [integer?, Option.filter_eq_some_iff] at h
    obtain ⟨h, hrange⟩ := h
    refine ⟨?_, hrange⟩
    split at h
    case h_1 =>
      obtain ⟨ds, hgrouped, rfl⟩ := basedNumber?_eq_some.mp h
      exact .hexadecimal hgrouped
    case h_2 =>
      obtain ⟨ds, hgrouped, rfl⟩ := basedNumber?_eq_some.mp h
      exact .octal hgrouped
    case h_3 =>
      obtain ⟨ds, hgrouped, rfl⟩ := basedNumber?_eq_some.mp h
      exact .binary hgrouped
    case h_4 => exact .of_decimalNumber? h
  · rintro ⟨hword, hrange⟩
    rw [hword.integer?_eq, Option.filter_some, if_pos hrange]

/-! ## Other words -/

theorem mark?_of_not_mem {m : Char} {cs : List Char} (h : m ∉ cs) : mark? m cs = none := by
  cases cs with
  | nil => rfl
  | cons c cs =>
    have hne : c ≠ m := fun heq => h (heq ▸ List.mem_cons_self)
    exact if_neg hne

theorem drop_of_fixedDigits {k n : Nat} {cs r : List Char} (h : fixedDigits k cs = some (n, r)) :
    r = cs.drop k := by
  simp only [fixedDigits, Option.ite_none_right_eq_some, Option.some.injEq, Prod.mk.injEq] at h
  exact h.2.2.symm

theorem date?_of_not_mem {cs : List Char} (h : '-' ∉ cs.tail) : date? cs = none := by
  unfold date?
  cases hyear : fixedDigits 4 cs with
  | none => rfl
  | some year =>
    have hrest : '-' ∉ year.2 := by
      rw [drop_of_fixedDigits hyear, ← List.drop_drop (i := 3) (j := 1), List.drop_one]
      exact fun hmem => h (List.mem_of_mem_drop hmem)
    simp [mark?_of_not_mem hrest]

theorem time?_of_not_mem {cs : List Char} (h : ':' ∉ cs) : time? cs = none := by
  unfold time?
  cases hhour : fixedDigits 2 cs with
  | none => rfl
  | some hour =>
    have hrest : ':' ∉ hour.2 := by
      rw [drop_of_fixedDigits hhour]
      exact fun hmem => h (List.mem_of_mem_drop hmem)
    simp [mark?_of_not_mem hrest]

theorem float?_of_decimalDigits {w r t ds : List Char} {c : Char} {negative : Bool}
    (hsign : sign w = (negative, c :: r)) (hc : isDigitOf 10 c = true)
    (hdigits : decimalDigits (c :: r) = some (ds, t))
    (ht : ∀ m ∈ t.head?, m ≠ '.' ∧ m ≠ 'e' ∧ m ≠ 'E') : float? w = none := by
  have hinf : c ≠ 'i' := ne_of_isDigitOf hc rfl
  have hnan : c ≠ 'n' := ne_of_isDigitOf hc rfl
  simp only [float?, decimalFloat?, hsign, List.cons.injEq, hinf, hnan, false_and, if_false]
  cases t with
  | nil => simp [hdigits]
  | cons m t =>
    obtain ⟨hdot, he, hE⟩ := ht m rfl
    have hexponent : exponent? (m :: t) = none := by simp [exponent?, he, hE]
    simp [hdigits, hexponent]

theorem decimalDigits_zero_cons {m : Char} (hm : isDigitOf 10 m = false) (hm' : m ≠ '_')
    (t : List Char) : decimalDigits ('0' :: m :: t) = some (['0'], m :: t) := by
  have hzero : Grouped 10 ['0'] ['0'] :=
    .last (List.cons_ne_nil _ _) (List.forall_mem_singleton.mpr rfl)
  have hread : digitGroups 10 ('0' :: m :: t) = some (['0'], m :: t) :=
    hzero.digitGroups_append fun c hc => Option.some.inj hc ▸ ⟨hm, hm'⟩
  simp only [decimalDigits, hread]

namespace IntegerWord

variable {w : List Char} {i : Int}

/-- No word for a whole number is one for a floating point number. -/
theorem float?_eq_none (h : IntegerWord w i) : float? w = none := by
  cases h with
  | unsigned h =>
    obtain ⟨c, t, rfl, hc⟩ := h.grouped.exists_cons
    exact float?_of_decimalDigits h.sign_eq hc (decimalDigits_eq_some.mpr h) (by simp)
  | positive h =>
    obtain ⟨c, t, rfl, hc⟩ := h.grouped.exists_cons
    exact float?_of_decimalDigits rfl hc (decimalDigits_eq_some.mpr h) (by simp)
  | negative h =>
    obtain ⟨c, t, rfl, hc⟩ := h.grouped.exists_cons
    exact float?_of_decimalDigits rfl hc (decimalDigits_eq_some.mpr h) (by simp)
  | hexadecimal h =>
    exact float?_of_decimalDigits rfl rfl (decimalDigits_zero_cons rfl (by decide) _) (by simp)
  | octal h =>
    exact float?_of_decimalDigits rfl rfl (decimalDigits_zero_cons rfl (by decide) _) (by simp)
  | binary h =>
    exact float?_of_decimalDigits rfl rfl (decimalDigits_zero_cons rfl (by decide) _) (by simp)

theorem exists_cons (h : IntegerWord w i) :
    ∃ c t, w = c :: t ∧ (isDigitOf 10 c = true ∨ c = '+' ∨ c = '-') := by
  cases h with
  | unsigned h =>
    obtain ⟨c, t, rfl, hc⟩ := h.grouped.exists_cons
    exact ⟨c, t, rfl, .inl hc⟩
  | positive h => exact ⟨'+', _, rfl, .inr (.inl rfl)⟩
  | negative h => exact ⟨'-', _, rfl, .inr (.inr rfl)⟩
  | hexadecimal h => exact ⟨'0', _, rfl, .inl rfl⟩
  | octal h => exact ⟨'0', _, rfl, .inl rfl⟩
  | binary h => exact ⟨'0', _, rfl, .inl rfl⟩

theorem date?_eq_none (h : IntegerWord w i) : date? w = none := by
  refine date?_of_not_mem ?_
  have hgroups {base : Nat} {cs ds : List Char} (h : Grouped base cs ds) : '-' ∉ cs :=
    h.not_mem rfl (by decide)
  cases h with
  | unsigned h => exact fun hmem => hgroups h.grouped (List.mem_of_mem_tail hmem)
  | positive h => exact hgroups h.grouped
  | negative h => exact hgroups h.grouped
  | hexadecimal h => simpa using hgroups h
  | octal h => simpa using hgroups h
  | binary h => simpa using hgroups h

theorem time?_eq_none (h : IntegerWord w i) : time? w = none := by
  refine time?_of_not_mem ?_
  have hgroups {base : Nat} {cs ds : List Char} (h : Grouped base cs ds) : ':' ∉ cs :=
    h.not_mem rfl (by decide)
  cases h with
  | unsigned h => exact hgroups h.grouped
  | positive h => simpa using hgroups h.grouped
  | negative h => simpa using hgroups h.grouped
  | hexadecimal h => simpa using hgroups h
  | octal h => simpa using hgroups h
  | binary h => simpa using hgroups h

/-- A word for a whole number is read as nothing else. -/
theorem scalar?_eq (h : IntegerWord w i) : scalar? w = (integer? w).map .integer := by
  have hword {c : Char} {t : List Char} (hc : isDigitOf 10 c = false) (hplus : c ≠ '+')
      (hminus : c ≠ '-') : w ≠ c :: t := by
    rintro rfl
    obtain ⟨_, _, heq, hdigit | rfl | rfl⟩ := h.exists_cons
    · exact ne_of_isDigitOf hdigit hc (List.cons.inj heq).1.symm
    · exact hplus (List.cons.inj heq).1
    · exact hminus (List.cons.inj heq).1
  have hmoment : isMoment w = false := by simp [isMoment, h.date?_eq_none, h.time?_eq_none]
  rw [scalar?, if_neg (hword rfl (by decide) (by decide)),
    if_neg (hword rfl (by decide) (by decide)), hmoment, h.float?_eq_none]
  rfl

end IntegerWord

/-- The words for the whole numbers that a document may hold are exactly those that are read so. -/
theorem scalar?_eq_integer {w : List Char} {i : Int} :
    scalar? w = some (.integer i) ↔ IntegerWord w i ∧ isInRange i = true := by
  constructor
  · intro h
    rw [← integer?_eq_some]
    unfold scalar? at h
    split at h
    case isTrue => cases h
    case isFalse =>
      split at h
      case isTrue => cases h
      case isFalse =>
        split at h
        case isTrue => cases h
        case isFalse =>
          split at h
          case h_1 => cases h
          case h_2 =>
            obtain ⟨j, hj, heq⟩ := Option.map_eq_some_iff.mp h
            cases heq
            exact hj
  · rintro ⟨hword, hrange⟩
    rw [hword.scalar?_eq, integer?_eq_some.mpr ⟨hword, hrange⟩]
    rfl

/-! ## Written numbers -/

theorem hexValue?_of_isDigit {c : Char} (h : c.isDigit = true) :
    hexValue? c = some (c.toNat - '0'.toNat) := by
  simp only [Char.isDigit, Bool.and_eq_true, decide_eq_true_eq] at h
  have hlow : '0' ≤ c := h.1
  have hhigh : c ≤ '9' := h.2
  simp [hexValue?, hlow, hhigh]

theorem isDigitOf_ten {c : Char} (h : c.isDigit = true) : isDigitOf 10 c = true := by
  have hc := Char.isDigit_iff_toNat.mp h
  have hlow : '0'.toNat = 48 := rfl
  have hhigh : '9'.toNat = 57 := rfl
  simp only [isDigitOf, hexValue?_of_isDigit h, decide_eq_true_eq]
  omega

theorem isDigit_of_mem_digits {n : Nat} {c : Char} (h : c ∈ Nat.toDigits 10 n) :
    c.isDigit = true :=
  Nat.isDigit_of_mem_toDigits (Nat.zero_lt_succ 9) (Nat.le_refl 10) h

theorem numeral_digits (n : Nat) : numeral 10 (Nat.toDigits 10 n) = n := by
  have hread : numeral 10 (Nat.toDigits 10 n) = Nat.ofDigitChars 10 (Nat.toDigits 10 n) 0 := by
    rw [numeral, Nat.ofDigitChars_eq_foldl]
    refine List.foldl_ext _ _ 0 fun m c hc => ?_
    rw [hexValue?_of_isDigit (isDigit_of_mem_digits hc), Option.getD_some]
  rw [hread, Nat.ofDigitChars_toDigits (by decide) (by decide)]

theorem digits_head_ne_zero {n : Nat} (hn : n ≠ 0) :
    (Nat.toDigits 10 n).head? ≠ some '0' := by
  induction n using Nat.strongRecOn with
  | ind n ih =>
    rw [Nat.toDigits_eq_if (by decide)]
    split
    case isTrue hlt =>
      rw [List.head?_cons, ne_eq, Option.some.injEq, ← Char.toNat_inj,
        Nat.toNat_digitChar_of_lt_ten hlt]
      have hzero : '0'.toNat = 48 := rfl
      omega
    case isFalse hge =>
      rw [List.head?_append_of_ne_nil _ Nat.toDigits_ne_nil]
      exact ih (n / 10) (by omega) (by omega)

theorem decimal_digits (n : Nat) : Decimal (Nat.toDigits 10 n) (Nat.toDigits 10 n) where
  grouped := .last Nat.toDigits_ne_nil fun _ hc => isDigitOf_ten (isDigit_of_mem_digits hc)
  head_zero hhead := by
    by_cases hn : n = 0
    · rw [hn]
      rfl
    · exact absurd hhead (digits_head_ne_zero hn)

theorem integerWord_digits (n : Nat) : IntegerWord (Nat.toDigits 10 n) n := by
  have hword := IntegerWord.unsigned (decimal_digits n)
  rwa [numeral_digits] at hword

/-! ## Where a word ends -/

theorem isAlphanum_of_isDigitOf {base : Nat} {c : Char} (h : isDigitOf base c = true) :
    c.isAlphanum = true := by
  have hvalue : (hexValue? c).isSome = true := by
    unfold isDigitOf at h
    split at h
    case h_1 v hv => rw [hv, Option.isSome_some]
    case h_2 => cases h
  have hle {a b : Char} (hab : (a ≤ c && c ≤ b) = true) : a.val ≤ c.val ∧ c.val ≤ b.val := by
    simp only [Bool.and_eq_true, decide_eq_true_eq] at hab
    exact hab
  -- Of the letters, only the first six are digits.
  have hletter {a b z : Char} (hbz : b.val ≤ z.val) (hab : (a ≤ c && c ≤ b) = true) :
      a.val ≤ c.val ∧ c.val ≤ z.val :=
    ⟨(hle hab).1, UInt32.le_trans (hle hab).2 hbz⟩
  change (c.isUpper || c.isLower || c.isDigit) = true
  unfold hexValue? at hvalue
  split at hvalue
  case isTrue hdigit =>
    have hc : c.isDigit = true :=
      Bool.and_eq_true_iff.mpr ((hle hdigit).imp decide_eq_true decide_eq_true)
    rw [hc, Bool.or_true]
  case isFalse =>
    split at hvalue
    case isTrue hlower =>
      have hc : c.isLower = true := Bool.and_eq_true_iff.mpr
        ((hletter (z := 'z') (by decide) hlower).imp decide_eq_true decide_eq_true)
      rw [hc, Bool.or_true, Bool.true_or]
    case isFalse =>
      split at hvalue
      case isTrue hupper =>
        have hc : c.isUpper = true := decide_eq_true (hletter (z := 'Z') (by decide) hupper)
        rw [hc, Bool.true_or, Bool.true_or]
      case isFalse => cases hvalue

theorem Grouped.isWordChar {base : Nat} {cs ds : List Char} (h : Grouped base cs ds) :
    ∀ c ∈ cs, isWordChar c = true := by
  intro c hc
  rcases h.mem hc with hdigit | rfl
  · simp [Toml.isWordChar, isAlphanum_of_isDigitOf hdigit]
  · decide

namespace IntegerWord

variable {w : List Char} {i : Int} (h : IntegerWord w i)
include h

theorem isWordChar : ∀ c ∈ w, isWordChar c = true := by
  cases h with
  | unsigned h => exact h.grouped.isWordChar
  | positive h => exact List.forall_mem_cons.mpr ⟨by decide, h.grouped.isWordChar⟩
  | negative h => exact List.forall_mem_cons.mpr ⟨by decide, h.grouped.isWordChar⟩
  | hexadecimal h =>
    exact List.forall_mem_cons.mpr
      ⟨by decide, List.forall_mem_cons.mpr ⟨by decide, h.isWordChar⟩⟩
  | octal h =>
    exact List.forall_mem_cons.mpr
      ⟨by decide, List.forall_mem_cons.mpr ⟨by decide, h.isWordChar⟩⟩
  | binary h =>
    exact List.forall_mem_cons.mpr
      ⟨by decide, List.forall_mem_cons.mpr ⟨by decide, h.isWordChar⟩⟩

end IntegerWord

theorem word_append {w : List Char} (hw : ∀ c ∈ w, isWordChar c = true) (hdate : date? w ≠ some [])
    {c : Char} (hc : isWordChar c = false) (r : List Char) : word (w ++ c :: r) = (w, c :: r) := by
  obtain ⟨htake, hdrop⟩ := run_append (r := c :: r) hw fun d hd => Option.some.inj hd ▸ hc
  simp [word, htake, hdrop, hdate]

end SlotStore.Toml
