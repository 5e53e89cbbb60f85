import Mathlib.Algebra.Group.Nat.Defs
import Mathlib.Data.List.Permutation
import SlotStore.Json.Number
import SlotStore.Proofs.Limits.Acceptance

/-!
# The forms of limits agree

Limits can be given as a JSON object, as a JSON array, and as a document. A value is good or bad for
a limit by itself (`gives_or_refuses`), so neither the form nor the order in which the values are
looked at matters for whether limits are read, and for which (`forms_agree`). What matters is which
value is looked at first if both are bad, and how a format writes a floating point number: documents
always with a point, JSON data with an exponent if the number is very small or very large.
-/

namespace SlotStore

/-! ## JSON numbers -/

namespace Json

theorem le_ofDigitChars (ds : List Char) (n : Nat) : n ≤ Nat.ofDigitChars 10 ds n := by
  induction ds generalizing n with
  | nil => simp
  | cons d ds ih =>
    rw [Nat.ofDigitChars_cons]
    have hrest := ih (10 * n + (d.toNat - '0'.toNat))
    omega

theorem gather_of_lt {ds : List Char} {n : Nat} (h : Nat.ofDigitChars 10 ds n < 1 <<< 64) :
    gather n ds = (Nat.ofDigitChars 10 ds n, []) := by
  induction ds generalizing n with
  | nil => simp [gather]
  | cons d ds ih =>
    rw [Nat.ofDigitChars_cons] at h ⊢
    have hlt : 10 * n + (d.toNat - '0'.toNat) < 1 <<< 64 :=
      Nat.lt_of_le_of_lt (le_ofDigitChars ds _) h
    rw [gather, if_pos hlt, ih h]

theorem digits?_toDigits (n : Nat) :
    digits? (Nat.toDigits 10 n) = some (Nat.toDigits 10 n, []) := by
  have hdigits : ∀ c ∈ Nat.toDigits 10 n, c.isDigit = true := fun c hc =>
    Nat.isDigit_of_mem_toDigits (by decide) (by decide) hc
  have hspan : (Nat.toDigits 10 n).span Char.isDigit = (Nat.toDigits 10 n, []) := by
    rw [List.span_eq_takeWhile_dropWhile, List.takeWhile_eq_self_iff.mpr hdigits,
      List.dropWhile_eq_nil_iff.mpr hdigits]
  rw [digits?, hspan]
  split
  case h_1 heq => exact absurd (Prod.mk.inj heq).1 Nat.toDigits_ne_nil
  case h_2 => rfl

theorem toDigits_ne_minus (n : Nat) (r : List Char) : Nat.toDigits 10 n ≠ '-' :: r := by
  intro heq
  have hminus : '-' ∈ Nat.toDigits 10 n := by simp [heq]
  have hdigit := Nat.isDigit_of_mem_toDigits (by decide) (by decide) hminus
  simp [Char.isDigit] at hdigit

/-- A number that 64 bits hold is read as itself. -/
theorem number?_toDigits {n : Nat} (h : n < 2 ^ 64) :
    number? (Nat.toDigits 10 n) = some (.integer n) := by
  have hnumber : Nat.ofDigitChars 10 (Nat.toDigits 10 n) 0 = n := Nat.ofDigitChars_ten_toDigits
  have hgather : gather 0 (Nat.toDigits 10 n) = (n, []) := by
    have hlt : Nat.ofDigitChars 10 (Nat.toDigits 10 n) 0 < 1 <<< 64 := by
      rw [hnumber]
      omega
    rw [gather_of_lt hlt, hnumber]
  unfold number?
  split
  rename_i negative r hcs
  split at hcs
  case h_1 heq => exact absurd heq (toDigits_ne_minus n _)
  case h_2 =>
    cases hcs
    simp [digits?_toDigits, fraction?, exponent?, hgather, whole?]

end Json

namespace Limits

open Toml

/-! ## Values -/

/-- The limit that a value gives: none if it is null, and otherwise a whole number that is not
negative. -/
inductive Gives : Datum → Option Nat → Prop where
  | null : Gives .null none
  | count (n : Nat) : Gives (.integer n) (some n)

/-- Why a value gives no limit. -/
inductive Refuses : Datum → Misfit → Prop where
  | kind {d : Datum} (hnull : d ≠ .null) (hinteger : ∀ i, d ≠ .integer i) :
      Refuses d (.kind d .count)
  | negative {i : Int} (h : i < 0) : Refuses (.integer i) (.negative i)

theorem gives_or_refuses (d : Datum) : (∃ n, Gives d n) ∨ ∃ m, Refuses d m := by
  cases d with
  | null => exact .inl ⟨none, .null⟩
  | integer i =>
    by_cases hnegative : i < 0
    case pos => exact .inr ⟨_, .negative hnegative⟩
    case neg =>
      obtain ⟨n, rfl⟩ := Int.eq_ofNat_of_zero_le (Int.not_lt.mp hnegative)
      exact .inl ⟨some n, .count n⟩
  | _ => exact .inr ⟨_, .kind (by simp) (by simp)⟩

theorem Gives.bound_eq {d : Datum} {n : Option Nat} (h : Gives d n) : bound d = .ok n := by
  cases h with
  | null => rfl
  | count n => exact bound_natCast n

theorem Refuses.bound_eq {d : Datum} {m : Misfit} (h : Refuses d m) : bound d = .error m := by
  cases h with
  | kind hnull hinteger => exact bound_of_kind hnull hinteger
  | negative h => exact bound_of_negative h

/-- Exactly one of two values is refused. -/
def OneRefused (x y : Datum) (m : Misfit) : Prop :=
  (Refuses x m ∧ ∃ n, Gives y n) ∨ (∃ n, Gives x n) ∧ Refuses y m

/-! ## Fields -/

theorem setField_slotsName {d : Datum} {n : Option Nat} (h : Gives d n) (c : Limits) :
    c.setField slotsName d = .ok { c with slots := n } := by
  rw [setField, if_pos rfl, h.bound_eq]
  rfl

theorem setField_lengthName {d : Datum} {n : Option Nat} (h : Gives d n) (c : Limits) :
    c.setField lengthName d = .ok { c with length := n } := by
  rw [setField, if_neg lengthName_ne_slotsName, if_pos rfl, h.bound_eq]
  rfl

/-- Why a field cannot be taken over, if it cannot. -/
def fault? (f : String × Datum) : Option Misfit :=
  if f.1 = slotsName ∨ f.1 = lengthName then
    match bound f.2 with
    | .ok _ => none
    | .error m => some m
  else some (.unknownField f.1)

theorem setField_of_fault {f : String × Datum} {m : Misfit} (h : fault? f = some m) (c : Limits) :
    c.setField f.1 f.2 = .error m := by
  rw [fault?] at h
  split at h
  case isTrue hname =>
    split at h
    case h_1 => cases h
    case h_2 m' hbound =>
      cases h
      exact setField_of_bound hname hbound
  case isFalse hname =>
    rw [not_or] at hname
    cases h
    rw [setField, if_neg hname.1, if_neg hname.2]

theorem exists_setField_of_fault_none {f : String × Datum} (h : fault? f = none) (c : Limits) :
    ∃ c', c.setField f.1 f.2 = .ok c' := by
  rw [fault?] at h
  split at h
  case isTrue hname =>
    split at h
    case h_1 n hbound =>
      rw [setField, hbound]
      split
      case isTrue => exact ⟨_, rfl⟩
      case isFalse hslots =>
        rw [if_pos (hname.resolve_left hslots)]
        exact ⟨_, rfl⟩
    case h_2 => cases h
  case isFalse => cases h

theorem foldlM_setField_eq_error_iff (fields : List (String × Datum)) (start : Limits)
    (m : Misfit) :
    fields.foldlM (fun limits f => limits.setField f.1 f.2) start = .error m ↔
      fields.findSome? fault? = some m := by
  induction fields generalizing start with
  | nil => simp [pure, Except.pure]
  | cons f fields ih =>
    rw [List.foldlM_cons, List.findSome?_cons]
    cases hfault : fault? f with
    | none =>
      obtain ⟨next, hnext⟩ := exists_setField_of_fault_none hfault start
      rw [hnext]
      exact ih next
    | some m' =>
      rw [setField_of_fault hfault start]
      simp [bind, Except.bind]

theorem ofFields_eq_error_iff {fields : List (String × Datum)} {m : Misfit} :
    ofFields fields = .error m ↔ fields.findSome? fault? = some m :=
  foldlM_setField_eq_error_iff fields {} m

theorem exists_ofFields_error {fields : List (String × Datum)} {f : String × Datum} {m : Misfit}
    (hf : f ∈ fields) (h : fault? f = some m) : ∃ m', ofFields fields = .error m' := by
  have hsome : (fields.findSome? fault?).isSome := by
    rw [List.findSome?_isSome_iff]
    exact ⟨f, hf, by simp [h]⟩
  obtain ⟨m', hm'⟩ := Option.isSome_iff_exists.mp hsome
  exact ⟨m', ofFields_eq_error_iff.mpr hm'⟩

theorem ofFields_of_only_fault {fields : List (String × Datum)} {f : String × Datum} {m : Misfit}
    (hf : f ∈ fields) (h : fault? f = some m) (honly : ∀ f' ∈ fields, ∀ m', fault? f' = some m' →
      m' = m) : ofFields fields = .error m := by
  obtain ⟨m', hm'⟩ := exists_ofFields_error hf h
  obtain ⟨f', hf', hfault'⟩ := List.exists_of_findSome?_eq_some (ofFields_eq_error_iff.mp hm')
  rw [hm', honly f' hf' m' hfault']

theorem exists_ofFields_error_of_unknown {fields : List (String × Datum)} {name : String}
    {d : Datum} (hf : (name, d) ∈ fields) (hslots : name ≠ slotsName)
    (hlength : name ≠ lengthName) : ∃ m, ofFields fields = .error m := by
  refine exists_ofFields_error (m := .unknownField name) hf ?_
  rw [fault?, if_neg (not_or.mpr ⟨hslots, hlength⟩)]

/-! ## Fields for two values -/

/-- The fields that say a value under a name: one, but there may be none if the value is null. -/
inductive Field (name : String) : Datum → List (String × Datum) → Prop where
  | present (d : Datum) : Field name d [(name, d)]
  | omitted : Field name .null []

/-- Fields that say two values, each under the name of its limit, in any order. -/
def Fields (x y : Datum) (fields : List (String × Datum)) : Prop :=
  ∃ xs ys, Field slotsName x xs ∧ Field lengthName y ys ∧ fields.Perm (xs ++ ys)

section
variable {name : String} {d : Datum} {fields : List (String × Datum)}

theorem Field.eq_of_mem (h : Field name d fields) {f : String × Datum} (hf : f ∈ fields) :
    f = (name, d) := by
  cases h with
  | present => exact List.mem_singleton.mp hf
  | omitted => cases hf

theorem Field.mem_of_refuses (h : Field name d fields) {m : Misfit} (hm : Refuses d m) :
    (name, d) ∈ fields := by
  cases h with
  | present => exact List.mem_singleton.mpr rfl
  | omitted =>
    cases hm with
    | kind hnull => exact absurd rfl hnull

variable (hname : name = slotsName ∨ name = lengthName)
include hname

theorem fault?_of_gives {n : Option Nat} (h : Gives d n) : fault? (name, d) = none := by
  rw [fault?, if_pos hname, h.bound_eq]

theorem fault?_of_refuses {m : Misfit} (h : Refuses d m) : fault? (name, d) = some m := by
  rw [fault?, if_pos hname, h.bound_eq]

end

namespace Fields

variable {x y : Datum} {fields : List (String × Datum)} (h : Fields x y fields)
include h

theorem perm {fields' : List (String × Datum)} (hperm : fields'.Perm fields) :
    Fields x y fields' := by
  obtain ⟨xs, ys, hx, hy, hfields⟩ := h
  exact ⟨xs, ys, hx, hy, hperm.trans hfields⟩

theorem eq_of_mem {f : String × Datum} (hf : f ∈ fields) :
    f = (slotsName, x) ∨ f = (lengthName, y) := by
  obtain ⟨xs, ys, hx, hy, hfields⟩ := h
  rw [hfields.mem_iff, List.mem_append] at hf
  exact hf.imp hx.eq_of_mem hy.eq_of_mem

theorem mem_of_refuses_slots {m : Misfit} (hm : Refuses x m) : (slotsName, x) ∈ fields := by
  obtain ⟨xs, ys, hx, hy, hfields⟩ := h
  exact hfields.mem_iff.mpr (List.mem_append_left ys (hx.mem_of_refuses hm))

theorem mem_of_refuses_length {m : Misfit} (hm : Refuses y m) : (lengthName, y) ∈ fields := by
  obtain ⟨xs, ys, hx, hy, hfields⟩ := h
  exact hfields.mem_iff.mpr (List.mem_append_right xs (hy.mem_of_refuses hm))

theorem ofFields_eq_ok {slots length : Option Nat} (hx : Gives x slots) (hy : Gives y length) :
    ofFields fields = .ok { slots, length } := by
  obtain ⟨xs, ys, hxs, hys, hfields⟩ := h
  cases hxs with
  | omitted =>
    cases hx
    cases hys with
    | omitted =>
      cases hy
      rw [hfields.eq_nil]
      rfl
    | present =>
      rw [List.perm_singleton.mp hfields, ofFields, List.foldlM_cons, setField_lengthName hy]
      rfl
  | present =>
    cases hys with
    | omitted =>
      cases hy
      rw [List.perm_singleton.mp hfields, ofFields, List.foldlM_cons, setField_slotsName hx]
      rfl
    | present =>
      rcases List.perm_pair.mp hfields with hfields | hfields
      · rw [hfields]
        simp only [ofFields, List.foldlM_cons, setField_slotsName hx, setField_lengthName hy]
        rfl
      · rw [hfields]
        simp only [ofFields, List.foldlM_cons, setField_slotsName hx, setField_lengthName hy]
        rfl

theorem exists_ofFields_error {m : Misfit} (hm : Refuses x m ∨ Refuses y m) :
    ∃ m', ofFields fields = .error m' := by
  rcases hm with hx | hy
  · exact Limits.exists_ofFields_error (h.mem_of_refuses_slots hx) (fault?_of_refuses (.inl rfl) hx)
  · exact Limits.exists_ofFields_error (h.mem_of_refuses_length hy)
      (fault?_of_refuses (.inr rfl) hy)

/-- If only one value is bad, it is reported, whichever stands first. -/
theorem ofFields_of_oneRefused {m : Misfit} (hm : OneRefused x y m) :
    ofFields fields = .error m := by
  rcases hm with ⟨hx, n, hy⟩ | ⟨⟨n, hx⟩, hy⟩
  · have hfault := fault?_of_refuses (.inl rfl) hx
    refine ofFields_of_only_fault (h.mem_of_refuses_slots hx) hfault fun f hf m' hm' => ?_
    rcases h.eq_of_mem hf with rfl | rfl
    · exact Option.some.inj (hm'.symm.trans hfault)
    · cases hm'.symm.trans (fault?_of_gives (.inr rfl) hy)
  · have hfault := fault?_of_refuses (.inr rfl) hy
    refine ofFields_of_only_fault (h.mem_of_refuses_length hy) hfault fun f hf m' hm' => ?_
    rcases h.eq_of_mem hf with rfl | rfl
    · cases hm'.symm.trans (fault?_of_gives (.inl rfl) hx)
    · exact Option.some.inj (hm'.symm.trans hfault)

end Fields

/-! ## The forms -/

/-- Objects are looked at in ascending order of the names, which changes nothing. -/
theorem Fields.byName {x y : Datum} {fields : List (String × Datum)} (h : Fields x y fields) :
    Fields x y (byName fields) :=
  h.perm (List.mergeSort_perm fields _)

theorem foldlM_setEntry_eq_error {entries : Entries} {start : Limits} {m : Misfit}
    (h : (fieldsOf entries).foldlM (fun limits f => limits.setField f.1 f.2) start = .error m) :
    ∃ span, entries.foldlM setEntry start = .error (.misfit m span) := by
  induction entries generalizing start with
  | nil => cases h
  | cons e entries ih =>
    rw [fieldsOf, List.foldlM_cons] at h
    rw [List.foldlM_cons, setEntry]
    cases hfield : start.setField e.1.name e.2.datum with
    | error m' =>
      rw [hfield] at h
      cases h
      exact ⟨_, rfl⟩
    | ok next =>
      rw [hfield] at h
      exact ih h

theorem ofDocument_eq_error {d : Document} {m : Misfit}
    (h : ofFields (fieldsOf d.entries) = .error m) :
    ∃ span, ofDocument d = .error (.misfit m span) :=
  foldlM_setEntry_eq_error h

theorem ofElements_eq_ok {x y : Datum} {slots length : Option Nat} (hx : Gives x slots)
    (hy : Gives y length) : ofElements [x, y] = .ok { slots, length } := by
  rw [ofElements, hx.bound_eq, hy.bound_eq]
  rfl

theorem ofElements_of_oneRefused {x y : Datum} {m : Misfit} (hm : OneRefused x y m) :
    ofElements [x, y] = .error m := by
  rcases hm with ⟨hx, -⟩ | ⟨⟨n, hx⟩, hy⟩
  · rw [ofElements, hx.bound_eq]
    rfl
  · rw [ofElements, hx.bound_eq, hy.bound_eq]
    rfl

theorem exists_ofElements_error {x y : Datum} {m : Misfit} (hm : Refuses x m ∨ Refuses y m)
    (rest : List Datum) : ∃ m', ofElements (x :: y :: rest) = .error m' := by
  rw [ofElements]
  cases hslots : bound x with
  | error m' => exact ⟨m', rfl⟩
  | ok slots =>
    rcases hm with hx | hy
    · cases hslots.symm.trans hx.bound_eq
    · rw [hy.bound_eq]
      exact ⟨m, rfl⟩

theorem exists_ofElements_error_of_surplus (x y z : Datum) (rest : List Datum) :
    ∃ m, ofElements (x :: y :: z :: rest) = .error m := by
  rcases gives_or_refuses x with ⟨n, hx⟩ | ⟨m, hx⟩
  case inr => exact exists_ofElements_error (.inl hx) _
  case inl =>
    rcases gives_or_refuses y with ⟨n', hy⟩ | ⟨m, hy⟩
    case inr => exact exists_ofElements_error (.inr hy) _
    case inl =>
      rw [ofElements, hx.bound_eq, hy.bound_eq]
      exact ⟨_, rfl⟩

/-! ## What is written as data -/

theorem gives_boundDatum (n : Option Nat) : Gives (boundDatum n) n := by
  cases n with
  | none => exact .null
  | some n => exact .count n

theorem fields_boundDatum (c : Limits) : Fields (boundDatum c.slots) (boundDatum c.length)
    [(slotsName, boundDatum c.slots), (lengthName, boundDatum c.length)] :=
  ⟨_, _, .present _, .present _, .refl _⟩

theorem ofDatum_toDatum (c : Limits) : ofDatum c.toDatum = .ok c :=
  (fields_boundDatum c).byName.ofFields_eq_ok (gives_boundDatum _) (gives_boundDatum _)

/-! ## Reasons -/

/-- A floating point number that all formats write alike: its digits do not depend on which of two
equally near decimals is taken, and JSON data shows it without an exponent, too. -/
def Plain : Binary64 → Prop
  | .finite _ m e => m = 0 ∨ ∃ n k, (∀ tie, Shortest.digits tie m e = (n, k)) ∧
      -4 ≤ Shortest.place n k ∧ Shortest.place n k ≤ 16
  | _ => True

theorem text_of_positional (l : Shortest.Layout) (negative : Bool) {m n : Nat} {e k : Int}
    (hm : m ≠ 0) (hdigits : Shortest.digits l.tie m e = (n, k))
    (hplace : l.isPositional (Shortest.place n k) = true) :
    l.text (.finite negative m e) =
      String.ofList ((if negative then ['-'] else []) ++ Shortest.positional n k) := by
  rw [Shortest.Layout.text, if_neg hm, hdigits]
  simp only [if_pos hplace]

theorem text_of_plain {v : Binary64} (h : Plain v) : Json.layout.text v = Toml.layout.text v := by
  cases v with
  | infinite => rfl
  | undefined => rfl
  | finite negative m e =>
    by_cases hm : m = 0
    case pos =>
      rw [hm]
      rfl
    case neg =>
      obtain ⟨n, k, hdigits, hplace⟩ := h.resolve_left hm
      have hjson : Json.layout.isPositional (Shortest.place n k) = true := by
        simpa [Shortest.Layout.isPositional, Json.layout] using hplace
      have htoml : Toml.layout.isPositional (Shortest.place n k) = true := rfl
      rw [text_of_positional Json.layout negative hm (hdigits .even) hjson,
        text_of_positional Toml.layout negative hm (hdigits .larger) htoml]

theorem reason_of_plain {m : Misfit} (h : ∀ v wanted, m = .kind (.float v) wanted → Plain v) :
    m.reason Json.layout = m.reason Toml.layout := by
  cases m with
  | kind found wanted =>
    have hfound : found.description Json.layout = found.description Toml.layout := by
      cases found with
      | float v => exact congrArg ("floating point `" ++ · ++ "`") (text_of_plain (h v wanted rfl))
      | _ => rfl
    exact congrArg ("invalid type: " ++ · ++ ", expected " ++ wanted.description) hfound
  | _ => rfl

/-- **All forms agree.** Let two values be given as an object, as an array, and as a document, where
those that are null may be left out. Then either all three give the same limits, which the values
say each for itself, or all three are errors; if just one value is bad, all three report it, with
the same cause. The words are the same as well, unless it is a floating point number that the
formats write differently. Another name is an error in objects and documents, and so is a third
element of an array. Limits that are written as data are read back, and so is the text of a number
of 64 bits. -/
theorem forms_agree {x y : Datum} {object : List (String × Datum)} {text : String} {d : Document}
    (hobject : Fields x y object) (hread : Document.read? text = some d)
    (hdocument : Fields x y (fieldsOf d.entries)) :
    ((∃ c, ofDatum (.mapping object) = .ok c ∧ ofDatum (.sequence [x, y]) = .ok c ∧
        ofToml text = .ok c ∧ Gives x c.slots ∧ Gives y c.length) ∨
      ∃ m m' u, ofDatum (.mapping object) = .error m ∧ ofDatum (.sequence [x, y]) = .error m' ∧
        ofToml text = .error u ∧ ∃ m, Refuses x m ∨ Refuses y m) ∧
    (∀ m, OneRefused x y m → ofDatum (.mapping object) = .error m ∧
      ofDatum (.sequence [x, y]) = .error m ∧
      (∃ span lead, ofToml text = .error (.misfit m span) ∧
        (Unreadable.misfit m span).error text =
          .config ("Invalid slot config: " ++ lead ++ m.reason Toml.layout ++ "\n")) ∧
      ((∀ v wanted, m = .kind (.float v) wanted → Plain v) →
        m.reason Json.layout = m.reason Toml.layout)) ∧
    (∀ name z, name ≠ slotsName → name ≠ lengthName →
      (∀ object', (name, z) ∈ object' → ∃ m, ofDatum (.mapping object') = .error m) ∧
      (∀ text' d', Document.read? text' = some d' → (name, z) ∈ fieldsOf d'.entries →
        ∃ u, ofToml text' = .error u) ∧
      ∀ rest, ∃ m, ofDatum (.sequence (x :: y :: z :: rest)) = .error m) ∧
    (∀ c, ofDatum c.toDatum = .ok c) ∧
    ∀ n, n < 2 ^ 64 → Json.number? (Nat.toDigits 10 n) = some (.integer n) := by
  have htext : ofToml text = ofDocument d := by rw [ofToml, hread]
  refine ⟨?_, ?_, ?_, ofDatum_toDatum, fun n => Json.number?_toDigits⟩
  · by_cases hbad : ∃ m, Refuses x m ∨ Refuses y m
    case pos =>
      obtain ⟨m, hm⟩ := hbad
      obtain ⟨m₁, hm₁⟩ := hobject.byName.exists_ofFields_error hm
      obtain ⟨m₂, hm₂⟩ := exists_ofElements_error hm []
      obtain ⟨m₃, hm₃⟩ := hdocument.exists_ofFields_error hm
      obtain ⟨span, hspan⟩ := ofDocument_eq_error hm₃
      exact .inr ⟨m₁, m₂, _, hm₁, hm₂, htext.trans hspan, m, hm⟩
    case neg =>
      obtain ⟨slots, hx⟩ := (gives_or_refuses x).resolve_right fun hm => hbad (hm.imp fun _ => .inl)
      obtain ⟨length, hy⟩ := (gives_or_refuses y).resolve_right fun hm => hbad (hm.imp fun _ => .inr)
      exact .inl ⟨⟨slots, length⟩, hobject.byName.ofFields_eq_ok hx hy, ofElements_eq_ok hx hy,
        htext.trans (ofDocument_eq_ok.mpr (hdocument.ofFields_eq_ok hx hy)), hx, hy⟩
  · intro m hm
    obtain ⟨span, hspan⟩ := ofDocument_eq_error (hdocument.ofFields_of_oneRefused hm)
    obtain ⟨lead, hlead⟩ := misfit_error_text text m span
    exact ⟨hobject.byName.ofFields_of_oneRefused hm, ofElements_of_oneRefused hm,
      ⟨span, lead, htext.trans hspan, hlead⟩, reason_of_plain⟩
  · intro name z hslots hlength
    refine ⟨fun object' hmem => ?_, fun text' d' hread' hmem => ?_,
      exists_ofElements_error_of_surplus x y z⟩
    · have hmem' : (name, z) ∈ byName object' := List.mem_mergeSort.mpr hmem
      exact exists_ofFields_error_of_unknown hmem' hslots hlength
    · obtain ⟨m, hm⟩ := exists_ofFields_error_of_unknown hmem hslots hlength
      obtain ⟨span, hspan⟩ := ofDocument_eq_error hm
      rw [ofToml, hread']
      exact ⟨_, hspan⟩

/-! Reading in the three forms: nested data is as bad for a limit in a document as it is in JSON. -/

def nested : Datum := .sequence [.sequence []]

theorem spells_nested : Spells ['[', '[', ']', ']'] nested := by
  refine ⟨⟨_, _, rfl, rfl⟩, fun r => ?_⟩
  obtain ⟨n, hn⟩ : ∃ n, nestingLimit - 1 = n + 1 + 1 := ⟨_, rfl⟩
  rw [hn]
  simp [value, elements, skipFiller, skipWhite, isBlank, nested]

def nestedRows : List Row :=
  [Row.ofNat lengthName 5 isBare_lengthName (by decide),
    ⟨slotsName, ['[', '[', ']', ']'], nested, isBare_slotsName, spells_nested⟩]

theorem sheet_nestedRows :
    String.ofList (sheet nestedRows) = "max_list_len = 5\nmax_slots = [[]]\n" := by
  rfl

theorem nested_refused_in_all_forms :
    ofDatum (.mapping [(slotsName, nested), (lengthName, .integer 5)]) =
        .error (.kind nested .count) ∧
      ofDatum (.sequence [nested, .integer 5]) = .error (.kind nested .count) ∧
      ∃ span, ofToml "max_list_len = 5\nmax_slots = [[]]\n" =
        .error (.misfit (.kind nested .count) span) := by
  have hnames : (nestedRows.map Row.name).Nodup :=
    List.pairwise_pair.mpr lengthName_ne_slotsName
  obtain ⟨d, hread, hfields⟩ := read?_sheet hnames
  rw [sheet_nestedRows] at hread
  have hdocument : Fields nested (.integer 5) (fieldsOf d.entries) := by
    rw [hfields]
    exact ⟨_, _, .present _, .present _, .swap _ _ _⟩
  have hm : OneRefused nested (.integer 5) (.kind nested .count) :=
    .inl ⟨.kind (by simp [nested]) (by simp [nested]), some 5, .count 5⟩
  obtain ⟨hobject, harray, ⟨span, -, htext, -⟩, -⟩ :=
    (forms_agree ⟨_, _, .present _, .present _, .refl _⟩ hread hdocument).2.1 _ hm
  exact ⟨hobject, harray, span, htext⟩

/-! A large number is refused in all forms, but not in the same words. -/

def large : Binary64 := .finite false 6250000000000000 4

theorem spells_large : Spells ['1', 'e', '1', '7'] (.float large) := by
  have hword : ∀ c ∈ ['1', 'e', '1', '7'], isWordChar c = true := List.all_eq_true.mp rfl
  have hread : scalar? ['1', 'e', '1', '7'] = some (.float large) := by decide +kernel
  exact spells_word (List.cons_ne_nil _ _) hword (by decide) hread

def largeRow : Row :=
  ⟨slotsName, ['1', 'e', '1', '7'], .float large, isBare_slotsName, spells_large⟩

theorem sheet_largeRow : String.ofList (sheet [largeRow]) = "max_slots = 1e17\n" := rfl

theorem reason_large (l : Shortest.Layout) {words : String} (h : l.text large = words) :
    (Misfit.kind (.float large) .count).reason l =
      "invalid type: " ++ ("floating point `" ++ words ++ "`") ++ ", expected " ++ "usize" :=
  congrArg
    (fun t => "invalid type: " ++ ("floating point `" ++ t ++ "`") ++ ", expected " ++ "usize") h

theorem large_is_worded_differently :
    ∃ d span lead m, Document.read? "max_slots = 1e17\n" = some d ∧
      fieldsOf d.entries = [(slotsName, .float large)] ∧ OneRefused (.float large) .null m ∧
      ofDatum (.mapping [(slotsName, .float large)]) = .error m ∧
      ofDatum (.sequence [.float large, .null]) = .error m ∧
      ofToml "max_slots = 1e17\n" = .error (.misfit m span) ∧
      (Unreadable.misfit m span).error "max_slots = 1e17\n" =
        .config ("Invalid slot config: " ++ lead ++ m.reason Toml.layout ++ "\n") ∧
      m.reason Json.layout = "invalid type: floating point `1e+17`, expected usize" ∧
      m.reason Toml.layout =
        "invalid type: floating point `100000000000000000.0`, expected usize" ∧
      m.reason Json.layout ≠ m.reason Toml.layout := by
  have hm : OneRefused (.float large) .null (.kind (.float large) .count) :=
    .inl ⟨.kind (by simp) (by simp), none, .null⟩
  have hobject : Fields (.float large) .null [(slotsName, .float large)] :=
    ⟨_, [], .present _, .omitted, .refl _⟩
  have hnames : ([largeRow].map Row.name).Nodup := List.nodup_singleton _
  obtain ⟨d, hread, hd⟩ := read?_sheet hnames
  rw [sheet_largeRow] at hread
  have hfields : fieldsOf d.entries = [(slotsName, .float large)] := hd
  have hdocument : Fields (.float large) .null (fieldsOf d.entries) := hfields ▸ hobject
  obtain ⟨span, hspan⟩ := ofDocument_eq_error (hdocument.ofFields_of_oneRefused hm)
  obtain ⟨lead, hlead⟩ :=
    misfit_error_text "max_slots = 1e17\n" (.kind (.float large) .count) span
  have htext : ofToml "max_slots = 1e17\n" = ofDocument d := by rw [ofToml, hread]
  have hjson : Json.layout.text large = "1e+17" := by decide +kernel
  have htoml : Toml.layout.text large = "100000000000000000.0" := by decide +kernel
  exact ⟨d, span, lead, _, hread, hfields, hm, hobject.byName.ofFields_of_oneRefused hm,
    ofElements_of_oneRefused hm, htext.trans hspan, hlead, reason_large Json.layout hjson,
    reason_large Toml.layout htoml,
    by simp [reason_large Json.layout hjson, reason_large Toml.layout htoml]⟩

end Limits

end SlotStore
