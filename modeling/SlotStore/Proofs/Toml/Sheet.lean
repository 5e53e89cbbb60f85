import Mathlib.Data.List.Nodup
import SlotStore.Proofs.Toml.Numeral
import SlotStore.Proofs.Toml.Reader

/-!
# Sheets

The simplest documents are sheets: a line `name = value` for each entry, and nothing else. A sheet
whose names are all different is read as the entries that its lines say, in their order
(`read?_sheet`).
-/

namespace SlotStore.Toml

/-! ## Texts that begin like a key -/

theorem skipBlanks_cons {c : Char} (h : isBlank c = false) (r : List Char) :
    skipBlanks (c :: r) = c :: r :=
  List.dropWhile_cons_of_neg (by simp [h])

theorem ne_of_isKeyChar {c m : Char} (h : isKeyChar c = true) (hm : isKeyChar m = false) :
    c ≠ m := by
  rintro rfl
  simp [h] at hm

section
variable {c : Char} (h : isKeyChar c = true) (r : List Char)
include h

theorem cons_ne_of_isKeyChar {m : Char} (hm : isKeyChar m = false) (s : List Char) :
    c :: r ≠ m :: s :=
  fun heq => ne_of_isKeyChar h hm (List.cons.inj heq).1

theorem isBlank_of_isKeyChar : isBlank c = false := by
  simp [isBlank, ne_of_isKeyChar h (m := ' ') rfl, ne_of_isKeyChar h (m := '\t') rfl]

theorem skipBlanks_of_isKeyChar : skipBlanks (c :: r) = c :: r :=
  skipBlanks_cons (isBlank_of_isKeyChar h) r

theorem lineEnd?_of_isKeyChar : lineEnd? (c :: r) = none := by
  have hcomment : skipComment (c :: r) = c :: r := by
    unfold skipComment
    split
    case h_1 heq => exact absurd heq (cons_ne_of_isKeyChar h _ rfl _)
    case h_2 => rfl
  rw [lineEnd?, skipBlanks_of_isKeyChar h, hcomment]
  change lineBreak? (c :: r) = none
  unfold lineBreak?
  split
  case h_1 heq => exact absurd heq (cons_ne_of_isKeyChar h _ rfl _)
  case h_2 heq => exact absurd heq (cons_ne_of_isKeyChar h _ rfl _)
  case h_3 => rfl

end

theorem isBlank_of_isWordChar {c : Char} (h : isWordChar c = true) : isBlank c = false := by
  have hne {m : Char} (hm : isWordChar m = false) : c ≠ m := by
    rintro rfl
    simp [h] at hm
  simp [isBlank, hne (m := ' ') rfl, hne (m := '\t') rfl]

/-! ## Names -/

/-- Whether a name can be written without quotes. -/
def IsBare (name : String) : Prop :=
  name.toList ≠ [] ∧ ∀ c ∈ name.toList, isKeyChar c = true

instance (name : String) : Decidable (IsBare name) := inferInstanceAs (Decidable (_ ∧ _))

namespace IsBare

variable {name : String} (h : IsBare name) (r : List Char)
include h

theorem exists_cons : ∃ c rest, name.toList ++ r = c :: rest ∧ isKeyChar c = true := by
  obtain ⟨c, rest, hc⟩ := List.exists_cons_of_ne_nil h.1
  exact ⟨c, rest ++ r, by rw [hc]; rfl, h.2 c (by simp [hc])⟩

theorem keyText_append {c : Char} (hc : isKeyChar c = false) :
    keyText (name.toList ++ c :: r) = some (name.toList, c :: r) := by
  obtain ⟨htake, hdrop⟩ := run_append (r := c :: r) h.2 fun d hd => Option.some.inj hd ▸ hc
  obtain ⟨d, rest, hd, hkey⟩ := h.exists_cons (c :: r)
  unfold keyText
  split
  case h_1 heq => exact absurd (hd.symm.trans heq) (cons_ne_of_isKeyChar hkey _ rfl _)
  case h_2 heq => exact absurd (hd.symm.trans heq) (cons_ne_of_isKeyChar hkey _ rfl _)
  case h_3 =>
    rw [htake, hdrop]
    split
    case h_1 heq => exact absurd heq h.1
    case h_2 => rfl

theorem key_append :
    key (name.toList ++ ' ' :: r) = some
      (⟨name, ⟨(name.toList ++ ' ' :: r).length, (' ' :: r).length⟩⟩, skipBlanks (' ' :: r)) := by
  have hblanks : skipBlanks (name.toList ++ ' ' :: r) = name.toList ++ ' ' :: r := by
    obtain ⟨c, rest, hc, hkey⟩ := h.exists_cons (' ' :: r)
    rw [hc, skipBlanks_of_isKeyChar hkey]
  rw [key, hblanks, h.keyText_append r rfl, Option.map_some]
  simp only [String.ofList_toList]

theorem path_append :
    ∃ k : Key, k.name = name ∧
      path (name.toList ++ ' ' :: '=' :: r) = some (⟨[], k⟩, '=' :: r) := by
  have hkey := h.key_append ('=' :: r)
  refine ⟨⟨name, ⟨(name.toList ++ ' ' :: '=' :: r).length, (' ' :: '=' :: r).length⟩⟩, rfl, ?_⟩
  rw [path, separated, hkey]
  rfl

end IsBare

/-! ## Rows -/

/-- Characters that are read as a datum where the line ends behind them. -/
structure Spells (text : List Char) (d : Datum) : Prop where
  starts : ∃ c rest, text = c :: rest ∧ isBlank c = false
  value_eq (r : List Char) : value (nestingLimit - 1) (text ++ '\n' :: r) = some (d, '\n' :: r)

theorem spells_word {w : List Char} {s : Scalar} (hne : w ≠ [])
    (hw : ∀ c ∈ w, isWordChar c = true) (hdate : date? w ≠ some []) (hs : scalar? w = some s) :
    Spells w s.datum := by
  obtain ⟨c, rest, hc⟩ := List.exists_cons_of_ne_nil hne
  have hword : isWordChar c = true := hw c (by simp [hc])
  refine ⟨⟨c, rest, hc, isBlank_of_isWordChar hword⟩, fun r => ?_⟩
  have hends := word_append hw hdate (c := '\n') rfl r
  rw [hc, List.cons_append] at hends ⊢
  rw [value_of_isWordChar hword, hends, ← hc, hs]
  rfl

/-- A number is spelled by every word for it. -/
theorem spells_integer {w : List Char} {i : Int} (h : IntegerWord w i) (hi : isInRange i = true) :
    Spells w (.integer i) := by
  obtain ⟨c, rest, hc, _⟩ := h.exists_cons
  have hdate : date? w ≠ some [] := by simp [h.date?_eq_none]
  exact spells_word (by simp [hc]) h.isWordChar hdate (scalar?_eq_integer.mpr ⟨h, hi⟩)

/-- A line of a sheet: a bare name and the text of a datum. -/
structure Row where
  name : String
  text : List Char
  datum : Datum
  bare : IsBare name
  spelled : Spells text datum

namespace Row

/-- The line with its end. -/
def chars (w : Row) : List Char := w.name.toList ++ ' ' :: '=' :: ' ' :: (w.text ++ ['\n'])

def field (w : Row) : String × Datum := (w.name, w.datum)

def ofNat (name : String) (n : Nat) (hname : IsBare name) (hn : isInRange n = true) : Row :=
  ⟨name, Nat.toDigits 10 n, .integer n, hname, spells_integer (integerWord_digits n) hn⟩

end Row

/-- An assignment gives a datum to a name of the outermost table. -/
structure Assignment.Says (a : Assignment) (field : String × Datum) : Prop where
  parents : a.path.parents = []
  name : a.path.last.name = field.1
  value : a.value = field.2

theorem Row.assignment_chars (w : Row) (r : List Char) :
    ∃ a : Assignment, a.Says w.field ∧
      assignment (value (nestingLimit - 1)) (w.chars ++ r) = some (a, '\n' :: r) := by
  obtain ⟨k, hk, hpath⟩ := w.bare.path_append (' ' :: (w.text ++ '\n' :: r))
  obtain ⟨c, rest, hc, hblank⟩ := w.spelled.starts
  have hstart : skipBlanks (' ' :: (w.text ++ '\n' :: r)) = w.text ++ '\n' :: r := by
    rw [hc]
    exact skipBlanks_cons hblank _
  have hchars : w.chars ++ r = w.name.toList ++ ' ' :: '=' :: ' ' :: (w.text ++ '\n' :: r) := by
    simp [chars]
  refine ⟨⟨⟨[], k⟩, ⟨(w.text ++ '\n' :: r).length, ('\n' :: r).length⟩, w.datum⟩,
    ⟨rfl, hk, rfl⟩, ?_⟩
  rw [assignment, hchars, hpath]
  simp only [Option.bind_eq_bind, Option.bind_some, mark?, if_true, hstart, w.spelled.value_eq]
  rfl

theorem Row.line_chars (w : Row) (r : List Char) :
    ∃ a : Assignment, a.Says w.field ∧ line (w.chars ++ r) = some (some (.assignment a), r) := by
  obtain ⟨a, hsays, ha⟩ := w.assignment_chars r
  obtain ⟨c, rest, hc, hkey⟩ := w.bare.exists_cons (' ' :: '=' :: ' ' :: (w.text ++ '\n' :: r))
  have hchars : w.chars ++ r = c :: rest := by
    rw [← hc]
    simp [chars]
  rw [hchars] at ha ⊢
  refine ⟨a, hsays, ?_⟩
  rw [line, skipBlanks_of_isKeyChar hkey]
  split
  case h_1 heq => exact absurd heq (cons_ne_of_isKeyChar hkey _ rfl _)
  case h_2 =>
    simp only [lineEnd?_of_isKeyChar hkey, ha]
    rfl

/-! ## Sheets -/

/-- A document with nothing but rows. -/
def sheet (rows : List Row) : List Char := rows.flatMap Row.chars

theorem lines_sheet (rows : List Row) :
    ∃ as : List Assignment, List.Forall₂ Assignment.Says as (rows.map Row.field) ∧
      lines (sheet rows) = some (as.map .assignment) := by
  induction rows with
  | nil => exact ⟨[], .nil, by rw [sheet, List.flatMap_nil, lines]; rfl⟩
  | cons w rows ih =>
    obtain ⟨as, hsays, has⟩ := ih
    obtain ⟨a, ha, hline⟩ := w.line_chars (sheet rows)
    refine ⟨a :: as, .cons ha hsays, ?_⟩
    have hshorter : (sheet rows).length < (w.chars ++ sheet rows).length := by
      simp [Row.chars]
      omega
    have hnonempty : (w.chars ++ sheet rows).isEmpty = false := by
      rw [List.isEmpty_eq_false_iff_exists_mem]
      exact ⟨'=', by simp [Row.chars]⟩
    rw [sheet, List.flatMap_cons, ← sheet, lines, hnonempty, hline]
    simp only [Bool.false_eq_true, if_false, if_pos hshorter, has, Option.map_some]
    rfl

theorem parts_assignments (as : List Assignment) : parts (as.map .assignment) = (as, []) := by
  induction as with
  | nil => rfl
  | cons a as ih => simp only [List.map_cons, parts, ih]

/-! ## Entries -/

/-- What an assignment to a name of a table puts there. -/
def Assignment.entry (a : Assignment) : Key × Node := (a.path.last, .value a.span a.value)

theorem Entries.lookup?_eq_none {entries : Entries} {name : String}
    (h : name ∉ entries.map fun e => e.1.name) : entries.lookup? name = none := by
  rw [Entries.lookup?, Option.map_eq_none_iff, List.find?_eq_none]
  intro e he hname
  exact h (List.mem_map.mpr ⟨e, he, by simpa using hname⟩)

theorem Entries.assign_of_fresh {entries : Entries} {a : Assignment} (hpath : a.path.parents = [])
    (hfresh : a.path.last.name ∉ entries.map fun e => e.1.name) :
    entries.assign a = some (entries ++ [a.entry]) := by
  have hnone := Entries.lookup?_eq_none hfresh
  rw [Entries.assign, hpath]
  simp [Entries.change, hnone, Assignment.entry]

theorem Entries.assignAll_of_fresh {as : List Assignment} {fields : List (String × Datum)}
    (h : List.Forall₂ Assignment.Says as fields) {entries : Entries}
    (hfresh : (entries.map (fun e => e.1.name) ++ fields.map Prod.fst).Nodup) :
    entries.assignAll as = some (entries ++ as.map Assignment.entry) := by
  induction h generalizing entries with
  | nil => simp [Entries.assignAll]
  | @cons a field as fields ha _ ih =>
    have hnew : a.path.last.name ∉ entries.map fun e => e.1.name := by
      rw [ha.name]
      intro hold
      exact (List.nodup_append.mp hfresh).2.2 _ hold _ List.mem_cons_self rfl
    have hrest : ((entries ++ [a.entry]).map (fun e => e.1.name) ++ fields.map Prod.fst).Nodup := by
      simpa [Assignment.entry, ha.name] using hfresh
    rw [Entries.assignAll, List.foldlM_cons, Entries.assign_of_fresh ha.parents hnew,
      Option.bind_eq_bind, Option.bind_some, ← Entries.assignAll, ih hrest, List.append_assoc]
    rfl

theorem fieldsOf_assigned {as : List Assignment} {fields : List (String × Datum)}
    (h : List.Forall₂ Assignment.Says as fields) : fieldsOf (as.map Assignment.entry) = fields := by
  induction h with
  | nil => rfl
  | @cons a field _ _ ha _ ih =>
    rw [List.map_cons, Assignment.entry, fieldsOf, ih, Node.datum, ha.name, ha.value]

theorem skipByteOrderMark_sheet (rows : List Row) :
    skipByteOrderMark (sheet rows) = sheet rows := by
  unfold skipByteOrderMark
  split
  case h_1 r heq =>
    cases rows with
    | nil => cases heq
    | cons w rows =>
      rw [sheet, List.flatMap_cons, Row.chars, List.append_assoc] at heq
      obtain ⟨c, rest, hc, hkey⟩ := w.bare.exists_cons _
      exact absurd (hc.symm.trans heq) (cons_ne_of_isKeyChar hkey _ rfl _)
  case h_2 => rfl

/-- A sheet is read as what its rows say. -/
theorem read?_sheet {rows : List Row} (hnames : (rows.map Row.name).Nodup) :
    ∃ d, Document.read? (String.ofList (sheet rows)) = some d ∧
      fieldsOf d.entries = rows.map Row.field := by
  obtain ⟨as, hsays, hlines⟩ := lines_sheet rows
  have hassign : Entries.assignAll [] as = some (as.map Assignment.entry) :=
    Entries.assignAll_of_fresh hsays (by simpa [Row.field, Function.comp_def] using hnames)
  refine ⟨⟨as.map Assignment.entry⟩, ?_, fieldsOf_assigned hsays⟩
  rw [Document.read?, String.toList_ofList, skipByteOrderMark_sheet, hlines, Option.bind_some,
    Document.ofLines?, parts_assignments]
  simp [hassign]

end SlotStore.Toml
