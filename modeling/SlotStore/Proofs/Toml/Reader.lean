import Mathlib.Data.List.Infix
import SlotStore.Toml.Document

/-!
# Readers take characters off the front

Whatever a reader of documents leaves is an end of the text it was given (`value_suffix` and the
lemmas before it, one for each reader). That is what makes a number of characters left a place in
the text, so that keys and values stand where their places say (`Key.StandsIn`,
`Assignment.StandsIn`).
-/

namespace SlotStore.Toml

/-- A reader whose rest is always an end of the text. -/
def Reads {α : Type} (reader : List Char → Option (α × List Char)) : Prop :=
  ∀ ⦃cs : List Char⦄ ⦃a : α⦄ ⦃r : List Char⦄, reader cs = some (a, r) → r <:+ cs

/-! ## Blanks and line ends -/

theorem skipBlanks_suffix (cs : List Char) : skipBlanks cs <:+ cs :=
  List.dropWhile_suffix isBlank

theorem lineBreak?_suffix {cs r : List Char} (h : lineBreak? cs = some r) : r <:+ cs := by
  unfold lineBreak? at h
  split at h
  case h_1 =>
    cases h
    exact List.suffix_cons _ _
  case h_2 =>
    cases h
    exact List.suffix_append ['\r', '\n'] r
  case h_3 => cases h

theorem skipComment_suffix (cs : List Char) : skipComment cs <:+ cs := by
  unfold skipComment
  split
  case h_1 r => exact (List.dropWhile_suffix _).trans (List.suffix_cons _ _)
  case h_2 => exact List.suffix_rfl

theorem lineEnd?_suffix {cs r : List Char} (h : lineEnd? cs = some r) : r <:+ cs := by
  have hskip := (skipComment_suffix (skipBlanks cs)).trans (skipBlanks_suffix cs)
  unfold lineEnd? at h
  split at h
  case h_1 =>
    cases h
    exact List.nil_suffix
  case h_2 => exact (lineBreak?_suffix h).trans hskip

theorem skipWhite_suffix (cs : List Char) : skipWhite cs <:+ cs := by
  fun_induction skipWhite cs with
  | case1 r ih => exact ih.trans (List.suffix_cons _ _)
  | case2 r ih => exact ih.trans (List.suffix_append ['\r', '\n'] r)
  | case3 c r _ _ _ ih => exact ih.trans (List.suffix_cons _ _)
  | case4 => exact List.suffix_rfl
  | case5 => exact List.suffix_rfl

theorem skipFiller_suffix (cs : List Char) : skipFiller cs <:+ cs := by
  fun_induction skipFiller cs with
  | case1 cs r h _ ih =>
    have hcomment : '#' :: r <:+ cs := h ▸ skipWhite_suffix cs
    exact ih.trans ((List.dropWhile_suffix _).trans ((List.suffix_cons _ _).trans hcomment))
  | case2 cs => exact skipWhite_suffix cs

theorem mark?_suffix {m : Char} {cs r : List Char} (h : mark? m cs = some r) : r <:+ cs := by
  cases cs with
  | nil => cases h
  | cons c cs =>
    simp only [mark?, Option.ite_none_right_eq_some, Option.some.injEq] at h
    exact h.2 ▸ List.suffix_cons c cs

/-! ## Strings -/

theorem codePoint?_suffix (k n : Nat) : Reads (codePoint? k n) := by
  intro cs c r h
  induction k generalizing n cs with
  | zero =>
    simp only [codePoint?, Option.map_eq_some_iff, Prod.mk.injEq] at h
    obtain ⟨_, _, _, rfl⟩ := h
    exact List.suffix_rfl
  | succ k ih =>
    cases cs with
    | nil => cases h
    | cons d cs =>
      simp only [codePoint?, Option.bind_eq_some_iff] at h
      obtain ⟨v, _, h⟩ := h
      exact (ih _ h).trans (List.suffix_cons d cs)

theorem escape?_suffix : Reads escape? := by
  intro cs c r h
  unfold escape? at h
  split at h
  case h_8 | h_9 => exact (codePoint?_suffix _ _ h).trans (List.suffix_cons _ _)
  case h_10 => cases h
  all_goals
    cases h
    exact List.suffix_cons _ _

theorem escapedBreak?_suffix {cs r : List Char} (h : escapedBreak? cs = some r) : r <:+ cs := by
  simp only [escapedBreak?, Option.map_eq_some_iff] at h
  obtain ⟨s, hs, rfl⟩ := h
  exact (skipWhite_suffix s).trans ((lineBreak?_suffix hs).trans (skipBlanks_suffix cs))

theorem suffix_of_before {c : Char} {x : Option (List Char × List Char)} {cs s r : List Char}
    (h : x.map (before c) = some (s, r)) (hx : ∀ s, x = some (s, r) → r <:+ cs) : r <:+ cs := by
  simp only [Option.map_eq_some_iff] at h
  obtain ⟨⟨s', r'⟩, hread, h⟩ := h
  cases h
  exact hx s' hread

theorem basicString_suffix : Reads basicString := by
  intro cs s r h
  fun_induction basicString cs generalizing s with
  | case1 r' =>
    cases h
    exact List.suffix_cons _ _
  | case2 cs c r' hescape _ ih =>
    refine suffix_of_before h fun s hs => (ih hs).trans ?_
    exact (escape?_suffix hescape).trans (List.suffix_cons _ _)
  | case3 => cases h
  | case4 c cs _ _ _ ih =>
    exact suffix_of_before h fun s hs => (ih hs).trans (List.suffix_cons _ _)
  | case5 => cases h
  | case6 => cases h

theorem literalString_suffix : Reads literalString := by
  intro cs s r h
  unfold literalString at h
  split at h
  case h_1 r' hdrop =>
    cases h
    have hquote : '\'' :: r <:+ cs := hdrop ▸ List.dropWhile_suffix _
    exact (List.suffix_cons _ _).trans hquote
  case h_2 => cases h

theorem closing?_suffix (quote : Char) : Reads (closing? quote) := by
  intro cs s r h
  unfold closing? at h
  split at h
  case h_2 => cases h
  case h_1 a b c t =>
    have hquotes : t <:+ a :: b :: c :: t := List.suffix_append [a, b, c] t
    have hone (d : Char) (u : List Char) : u <:+ d :: u := List.suffix_cons d u
    refine List.IsSuffix.trans ?_ hquotes
    split at h
    case isFalse => cases h
    case isTrue =>
      split at h
      case h_1 d e u =>
        split at h
        case isTrue =>
          cases h
          exact (hone e r).trans (hone d _)
        case isFalse =>
          split at h
          case isTrue =>
            cases h
            exact hone d _
          case isFalse =>
            cases h
            exact List.suffix_rfl
      case h_2 d =>
        split at h
        case isTrue =>
          cases h
          exact List.nil_suffix
        case isFalse =>
          cases h
          exact List.suffix_rfl
      case h_3 =>
        cases h
        exact List.suffix_rfl

theorem multilineBasicString_suffix : Reads multilineBasicString := by
  intro cs s r h
  fun_induction multilineBasicString cs generalizing s with
  | case1 cs hit hclosing =>
    cases h
    exact closing?_suffix '"' hclosing
  | case2 cs r' hbreak _ _ ih =>
    exact (ih h).trans ((escapedBreak?_suffix hbreak).trans (List.suffix_cons _ _))
  | case3 cs _ c r' hescape _ _ ih =>
    refine suffix_of_before h fun s hs => (ih hs).trans ?_
    exact (escape?_suffix hescape).trans (List.suffix_cons _ _)
  | case4 => cases h
  | case5 cs _ ih =>
    refine suffix_of_before h fun s hs => (ih hs).trans ?_
    exact List.suffix_append ['\r', '\n'] cs
  | case6 c cs _ _ _ _ ih =>
    exact suffix_of_before h fun s hs => (ih hs).trans (List.suffix_cons c cs)
  | case7 => cases h
  | case8 => cases h

theorem multilineLiteralString_suffix : Reads multilineLiteralString := by
  intro cs s r h
  fun_induction multilineLiteralString cs generalizing s with
  | case1 cs hit hclosing =>
    cases h
    exact closing?_suffix '\'' hclosing
  | case2 cs _ ih =>
    refine suffix_of_before h fun s hs => (ih hs).trans ?_
    exact List.suffix_append ['\r', '\n'] cs
  | case3 c cs _ _ _ ih =>
    exact suffix_of_before h fun s hs => (ih hs).trans (List.suffix_cons c cs)
  | case4 => cases h
  | case5 => cases h

theorem skipFirstBreak_suffix (cs : List Char) : skipFirstBreak cs <:+ cs := by
  unfold skipFirstBreak
  cases h : lineBreak? cs with
  | none => exact List.suffix_rfl
  | some r => exact lineBreak?_suffix h

theorem quoted_suffix {quote : Char} {multiline single : List Char → Option (List Char × List Char)}
    (hmultiline : Reads multiline) (hsingle : Reads single) :
    Reads (quoted quote multiline single) := by
  intro cs d r h
  simp only [quoted, Option.map_eq_some_iff, Prod.mk.injEq] at h
  obtain ⟨⟨s, r'⟩, hread, _, rfl⟩ := h
  split at hread
  case h_1 a b t =>
    split at hread
    case isTrue =>
      have hquotes : t <:+ a :: b :: t := List.suffix_append [a, b] t
      exact (hmultiline hread).trans ((skipFirstBreak_suffix t).trans hquotes)
    case isFalse => exact hsingle hread
  case h_2 => exact hsingle hread

/-! ## Repetition -/

theorem separated_suffix {α : Type} {item : List Char → Option (α × List Char)}
    (hitem : Reads item) (mark : Char) : Reads (separated item mark) := by
  intro cs as r h
  fun_induction separated item mark cs generalizing as r with
  | case1 => cases h
  | case2 cs a hread =>
    cases h
    exact hitem hread
  | case3 cs a r' _ hread ih =>
    simp only [Option.map_eq_some_iff, Prod.mk.injEq] at h
    obtain ⟨⟨as', r''⟩, hrest, _, rfl⟩ := h
    exact (ih hrest).trans ((List.suffix_cons _ _).trans (hitem hread))
  | case4 => cases h
  | case5 cs a c r' hread _ =>
    cases h
    exact hitem hread

theorem elements_suffix {α : Type} {item : List Char → Option (α × List Char)}
    (hitem : Reads item) : Reads (elements item) := by
  intro cs as r h
  fun_induction elements item cs generalizing as r with
  | case1 cs r' hclose =>
    cases h
    have hbracket : ']' :: r' <:+ cs := hclose ▸ skipFiller_suffix cs
    exact (List.suffix_cons _ _).trans hbracket
  | case2 => cases h
  | case3 cs a r' t hcomma _ _ hread ih =>
    simp only [Option.map_eq_some_iff, Prod.mk.injEq] at h
    obtain ⟨⟨as', r''⟩, hrest, _, rfl⟩ := h
    have hmark : ',' :: t <:+ r' := hcomma ▸ skipFiller_suffix r'
    have hitem' : r' <:+ cs := (hitem hread).trans (skipFiller_suffix cs)
    exact (ih hrest).trans ((List.suffix_cons _ _).trans (hmark.trans hitem'))
  | case4 => cases h
  | case5 cs a r' t hclose _ hread =>
    cases h
    have hbracket : ']' :: t <:+ r' := hclose ▸ skipFiller_suffix r'
    have hitem' : r' <:+ cs := (hitem hread).trans (skipFiller_suffix cs)
    exact (List.suffix_cons _ _).trans (hbracket.trans hitem')
  | case6 => cases h

/-! ## Keys -/

theorem keyText_suffix : Reads keyText := by
  intro cs name r h
  unfold keyText at h
  split at h
  case h_1 => exact (basicString_suffix h).trans (List.suffix_cons _ _)
  case h_2 => exact (literalString_suffix h).trans (List.suffix_cons _ _)
  case h_3 =>
    split at h
    case h_1 => cases h
    case h_2 =>
      cases h
      exact List.dropWhile_suffix _

theorem keyText_length {cs name r : List Char} (h : keyText cs = some (name, r)) :
    r.length < cs.length := by
  unfold keyText at h
  split at h
  case h_1 =>
    have hle := (basicString_suffix h).length_le
    simp only [List.length_cons]
    omega
  case h_2 =>
    have hle := (literalString_suffix h).length_le
    simp only [List.length_cons]
    omega
  case h_3 =>
    split at h
    case h_1 => cases h
    case h_2 hne =>
      cases h
      have hsplit := congrArg List.length
        (List.takeWhile_append_dropWhile (p := isKeyChar) (l := cs))
      have hpos : 0 < (cs.takeWhile isKeyChar).length := List.length_pos_iff.mpr hne
      rw [List.length_append] at hsplit
      omega

/-- A key stands in a text if its name is read at its place. -/
def Key.StandsIn (text : List Char) (k : Key) : Prop :=
  ∃ s r, s <:+ text ∧ keyText s = some (k.name.toList, r) ∧ k.span = ⟨s.length, r.length⟩

theorem Key.StandsIn.mono {cs text : List Char} {k : Key} (h : k.StandsIn cs)
    (hcs : cs <:+ text) : k.StandsIn text := by
  obtain ⟨s, r, hs, hread⟩ := h
  exact ⟨s, r, hs.trans hcs, hread⟩

theorem Key.StandsIn.start_le {cs : List Char} {k : Key} (h : k.StandsIn cs) :
    k.span.start ≤ cs.length := by
  obtain ⟨s, r, hs, _, hspan⟩ := h
  rw [hspan]
  exact hs.length_le

theorem key_standsIn {cs r : List Char} {k : Key} (h : key cs = some (k, r)) :
    k.StandsIn cs ∧ r.length < k.span.start := by
  simp only [key, Option.map_eq_some_iff, Prod.mk.injEq] at h
  obtain ⟨⟨name, t⟩, hread, rfl, rfl⟩ := h
  refine ⟨⟨_, t, skipBlanks_suffix cs, by rw [String.toList_ofList, hread], rfl⟩, ?_⟩
  exact Nat.lt_of_le_of_lt (skipBlanks_suffix t).length_le (keyText_length hread)

theorem key_suffix : Reads key := by
  intro cs k r h
  simp only [key, Option.map_eq_some_iff, Prod.mk.injEq] at h
  obtain ⟨⟨name, t⟩, hread, _, rfl⟩ := h
  exact (skipBlanks_suffix t).trans ((keyText_suffix hread).trans (skipBlanks_suffix cs))

theorem path_suffix : Reads path := by
  intro cs p r h
  simp only [path, Option.bind_eq_some_iff, Option.ite_none_right_eq_some, Option.map_eq_some_iff,
    Prod.mk.injEq] at h
  obtain ⟨⟨keys, t⟩, hread, _, _, _, _, rfl⟩ := h
  exact separated_suffix key_suffix '.' hread

def Path.first (p : Path) : Key := p.parents.headD p.last

theorem separated_head {α : Type} {item : List Char → Option (α × List Char)} {mark : Char}
    (hitem : Reads item) {cs r : List Char} {as : List α}
    (h : separated item mark cs = some (as, r)) :
    ∃ a as' t, as = a :: as' ∧ item cs = some (a, t) ∧ r <:+ t := by
  unfold separated at h
  split at h
  case h_1 => cases h
  case h_2 a hread =>
    cases h
    exact ⟨a, [], [], rfl, hread, List.suffix_rfl⟩
  case h_3 a c t hread =>
    split at h
    case isFalse =>
      cases h
      exact ⟨a, [], c :: t, rfl, hread, List.suffix_rfl⟩
    case isTrue =>
      simp only [Option.ite_none_right_eq_some, Option.map_eq_some_iff, Prod.mk.injEq] at h
      obtain ⟨_, ⟨as', r'⟩, hrest, rfl, rfl⟩ := h
      have hsuffix := separated_suffix hitem mark hrest
      exact ⟨a, as', c :: t, rfl, hread, hsuffix.trans (List.suffix_cons c t)⟩

theorem path_first {cs r : List Char} {p : Path} (h : path cs = some (p, r)) :
    p.first.StandsIn cs ∧ r.length < p.first.span.start := by
  simp only [path, Option.bind_eq_some_iff, Option.ite_none_right_eq_some, Option.map_eq_some_iff,
    Prod.mk.injEq] at h
  obtain ⟨⟨keys, _⟩, hread, _, last, hlast, rfl, rfl⟩ := h
  obtain ⟨k, keys', t, rfl, hkey, hrest⟩ := separated_head key_suffix hread
  have hfirst : Path.first ⟨(k :: keys').dropLast, last⟩ = k := by
    cases keys' with
    | nil => exact (Option.some.inj hlast).symm
    | cons => rfl
  obtain ⟨hstands, hlength⟩ := key_standsIn hkey
  rw [hfirst]
  exact ⟨hstands, Nat.lt_of_le_of_lt hrest.length_le hlength⟩

/-! ## Values -/

theorem word_append_rest (cs : List Char) : (word cs).1 ++ (word cs).2 = cs := by
  have hsplit := List.takeWhile_append_dropWhile (p := isWordChar) (l := cs)
  simp only [word]
  split
  case isFalse => exact hsplit
  case isTrue h =>
    have hblank : ∃ t, cs.dropWhile isWordChar = ' ' :: t := by
      have hdigit := (Bool.and_eq_true_iff.mp h).2
      unfold blankThenDigit at hdigit
      split at hdigit
      case h_1 c t heq => exact ⟨c :: t, heq⟩
      case h_2 => cases hdigit
    obtain ⟨t, ht⟩ := hblank
    rw [ht] at hsplit ⊢
    simp only [List.tail_cons, List.append_assoc, List.cons_append,
      List.takeWhile_append_dropWhile, hsplit]

theorem assignment_suffix {value : List Char → Option (Datum × List Char)} (hvalue : Reads value) :
    Reads (assignment value) := by
  intro cs a r h
  simp only [assignment, Option.bind_eq_bind, Option.bind_eq_some_iff, Option.pure_def,
    Option.some.injEq, Prod.mk.injEq] at h
  obtain ⟨⟨p, t⟩, hpath, u, hmark, ⟨d, v⟩, hread, _, rfl⟩ := h
  have hbehind : u <:+ cs := (mark?_suffix hmark).trans (path_suffix hpath)
  have hvalue' : v <:+ skipBlanks u := hvalue hread
  exact (skipBlanks_suffix v).trans (hvalue'.trans ((skipBlanks_suffix u).trans hbehind))

theorem braced_mapping {value : List Char → Option (Datum × List Char)} (hvalue : Reads value)
    {cs r : List Char} {d : Datum} (h : braced value cs = some (d, r)) :
    r <:+ cs ∧ ∃ fields, d = .mapping fields := by
  unfold braced at h
  split at h
  case h_1 t hclose =>
    cases h
    have hbrace : '\x7d' :: r <:+ cs := hclose ▸ skipBlanks_suffix cs
    exact ⟨(List.suffix_cons _ _).trans hbrace, [], rfl⟩
  case h_2 =>
    simp only [Option.bind_eq_bind, Option.bind_eq_some_iff, Option.pure_def, Option.some.injEq,
      Prod.mk.injEq] at h
    obtain ⟨⟨as, t⟩, hread, entries, _, u, hmark, rfl, rfl⟩ := h
    have hrest := separated_suffix (assignment_suffix hvalue) ',' hread
    exact ⟨(mark?_suffix hmark).trans (hrest.trans (skipBlanks_suffix cs)), fieldsOf entries, rfl⟩

theorem value_of_isWordChar {c : Char} (h : isWordChar c = true) (nesting : Nat) (r : List Char) :
    value nesting (c :: r) =
      (scalar? (word (c :: r)).1).map fun s => (s.datum, (word (c :: r)).2) := by
  have hne {m : Char} (hm : isWordChar m = false) {s : List Char} : c :: r ≠ m :: s := by
    intro heq
    rw [(List.cons.inj heq).1, hm] at h
    cases h
  unfold value
  split
  case h_1 heq => exact absurd heq (hne rfl)
  case h_2 heq => exact absurd heq (hne rfl)
  case h_3 heq => exact absurd heq (hne rfl)
  case h_4 heq => exact absurd heq (hne rfl)
  case h_5 => rfl

/-- What a value can be, with the reader that read it. -/
theorem value_cases {nesting : Nat} {cs r : List Char} {d : Datum}
    (h : value nesting cs = some (d, r)) :
    (∃ n t ds, nesting = n + 1 ∧ cs = '[' :: t ∧ elements (value n) t = some (ds, r) ∧
        d = .sequence ds) ∨
      (∃ n t, nesting = n + 1 ∧ cs = '\x7b' :: t ∧ braced (value n) t = some (d, r)) ∨
      (∃ quote multiline single t, cs = quote :: t ∧ Reads multiline ∧ Reads single ∧
        quoted quote multiline single t = some (d, r)) ∨
      ∃ s, scalar? (word cs).1 = some s ∧ d = s.datum ∧ r = (word cs).2 := by
  unfold value at h
  split at h
  case h_1 t =>
    split at h
    case h_1 => cases h
    case h_2 n =>
      simp only [Option.map_eq_some_iff, Prod.mk.injEq] at h
      obtain ⟨⟨ds, r'⟩, hread, rfl, rfl⟩ := h
      exact .inl ⟨n, t, ds, rfl, rfl, hread, rfl⟩
  case h_2 t =>
    split at h
    case h_1 => cases h
    case h_2 n => exact .inr (.inl ⟨n, t, rfl, rfl, h⟩)
  case h_3 t =>
    exact .inr (.inr (.inl ⟨'"', _, _, t, rfl, multilineBasicString_suffix, basicString_suffix, h⟩))
  case h_4 t =>
    exact .inr (.inr (.inl
      ⟨'\'', _, _, t, rfl, multilineLiteralString_suffix, literalString_suffix, h⟩))
  case h_5 =>
    simp only [Option.map_eq_some_iff, Prod.mk.injEq] at h
    obtain ⟨s, hs, rfl, rfl⟩ := h
    exact .inr (.inr (.inr ⟨s, hs, rfl, rfl⟩))

theorem value_suffix (nesting : Nat) : Reads (value nesting) := by
  intro cs d r h
  induction nesting using Nat.strongRecOn generalizing cs d r with
  | ind nesting ih =>
    obtain ⟨n, t, ds, rfl, rfl, hread, _⟩ | ⟨n, t, rfl, rfl, hread⟩ |
      ⟨quote, multiline, single, t, rfl, hmultiline, hsingle, hread⟩ | ⟨s, _, _, rfl⟩ :=
      value_cases h
    case inl =>
      have hrest := elements_suffix (ih n (Nat.lt_succ_self n)) hread
      exact hrest.trans (List.suffix_cons _ _)
    case inr.inl =>
      have hrest := (braced_mapping (ih n (Nat.lt_succ_self n)) hread).1
      exact hrest.trans (List.suffix_cons _ _)
    case inr.inr.inl =>
      exact (quoted_suffix hmultiline hsingle hread).trans (List.suffix_cons _ _)
    case inr.inr.inr => exact ⟨(word cs).1, word_append_rest cs⟩

/-- A value that is a whole number is a word for it, and no value is null. -/
theorem value_plain {nesting : Nat} {cs r : List Char} {d : Datum}
    (h : value nesting cs = some (d, r)) :
    d ≠ .null ∧ ∀ i, d = .integer i → ∃ w, cs = w ++ r ∧ scalar? w = some (.integer i) := by
  obtain ⟨n, t, ds, rfl, rfl, _, rfl⟩ | ⟨n, t, rfl, rfl, hread⟩ |
    ⟨quote, multiline, single, t, rfl, _, _, hread⟩ | ⟨s, hs, rfl, rfl⟩ := value_cases h
  case inl => exact ⟨by simp, by simp⟩
  case inr.inl =>
    obtain ⟨_, fields, rfl⟩ := braced_mapping (value_suffix n) hread
    exact ⟨by simp, by simp⟩
  case inr.inr.inl =>
    simp only [quoted, Option.map_eq_some_iff, Prod.mk.injEq] at hread
    obtain ⟨_, _, rfl, _⟩ := hread
    exact ⟨by simp, by simp⟩
  case inr.inr.inr =>
    cases s with
    | integer i =>
      refine ⟨by simp [Scalar.datum], fun j hj => ⟨(word cs).1, (word_append_rest cs).symm, ?_⟩⟩
      cases hj
      exact hs
    | boolean b => exact ⟨by simp [Scalar.datum], by simp [Scalar.datum]⟩
    | float x => exact ⟨by simp [Scalar.datum], by simp [Scalar.datum]⟩
    | moment text => exact ⟨by simp [Scalar.datum], by simp [Scalar.datum]⟩

end SlotStore.Toml
