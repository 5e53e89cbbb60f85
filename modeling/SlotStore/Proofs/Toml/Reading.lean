import Mathlib.Data.List.Nodup
import SlotStore.Proofs.Toml.Numeral
import SlotStore.Proofs.Toml.Reader

/-!
# What a document says, and where

The entries of a document come from its lines: each of them was made by a line that begins with its
key, an entry that was made later stands behind, and a name has one entry only
(`Document.standsIn`). So the entries stand in the order in which their keys stand in the text, also
where lines go back to entries that are already there.
-/

namespace SlotStore.Toml

/-! ## Lines -/

/-- A datum stands at a place of a text if it is read there. -/
def StandsAt (text : List Char) (span : Span) (d : Datum) : Prop :=
  ∃ s r, s <:+ text ∧ value (nestingLimit - 1) s = some (d, r) ∧ span = ⟨s.length, r.length⟩

theorem StandsAt.mono {cs text : List Char} {span : Span} {d : Datum} (h : StandsAt cs span d)
    (hcs : cs <:+ text) : StandsAt text span d := by
  obtain ⟨s, r, hs, hread⟩ := h
  exact ⟨s, r, hs.trans hcs, hread⟩

/-- The characters of a text at a place. -/
def Span.piece (text : List Char) (span : Span) : List Char :=
  (text.drop (text.length - span.start)).take (span.start - span.stop)

/-- What is read at a place is read from the characters there. -/
theorem StandsAt.exists_piece {text : List Char} {span : Span} {d : Datum}
    (h : StandsAt text span d) :
    ∃ r, value (nestingLimit - 1) (span.piece text ++ r) = some (d, r) := by
  obtain ⟨s, r, hs, hread, rfl⟩ := h
  obtain ⟨w, rfl⟩ := value_suffix _ hread
  have hdrop : text.drop (text.length - (w ++ r).length) = w ++ r :=
    (List.suffix_iff_eq_drop.mp hs).symm
  have hpiece : Span.piece text ⟨(w ++ r).length, r.length⟩ = w := by
    rw [Span.piece, hdrop, List.length_append, Nat.add_sub_cancel, List.take_left]
  exact ⟨r, by rw [hpiece, hread]⟩

theorem StandsAt.ne_null {text : List Char} {span : Span} {d : Datum} (h : StandsAt text span d) :
    d ≠ .null := by
  obtain ⟨r, hread⟩ := h.exists_piece
  exact (value_plain hread).1

theorem StandsAt.eq_integer_iff {text : List Char} {span : Span} {d : Datum}
    (h : StandsAt text span d) {i : Int} :
    d = .integer i ↔ IntegerWord (span.piece text) i ∧ isInRange i = true := by
  obtain ⟨r, hread⟩ := h.exists_piece
  rw [← scalar?_eq_integer]
  constructor
  · intro hd
    obtain ⟨w, hw, hscalar⟩ := (value_plain hread).2 i hd
    rwa [List.append_cancel_right hw]
  · intro hscalar
    have hword := (scalar?_eq_integer.mp hscalar).1
    obtain ⟨c, t, hc, _⟩ := hword.exists_cons
    have hfirst : isWordChar c = true := hword.isWordChar c (by simp [hc])
    -- What begins like a word is read as one.
    have hvalue := value_of_isWordChar hfirst (nestingLimit - 1) (t ++ r)
    have htext : c :: (t ++ r) = span.piece text ++ r := by rw [hc, List.cons_append]
    rw [htext, hread, eq_comm] at hvalue
    simp only [Option.map_eq_some_iff, Prod.mk.injEq] at hvalue
    obtain ⟨s, hs, rfl, hrest⟩ := hvalue
    have hsplit := word_append_rest (span.piece text ++ r)
    rw [hrest] at hsplit
    rw [List.append_cancel_right hsplit, hscalar] at hs
    cases hs
    rfl

/-- A key stands before another one in the same text. -/
def Key.Before (k k' : Key) : Prop := k'.span.start < k.span.start

namespace Line

def first : Line → Key
  | .assignment a => a.path.first
  | .header h => h.path.first

/-- What a line says stands in a text where its places say. -/
structure StandsIn (text : List Char) (l : Line) : Prop where
  key : l.first.StandsIn text
  value : ∀ a, l = .assignment a → StandsAt text a.span a.value

theorem StandsIn.mono {cs text : List Char} {l : Line} (h : l.StandsIn cs) (hcs : cs <:+ text) :
    l.StandsIn text :=
  ⟨h.key.mono hcs, fun a ha => (h.value a ha).mono hcs⟩

/-- A line that is read from a text up to some rest: it stands in the text, and its key before the
rest. -/
structure Ends (cs r : List Char) (l : Line) : Prop where
  standsIn : l.StandsIn cs
  rest_lt : r.length < l.first.span.start

end Line

theorem assignment_ends {cs r : List Char} {a : Assignment}
    (h : assignment (value (nestingLimit - 1)) cs = some (a, r)) :
    (Line.assignment a).Ends cs r := by
  simp only [assignment, Option.bind_eq_bind, Option.bind_eq_some_iff, Option.pure_def,
    Option.some.injEq, Prod.mk.injEq] at h
  obtain ⟨⟨p, t⟩, hpath, u, hmark, ⟨d, v⟩, hread, rfl, rfl⟩ := h
  obtain ⟨hkey, hlt⟩ := path_first hpath
  have hbehind : skipBlanks u <:+ t := (skipBlanks_suffix u).trans (mark?_suffix hmark)
  have hrest : skipBlanks v <:+ t :=
    (skipBlanks_suffix v).trans ((value_suffix _ hread).trans hbehind)
  refine ⟨⟨hkey, ?_⟩, Nat.lt_of_le_of_lt hrest.length_le hlt⟩
  intro a ha
  cases ha
  exact ⟨skipBlanks u, v, hbehind.trans (path_suffix hpath), hread, rfl⟩

theorem header_ends {start : Nat} {cs r : List Char} {h : Header}
    (hread : header start cs = some (h, r)) : r <:+ cs ∧ (Line.header h).Ends cs r := by
  unfold header at hread
  split at hread
  case h_1 t =>
    simp only [Option.bind_eq_bind, Option.bind_eq_some_iff, Option.pure_def,
      Option.some.injEq, Prod.mk.injEq] at hread
    obtain ⟨⟨p, u⟩, hpath, v, hmark, w, hmark', rfl, rfl⟩ := hread
    obtain ⟨hkey, hlt⟩ := path_first hpath
    have hrest : w <:+ u := (mark?_suffix hmark').trans (mark?_suffix hmark)
    have hopen : t <:+ '[' :: t := List.suffix_cons _ _
    exact ⟨hrest.trans ((path_suffix hpath).trans hopen),
      ⟨hkey.mono hopen, by simp⟩, Nat.lt_of_le_of_lt hrest.length_le hlt⟩
  case h_2 =>
    simp only [Option.bind_eq_bind, Option.bind_eq_some_iff, Option.pure_def,
      Option.some.injEq, Prod.mk.injEq] at hread
    obtain ⟨⟨p, u⟩, hpath, v, hmark, rfl, rfl⟩ := hread
    obtain ⟨hkey, hlt⟩ := path_first hpath
    have hrest : v <:+ u := mark?_suffix hmark
    exact ⟨hrest.trans (path_suffix hpath), ⟨hkey, by simp⟩,
      Nat.lt_of_le_of_lt hrest.length_le hlt⟩

theorem Line.Ends.mono {cs text r r' : List Char} {l : Line} (h : l.Ends cs r)
    (hcs : cs <:+ text) (hr : r' <:+ r) : l.Ends text r' :=
  ⟨h.standsIn.mono hcs, Nat.lt_of_le_of_lt hr.length_le h.rest_lt⟩

theorem line_ends {cs r : List Char} {l : Option Line} (h : line cs = some (l, r)) :
    r <:+ cs ∧ ∀ l', l = some l' → l'.Ends cs r := by
  have hblanks := skipBlanks_suffix cs
  unfold line at h
  split at h
  case h_1 t hbracket =>
    simp only [Option.bind_eq_bind, Option.bind_eq_some_iff, Option.pure_def,
      Option.some.injEq, Prod.mk.injEq] at h
    obtain ⟨⟨hd, u⟩, hread, v, hend, rfl, rfl⟩ := h
    obtain ⟨hrest, hends⟩ := header_ends hread
    have hopen : t <:+ cs := (List.suffix_cons '[' t).trans (hbracket ▸ hblanks)
    refine ⟨(lineEnd?_suffix hend).trans (hrest.trans hopen), ?_⟩
    rintro _ ⟨⟩
    exact hends.mono hopen (lineEnd?_suffix hend)
  case h_2 =>
    split at h
    case h_1 t hend =>
      cases h
      exact ⟨(lineEnd?_suffix hend).trans hblanks, by simp⟩
    case h_2 =>
      simp only [Option.bind_eq_bind, Option.bind_eq_some_iff, Option.pure_def,
        Option.some.injEq, Prod.mk.injEq] at h
      obtain ⟨⟨a, u⟩, hread, v, hend, rfl, rfl⟩ := h
      have hrest := assignment_suffix (value_suffix _) hread
      refine ⟨(lineEnd?_suffix hend).trans (hrest.trans hblanks), ?_⟩
      rintro _ ⟨⟩
      exact (assignment_ends hread).mono hblanks (lineEnd?_suffix hend)

/-- Lines stand in their text, in their order. -/
theorem lines_standIn {cs : List Char} {ls : List Line} (h : lines cs = some ls) :
    (∀ l ∈ ls, l.StandsIn cs) ∧ (ls.map Line.first).Pairwise Key.Before := by
  fun_induction lines cs generalizing ls with
  | case1 => 
    cases h
    exact ⟨List.forall_mem_nil _, .nil⟩
  | case2 => cases h
  | case3 cs _ l r hread _ ih =>
    simp only [Option.map_eq_some_iff] at h
    obtain ⟨rest, hrest, rfl⟩ := h
    obtain ⟨hstand, horder⟩ := ih hrest
    obtain ⟨hsuffix, hends⟩ := line_ends hread
    have hlater : ∀ l' ∈ rest, l'.StandsIn cs := fun l' hl' => (hstand l' hl').mono hsuffix
    cases l with
    | none => exact ⟨hlater, horder⟩
    | some l =>
      have hl := hends l rfl
      refine ⟨List.forall_mem_cons.mpr ⟨hl.standsIn, hlater⟩, .cons ?_ horder⟩
      -- A later line starts in the rest, behind the key of this one.
      intro k hk
      obtain ⟨l', hl', rfl⟩ := List.mem_map.mp hk
      exact Nat.lt_of_le_of_lt (hstand l' hl').key.start_le hl.rest_lt
  | case4 => cases h

theorem parts_sublist (ls : List Line) :
    ((parts ls).1.map Line.assignment ++ (parts ls).2.map fun p => Line.header p.header).Sublist
      ls := by
  induction ls with
  | nil => exact .slnil
  | cons l ls ih =>
    cases l with
    | assignment a => exact ih.cons_cons _
    | header h => exact ((List.sublist_append_right _ _).trans ih).cons_cons _

/-! ## Entries -/

def Node.IsTable : Node → Prop
  | .value _ _ => False
  | .table _ _ _ => True
  | .tables _ _ => True

namespace Entries

/-- What a line does to a table. It puts an entry with the line's key behind the others, in place of
one with its name, or exchanges what stands under that name for a table. -/
inductive Turn (k : Key) (node : Node) (entries : Entries) : Entries → Prop where
  | behind : Turn k node entries (entries.without k.name ++ [(k, node)])
  | within (h : node.IsTable) : Turn k node entries (entries.replace k.name node)

variable {entries entries' : Entries}

theorem without_of_lookup? {name : String} (h : entries.lookup? name = none) :
    entries.without name = entries := by
  rw [lookup?, Option.map_eq_none_iff, List.find?_eq_none] at h
  refine List.filter_eq_self.mpr fun e he => ?_
  simpa using h e he

theorem map_fst_replace (entries : Entries) (name : String) (node : Node) :
    (entries.replace name node).map Prod.fst = entries.map Prod.fst := by
  rw [replace, List.map_map]
  refine List.map_congr_left fun e _ => ?_
  rw [Function.comp_apply]
  split <;> rfl

theorem Turn.fresh {k : Key} {node : Node} (h : entries.lookup? k.name = none) :
    Turn k node entries (entries ++ [(k, node)]) := by
  have hturn : Turn k node entries (entries.without k.name ++ [(k, node)]) := .behind
  rwa [without_of_lookup? h] at hturn

theorem change_turn {made reached : Origin} {f : Origin → Entries → Option Entries} {k : Key}
    {keys : List Key} (h : change made f reached (k :: keys) entries = some entries') :
    ∃ node, node.IsTable ∧ Turn k node entries entries' := by
  unfold change at h
  split at h
  case h_1 hnone =>
    simp only [Option.bind_eq_bind, Option.bind_eq_some_iff, Option.pure_def,
      Option.some.injEq] at h
    obtain ⟨inner, _, rfl⟩ := h
    exact ⟨.table made none inner, trivial, .fresh hnone⟩
  case h_2 => cases h
  case h_3 origin span inner _ =>
    simp only [Option.ite_none_left_eq_some, Option.bind_eq_bind, Option.bind_eq_some_iff,
      Option.pure_def, Option.some.injEq] at h
    obtain ⟨_, inner', _, rfl⟩ := h
    exact ⟨.table origin span inner', trivial, .within trivial⟩
  case h_4 span elements _ =>
    simp only [Option.bind_eq_bind, Option.bind_eq_some_iff, Option.pure_def,
      Option.some.injEq] at h
    obtain ⟨elements', _, rfl⟩ := h
    exact ⟨.tables span elements', trivial, .within trivial⟩

theorem assign_turn {a : Assignment} (h : entries.assign a = some entries') :
    ∃ node, (node.IsTable ∨ node = .value a.span a.value) ∧
      Turn a.path.first node entries entries' := by
  obtain ⟨⟨parents, last⟩, span, d⟩ := a
  cases parents with
  | nil =>
    simp only [assign, change, Option.ite_none_right_eq_some] at h
    obtain ⟨_, h⟩ := h
    split at h
    case h_1 hnone =>
      cases h
      exact ⟨.value span d, .inr rfl, .fresh hnone⟩
    case h_2 => cases h
  | cons k parents =>
    obtain ⟨node, htable, hturn⟩ := change_turn h
    exact ⟨node, .inl htable, hturn⟩

theorem addTable_turn {k : Key} {p : Part} (h : entries.addTable k p = some entries') :
    ∃ node, node.IsTable ∧ Turn k node entries entries' := by
  simp only [addTable, Option.bind_eq_bind, Option.pure_def] at h
  split at h
  all_goals
    simp only [Option.bind_eq_some_iff, Option.some.injEq] at h
    obtain ⟨_, _, inner, _, rfl⟩ := h
    exact ⟨.table .header (some p.span) inner, trivial, .behind⟩

theorem addElement_turn {k : Key} {p : Part} (h : entries.addElement k p = some entries') :
    ∃ node, node.IsTable ∧ Turn k node entries entries' := by
  simp only [addElement, Option.bind_eq_bind, Option.bind_eq_some_iff] at h
  obtain ⟨element, _, h⟩ := h
  split at h
  case h_1 hnone =>
    cases h
    exact ⟨.tables p.span [element], trivial, .fresh hnone⟩
  case h_2 span elements _ =>
    cases h
    exact ⟨.tables _ (elements ++ [element]), trivial, .within trivial⟩
  case h_3 => cases h

theorem addPart_turn {p : Part} (h : entries.addPart p = some entries') :
    ∃ node, node.IsTable ∧ Turn p.header.path.first node entries entries' := by
  obtain ⟨⟨repeated, ⟨parents, last⟩, span⟩, as⟩ := p
  rw [addPart] at h
  cases parents with
  | cons k parents => exact change_turn h
  | nil =>
    simp only [change] at h
    split at h
    case isTrue => exact addElement_turn h
    case isFalse => exact addTable_turn h

/-- The entries of a table that some lines made: their keys are keys of the lines, in the same
order; a name has one entry; and a value is what one of the lines assigns. -/
structure Collected (ls : List Line) (entries : Entries) : Prop where
  keys : (entries.map Prod.fst).Sublist (ls.map Line.first)
  names : (entries.map fun e => e.1.name).Nodup
  values : ∀ e ∈ entries, e.2.IsTable ∨
    ∃ a, .assignment a ∈ ls ∧ e = (a.path.first, .value a.span a.value)

namespace Collected

variable {ls : List Line}

theorem nil : Collected [] [] :=
  ⟨.slnil, List.nodup_nil, List.forall_mem_nil _⟩

theorem mono {ls' : List Line} (h : Collected ls entries) (hls : ls.Sublist ls') :
    Collected ls' entries where
  keys := h.keys.trans (hls.map _)
  names := h.names
  values e he := (h.values e he).imp_right fun ⟨a, ha, heq⟩ => ⟨a, hls.subset ha, heq⟩

theorem turn (h : Collected ls entries) {l : Line} {node : Node}
    (hturn : Turn l.first node entries entries')
    (hnode : node.IsTable ∨ ∃ a, l = .assignment a ∧ node = .value a.span a.value) :
    Collected (ls ++ [l]) entries' := by
  have hold : Collected (ls ++ [l]) entries := h.mono (List.sublist_append_left _ _)
  cases hturn with
  | behind =>
    have hkept : (entries.without l.first.name).Sublist entries := List.filter_sublist
    refine ⟨?_, ?_, ?_⟩
    · rw [List.map_append, List.map_append]
      exact ((hkept.map _).trans h.keys).append (List.Sublist.refl _)
    · rw [List.map_append, List.nodup_append]
      refine ⟨h.names.sublist (hkept.map _), List.nodup_singleton _, ?_⟩
      intro name hname _ hnew heq
      obtain ⟨e, he, rfl⟩ := List.mem_map.mp hname
      have hne : e.1.name ≠ l.first.name := by simpa using (List.mem_filter.mp he).2
      exact hne (heq.trans (List.mem_singleton.mp hnew))
    · intro e he
      rcases List.mem_append.mp he with he | he
      · exact hold.values e (hkept.subset he)
      · cases List.mem_singleton.mp he
        refine hnode.imp_right ?_
        rintro ⟨a, rfl, rfl⟩
        exact ⟨a, by simp, rfl⟩
  | within htable =>
    have hkeys := map_fst_replace entries l.first.name node
    refine ⟨hkeys ▸ hold.keys, ?_, ?_⟩
    · have hnames := congrArg (List.map Key.name) hkeys
      simp only [List.map_map] at hnames
      exact hnames ▸ h.names
    · intro e he
      obtain ⟨e', he', rfl⟩ := List.mem_map.mp he
      split
      case isTrue => exact .inl htable
      case isFalse => exact hold.values e' he'

theorem foldlM {α : Type} {f : Entries → α → Option Entries} {g : α → Line}
    (hstep : ∀ {ls : List Line} {entries entries' : Entries} {a : α}, Collected ls entries →
      f entries a = some entries' → Collected (ls ++ [g a]) entries')
    {xs : List α} (h : Collected ls entries) (hfold : xs.foldlM f entries = some entries') :
    Collected (ls ++ xs.map g) entries' := by
  induction xs generalizing ls entries with
  | nil =>
    cases hfold
    simpa using h
  | cons x xs ih =>
    rw [List.foldlM_cons, Option.bind_eq_bind, Option.bind_eq_some_iff] at hfold
    obtain ⟨next, hnext, hfold⟩ := hfold
    simpa using ih (hstep h hnext) hfold

theorem assign {a : Assignment} (h : Collected ls entries)
    (hassign : entries.assign a = some entries') : Collected (ls ++ [.assignment a]) entries' := by
  obtain ⟨node, hnode, hturn⟩ := assign_turn hassign
  exact h.turn hturn (hnode.imp_right fun heq => ⟨a, rfl, heq⟩)

theorem addPart {p : Part} (h : Collected ls entries) (hadd : entries.addPart p = some entries') :
    Collected (ls ++ [.header p.header]) entries' := by
  obtain ⟨node, htable, hturn⟩ := addPart_turn hadd
  exact h.turn hturn (.inl htable)

end Collected

end Entries

/-! ## Documents -/

theorem Document.collected {ls : List Line} {d : Document} (h : Document.ofLines? ls = some d) :
    Entries.Collected ls d.entries := by
  simp only [ofLines?, Option.bind_eq_bind, Option.bind_eq_some_iff, Option.pure_def,
    Option.some.injEq] at h
  obtain ⟨before, hassign, entries, hparts, rfl⟩ := h
  have hvalues : Entries.Collected ((parts ls).1.map .assignment) before :=
    Entries.Collected.nil.foldlM (g := .assignment) (fun h => h.assign) hassign
  have hall := hvalues.foldlM (g := fun p => .header p.header) (fun h => h.addPart) hparts
  exact hall.mono (parts_sublist ls)

/-- What is known of the entries of a document that was read from a text. -/
structure Document.StandsIn (text : List Char) (d : Document) : Prop where
  keys : ∀ e ∈ d.entries, e.1.StandsIn text
  order : (d.entries.map Prod.fst).Pairwise Key.Before
  names : (d.entries.map fun e => e.1.name).Nodup
  values : ∀ e ∈ d.entries, e.2.IsTable ∨
    ∃ span v, e.2 = .value span v ∧ StandsAt text span v

theorem skipByteOrderMark_suffix (cs : List Char) : skipByteOrderMark cs <:+ cs := by
  unfold skipByteOrderMark
  split
  case h_1 r => exact List.suffix_cons _ r
  case h_2 => exact List.suffix_rfl

theorem Document.standsIn {text : String} {d : Document} (h : Document.read? text = some d) :
    d.StandsIn text.toList := by
  rw [read?, Option.bind_eq_some_iff] at h
  obtain ⟨ls, hlines, hentries⟩ := h
  obtain ⟨hstand, horder⟩ := lines_standIn hlines
  have hmark := skipByteOrderMark_suffix text.toList
  have hcollected := Document.collected hentries
  refine ⟨?_, horder.sublist hcollected.keys, hcollected.names, ?_⟩
  · intro e he
    have hkey := hcollected.keys.subset (List.mem_map_of_mem he)
    obtain ⟨l, hl, hfirst⟩ := List.mem_map.mp hkey
    rw [← hfirst]
    exact (hstand l hl).key.mono hmark
  · intro e he
    refine (hcollected.values e he).imp_right ?_
    rintro ⟨a, ha, rfl⟩
    exact ⟨a.span, a.value, rfl, ((hstand _ ha).value a rfl).mono hmark⟩

namespace Document.StandsIn

variable {text : List Char} {d : Document} (h : d.StandsIn text) {e : Key × Node}
  (he : e ∈ d.entries)
include h he

theorem datum_ne_null : e.2.datum ≠ .null := by
  obtain ⟨k, node⟩ := e
  rcases h.values _ he with htable | ⟨span, v, rfl, hv⟩
  · cases node with
    | value => cases htable
    | table => simp [Node.datum]
    | tables => simp [Node.datum]
  · exact hv.ne_null

/-- What stands under a key is a whole number exactly if it is a value, and the text has a word for
that number at its place. -/
theorem datum_eq_integer_iff {i : Int} :
    e.2.datum = .integer i ↔ ∃ span v, e.2 = .value span v ∧
      IntegerWord (span.piece text) i ∧ isInRange i = true := by
  obtain ⟨k, node⟩ := e
  rcases h.values _ he with htable | ⟨span, v, rfl, hv⟩
  · cases node with
    | value => cases htable
    | table => simp [Node.datum]
    | tables => simp [Node.datum]
  · rw [Node.datum, hv.eq_integer_iff]
    constructor
    · intro hword
      exact ⟨span, v, rfl, hword⟩
    · rintro ⟨_, _, heq, hword⟩
      cases heq
      exact hword

end Document.StandsIn

end SlotStore.Toml
