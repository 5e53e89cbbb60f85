import SlotStore.Proofs.Limits.RoundTrip
import SlotStore.Proofs.Toml.Reading

/-!
# Which texts give limits

A document gives limits exactly if each of its entries fits: it has the name of a limit, and a whole
number that is not negative stands under it. Otherwise the first entry that does not fit is
reported, whatever stands before and behind it, but only once the whole text is known to be a
document (`accepted_documents`). Names are different in a document and no value is null, so entries
that fit are taken over one by one (`setEntry_denotes`), up to the first one that does not
(`foldlM_setEntry_of_unfit`).
-/

namespace SlotStore.Limits

open Toml

/-! ## Entries that fit -/

/-- An entry that sets the limit of a name to a number. -/
def Sets (name : String) (n : Nat) (e : Key × Node) : Prop :=
  e.1.name = name ∧ e.2.datum = .integer n

/-- An entry fits if it sets one of the limits. -/
def Fits (e : Key × Node) : Prop := ∃ n, Sets slotsName n e ∨ Sets lengthName n e

/-- Why an entry does not fit. -/
inductive Unfit (e : Key × Node) : Misfit → Prop where
  | unknown (hslots : e.1.name ≠ slotsName) (hlength : e.1.name ≠ lengthName) :
      Unfit e (.unknownField e.1.name)
  | kind (hname : e.1.name = slotsName ∨ e.1.name = lengthName)
      (hkind : ∀ i, e.2.datum ≠ .integer i) : Unfit e (.kind e.2.datum .count)
  | negative (hname : e.1.name = slotsName ∨ e.1.name = lengthName) {i : Int}
      (hi : e.2.datum = .integer i) (hnegative : i < 0) : Unfit e (.negative i)

/-- The limits that entries give: each entry fits, and the limits that there are, are those that an
entry sets. -/
structure Denotes (entries : Entries) (c : Limits) : Prop where
  fits : ∀ e ∈ entries, Fits e
  slots (n : Nat) : c.slots = some n ↔ ∃ e ∈ entries, Sets slotsName n e
  length (n : Nat) : c.length = some n ↔ ∃ e ∈ entries, Sets lengthName n e

theorem Denotes.unique {entries : Entries} {c c' : Limits} (h : Denotes entries c)
    (h' : Denotes entries c') : c = c' := by
  obtain ⟨slots, length⟩ := c
  obtain ⟨slots', length'⟩ := c'
  have hslots : slots = slots' := Option.ext fun n => (h.slots n).trans (h'.slots n).symm
  have hlength : length = length' := Option.ext fun n => (h.length n).trans (h'.length n).symm
  rw [hslots, hlength]

theorem fits_or_unfit (e : Key × Node) : Fits e ∨ ∃ m, Unfit e m := by
  by_cases hname : e.1.name = slotsName ∨ e.1.name = lengthName
  case neg =>
    rw [not_or] at hname
    exact .inr ⟨_, .unknown hname.1 hname.2⟩
  case pos =>
    by_cases hkind : ∃ i, e.2.datum = .integer i
    case neg => exact .inr ⟨_, .kind hname fun i hi => hkind ⟨i, hi⟩⟩
    case pos =>
      obtain ⟨i, hi⟩ := hkind
      by_cases hnegative : i < 0
      case pos => exact .inr ⟨_, .negative hname hi hnegative⟩
      case neg =>
        have hcast : e.2.datum = .integer i.toNat := by
          rw [hi, Int.toNat_of_nonneg (Int.not_lt.mp hnegative)]
        exact .inl ⟨i.toNat, hname.imp (⟨·, hcast⟩) (⟨·, hcast⟩)⟩

/-! ## One entry -/

theorem lengthName_ne_slotsName : lengthName ≠ slotsName := by decide

theorem setEntry_of_sets_slots (c : Limits) {e : Key × Node} {n : Nat} (h : Sets slotsName n e) :
    c.setEntry e = .ok { c with slots := some n } := by
  rw [setEntry, h.1, h.2, setField, if_pos rfl, bound_natCast]
  rfl

theorem setEntry_of_sets_length (c : Limits) {e : Key × Node} {n : Nat} (h : Sets lengthName n e) :
    c.setEntry e = .ok { c with length := some n } := by
  rw [setEntry, h.1, h.2, setField, if_neg lengthName_ne_slotsName, if_pos rfl, bound_natCast]
  rfl

theorem bound_of_ne_null {d : Datum} (h : d ≠ .null) : bound d = d.count.map some := by
  cases d with
  | null => exact absurd rfl h
  | _ => rfl

theorem bound_of_kind {d : Datum} (hnull : d ≠ .null) (h : ∀ i, d ≠ .integer i) :
    bound d = .error (.kind d .count) := by
  rw [bound_of_ne_null hnull]
  cases d with
  | integer i => exact absurd rfl (h i)
  | _ => rfl

theorem bound_of_negative {i : Int} (h : i < 0) : bound (.integer i) = .error (.negative i) := by
  rw [bound_of_ne_null (by simp), Datum.count, if_pos h]
  rfl

theorem setField_of_bound {c : Limits} {name : String} {d : Datum} {m : Misfit}
    (hname : name = slotsName ∨ name = lengthName) (h : bound d = .error m) :
    c.setField name d = .error m := by
  rw [setField, h]
  split
  case isTrue => rfl
  case isFalse hslots =>
    rw [if_pos (hname.resolve_left hslots)]
    rfl

theorem setEntry_of_unfit (c : Limits) {e : Key × Node} {m : Misfit} (h : Unfit e m)
    (hnull : e.2.datum ≠ .null) : c.setEntry e = .error (.misfit m (faultSpan e.1 e.2 m)) := by
  have hfield : c.setField e.1.name e.2.datum = .error m := by
    cases h with
    | unknown hslots hlength => rw [setField, if_neg hslots, if_neg hlength]
    | kind hname hkind => exact setField_of_bound hname (bound_of_kind hnull hkind)
    | negative hname hi hnegative =>
      exact setField_of_bound hname (hi ▸ bound_of_negative hnegative)
  rw [setEntry, hfield]
  rfl

/-! ## All entries -/

section
variable {entries : Entries} {e : Key × Node} {name : String} {n : Nat} (h : Sets name n e)
include h

theorem sets_append (hfresh : e.1.name ∉ entries.map fun e => e.1.name) (m : Nat) :
    some n = some m ↔ ∃ e' ∈ entries ++ [e], Sets name m e' := by
  constructor
  · intro heq
    cases heq
    exact ⟨e, by simp, h⟩
  · rintro ⟨e', he', hsets⟩
    rcases List.mem_append.mp he' with he' | he'
    · exact absurd (List.mem_map.mpr ⟨e', he', hsets.1.trans h.1.symm⟩) hfresh
    · rw [List.mem_singleton.mp he', Sets, h.2] at hsets
      exact congrArg some (Int.ofNat.inj (Datum.integer.inj hsets.2))

theorem sets_append_of_ne {other : String} (hne : name ≠ other) (m : Nat) :
    (∃ e' ∈ entries, Sets other m e') ↔ ∃ e' ∈ entries ++ [e], Sets other m e' := by
  constructor
  · rintro ⟨e', he', hsets⟩
    exact ⟨e', List.mem_append_left _ he', hsets⟩
  · rintro ⟨e', he', hsets⟩
    rcases List.mem_append.mp he' with he' | he'
    · exact ⟨e', he', hsets⟩
    · rw [List.mem_singleton.mp he'] at hsets
      exact absurd (h.1.symm.trans hsets.1) hne

end

theorem setEntry_denotes {entries : Entries} {c : Limits} {e : Key × Node}
    (hc : Denotes entries c) (h : Fits e) (hfresh : e.1.name ∉ entries.map fun e => e.1.name) :
    ∃ c', c.setEntry e = .ok c' ∧ Denotes (entries ++ [e]) c' := by
  have hfits : ∀ e' ∈ entries ++ [e], Fits e' :=
    List.forall_mem_append.mpr ⟨hc.fits, by simpa using h⟩
  obtain ⟨n, hslots | hlength⟩ := h
  · refine ⟨_, setEntry_of_sets_slots c hslots, hfits, sets_append hslots hfresh, fun m => ?_⟩
    exact (hc.length m).trans (sets_append_of_ne hslots lengthName_ne_slotsName.symm m)
  · refine ⟨_, setEntry_of_sets_length c hlength, hfits, fun m => ?_, sets_append hlength hfresh⟩
    exact (hc.slots m).trans (sets_append_of_ne hlength lengthName_ne_slotsName m)

theorem foldlM_setEntry_of_fits {entries : Entries}
    (hnames : (entries.map fun e => e.1.name).Nodup) (h : ∀ e ∈ entries, Fits e) :
    ∃ c, entries.foldlM setEntry {} = .ok c ∧ Denotes entries c := by
  induction entries using List.reverseRecOn with
  | nil => exact ⟨{}, rfl, List.forall_mem_nil _, by simp, by simp⟩
  | append_singleton entries e ih =>
    rw [List.map_append, List.map_singleton, List.nodup_append] at hnames
    obtain ⟨hentries, he⟩ := List.forall_mem_append.mp h
    obtain ⟨c, hc, hdenotes⟩ := ih hnames.1 hentries
    have hfresh : e.1.name ∉ entries.map fun e => e.1.name := fun hmem =>
      hnames.2.2 _ hmem _ (List.mem_singleton.mpr rfl) rfl
    obtain ⟨c', hc', hdenotes'⟩ := setEntry_denotes hdenotes (he e (by simp)) hfresh
    refine ⟨c', ?_, hdenotes'⟩
    rw [List.foldlM_append, hc]
    change [e].foldlM setEntry c = _
    rw [List.foldlM_cons, hc']
    rfl

theorem foldlM_setEntry_of_unfit {before after : Entries} {e : Key × Node} {m : Misfit}
    (hnames : (before.map fun e => e.1.name).Nodup) (hbefore : ∀ e' ∈ before, Fits e')
    (h : Unfit e m) (hnull : e.2.datum ≠ .null) :
    (before ++ e :: after).foldlM setEntry {} = .error (.misfit m (faultSpan e.1 e.2 m)) := by
  obtain ⟨c, hc, _⟩ := foldlM_setEntry_of_fits hnames hbefore
  rw [List.foldlM_append, hc]
  change (e :: after).foldlM setEntry c = _
  rw [List.foldlM_cons, setEntry_of_unfit c h hnull]
  rfl

theorem exists_first_unfit {entries : Entries} (h : ¬∀ e ∈ entries, Fits e) :
    ∃ before e after m, entries = before ++ e :: after ∧ (∀ e' ∈ before, Fits e') ∧ Unfit e m := by
  induction entries with
  | nil => exact absurd (List.forall_mem_nil _) h
  | cons e entries ih =>
    rcases fits_or_unfit e with hfits | ⟨m, hm⟩
    · obtain ⟨before, e', after, m, rfl, hbefore, hm⟩ :=
        ih fun hall => h (List.forall_mem_cons.mpr ⟨hfits, hall⟩)
      exact ⟨e :: before, e', after, m, rfl, List.forall_mem_cons.mpr ⟨hfits, hbefore⟩, hm⟩
    · exact ⟨[], e, entries, m, rfl, List.forall_mem_nil _, hm⟩

/-! ## Documents -/

/-- An entry that does not fit is reported if all before it do. -/
theorem ofDocument_of_unfit {text : List Char} {d : Document} (h : d.StandsIn text)
    {before after : Entries} {e : Key × Node} {m : Misfit}
    (hsplit : d.entries = before ++ e :: after) (hbefore : ∀ e' ∈ before, Fits e')
    (hm : Unfit e m) :
    ofDocument d = .error (.misfit m (faultSpan e.1 e.2 m)) := by
  have hnames := h.names
  rw [hsplit, List.map_append, List.nodup_append] at hnames
  have hnull : e.2.datum ≠ .null := h.datum_ne_null (by simp [hsplit])
  rw [ofDocument, hsplit]
  exact foldlM_setEntry_of_unfit hnames.1 hbefore hm hnull

theorem exists_report_eq (excerpt : Excerpt) (reason : String) :
    ∃ lead, excerpt.report reason = lead ++ reason ++ "\n" := by
  unfold Excerpt.report
  exact ⟨_, rfl⟩

theorem misfit_error_text (text : String) (m : Misfit) (span : Span) :
    ∃ lead, (Unreadable.misfit m span).error text =
      .config ("Invalid slot config: " ++ lead ++ m.reason layout ++ "\n") := by
  obtain ⟨lead, hlead⟩ := exists_report_eq (Excerpt.ofSpan text.toList span) (m.reason layout)
  refine ⟨lead, ?_⟩
  rw [Unreadable.error, hlead, String.append_assoc, String.append_assoc, String.append_assoc]

theorem ofDocument_eq_ok_iff {text : List Char} {d : Document} (h : d.StandsIn text) {c : Limits} :
    ofDocument d = .ok c ↔ Denotes d.entries c := by
  constructor
  · intro hok
    by_cases hfits : ∀ e ∈ d.entries, Fits e
    case pos =>
      obtain ⟨c', hc', hdenotes⟩ := foldlM_setEntry_of_fits h.names hfits
      cases hok.symm.trans hc'
      exact hdenotes
    case neg =>
      obtain ⟨before, e, after, m, hsplit, hbefore, hm⟩ := exists_first_unfit hfits
      have herror := ofDocument_of_unfit h hsplit hbefore hm
      cases hok.symm.trans herror
  · intro hdenotes
    obtain ⟨c', hc', hdenotes'⟩ := foldlM_setEntry_of_fits h.names hdenotes.fits
    rw [hdenotes.unique hdenotes']
    exact hc'

/-! ## Lines that set limits -/

/-- A line that sets a limit to a number, in one of the ways to write it. -/
structure Setting where
  name : String
  word : List Char
  number : Nat
  known : name = slotsName ∨ name = lengthName
  spelled : IntegerWord word number
  inRange : number ≤ 2 ^ 63 - 1

namespace Setting

theorem bare (w : Setting) : IsBare w.name := by
  rcases w.known with h | h
  · rw [h]
    exact isBare_slotsName
  · rw [h]
    exact isBare_lengthName

def row (w : Setting) : Row :=
  ⟨w.name, w.word, .integer w.number, w.bare,
    spells_integer w.spelled ((isInRange_natCast w.number).mpr w.inRange)⟩

def document (settings : List Setting) : String := String.ofList (sheet (settings.map row))

def Give (settings : List Setting) (c : Limits) : Prop :=
  ∀ n, (c.slots = some n ↔ ∃ w ∈ settings, w.name = slotsName ∧ w.number = n) ∧
    (c.length = some n ↔ ∃ w ∈ settings, w.name = lengthName ∧ w.number = n)

end Setting

theorem mem_fieldsOf {entries : Entries} {field : String × Datum} :
    field ∈ fieldsOf entries ↔ ∃ e ∈ entries, (e.1.name, e.2.datum) = field := by
  induction entries with
  | nil => simp [fieldsOf]
  | cons e entries ih =>
    rw [fieldsOf, List.mem_cons, ih, List.exists_mem_cons_iff, eq_comm]

/-- Lines with different names are accepted in any order, and set what they say. -/
theorem ofToml_document {settings : List Setting} (hnames : (settings.map Setting.name).Nodup) :
    ∃ c, ofToml (Setting.document settings) = .ok c ∧ Setting.Give settings c := by
  have hrows : ((settings.map Setting.row).map Row.name).Nodup := by
    rwa [List.map_map]
  obtain ⟨d, hread, hd⟩ := read?_sheet hrows
  have hfields : ∀ field, (∃ e ∈ d.entries, (e.1.name, e.2.datum) = field) ↔
      ∃ w ∈ settings, (w.name, .integer w.number) = field := by
    intro field
    rw [← mem_fieldsOf, hd]
    simp [Row.field, Setting.row]
  have hfits : ∀ e ∈ d.entries, Fits e := by
    intro e he
    obtain ⟨w, _, hw⟩ := (hfields _).mp ⟨e, he, rfl⟩
    obtain ⟨hname, hdatum⟩ := Prod.mk.inj hw
    refine ⟨w.number, ?_⟩
    rcases w.known with hknown | hknown
    · exact .inl ⟨hname.symm.trans hknown, hdatum.symm⟩
    · exact .inr ⟨hname.symm.trans hknown, hdatum.symm⟩
  have hsets : ∀ name n, (∃ e ∈ d.entries, Sets name n e) ↔
      ∃ w ∈ settings, w.name = name ∧ w.number = n := by
    intro name n
    simpa [Sets, Int.natCast_inj] using hfields (name, .integer n)
  obtain ⟨c, hc, hdenotes⟩ := foldlM_setEntry_of_fits (Document.standsIn hread).names hfits
  refine ⟨c, ?_, fun n => ⟨(hdenotes.slots n).trans (hsets _ n),
    (hdenotes.length n).trans (hsets _ n)⟩⟩
  rw [Setting.document, ofToml, hread]
  exact hc

/-- **Which texts give limits, and which.** Limits are read from a text exactly if it is a document
whose entries all fit, with the names of limits and whole numbers that are not negative, in any
order; and they are the numbers that the entries set. The entries stand in the order of the text,
and a number is one that a document may hold, in any of the ways to write it; a text with nothing
but a line for each of some limits is such a document. If an entry of a document does not fit, the
error is that of the first one, with its reason and its place; and if the text is no document, there
is an error whatever stands in it. -/
theorem accepted_documents (text : String) :
    (∀ c, ofToml text = .ok c ↔ ∃ d, Document.read? text = some d ∧ Denotes d.entries c) ∧
      (∀ d, Document.read? text = some d →
        d.StandsIn text.toList ∧
        (∀ e ∈ d.entries, ∀ i, e.2.datum = .integer i ↔ ∃ span v, e.2 = .value span v ∧
          IntegerWord (span.piece text.toList) i ∧ isInRange i = true) ∧
        ((∀ e ∈ d.entries, Fits e) ∨ ∃ before e after m,
          d.entries = before ++ e :: after ∧ (∀ e' ∈ before, Fits e') ∧ Unfit e m ∧
          ofToml text = .error (.misfit m (faultSpan e.1 e.2 m)) ∧
          ∃ lead, (Unreadable.misfit m (faultSpan e.1 e.2 m)).error text =
            .config ("Invalid slot config: " ++ lead ++ m.reason layout ++ "\n"))) ∧
      (∀ settings : List Setting, (settings.map Setting.name).Nodup →
        text = Setting.document settings → ∃ c, ofToml text = .ok c ∧ Setting.Give settings c) ∧
      (Document.read? text = none → ofToml text = .error .malformed ∧
        ∃ reason, Unreadable.malformed.error text = .config reason) := by
  have hsettings : ∀ settings : List Setting, (settings.map Setting.name).Nodup →
      text = Setting.document settings → ∃ c, ofToml text = .ok c ∧ Setting.Give settings c := by
    rintro settings hnames rfl
    exact ofToml_document hnames
  cases hread : Document.read? text with
  | none =>
    have hnone : ofToml text = .error .malformed := by rw [ofToml, hread]
    refine ⟨fun c => ?_, by simp, hsettings, fun _ => ⟨hnone, _, rfl⟩⟩
    rw [hnone]
    simp
  | some d =>
    have hstands := Document.standsIn hread
    have hof : ofToml text = ofDocument d := by rw [ofToml, hread]
    refine ⟨fun c => ?_, ?_, hsettings, by simp⟩
    · rw [hof, ofDocument_eq_ok_iff hstands]
      simp
    · rintro _ ⟨⟩
      refine ⟨hstands, fun e he i => hstands.datum_eq_integer_iff he, ?_⟩
      by_cases hfits : ∀ e ∈ d.entries, Fits e
      case pos => exact .inl hfits
      case neg =>
        obtain ⟨before, e, after, m, hsplit, hbefore, hm⟩ := exists_first_unfit hfits
        have herror := ofDocument_of_unfit hstands hsplit hbefore hm
        exact .inr ⟨before, e, after, m, hsplit, hbefore, hm, hof.trans herror,
          misfit_error_text text m (faultSpan e.1 e.2 m)⟩

end SlotStore.Limits
