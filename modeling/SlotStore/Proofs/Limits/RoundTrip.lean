import SlotStore.Limits.Toml
import SlotStore.Proofs.Toml.Sheet

/-!
# Limits are read back as they were written

Limits can be written exactly if each of them is a whole number that a document may hold; what is
written is a sheet with a row for each limit, and it is read as the same limits
(`written_limits_are_read_back`). So different limits are never written alike.
-/

namespace SlotStore.Limits

open Toml

/-! ## Reading -/

/-- Limits are read from a document as from its fields. -/
theorem foldlM_setEntry (entries : Entries) (start c : Limits) :
    entries.foldlM setEntry start = .ok c ↔
      (fieldsOf entries).foldlM (fun limits f => limits.setField f.1 f.2) start = .ok c := by
  induction entries generalizing start with
  | nil => simp [fieldsOf, pure, Except.pure]
  | cons e entries ih =>
    rw [fieldsOf, List.foldlM_cons, List.foldlM_cons, setEntry]
    cases start.setField e.1.name e.2.datum with
    | error m => simp [Except.mapError, bind, Except.bind]
    | ok next => exact ih next

theorem ofDocument_eq_ok {d : Document} {c : Limits} :
    ofDocument d = .ok c ↔ ofFields (fieldsOf d.entries) = .ok c :=
  foldlM_setEntry d.entries {} c

/-! ## Fields -/

/-- The field for a limit, if there is one. -/
def boundFields (name : String) (bound : Option Nat) : List (String × Datum) :=
  bound.toList.map fun n => (name, .integer n)

def fields (c : Limits) : List (String × Datum) :=
  boundFields slotsName c.slots ++ boundFields lengthName c.length

theorem bound_natCast (n : Nat) : bound (.integer n) = .ok (some n) := by
  have hn : ¬(n : Int) < 0 := by omega
  simp [bound, Datum.count, hn, Except.map]

theorem ofFields_fields (c : Limits) : ofFields c.fields = .ok c := by
  obtain ⟨slots, length⟩ := c
  have hne : lengthName ≠ slotsName := by decide
  cases slots <;> cases length <;>
    simp [fields, boundFields, ofFields, setField, bound_natCast, hne, Except.map] <;> rfl

theorem nodup_names_fields (c : Limits) : (c.fields.map Prod.fst).Nodup := by
  obtain ⟨slots, length⟩ := c
  have hne : slotsName ≠ lengthName := by decide
  cases slots <;> cases length <;> simp [fields, boundFields, hne]

/-! ## Writing -/

theorem isBare_slotsName : IsBare slotsName := by simp [IsBare, slotsName, isKeyChar]

theorem isBare_lengthName : IsBare lengthName := by simp [IsBare, lengthName, isKeyChar]

/-- Each limit that there is is a number that a document may hold. -/
def Writable (c : Limits) : Prop := ∀ n, c.slots = some n ∨ c.length = some n → n ≤ 2 ^ 63 - 1

theorem boundLine_eq_ok {name : String} {bound : Option Nat} (hname : IsBare name)
    (h : ∀ n, bound = some n → n ≤ 2 ^ 63 - 1) :
    ∃ rows : List Row, boundLine name bound = .ok (String.ofList (sheet rows)) ∧
      rows.map Row.field = boundFields name bound := by
  cases bound with
  | none => exact ⟨[], rfl, rfl⟩
  | some n =>
    have hn : isInRange n = true := (isInRange_natCast n).mpr (h n rfl)
    refine ⟨[Row.ofNat name n hname hn], ?_, rfl⟩
    have htext : name ++ " = " ++ n.repr ++ "\n" =
        String.ofList (sheet [Row.ofNat name n hname hn]) := by
      rw [← String.toList_inj]
      simp [sheet, Row.chars, Row.ofNat]
    rw [boundLine, if_pos hn, htext]

theorem boundLine_eq_error {name : String} {bound : Option Nat}
    (h : ¬∀ n, bound = some n → n ≤ 2 ^ 63 - 1) :
    boundLine name bound =
      .error (.config "Failed to write slot config: out-of-range value for u64 type") := by
  cases bound with
  | none => exact absurd (by simp) h
  | some n =>
    have hn : ¬isInRange n = true := by
      intro hn
      refine h fun m hm => ?_
      rw [← Option.some.inj hm]
      exact (isInRange_natCast n).mp hn
    rw [boundLine, if_neg hn]

theorem toToml_of_writable {c : Limits} (h : c.Writable) :
    ∃ rows : List Row, c.toToml = .ok (String.ofList (sheet rows)) ∧
      rows.map Row.field = c.fields := by
  obtain ⟨above, habove, hslots⟩ :=
    boundLine_eq_ok isBare_slotsName fun n hn => h n (.inl hn)
  obtain ⟨below, hbelow, hlength⟩ :=
    boundLine_eq_ok isBare_lengthName fun n hn => h n (.inr hn)
  refine ⟨above ++ below, ?_, by rw [List.map_append, hslots, hlength, fields]⟩
  have htext : sheet (above ++ below) = sheet above ++ sheet below := List.flatMap_append
  rw [toToml, habove, hbelow, htext, String.ofList_append]
  rfl

theorem toToml_of_not_writable {c : Limits} (h : ¬c.Writable) :
    c.toToml = .error (.config "Failed to write slot config: out-of-range value for u64 type") := by
  by_cases hslots : ∀ n, c.slots = some n → n ≤ 2 ^ 63 - 1
  case pos =>
    obtain ⟨above, habove, _⟩ := boundLine_eq_ok isBare_slotsName hslots
    have hlength : ¬∀ n, c.length = some n → n ≤ 2 ^ 63 - 1 := fun hlength =>
      h fun n hn => hn.elim (hslots n) (hlength n)
    rw [toToml, habove, boundLine_eq_error hlength]
    rfl
  case neg =>
    rw [toToml, boundLine_eq_error hslots]
    rfl

/-! ## There and back -/

theorem ofToml_toToml {c : Limits} (h : c.Writable) :
    ∃ text, c.toToml = .ok text ∧ ofToml text = .ok c := by
  obtain ⟨rows, hwritten, hfields⟩ := toToml_of_writable h
  have hnames : (rows.map Row.name).Nodup := by
    have hnodup := nodup_names_fields c
    rw [← hfields, List.map_map] at hnodup
    exact hnodup
  obtain ⟨d, hread, hd⟩ := read?_sheet hnames
  refine ⟨_, hwritten, ?_⟩
  rw [ofToml, hread]
  change ofDocument d = .ok c
  rw [ofDocument_eq_ok, hd, hfields, ofFields_fields]

theorem writable_of_toToml {c : Limits} {text : String} (h : c.toToml = .ok text) :
    c.Writable := by
  by_contra hc
  cases (toToml_of_not_writable hc).symm.trans h

theorem ofToml_of_toToml {c : Limits} {text : String} (h : c.toToml = .ok text) :
    ofToml text = .ok c := by
  obtain ⟨text', hwritten, hread⟩ := ofToml_toToml (writable_of_toToml h)
  cases h.symm.trans hwritten
  exact hread

/-- Limits are written exactly if each of them is a number that a document may hold, and otherwise
writing them is an error. What is written is read as the same limits, so that no others are written
in the same way. -/
theorem written_limits_are_read_back (c : Limits) :
    ((∃ text, c.toToml = .ok text) ↔ c.Writable) ∧
      (∀ text, c.toToml = .ok text → ofToml text = .ok c) ∧
      (¬c.Writable → c.toToml =
        .error (.config "Failed to write slot config: out-of-range value for u64 type")) ∧
      ∀ (c' : Limits) (text : String), c.toToml = .ok text → c'.toToml = .ok text → c' = c := by
  refine ⟨⟨?_, ?_⟩, fun _ => ofToml_of_toToml, toToml_of_not_writable, ?_⟩
  · rintro ⟨text, hwritten⟩
    exact writable_of_toToml hwritten
  · intro h
    obtain ⟨text, hwritten, _⟩ := ofToml_toToml h
    exact ⟨text, hwritten⟩
  · intro c' text hc hc'
    exact Except.ok.inj ((ofToml_of_toToml hc').symm.trans (ofToml_of_toToml hc))

/-- The largest limit that can be written. -/
example : Limits.toToml { slots := some (2 ^ 63 - 1) } =
    .ok "max_slots = 9223372036854775807\n" := rfl

end SlotStore.Limits
