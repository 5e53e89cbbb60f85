import SlotStore.Proofs.Limits.Acceptance

/-!
# Normal forms

A document holds whole numbers below `2 ^ 63` only, in whichever way they are written, so limits
that are read from a text can always be written again (`writable_of_ofToml`). What is written then
is the normal form of the text: it says the same, and it is its own normal form. Two texts have the
same normal form exactly if they give the same limits (`normal_forms`).
-/

namespace SlotStore.Limits

open Toml

/-! ## What is read can be written -/

theorem Denotes.writable {text : List Char} {d : Document} {c : Limits} (hc : Denotes d.entries c)
    (h : d.StandsIn text) : c.Writable := by
  intro n hn
  obtain ⟨e, he, hdatum⟩ : ∃ e ∈ d.entries, e.2.datum = .integer n := by
    rcases hn with hslots | hlength
    · obtain ⟨e, he, -, hdatum⟩ := (hc.slots n).mp hslots
      exact ⟨e, he, hdatum⟩
    · obtain ⟨e, he, -, hdatum⟩ := (hc.length n).mp hlength
      exact ⟨e, he, hdatum⟩
  -- Whatever word the text has for the number, it was only read because a document may hold it.
  obtain ⟨_, _, _, _, hrange⟩ := (h.datum_eq_integer_iff he).mp hdatum
  exact (isInRange_natCast n).mp hrange

theorem writable_of_ofToml {text : String} {c : Limits} (h : ofToml text = .ok c) :
    c.Writable := by
  rw [ofToml] at h
  split at h
  case h_1 => cases h
  case h_2 d hread =>
    have hstands := Document.standsIn hread
    exact ((ofDocument_eq_ok_iff hstands).mp h).writable hstands

/-! ## Reading and writing -/

/-- What is written of the limits that a text gives. -/
def normalForm (text : String) : Except Error String := do
  let c ← (ofToml text).mapError (Unreadable.error text)
  c.toToml

theorem normalForm_eq_toToml {text : String} {c : Limits} (h : ofToml text = .ok c) :
    normalForm text = c.toToml := by
  rw [normalForm, h]
  rfl

theorem exists_ofToml_of_normalForm {text out : String} (h : normalForm text = .ok out) :
    ∃ c, ofToml text = .ok c ∧ c.toToml = .ok out := by
  cases hread : ofToml text with
  | error u =>
    rw [normalForm, hread] at h
    cases h
  | ok c => exact ⟨c, rfl, normalForm_eq_toToml hread ▸ h⟩

/-- A normal form gives the same limits as the text, and is its own normal form. -/
theorem exists_normalForm {text : String} {c : Limits} (h : ofToml text = .ok c) :
    ∃ out, c.toToml = .ok out ∧ ofToml out = .ok c ∧ normalForm text = .ok out ∧
      normalForm out = .ok out := by
  obtain ⟨out, hwritten, hread⟩ := ofToml_toToml (writable_of_ofToml h)
  have hout : normalForm out = .ok out := (normalForm_eq_toToml hread).trans hwritten
  exact ⟨out, hwritten, hread, (normalForm_eq_toToml h).trans hwritten, hout⟩

theorem normalForm_eq_iff {text other : String} {c c' : Limits} (h : ofToml text = .ok c)
    (h' : ofToml other = .ok c') : normalForm text = normalForm other ↔ c = c' := by
  rw [normalForm_eq_toToml h, normalForm_eq_toToml h']
  constructor
  · intro heq
    obtain ⟨out, hwritten, hread⟩ := ofToml_toToml (writable_of_ofToml h)
    have hread' : ofToml out = .ok c' := ofToml_of_toToml (heq.symm.trans hwritten)
    exact Except.ok.inj (hread.symm.trans hread')
  · exact congrArg toToml

/-- **What can be read can be written in a normal form.** Limits that a text gives are numbers up to
`2 ^ 63 - 1`; they can be written, and what is written gives them again. So the texts that give
limits are those that have a normal form, a normal form is its own, and two such texts have the same
normal form exactly if they give the same limits. -/
theorem normal_forms (text : String) :
    (∀ c, ofToml text = .ok c → (∀ n, c.slots = some n ∨ c.length = some n → n ≤ 2 ^ 63 - 1) ∧
      ∃ out, c.toToml = .ok out ∧ ofToml out = .ok c ∧ normalForm text = .ok out) ∧
    ((∃ out, normalForm text = .ok out) ↔ ∃ c, ofToml text = .ok c) ∧
    (∀ out, normalForm text = .ok out → normalForm out = .ok out) ∧
    ∀ other c c', ofToml text = .ok c → ofToml other = .ok c' →
      (normalForm text = normalForm other ↔ c = c') := by
  refine ⟨fun c h => ⟨writable_of_ofToml h, ?_⟩, ⟨?_, ?_⟩, ?_, fun other c c' => normalForm_eq_iff⟩
  · obtain ⟨out, hwritten, hread, hform, -⟩ := exists_normalForm h
    exact ⟨out, hwritten, hread, hform⟩
  · rintro ⟨out, hform⟩
    obtain ⟨c, hread, -⟩ := exists_ofToml_of_normalForm hform
    exact ⟨c, hread⟩
  · rintro ⟨c, h⟩
    obtain ⟨out, -, -, hform, -⟩ := exists_normalForm h
    exact ⟨out, hform⟩
  · intro out hform
    obtain ⟨c, hread, -⟩ := exists_ofToml_of_normalForm hform
    obtain ⟨out', -, -, hform', hout⟩ := exists_normalForm hread
    cases hform.symm.trans hform'
    exact hout

/-- Another spelling of a number has the same normal form as its digits. -/
example : normalForm "max_list_len = 0x1_0 # sixteen" = .ok "max_list_len = 16\n" := by cbv

end SlotStore.Limits
