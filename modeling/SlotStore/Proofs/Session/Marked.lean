import Mathlib.Data.List.Basic
import SlotStore.Proofs.Session.Conservation
import SlotStore.Proofs.Session.Natural

/-!
# Marked values

To follow a pair through a run its value is given a mark: the place in the script of the call that
brings it. A marked value keeps its original, and the texts that were put behind it since. Marks are
invisible: forgetting them takes a run of the marked script to the run of the script.
-/

namespace SlotStore

/-- A value with texts put behind it, one after the other. -/
def edited {α : Type} [HAppend α String α] (v : α) (edits : List String) : α :=
  edits.foldl (· ++ ·) v

/-- A value with a mark, and what was done to it. -/
structure Marked (α : Type) where
  mark : Nat
  original : α
  edits : List String := []

namespace Marked

variable {α : Type}

instance : HAppend (Marked α) String (Marked α) where
  hAppend v text := { v with edits := v.edits ++ [text] }

/-- The value as it is now. -/
def current [HAppend α String α] (v : Marked α) : α := edited v.original v.edits

theorem current_append [HAppend α String α] (v : Marked α) (text : String) :
    (v ++ text).current = v.current ++ text :=
  List.foldl_append ..

end Marked

variable {α : Type}

def Pair.mark? (p : Pair (Marked α) (Destructor (Marked α))) : Option Nat := p.value.map Marked.mark

/-! ## Marking scripts -/

mutual

def Destructor.number (n : Nat) : Destructor α → Destructor (Marked α)
  | .mk tag script panic => .mk tag (scriptNumber n script) panic

def scriptNumber (n : Nat) : List (Step α) → List (Step (Marked α))
  | [] => []
  | s :: script => s.number n :: scriptNumber (n + s.sites.length) script

def Step.number (n : Nat) : Step α → Step (Marked α)
  | .mk call allocator list => .mk (call.number n) allocator list

/-- A call with its values marked from `n` on: its own, then those of its destructor. -/
def Call.number (n : Nat) : Call α → Call (Marked α)
  | .set l a s v (some d) hold exhausted =>
    .set l a s ⟨n, v, []⟩ (some (d.number (n + 1))) hold exhausted
  | .newHeld h v (some d) => .newHeld h (v.map fun v => ⟨n, v, []⟩) (some (d.number (n + 1)))
  | c => c.map fun v => ⟨n, v, []⟩

end

@[simp] theorem Destructor.script_number (n : Nat) (d : Destructor α) :
    (d.number n).script = scriptNumber n d.script := by
  cases d
  rw [Destructor.number]
  rfl

/-! ## Forgetting marks -/

section

variable [HAppend α String α]

theorem Call.map_number {c : Call α}
    (h : ∀ p ∈ c.pairs, ∀ d, p.destructor = some d → ∀ n, (d.number n).map Marked.current = d)
    (n : Nat) : (c.number n).map Marked.current = c := by
  cases c
  case set l a s v d hold exhausted =>
    cases d with
    | none => rfl
    | some d =>
      rw [Call.number, Call.map, h _ (List.mem_singleton.mpr rfl) d rfl]
      rfl
  case newHeld name v d =>
    cases d with
    | none => cases v <;> rfl
    | some d =>
      rw [Call.number, Call.map, h _ (List.mem_singleton.mpr rfl) d rfl]
      cases v <;> rfl
  all_goals rfl

theorem map_number_of_nested {script : List (Step α)}
    (h : ∀ s ∈ script, ∀ p ∈ s.call.pairs, ∀ d, p.destructor = some d →
      ∀ n, (d.number n).map Marked.current = d)
    (n : Nat) : scriptMap Marked.current (scriptNumber n script) = script := by
  induction script generalizing n with
  | nil => rw [scriptNumber, scriptMap]
  | cons s script ih =>
    obtain ⟨c, a, l⟩ := s
    have hc : (c.number n).map Marked.current = c := Call.map_number (h _ (List.mem_cons_self ..)) n
    rw [scriptNumber, scriptMap, Step.number, Step.map, hc,
      ih fun s hs => h s (List.mem_cons_of_mem _ hs)]

theorem Destructor.map_number (d : Destructor α) (n : Nat) :
    (d.number n).map Marked.current = d := by
  induction d using Destructor.induction generalizing n with
  | h d ih =>
    obtain ⟨tag, script, panic⟩ := d
    have hscript : scriptMap Marked.current (scriptNumber n script) = script :=
      map_number_of_nested ih n
    rw [Destructor.number, Destructor.map, hscript]

theorem scriptMap_number (script : List (Step α)) (n : Nat) :
    scriptMap Marked.current (scriptNumber n script) = script :=
  map_number_of_nested (fun _ _ _ _ d _ => d.map_number) n

end

/-! ## Sites of marked scripts -/

/-- The values of pairs, marked from `n` on. -/
def markedFrom (n : Nat) (ps : List (Pair α (Destructor α))) : List (Option (Marked α)) :=
  (ps.zipIdx n).map fun x => x.1.value.map fun v => ⟨x.2, v, []⟩

theorem markedFrom_append (n : Nat) (ps qs : List (Pair α (Destructor α))) :
    markedFrom n (ps ++ qs) = markedFrom n ps ++ markedFrom (n + ps.length) qs := by
  rw [markedFrom, List.zipIdx_append, List.map_append, markedFrom, markedFrom]

theorem Call.sites_number {c : Call α}
    (h : ∀ p ∈ c.pairs, ∀ d, p.destructor = some d →
      ∀ n, (d.number n).sites.map Pair.value = markedFrom n d.sites)
    (n : Nat) : (c.number n).sites.map Pair.value = markedFrom n c.sites := by
  cases c
  case set l a s v d hold exhausted =>
    cases d with
    | none => rfl
    | some d =>
      rw [Call.number, Call.sites, Call.sites, List.map_cons,
        h _ (List.mem_singleton.mpr rfl) d rfl]
      rfl
  case newHeld name v d =>
    cases d with
    | none => rfl
    | some d =>
      rw [Call.number, Call.sites, Call.sites, List.map_cons,
        h _ (List.mem_singleton.mpr rfl) d rfl]
      rfl
  all_goals rfl

theorem sites_number_of_nested {script : List (Step α)}
    (h : ∀ s ∈ script, ∀ p ∈ s.call.pairs, ∀ d, p.destructor = some d →
      ∀ n, (d.number n).sites.map Pair.value = markedFrom n d.sites)
    (n : Nat) :
    (scriptSites (scriptNumber n script)).map Pair.value = markedFrom n (scriptSites script) := by
  induction script generalizing n with
  | nil =>
    rw [scriptNumber, scriptSites, scriptSites]
    rfl
  | cons s script ih =>
    obtain ⟨c, a, l⟩ := s
    have hc : (c.number n).sites.map Pair.value = markedFrom n c.sites :=
      Call.sites_number (h _ (List.mem_cons_self ..)) n
    rw [scriptNumber, scriptSites, scriptSites, Step.number, Step.sites, Step.sites,
      List.map_append, hc, ih fun s hs => h s (List.mem_cons_of_mem _ hs), markedFrom_append]

theorem Destructor.sites_number (d : Destructor α) (n : Nat) :
    (d.number n).sites.map Pair.value = markedFrom n d.sites := by
  induction d using Destructor.induction generalizing n with
  | h d ih =>
    rw [Destructor.sites_eq, Destructor.sites_eq, Destructor.script_number]
    exact sites_number_of_nested ih n

/-- The pairs that a marked script brings have the values of the script, each with its place among
them as its mark. -/
theorem scriptSites_number (script : List (Step α)) (n : Nat) :
    (scriptSites (scriptNumber n script)).map Pair.value = markedFrom n (scriptSites script) :=
  sites_number_of_nested (fun _ _ _ _ d _ => d.sites_number) n

theorem edits_of_mem_sites {script : List (Step α)} {w : Marked α}
    {d : Option (Destructor (Marked α))} (h : ⟨some w, d⟩ ∈ scriptSites (scriptNumber 0 script)) :
    w.edits = [] := by
  have hmem : some w ∈ markedFrom 0 (scriptSites script) := by
    rw [← scriptSites_number]
    exact List.mem_map.mpr ⟨_, h, rfl⟩
  obtain ⟨x, _, hx⟩ := List.mem_map.mp hmem
  obtain ⟨v, _, rfl⟩ := Option.map_eq_some_iff.mp hx
  rfl

theorem marks_nodup (script : List (Step α)) :
    ((scriptSites (scriptNumber 0 script)).filterMap Pair.mark?).Nodup := by
  have hmarks : (scriptSites (scriptNumber 0 script)).filterMap Pair.mark? =
      (markedFrom 0 (scriptSites script)).filterMap (Option.map Marked.mark) := by
    rw [← scriptSites_number, List.filterMap_map]
    rfl
  rw [hmarks, markedFrom, List.filterMap_map, List.Nodup]
  refine List.Pairwise.filterMap _ (R := fun x y => x.2 ≠ y.2) ?_ ?_
  · intro x y hxy a ha b hb
    have hmark : ∀ (z : Pair α (Destructor α) × Nat) (k : Nat),
        ((z.1.value.map fun v => (⟨z.2, v, []⟩ : Marked α)).map Marked.mark) = some k →
        k = z.2 := by
      intro z k hz
      rw [Option.map_map] at hz
      obtain ⟨v, _, hv⟩ := Option.map_eq_some_iff.mp hz
      exact hv.symm
    rw [hmark x a ha, hmark y b hb]
    exact hxy
  · rw [← List.pairwise_map (R := (· ≠ ·)), List.zipIdx_map_snd]
    exact List.nodup_range'

/-! ## Sites of mapped scripts -/

section

variable {β : Type} (f : α → β)

theorem Call.pairs_map (c : Call α) : (c.map f).pairs = c.pairs.map (Pair.mapValues f) := by
  cases c
  case set l a s v d hold exhausted =>
    rw [Call.map_set]
    rfl
  case newHeld h v d =>
    rw [Call.map_newHeld]
    rfl
  all_goals rfl

theorem scriptPairs_map (script : List (Step α)) :
    scriptPairs (scriptMap f script) = (scriptPairs script).map (Pair.mapValues f) := by
  rw [scriptMap_eq, scriptPairs, scriptPairs, List.flatMap_map, List.map_flatMap]
  apply List.flatMap_congr
  intro s _
  rw [Step.call_map, Call.pairs_map]

theorem scriptSites_map_of_nested {script : List (Step α)}
    (h : ∀ s ∈ script, ∀ p ∈ s.call.pairs, ∀ d, p.destructor = some d →
      (d.map f).sites = d.sites.map (Pair.mapValues f)) :
    scriptSites (scriptMap f script) = (scriptSites script).map (Pair.mapValues f) := by
  rw [scriptSites_eq, scriptSites_eq, scriptPairs_map, List.flatMap_map, List.map_flatMap]
  apply List.flatMap_congr
  intro p hp
  obtain ⟨s, hs, hp⟩ := List.mem_flatMap.mp hp
  obtain ⟨v, d⟩ := p
  cases d with
  | none => rfl
  | some d =>
    rw [List.map_cons]
    exact congrArg (_ :: ·) (h s hs _ hp d rfl)

theorem Destructor.sites_map (d : Destructor α) :
    (d.map f).sites = d.sites.map (Pair.mapValues f) := by
  induction d using Destructor.induction with
  | h d ih =>
    rw [Destructor.sites_eq, Destructor.sites_eq, Destructor.script_map]
    exact scriptSites_map_of_nested f ih

theorem scriptSites_map (script : List (Step α)) :
    scriptSites (scriptMap f script) = (scriptSites script).map (Pair.mapValues f) :=
  scriptSites_map_of_nested f fun _ _ _ _ d _ => d.sites_map f

end

/-- The mark of a pair that a marked script brings says where the script brings its original. -/
theorem getElem?_mark_of_mem_sites [HAppend α String α] {script : List (Step α)} {w : Marked α}
    {d : Destructor (Marked α)} (h : ⟨some w, some d⟩ ∈ scriptSites (scriptNumber 0 script)) :
    (scriptSites script)[w.mark]? = some ⟨some w.original, some (d.map Marked.current)⟩ := by
  obtain ⟨k, hk⟩ := List.mem_iff_getElem?.mp h
  have hvalue : (markedFrom 0 (scriptSites script))[k]? = some (some w) := by
    rw [← scriptSites_number, List.getElem?_map, hk]
    rfl
  have hmark : w.mark = k := by
    rw [markedFrom, List.getElem?_map, List.getElem?_zipIdx, Nat.zero_add, Option.map_map] at hvalue
    obtain ⟨p, _, hp⟩ := Option.map_eq_some_iff.mp hvalue
    obtain ⟨v, _, rfl⟩ := Option.map_eq_some_iff.mp hp
    rfl
  have hcurrent : w.current = w.original := by
    rw [Marked.current, edits_of_mem_sites h]
    rfl
  have hsites : scriptSites script =
      (scriptSites (scriptNumber 0 script)).map (Pair.mapValues Marked.current) := by
    rw [← scriptSites_map, scriptMap_number]
  rw [hsites, List.getElem?_map, hmark, hk, Option.map_some, Pair.mapValues, Option.map_some,
    Option.map_some, hcurrent]

end SlotStore
