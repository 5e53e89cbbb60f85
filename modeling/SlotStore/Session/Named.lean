/-!
# Named things

A finite map from names, as pairs of a name and a thing. A name stands in it at most once.
-/

namespace SlotStore

/-- Things by name. -/
structure Named (α : Type) where
  entries : List (String × α) := []
  /-- A name stands for one thing. -/
  distinct : (entries.map Prod.fst).Nodup := by simp

namespace Named

variable {α : Type}

def find? (n : Named α) (name : String) : Option α := n.entries.lookup name

def without (n : Named α) (name : String) : Named α where
  entries := n.entries.filter fun e => e.1 != name
  distinct := n.distinct.sublist (List.filter_sublist.map Prod.fst)

/-- Takes the thing of a name out. -/
def take? (n : Named α) (name : String) : Option (α × Named α) :=
  (n.find? name).map fun a => (a, n.without name)

/-- Gives a name to a thing, and takes it away from any other. -/
def put (n : Named α) (name : String) (a : α) : Named α where
  entries := (name, a) :: (n.without name).entries
  distinct := by
    rw [List.map_cons, List.nodup_cons]
    refine ⟨fun h => ?_, (n.without name).distinct⟩
    obtain ⟨e, he, rfl⟩ := List.mem_map.mp h
    simpa using (List.mem_filter.mp he).2

/-- The smaller of two names, where there are two. -/
def smaller (name : String) : Option String → String
  | none => name
  | some other => if name ≤ other then name else other

def first? (n : Named α) : Option String :=
  n.entries.foldr (fun e name => some (smaller e.1 name)) none

/-! ## Finding -/

theorem find?_eq_none_iff {n : Named α} {name : String} :
    n.find? name = none ↔ ∀ e ∈ n.entries, e.1 ≠ name := by
  rw [find?, List.lookup_eq_none_iff]
  constructor
  · intro h e he hn
    simpa [hn] using h e he
  · intro h e he
    simpa using fun hn => h e he hn.symm

theorem mem_entries_of_find? {n : Named α} {name : String} {a : α} (h : n.find? name = some a) :
    (name, a) ∈ n.entries := by
  rw [find?] at h
  generalize n.entries = entries at h
  induction entries with
  | nil => cases h
  | cons e entries ih =>
    rw [List.lookup_cons] at h
    split at h
    next hname =>
      cases h
      rw [eq_of_beq hname]
      exact List.mem_cons_self ..
    next => exact List.mem_cons_of_mem _ (ih h)

theorem find?_without_self (n : Named α) (name : String) : (n.without name).find? name = none := by
  rw [find?_eq_none_iff]
  intro e he
  simpa using (List.mem_filter.mp he).2

theorem find?_without_of_ne {name other : String} (h : other ≠ name) (n : Named α) :
    (n.without name).find? other = n.find? other := by
  obtain ⟨entries, distinct⟩ := n
  simp only [find?, without]
  clear distinct
  induction entries with
  | nil => rfl
  | cons e entries ih =>
    by_cases hk : e.1 = name
    · rw [List.filter_cons_of_neg (by simpa using hk), ih, List.lookup_cons,
        beq_eq_false_iff_ne.mpr (hk ▸ h)]
    · rw [List.filter_cons_of_pos (by simpa using hk), List.lookup_cons, List.lookup_cons, ih]

theorem find?_of_find?_without {n : Named α} {name other : String} {a : α}
    (h : (n.without name).find? other = some a) : n.find? other = some a := by
  by_cases he : other = name
  · rw [he, find?_without_self] at h
    cases h
  · rwa [find?_without_of_ne he] at h

theorem find?_put_self (n : Named α) (name : String) (a : α) :
    (n.put name a).find? name = some a := by
  simp [find?, put]

theorem find?_put_of_ne {name other : String} (h : other ≠ name) (n : Named α) (a : α) :
    (n.put name a).find? other = n.find? other := by
  rw [find?, put, List.lookup_cons, beq_eq_false_iff_ne.mpr h]
  exact find?_without_of_ne h n

theorem forall_find?_put {P : α → Prop} {n : Named α} (h : ∀ name a, n.find? name = some a → P a)
    (name : String) {a : α} (ha : P a) (other : String) (b : α)
    (hb : (n.put name a).find? other = some b) : P b := by
  by_cases hn : other = name
  · rw [hn, find?_put_self] at hb
    cases hb
    exact ha
  · rw [find?_put_of_ne hn] at hb
    exact h other b hb

theorem mem_names_of_first? {n : Named α} {name : String} (h : n.first? = some name) :
    name ∈ n.entries.map Prod.fst := by
  obtain ⟨entries, distinct⟩ := n
  simp only [first?] at h ⊢
  clear distinct
  induction entries generalizing name with
  | nil => cases h
  | cons e entries ih =>
    rw [List.foldr_cons, Option.some.injEq] at h
    rw [List.map_cons, List.mem_cons]
    cases hr : entries.foldr (fun e name => some (smaller e.1 name)) none with
    | none =>
      rw [hr] at h
      exact Or.inl h.symm
    | some other =>
      rw [hr, smaller] at h
      split at h
      · exact Or.inl h.symm
      · exact Or.inr (ih (h ▸ hr))

theorem take?_isSome_of_first? {n : Named α} {name : String} (h : n.first? = some name) :
    (n.take? name).isSome := by
  obtain ⟨e, he, hn⟩ := List.mem_map.mp (mem_names_of_first? h)
  rw [take?, Option.isSome_map, Option.isSome_iff_ne_none]
  intro hnone
  exact find?_eq_none_iff.mp hnone e he hn

theorem entries_eq_nil_of_first? {n : Named α} (h : n.first? = none) : n.entries = [] := by
  rw [first?] at h
  cases he : n.entries with
  | nil => rfl
  | cons e entries =>
    rw [he] at h
    cases h

/-! ## Sums -/

/-- The sum of a measure over all things. -/
def total (w : α → Nat) (n : Named α) : Nat := n.entries.foldr (fun e s => w e.2 + s) 0

theorem without_eq_self {n : Named α} {name : String} (h : n.find? name = none) :
    (n.without name).entries = n.entries := by
  rw [without, List.filter_eq_self]
  intro e he
  simpa using find?_eq_none_iff.mp h e he

theorem total_of_find? {n : Named α} {name : String} {a : α} (w : α → Nat)
    (h : n.find? name = some a) : total w n = w a + total w (n.without name) := by
  obtain ⟨entries, distinct⟩ := n
  simp only [find?, total, without] at h ⊢
  induction entries with
  | nil => cases h
  | cons e entries ih =>
    obtain ⟨k, b⟩ := e
    rw [List.map_cons, List.nodup_cons] at distinct
    rw [List.lookup_cons] at h
    by_cases hk : name = k
    · subst hk
      have hf : entries.filter (fun e => e.1 != name) = entries := by
        rw [List.filter_eq_self]
        intro e he
        simpa using fun hn : e.1 = name => distinct.1 (List.mem_map.mpr ⟨e, he, hn⟩)
      rw [beq_self_eq_true] at h
      cases h
      simp [hf]
    · have hb : (k != name) = true := by simpa using fun hn : k = name => hk hn.symm
      rw [beq_eq_false_iff_ne.mpr hk] at h
      rw [List.filter_cons_of_pos (by exact hb), List.foldr_cons, List.foldr_cons,
        ih distinct.2 h]
      omega

theorem total_put (w : α → Nat) (n : Named α) (name : String) (a : α) :
    total w (n.put name a) + ((n.find? name).map w).getD 0 = total w n + w a := by
  have hput : total w (n.put name a) = w a + total w (n.without name) := rfl
  cases h : n.find? name with
  | none =>
    have : total w (n.without name) = total w n := by rw [total, total, without_eq_self h]
    simp only [Option.map_none, Option.getD_none]
    omega
  | some b =>
    have := total_of_find? w h
    simp only [Option.map_some, Option.getD_some]
    omega

theorem total_le_total {w w' : α → Nat} (h : ∀ a, w a ≤ w' a) (n : Named α) :
    total w n ≤ total w' n := by
  rw [total, total]
  induction n.entries with
  | nil => exact Nat.le_refl 0
  | cons e entries ih =>
    rw [List.foldr_cons, List.foldr_cons]
    exact Nat.add_le_add (h e.2) ih

end Named

end SlotStore
