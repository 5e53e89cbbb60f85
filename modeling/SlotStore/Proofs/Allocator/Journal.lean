import SlotStore.Proofs.Allocator.Request

/-!
# The events of an allocator are its journal

The texts that an allocator reports can be read back: each tells of one action on the table, or of
none (`Action.read?_eq_some_iff`, `Event.read?_message`). There are few things that can be reported
of a request, and each goes with what becomes of the table (`reports_serve`). So what is reported
during a run can be done again on an empty table, step by step, and leads to the table that the
allocator has (`journal_is_faithful`).
-/

namespace SlotStore

/-! ## Actions on a table -/

/-- What an event says was done to a table. -/
inductive Action where
  /-- An entry was put at the end. -/
  | append (i : Nat)
  /-- An empty entry was filled. -/
  | fill (i : Nat)
  | empty (i : Nat)
  /-- The whole table was dropped. -/
  | drop
deriving DecidableEq, Repr

namespace Action

def numbered (before : String) (i : Nat) (after : String) : String := before ++ i.repr ++ after

def text : Action → String
  | append i => numbered "Allocated Slot(" i ")"
  | fill i => numbered "Allocated Slot(" i ") (reused)"
  | empty i => numbered "Freed Slot(" i ")"
  | drop => "Released slot table, no slots in use"

/-- The number that all digits of a text make. -/
def number (text : String) : Nat := Nat.ofDigitChars 10 (text.toList.filter Char.isDigit) 0

/-- The actions that concern an entry, if any does. -/
def concerning (i : Nat) : List Action := [append i, fill i, empty i, drop]

/-- The action that a text is the words for. -/
def read? (text : String) : Option Action :=
  (concerning (number text)).find? fun action => action.text = text

/-- The table after an action, if the table admits it: an entry is put right behind the others, what
is filled is empty, what is emptied holds its slot, and what is dropped holds none. -/
def applyTo? (table : List (Option Slot)) : Action → Option (List (Option Slot))
  | append i => if i = table.length then some (table ++ [some ⟨i⟩]) else none
  | fill i => if table[i]? = some none then some (table.set i (some ⟨i⟩)) else none
  | empty i => if table[i]? = some (some ⟨i⟩) then some (table.set i none) else none
  | drop => if table.all Option.isNone then some [] else none

theorem filter_isDigit_repr (i : Nat) : i.repr.toList.filter Char.isDigit = Nat.toDigits 10 i := by
  rw [Nat.toList_repr, List.filter_eq_self]
  exact fun c hc => Nat.isDigit_of_mem_toDigits (by decide) (by decide) hc

theorem number_numbered {before after : String} (i : Nat)
    (hbefore : before.toList.filter Char.isDigit = [])
    (hafter : after.toList.filter Char.isDigit = []) : number (numbered before i after) = i := by
  rw [number, numbered, String.toList_append, String.toList_append, List.filter_append,
    List.filter_append, hbefore, hafter, filter_isDigit_repr, List.nil_append, List.append_nil,
    Nat.ofDigitChars_ten_toDigits]

theorem mem_concerning (a : Action) : a ∈ concerning (number a.text) := by
  cases a with
  | append i =>
    rw [text, number_numbered i (by simp [Char.isDigit]) (by simp [Char.isDigit])]
    simp [concerning]
  | fill i =>
    rw [text, number_numbered i (by simp [Char.isDigit]) (by simp [Char.isDigit])]
    simp [concerning]
  | empty i =>
    rw [text, number_numbered i (by simp [Char.isDigit]) (by simp [Char.isDigit])]
    simp [concerning]
  | drop => simp [concerning]

theorem eq_of_mem_concerning {a b : Action} {i : Nat} (ha : a ∈ concerning i)
    (hb : b ∈ concerning i) (h : a.text = b.text) : a = b := by
  simp only [concerning, List.mem_cons, List.not_mem_nil, or_false] at ha hb
  rw [← String.toList_inj] at h
  rcases ha with rfl | rfl | rfl | rfl <;> rcases hb with rfl | rfl | rfl | rfl <;>
    simp [text, numbered] at h ⊢

theorem text_of_read? {words : String} {a : Action} (h : read? words = some a) :
    a.text = words := by
  have hfound := List.find?_some h
  exact of_decide_eq_true hfound

theorem read?_eq_some_iff {words : String} {a : Action} :
    read? words = some a ↔ a.text = words := by
  refine ⟨text_of_read?, ?_⟩
  rintro rfl
  have hsome : (read? a.text).isSome := by
    rw [read?, List.find?_isSome]
    exact ⟨a, mem_concerning a, decide_eq_true rfl⟩
  obtain ⟨b, hb⟩ := Option.isSome_iff_exists.mp hsome
  have hmem : b ∈ concerning (number a.text) := List.mem_of_find?_eq_some hb
  rw [hb, eq_of_mem_concerning hmem (mem_concerning a) (text_of_read? hb)]

example : read? "Allocated Slot(12) (reused)" = some (.fill 12) := by cbv

theorem head?_text (a : Action) : a.text.toList.head? ∈ [some 'A', some 'F', some 'R'] := by
  cases a <;> simp [text, numbered]

theorem read?_eq_none {words : String} (h : words.toList.head? ∉ [some 'A', some 'F', some 'R']) :
    read? words = none := by
  cases hread : read? words with
  | none => rfl
  | some a => exact absurd (text_of_read? hread ▸ head?_text a) h

end Action

/-! ## Events -/

namespace Event

/-- The action on a table that an event tells of. -/
def action? : Event → Option Action
  | issued s => some (.append s.index)
  | reissued s => some (.fill s.index)
  | freed s => some (.empty s.index)
  | released => some .drop
  | _ => none

/-- Messages are read as the actions that they tell of. -/
theorem read?_message (e : Event) : Action.read? e.message = e.action? := by
  cases e with
  | issued s =>
    refine Action.read?_eq_some_iff.mpr ?_
    change _ = "Allocated " ++ s.text
    simp [Action.text, Action.numbered, Slot.text, ← String.toList_inj]
  | reissued s =>
    refine Action.read?_eq_some_iff.mpr ?_
    change _ = "Allocated " ++ s.text ++ " (reused)"
    simp [Action.text, Action.numbered, Slot.text, ← String.toList_inj]
  | freed s =>
    refine Action.read?_eq_some_iff.mpr ?_
    change _ = "Freed " ++ s.text
    simp [Action.text, Action.numbered, Slot.text, ← String.toList_inj]
  | released => exact Action.read?_eq_some_iff.mpr rfl
  | opened limit =>
    refine Action.read?_eq_none ?_
    change ("Initializing slot allocator (max_slots: " ++ Shown.option Nat.repr limit ++
      ")").toList.head? ∉ _
    simp
  | full n =>
    refine Action.read?_eq_none ?_
    change ("Slot allocator is full (" ++ n.repr ++ " slots)").toList.head? ∉ _
    simp
  | grew before after =>
    refine Action.read?_eq_none ?_
    change ("Growing slot list from " ++ before.repr ++ " to " ++ after.repr).toList.head? ∉ _
    simp
  | destroyed n =>
    refine Action.read?_eq_none ?_
    change ("Destroying slot list with " ++ n.repr ++ " entries").toList.head? ∉ _
    simp

theorem action?_eq_drop {e : Event} : e.action? = some .drop ↔ e = .released := by
  cases e <;> simp [action?]

theorem action?_eq_empty {e : Event} {i : Nat} : e.action? = some (.empty i) ↔ e = .freed ⟨i⟩ := by
  cases e with
  | freed s =>
    cases s
    simp [action?]
  | _ => simp [action?]

theorem text_eq_message_iff {a : Action} {e : Event} : a.text = e.message ↔ e.action? = some a := by
  rw [← read?_message, Action.read?_eq_some_iff]

end Event

/-! ## Replay -/

namespace Allocator

/-- A table after one more text. Texts that tell of no action change nothing. -/
def redo (table : List (Option Slot)) (words : String) : Option (List (Option Slot)) :=
  match Action.read? words with
  | some action => action.applyTo? table
  | none => some table

def replay (table : List (Option Slot)) (texts : List String) : Option (List (Option Slot)) :=
  texts.foldlM redo table

theorem redo_message (table : List (Option Slot)) {e : Event} {action : Action}
    (h : e.action? = some action) : redo table e.message = action.applyTo? table := by
  rw [redo, e.read?_message, h]

theorem redo_freed {table : List (Option Slot)} {s : Slot}
    (hheld : table[s.index]? = some (some s)) :
    redo table (Event.freed s).message = some (table.set s.index none) := by
  rw [redo_message table rfl]
  exact if_pos hheld

theorem replay_append (table : List (Option Slot)) (texts texts' : List String) :
    replay table (texts ++ texts') = (replay table texts).bind fun t => replay t texts' :=
  List.foldlM_append

theorem replay_singleton (table : List (Option Slot)) (words : String) :
    replay table [words] = redo table words := by
  rw [replay, List.foldlM_cons]
  cases redo table words <;> rfl

/-! ## What is reported of a request -/

def events (a : Allocator) : Request → List Event
  | .allocate m => (a.allocate m).events
  | .free s => (a.free s).events
  | .isLive _ | .used => []

def journal (a : Allocator) : List Request → List Event
  | [] => []
  | q :: requests => a.events q ++ (a.serve q).1.journal requests

/-- The words for what an allocator reports during a run. -/
def texts (a : Allocator) (requests : List Request) : List String :=
  (a.journal requests).map Event.message

/-- All that can be reported of a request, and what has become of the table then. -/
inductive Reports (table : List (Option Slot)) : List Event → List (Option Slot) → Prop where
  | silent : Reports table [] table
  | full (n : Nat) : Reports table [.full n] table
  | reissued {i : Nat} (hempty : table[i]? = some none) :
      Reports table [.reissued ⟨i⟩] (table.set i (some ⟨i⟩))
  | issued : Reports table [.issued ⟨table.length⟩] (table ++ [some ⟨table.length⟩])
  | freed {s : Slot} (hheld : table[s.index]? = some (some s))
      (hmore : ∃ entry ∈ table.set s.index none, entry ≠ none) :
      Reports table [.freed s] (table.set s.index none)
  | released {s : Slot} (hheld : table[s.index]? = some (some s))
      (hlast : ∀ entry ∈ table.set s.index none, entry = none) :
      Reports table [.freed s, .released] []

section
variable {a : Allocator}

theorem reports_free (hw : a.WellFormed) {s : Slot} (hs : a.isLive s = true) :
    Reports a.table (a.free s).events (a.free s).state.table := by
  have hheld := isLive_iff.mp hs
  have hcount := countP_set_of_isLive hw hs
  rw [free_of_isLive hs]
  change Reports a.table (if (a.vacate s.index).used = 0 then _ else _) (a.vacate s.index).table
  rw [vacate]
  by_cases hlast : a.used - 1 = 0
  case pos =>
    rw [if_pos hlast, if_pos rfl]
    rw [hlast, List.countP_eq_zero] at hcount
    exact .released hheld fun entry hentry => by simpa using hcount entry hentry
  case neg =>
    rw [if_neg hlast, if_neg hlast]
    rw [← hcount] at hlast
    obtain ⟨entry, hentry, hsome⟩ := List.countP_pos_iff.mp (Nat.pos_of_ne_zero hlast)
    exact .freed hheld ⟨entry, hentry, Option.isSome_iff_ne_none.mp hsome⟩

/-- A request is reported with what becomes of the table. -/
theorem reports_serve (hw : a.WellFormed) (q : Request) :
    Reports a.table (a.events q) (a.serve q).1.table := by
  cases q with
  | allocate m =>
    rcases allocate_cases m a with ⟨i, hh, he⟩ | ⟨n, _, _, _, he⟩ | ⟨_, _, _, he⟩ | ⟨_, _, _, he⟩
    · rw [events, serve, he]
      exact .reissued (hole_eq_some hh).1
    · rw [events, serve, he]
      exact .full n
    · rw [events, serve, he]
      exact .issued
    · rw [events, serve, he]
      exact .silent
  | free s =>
    by_cases hs : a.isLive s = true
    case pos => exact reports_free hw hs
    case neg =>
      rw [events, serve, free_of_not_isLive hs]
      exact .silent
  | isLive s => exact .silent
  | used => exact .silent

end

theorem Reports.replay {table table' : List (Option Slot)} {es : List Event}
    (h : Reports table es table') : replay table (es.map Event.message) = some table' := by
  cases h with
  | silent => rfl
  | full n =>
    rw [List.map_singleton, replay_singleton, redo, Event.read?_message]
    rfl
  | reissued hempty =>
    rw [List.map_singleton, replay_singleton, redo_message table rfl]
    exact if_pos hempty
  | issued =>
    rw [List.map_singleton, replay_singleton, redo_message table rfl]
    exact if_pos rfl
  | freed hheld hmore => rw [List.map_singleton, replay_singleton, redo_freed hheld]
  | released hheld hlast =>
    rw [List.map_cons, List.map_singleton, Allocator.replay, List.foldlM_cons, redo_freed hheld]
    change Allocator.replay _ [_] = _
    rw [replay_singleton, redo_message _ rfl]
    refine if_pos (List.all_eq_true.mpr fun entry hentry => ?_)
    rw [hlast entry hentry]
    rfl

/-! ## When the table is dropped -/

/-- Texts end with the words that the last slot of a table is freed. -/
def EndsFree (texts : List String) (table : List (Option Slot)) : Prop :=
  (∃ i, texts.getLast? = some (Action.empty i).text) ∧ ∀ entry ∈ table, entry = none

/-- The dropping of a table is told of right behind the words that its last slot is freed, and
nowhere else. -/
def Announced (table : List (Option Slot)) (texts : List String) : Prop :=
  ∀ before after t, texts = before ++ after → replay table before = some t →
    (after.head? = some Action.drop.text ↔ EndsFree before t)

theorem not_endsFree_nil (table : List (Option Slot)) : ¬EndsFree [] table := by
  rintro ⟨⟨i, hi⟩, -⟩
  cases hi

theorem announced_nil (table : List (Option Slot)) : Announced table [] := by
  intro before after t hsplit _
  obtain ⟨rfl, rfl⟩ := List.append_eq_nil_iff.mp hsplit.symm
  exact iff_of_false (by simp) (not_endsFree_nil t)

theorem Announced.append {table table' : List (Option Slot)} {texts texts' : List String}
    (h : Announced table texts) (h' : Announced table' texts')
    (hreplay : replay table texts = some table') : Announced table (texts ++ texts') := by
  intro before after t hsplit ht
  -- Between the two neither the last slot has just been freed nor is the table about to be dropped.
  have hbetween : texts'.head? = some Action.drop.text ↔ EndsFree texts table' := by
    have hend := h texts [] table' (List.append_nil texts).symm hreplay
    have hstart := h' [] texts' table' rfl rfl
    rw [hstart, ← hend]
    exact iff_of_false (not_endsFree_nil table') (by simp)
  rcases List.append_eq_append_iff.mp hsplit with ⟨rest, rfl, rfl⟩ | ⟨rest, rfl, rfl⟩
  · rw [replay_append, hreplay, Option.bind_some] at ht
    by_cases hrest : rest = []
    case pos =>
      cases hrest
      cases ht
      rw [List.append_nil]
      exact hbetween
    case neg =>
      rw [h' rest after t rfl ht, EndsFree, EndsFree, List.getLast?_append_of_ne_nil _ hrest]
  · by_cases hrest : rest = []
    case pos =>
      cases hrest
      rw [List.append_nil] at hreplay hbetween
      cases hreplay.symm.trans ht
      exact hbetween
    case neg => rw [List.head?_append_of_ne_nil _ hrest, h before rest t rfl ht]

theorem head?_message_ne_drop {e : Event} (h : e ≠ .released) (rest : List String) :
    (e.message :: rest).head? ≠ some Action.drop.text := by
  rw [List.head?_cons, Ne, Option.some.injEq, eq_comm, Event.text_eq_message_iff,
    Event.action?_eq_drop]
  exact h

theorem eq_freed_of_endsFree (texts : List String) {e : Event} {table : List (Option Slot)}
    (h : EndsFree (texts ++ [e.message]) table) : ∃ i, e = .freed ⟨i⟩ := by
  obtain ⟨⟨i, hi⟩, -⟩ := h
  rw [List.getLast?_concat, Option.some.injEq, eq_comm, Event.text_eq_message_iff,
    Event.action?_eq_empty] at hi
  exact ⟨i, hi⟩

theorem announced_singleton {table : List (Option Slot)} {e : Event} (hdrop : e ≠ .released)
    (hfree : ∀ s t, e = .freed s → redo table e.message = some t → ∃ entry ∈ t, entry ≠ none) :
    Announced table [e.message] := by
  intro before after t hsplit ht
  rcases List.singleton_eq_append_iff.mp hsplit with ⟨rfl, rfl⟩ | ⟨rfl, rfl⟩
  · exact iff_of_false (head?_message_ne_drop hdrop []) (not_endsFree_nil t)
  · refine iff_of_false (by simp) fun hends => ?_
    obtain ⟨i, hi⟩ := eq_freed_of_endsFree [] hends
    rw [replay_singleton] at ht
    obtain ⟨entry, hentry, hne⟩ := hfree ⟨i⟩ t hi ht
    exact hne (hends.2 entry hentry)

theorem announced_released {table : List (Option Slot)} {s : Slot}
    (hheld : table[s.index]? = some (some s))
    (hlast : ∀ entry ∈ table.set s.index none, entry = none) :
    Announced table [(Event.freed s).message, Event.released.message] := by
  intro before after t hsplit ht
  rcases before with _ | ⟨words, _ | ⟨words', _ | ⟨_, _⟩⟩⟩
  · cases hsplit
    exact iff_of_false (head?_message_ne_drop (by simp) _) (not_endsFree_nil t)
  · cases hsplit
    rw [replay_singleton, redo_freed hheld] at ht
    cases ht
    exact iff_of_true rfl ⟨⟨s.index, congrArg some (Event.text_eq_message_iff.mpr rfl).symm⟩, hlast⟩
  · cases hsplit
    refine iff_of_false (by simp) fun hends => ?_
    obtain ⟨i, hi⟩ := eq_freed_of_endsFree [_] hends
    cases hi
  · cases hsplit

theorem Reports.announced {table table' : List (Option Slot)} {es : List Event}
    (h : Reports table es table') : Announced table (es.map Event.message) := by
  cases h with
  | silent => exact announced_nil table
  | full n => exact announced_singleton (by simp) (by simp)
  | reissued hempty => exact announced_singleton (by simp) (by simp)
  | issued => exact announced_singleton (by simp) (by simp)
  | freed hheld hmore =>
    refine announced_singleton (by simp) fun s' t _ ht => ?_
    rw [redo_freed hheld] at ht
    cases ht
    exact hmore
  | released hheld hlast => exact announced_released hheld hlast

/-! ## Warnings -/

/-- The words for a full table. -/
def warning (limit : Nat) : String := Action.numbered "Slot allocator is full (" limit " slots)"

/-- The warning that a response comes with. -/
def Response.warning? : Response → Option String
  | .slot (.error (.error (.capacityExceeded _ limit))) => some (warning limit)
  | _ => none

/-- Texts that tell of no action. -/
def idle (texts : List String) : List String :=
  texts.filter fun words => (Action.read? words).isNone

theorem idle_messages (es : List Event) :
    idle (es.map Event.message) = (es.filter fun e => e.action?.isNone).map Event.message := by
  rw [idle, List.filter_map]
  simp only [Function.comp_def, Event.read?_message]

theorem idle_events (a : Allocator) (q : Request) :
    idle ((a.events q).map Event.message) = (a.serve q).2.warning?.toList := by
  rw [idle_messages]
  cases q with
  | allocate m =>
    rcases allocate_cases m a with ⟨i, _, he⟩ | ⟨n, _, _, _, he⟩ | ⟨_, _, _, he⟩ | ⟨_, _, _, he⟩
    all_goals
      rw [events, serve, he]
      rfl
  | free s =>
    by_cases hs : a.isLive s = true
    case neg =>
      rw [events, serve, free_of_not_isLive hs]
      rfl
    case pos =>
      rw [events, serve, free_of_isLive hs]
      dsimp only
      split <;> rfl
  | isLive s => rfl
  | used => rfl

/-! ## Runs -/

/-- What is reported during a run can be done again, and leads to the same table. -/
theorem replay_texts {a : Allocator} (hw : a.WellFormed) (requests : List Request) :
    replay a.table (a.texts requests) = some (a.run requests).1.table := by
  induction requests generalizing a with
  | nil => rfl
  | cons q requests ih =>
    rw [texts, journal, List.map_append, replay_append, (reports_serve hw q).replay,
      Option.bind_some]
    exact ih (wellFormed_serve hw q)

theorem announced_texts {a : Allocator} (hw : a.WellFormed) (requests : List Request) :
    Announced a.table (a.texts requests) := by
  induction requests generalizing a with
  | nil => exact announced_nil a.table
  | cons q requests ih =>
    rw [texts, journal, List.map_append]
    have hreports := reports_serve hw q
    exact hreports.announced.append (ih (wellFormed_serve hw q)) hreports.replay

theorem idle_texts (a : Allocator) (requests : List Request) :
    idle (a.texts requests) = (a.run requests).2.filterMap fun r => r.2.warning? := by
  induction requests generalizing a with
  | nil => rfl
  | cons q requests ih =>
    rw [texts, journal, List.map_append, idle, List.filter_append, ← idle, idle_events, ← idle,
      ← texts, ih, run, List.filterMap_cons]
    cases (a.serve q).2.warning? <;> rfl

theorem events_of_starved {a : Allocator} {q : Request} (h : (a.serve q).2.starved) :
    a.events q = [] := by
  cases q with
  | allocate m =>
    rcases allocate_cases m a with ⟨i, _, he⟩ | ⟨n, _, _, _, he⟩ | ⟨_, _, _, he⟩ | ⟨_, _, _, he⟩
    case inr.inr.inr =>
      rw [events, he]
      rfl
    all_goals
      rw [serve, he] at h
      cases h
  | free s => cases h
  | isLive s => cases h
  | used => cases h

theorem events_of_refused {a : Allocator} {s : Slot} {f : Fault}
    (h : (a.serve (.free s)).2 = .freed (.error f)) : a.events (.free s) = [] := by
  by_cases hs : a.isLive s = true
  case neg =>
    rw [events, free_of_not_isLive hs]
    rfl
  case pos =>
    rw [serve, free_of_isLive hs] at h
    cases h

/-- **The events of an allocator are its journal.** Each text tells of one action on the table, or
of none; and those that a new allocator reports during a run, whatever fails or is refused in it,
can be done again one after the other, which leads to the same table. The texts that tell of no
action are the warnings, one for each answer that the table is full. The table is said to be dropped
right behind the words that a slot is freed and if no entry holds a slot then, and nowhere else.
Requests that memory is not granted for and slots that are refused are not reported at all. -/
theorem journal_is_faithful (limit : Option Nat) (requests : List Request) :
    let a := ((empty limit).1.run requests).1
    let texts := (empty limit).1.texts requests
    (∀ words action, Action.read? words = some action ↔ action.text = words) ∧
    replay [] texts = some a.table ∧
    (texts.filter fun words => (Action.read? words).isNone) =
      ((empty limit).1.run requests).2.filterMap (fun r => r.2.warning?) ∧
    (∀ before after, texts = before ++ after → ∃ table, replay [] before = some table ∧
      (after.head? = some Action.drop.text ↔
        (∃ i, before.getLast? = some (Action.empty i).text) ∧ ∀ entry ∈ table, entry = none)) ∧
    (∀ q, (a.serve q).2.starved → a.events q = []) ∧
    ∀ s f, (a.serve (.free s)).2 = .freed (.error f) → a.events (.free s) = [] := by
  intro a texts
  have hw : (empty limit).1.WellFormed := wellFormed_empty limit
  have hreplay : replay [] texts = some a.table := replay_texts hw requests
  refine ⟨fun _ _ => Action.read?_eq_some_iff, hreplay, idle_texts _ requests, ?_,
    fun q => events_of_starved, fun s f => events_of_refused⟩
  intro before after hsplit
  rw [hsplit, replay_append] at hreplay
  obtain ⟨table, htable, -⟩ := Option.bind_eq_some_iff.mp hreplay
  exact ⟨table, htable, announced_texts hw requests before after table hsplit htable⟩

end Allocator

end SlotStore
