import SlotStore.Proofs.Session.Failure
import SlotStore.Proofs.Session.Listless
import SlotStore.Proofs.Session.Log
import SlotStore.Proofs.SlotList.Length

/-!
# The events of a list account for its length

A list reports that it grows and that it is destroyed. If destructors make no calls on lists, a step
does one of three things to lists (`Session.Tells`): it leaves all lengths as they are and reports
nothing, it makes one list grow and reports that, or it tears one list down and reports that first.
So whoever keeps a number by the events of a list (`Event.count?`) has its length at any time, and
the events say which calls were made (`events_account_for_lengths`).
-/

namespace SlotStore

/-- The number that is kept of a list's events, after one more. There is none if the event does not
go on from it. -/
def Event.count? (n : Nat) : Event → Option Nat
  | .grew before after => if before = n ∧ n < after then some after else none
  | .destroyed length => if length = n then some 0 else none
  | _ => some n

namespace SlotList

variable {α δ : Type}

/-- Storing a pair fails and does nothing, or stores it within the list, or reports that the list
grows as far as the position requires. -/
def Grows (l : SlotList α δ) (i : Nat) (o : Outcome (SlotList α δ) (Pair α δ)) : Prop :=
  (∃ f, o = ⟨l, .error f, []⟩) ∨
  (∃ l' p, i < l.length ∧ l'.length = l.length ∧ o = ⟨l', .ok p, []⟩) ∨
  ∃ l' p, l.length ≤ i ∧ l'.length = i + 1 ∧ o = ⟨l', .ok p, [.grew l.length (i + 1)]⟩

theorem grows_put (m : Memory) (i : Nat) (p : Pair α δ) (l : SlotList α δ) :
    l.Grows i (l.put m i p) := by
  rcases growTo_cases m (i + 1) l with
    ⟨hle, he⟩ | ⟨_, _, _, _, he⟩ | ⟨hlt, _, _, he⟩ | ⟨_, _, _, he⟩
  · refine .inr (.inl ⟨l.exchange i p, l.pairAt i, hle, length_exchange .., ?_⟩)
    rw [put, he]
  · rw [put, he]
    exact .inl ⟨_, rfl⟩
  · refine .inr (.inr ⟨(l.lengthened (i + 1)).exchange i p, (l.lengthened (i + 1)).pairAt i,
      Nat.le_of_lt_succ hlt, ?_, ?_⟩)
    · rw [length_exchange, length_lengthened, Nat.max_eq_right (Nat.le_of_lt hlt)]
    · rw [put, he]
  · rw [put, he]
    exact .inl ⟨_, rfl⟩

variable (l : SlotList α δ) (a : Allocator) (s : Slot)

theorem grows_set (m : Memory) (v : α) (d : Option δ) : l.Grows s.index (l.set a m s v d) := by
  unfold set guarded
  split
  · exact grows_put m s.index ⟨some v, d⟩ l
  · exact .inl ⟨_, rfl⟩

theorem get_quiet : (l.get a s).events = [] ∧ (l.get a s).state.length = l.length := by
  unfold get guarded
  split <;> exact ⟨rfl, rfl⟩

theorem modify_quiet (f : α → α) :
    (l.modify a s f).events = [] ∧ (l.modify a s f).state.length = l.length := by
  unfold modify guarded
  split
  · exact ⟨rfl, length_exchange ..⟩
  · exact ⟨rfl, rfl⟩

theorem clear_quiet : (l.clear a s).events = [] ∧ (l.clear a s).state.length = l.length := by
  unfold clear guarded
  split
  · exact ⟨rfl, length_exchange ..⟩
  · exact ⟨rfl, rfl⟩

end SlotList

namespace Session

variable {α : Type}

/-! ## Lengths in a session -/

def lengthOf (σ : Session α) (name : String) : Nat :=
  ((σ.lists.find? name).map SlotList.length).getD 0

theorem lengthOf_of_find? {σ : Session α} {name : String} {l : SlotList α (Destructor α)}
    (h : σ.lists.find? name = some l) : σ.lengthOf name = l.length := by
  rw [lengthOf, h]
  rfl

theorem lengthOf_congr {σ τ : Session α} (h : τ.lists = σ.lists) (name : String) :
    τ.lengthOf name = σ.lengthOf name := by
  rw [lengthOf, h, lengthOf]

theorem lengthOf_put {σ τ : Session α} {name : String} {l : SlotList α (Destructor α)}
    (h : τ.lists = σ.lists.put name l) :
    τ.lengthOf name = l.length ∧ ∀ other, other ≠ name → τ.lengthOf other = σ.lengthOf other := by
  refine ⟨lengthOf_of_find? (by rw [h, Named.find?_put_self]), fun other hother => ?_⟩
  rw [lengthOf, h, Named.find?_put_of_ne hother, lengthOf]

theorem lengthOf_without {σ τ : Session α} {name : String}
    (h : τ.lists = σ.lists.without name) :
    τ.lengthOf name = 0 ∧ ∀ other, other ≠ name → τ.lengthOf other = σ.lengthOf other := by
  constructor
  · rw [lengthOf, h, Named.find?_without_self]
    rfl
  · intro other hother
    rw [lengthOf, h, Named.find?_without_of_ne hother, lengthOf]

end Session

/-! ## What a call can tell of lists -/

variable {α : Type}

def Call.stores? : Call α → Option (String × Slot)
  | .set l _ s _ _ _ _ | .setHeld l _ s _ _ _ => some (l, s)
  | _ => none

/-- The list that a call tears down: one that it destroys or drops, or that is in the place of a new
one. -/
def Call.tears? : Call α → Option String
  | .destroy l | .dropList l => some l
  | .newList l source =>
    match Session.limitsOf (α := α) source with
    | .ok _ => some l
    | .error _ => none
  | _ => none

theorem Call.target?_of_stores? {c : Call α} {l : String} {s : Slot} (h : c.stores? = some (l, s)) :
    c.target? = some l ∧ c.tears? = none := by
  cases c
  case set | setHeld =>
    cases h
    exact ⟨rfl, rfl⟩
  all_goals cases h

theorem Call.cases_of_tears? {c : Call α} {l : String} (h : c.tears? = some l) :
    c = .destroy l ∨ c = .dropList l ∨
      ∃ source limits, c = .newList l source ∧ Session.limitsOf (α := α) source = .ok limits := by
  cases c
  case newList name source =>
    cases hsource : Session.limitsOf (α := α) source with
    | error r => simp [tears?, hsource] at h
    | ok limits =>
      simp only [tears?, hsource, Option.some.injEq] at h
      exact .inr (.inr ⟨source, limits, by rw [h], hsource⟩)
  case destroy =>
    cases h
    exact .inl rfl
  case dropList =>
    cases h
    exact .inr (.inl rfl)
  all_goals cases h

theorem Call.target?_of_tears? {c : Call α} {l : String} (h : c.tears? = some l) :
    c.target? = some l ∧ c.stores? = none := by
  rcases cases_of_tears? h with rfl | rfl | ⟨source, _, rfl, _⟩ <;> exact ⟨rfl, rfl⟩

namespace Session

/-- All that a call can do to lists and tell of them, by its reply and its journal. -/
inductive Tells (σ : Session α) (c : Call α) (τ : Session α) (r : Reply α)
    (journal : List (Note α)) : Prop where
  | nothing (hsilent : listEvents journal = [])
      (hlength : ∀ name, τ.lengthOf name = σ.lengthOf name)
      (hstores : ∀ l s p, c.stores? = some (l, s) → r = .pair p → s.index < σ.lengthOf l)
      (htears : ∀ l, c.tears? = some l → σ.lists.find? l = none)
  | grown {l : String} {s : Slot} {p : Pair α (Destructor α)} (hstores : c.stores? = some (l, s))
      (hreply : r = .pair p) (hle : σ.lengthOf l ≤ s.index)
      (hevents : listEvents journal = [.grew (σ.lengthOf l) (s.index + 1)])
      (hlength : τ.lengthOf l = s.index + 1)
      (hothers : ∀ other, other ≠ l → τ.lengthOf other = σ.lengthOf other)
  | torn {l : String} {list : SlotList α (Destructor α)} {rest : List (Note α)}
      (htears : c.tears? = some l) (hlist : σ.lists.find? l = some list)
      (hjournal : journal = .event (.destroyed list.length) :: rest)
      (hrest : listEvents rest = []) (hlength : τ.lengthOf l = 0)
      (hothers : ∀ other, other ≠ l → τ.lengthOf other = σ.lengthOf other)

/-- The events about lists in the answer to a call are those that the call is to report. -/
structure Accounted (σ : Session α) (c : Call α) (a : Answer α) : Prop where
  /-- What is stored at or past the end makes the list grow as far as the slot requires. -/
  grows : ∀ l s p, c.stores? = some (l, s) → a.summary.reply = .pair p → σ.lengthOf l ≤ s.index →
    listEvents a.journal = [.grew (σ.lengthOf l) (s.index + 1)]
  /-- Nothing is reported when something is stored within the list, or is not stored. -/
  keeps : ∀ l s, c.stores? = some (l, s) →
    (∀ p, a.summary.reply = .pair p → s.index < σ.lengthOf l) → listEvents a.journal = []
  /-- A list that is torn down is reported once, before anything else happens. -/
  tears : ∀ l list, c.tears? = some l → σ.lists.find? l = some list →
    ∃ rest, a.journal = .event (.destroyed list.length) :: rest ∧ listEvents rest = []
  /-- A call that stores nothing and finds no list to tear down reports nothing about lists. -/
  others : c.stores? = none → (∀ l, c.tears? = some l → σ.lists.find? l = none) →
    listEvents a.journal = []

theorem Tells.accounted {σ τ : Session α} {c : Call α} {a : Answer α}
    (h : Tells σ c τ a.summary.reply a.journal) : σ.Accounted c a := by
  cases h with
  | nothing hsilent hlength hstores htears =>
    exact {
      grows := fun l s p hs hr hle => absurd (hstores l s p hs hr) (Nat.not_lt.mpr hle)
      keeps := fun _ _ _ _ => hsilent
      tears := fun l list hl hfound => by
        rw [htears l hl] at hfound
        cases hfound
      others := fun _ _ => hsilent }
  | grown hstores hreply hle hevents _ _ =>
    have htears := (Call.target?_of_stores? hstores).2
    exact {
      grows := fun l s p hs _ _ => by
        cases hstores.symm.trans hs
        exact hevents
      keeps := fun l s hs hlt => by
        cases hstores.symm.trans hs
        exact absurd (hlt _ hreply) (Nat.not_lt.mpr hle)
      tears := fun l list hl _ => by cases htears.symm.trans hl
      others := fun hs _ => by cases hs.symm.trans hstores }
  | torn htears hlist hjournal hrest _ _ =>
    have hstores := (Call.target?_of_tears? htears).2
    exact {
      grows := fun l s p hs _ _ => by cases hstores.symm.trans hs
      keeps := fun l s hs _ => by cases hstores.symm.trans hs
      tears := fun l list hl hfound => by
        cases htears.symm.trans hl
        cases hlist.symm.trans hfound
        exact ⟨_, hjournal, hrest⟩
      others := fun _ hnone => by
        rw [hnone _ htears] at hlist
        cases hlist }

namespace Tells

section
variable {σ τ : Session α} {c : Call α} {r : Reply α} {journal : List (Note α)}
  (h : Tells σ c τ r journal) {name : String}
include h

theorem count (hname : c.target? = some name) :
    (listEvents journal).foldlM Event.count? (σ.lengthOf name) = some (τ.lengthOf name) := by
  cases h with
  | nothing hsilent hlength _ _ =>
    rw [hsilent, hlength, List.foldlM_nil]
    rfl
  | grown hstores _ hle hevents hlength _ =>
    cases (Call.target?_of_stores? hstores).1.symm.trans hname
    rw [hevents, hlength, List.foldlM_cons, Event.count?,
      if_pos ⟨rfl, Nat.lt_succ_of_le hle⟩]
    rfl
  | torn htears hlist hjournal hrest hlength _ =>
    cases (Call.target?_of_tears? htears).1.symm.trans hname
    rw [hjournal, listEvents_event, hrest, hlength, lengthOf_of_find? hlist, List.append_nil]
    exact congrArg (· >>= pure) (if_pos rfl : Event.count? _ (.destroyed _) = some 0)

theorem lengthOf_other (hname : c.target? ≠ some name) : τ.lengthOf name = σ.lengthOf name := by
  cases h with
  | nothing _ hlength _ _ => exact hlength name
  | grown hstores _ _ _ _ hothers =>
    exact hothers name fun heq => hname (heq ▸ (Call.target?_of_stores? hstores).1)
  | torn htears _ _ _ _ hothers =>
    exact hothers name fun heq => hname (heq ▸ (Call.target?_of_tears? htears).1)

end

end Tells

/-- A call is over, and this is what it tells of lists. -/
def Over (σ : Session α) (c : Call α) (t : Stage α) : Prop :=
  ∃ r, t.work = .done r ∧ Tells σ c t.session r t.notes

section
variable {σ υ : Session α} {c : Call α} (htears : c.tears? = none) (hυ : υ.lists = σ.lists)
include htears hυ

theorem over_unchanged {notes : List (Note α)} {r : Reply α} (hsilent : listEvents notes = [])
    (hr : ∀ p, r ≠ .pair p) : Over σ c ⟨υ, notes, .done r⟩ :=
  ⟨r, rfl, .nothing hsilent (lengthOf_congr hυ) (fun _ _ p _ hp => absurd hp (hr p))
    fun l hl => by cases htears.symm.trans hl⟩

theorem over_withAllocator {name : String} {ps : List (Pair α (Destructor α))}
    {f : Allocator → Stage α} (hf : ∀ a, Over σ c (f a)) :
    Over σ c (υ.withAllocator name ps f) := by
  unfold withAllocator
  split
  · exact over_unchanged htears hυ (listEvents_dropped ps .rejected) (by simp)
  · exact hf _

omit hυ in
theorem over_withHeld {name : String} {f : Pair α (Destructor α) → Session α → Stage α}
    (hf : ∀ p υ, υ.lists = σ.lists → Over σ c (f p υ)) : Over σ c (σ.withHeld name f) := by
  unfold withHeld
  split
  · exact over_unchanged htears rfl listEvents_nil (by simp)
  next p υ hp =>
    simp only [takeHeld?, Option.map_eq_some_iff] at hp
    obtain ⟨_, _, heq⟩ := hp
    cases heq
    exact hf _ _ rfl

theorem over_withList {name : String} {ps : List (Pair α (Destructor α))}
    {f : SlotList α (Destructor α) → Session α → Stage α}
    (hf : ∀ l, σ.lists.find? name = some l → Over σ c (f l (υ.away name))) :
    Over σ c (υ.withList name ps f) := by
  unfold withList
  cases h : υ.lists.find? name with
  | none =>
    rw [takeList?_eq_none_iff.mpr h]
    exact over_unchanged htears hυ (listEvents_dropped ps .rejected) (by simp)
  | some l =>
    rw [takeList?_of_find? h]
    exact hf l (hυ ▸ h)

end

theorem listEvents_keep (σ : Session α) (hold : Option String) (p : Pair α (Destructor α)) :
    listEvents (σ.keep hold p).2 = [] := by
  cases hold with
  | none => exact listEvents_dropped [p] .released
  | some name => exact listEvents_dropped _ .released

theorem lists_putList_away (σ : Session α) (name : String) (l : SlotList α (Destructor α)) :
    ((σ.away name).putList name l).lists = σ.lists.put name l :=
  congrArg Session.lists (putList_away σ name l)

theorem lists_putList_keep (σ : Session α) (name : String) (hold : Option String)
    (p : Pair α (Destructor α)) (l : SlotList α (Destructor α)) :
    (((σ.away name).keep hold p).1.putList name l).lists = σ.lists.put name l := by
  rw [← lists_putList_away, putList, lists_keep]
  rfl

section
variable {σ υ : Session α} {c : Call α} {name : String} {l : SlotList α (Destructor α)}
  (htears : c.tears? = none) (hυ : υ.lists = σ.lists) (hl : σ.lists.find? name = some l)
include htears hυ hl

theorem over_kept {τ : Session α} {l' : SlotList α (Destructor α)} {notes : List (Note α)}
    {r : Reply α} (hτ : τ.lists = υ.lists.put name l') (hlength : l'.length = l.length)
    (hsilent : listEvents notes = [])
    (hstores : ∀ k s p, c.stores? = some (k, s) → r = .pair p → s.index < σ.lengthOf k) :
    Over σ c ⟨τ, notes, .done r⟩ := by
  refine ⟨r, rfl, .nothing hsilent (fun other => ?_) hstores fun k hk => by
    cases htears.symm.trans hk⟩
  rw [hυ] at hτ
  obtain ⟨hself, hothers⟩ := lengthOf_put hτ
  by_cases hother : other = name
  · rw [hother, hself, hlength, lengthOf_of_find? hl]
  · exact hothers other hother

theorem over_afterList {ρ : Type} {o : Outcome (SlotList α (Destructor α)) ρ} {reply : ρ → Reply α}
    (hstores : c.stores? = none) (ho : o.events = [] ∧ o.state.length = l.length) :
    Over σ c ((υ.away name).afterList name o reply) := by
  refine over_kept htears hυ hl (lists_putList_away υ name o.state) ho.2 ?_ fun k s p hs => by
    cases hstores.symm.trans hs
  rw [ho.1, List.map_nil, listEvents_nil]

theorem over_afterExchange_of_quiet {hold : Option String} {ps : List (Pair α (Destructor α))}
    {o : Outcome (SlotList α (Destructor α)) (Pair α (Destructor α))}
    (hstores : c.stores? = none) (ho : o.events = [] ∧ o.state.length = l.length) :
    Over σ c ((υ.away name).afterExchange name hold ps o) := by
  unfold afterExchange
  split
  · refine over_kept htears hυ hl (lists_putList_keep υ name hold _ o.state) ho.2 ?_
      fun k s p hs => by cases hstores.symm.trans hs
    rw [ho.1, List.map_nil, List.nil_append, listEvents_keep]
  · refine over_kept htears hυ hl (lists_putList_away υ name o.state) ho.2 ?_
      fun k s p hs => by cases hstores.symm.trans hs
    rw [ho.1, List.map_nil, List.nil_append, listEvents_dropped]

theorem over_afterExchange_of_grows {hold : Option String} {ps : List (Pair α (Destructor α))}
    {o : Outcome (SlotList α (Destructor α)) (Pair α (Destructor α))} {s : Slot}
    (hstores : c.stores? = some (name, s)) (ho : l.Grows s.index o) :
    Over σ c ((υ.away name).afterExchange name hold ps o) := by
  have hlength : σ.lengthOf name = l.length := lengthOf_of_find? hl
  rcases ho with ⟨f, rfl⟩ | ⟨l', p, hlt, hkept, rfl⟩ | ⟨l', p, hle, hgrown, rfl⟩
  · refine over_kept htears hυ hl (lists_putList_away υ name l) rfl ?_ (by simp)
    exact listEvents_dropped ps .rejected
  · refine over_kept htears hυ hl (lists_putList_keep υ name hold p l') hkept
      (listEvents_keep _ hold p) fun k t q hk _ => ?_
    cases hstores.symm.trans hk
    rw [hlength]
    exact hlt
  · have hlists := lists_putList_keep υ name hold p l'
    rw [hυ] at hlists
    obtain ⟨hself, hothers⟩ := lengthOf_put hlists
    refine ⟨_, rfl, .grown hstores rfl (hlength ▸ hle) ?_ (hself.trans hgrown) hothers⟩
    change listEvents ([.event (.grew l.length (s.index + 1))] ++ ((υ.away name).keep hold p).2) = _
    rw [listEvents_append, listEvents_keep, listEvents_event, listEvents_nil, hlength]
    rfl

end

/-! ## Calls -/

variable [HAppend α String α]

theorem start_over (σ : Session α) {c : Call α} {name : String} (htarget : c.target? = some name)
    (htears : c.tears? = none) : Over σ c (σ.start c) := by
  cases c
  case newList l source =>
    cases hsource : limitsOf (α := α) source with
    | ok limits => simp [Call.tears?, hsource] at htears
    | error r =>
      obtain ⟨_, _, rfl⟩ := eq_unreadable_of_limitsOf hsource
      simp only [start, hsource]
      exact over_unchanged htears rfl listEvents_nil (by simp)
  case set l a s v d hold exhausted =>
    refine over_withAllocator rfl rfl fun a => over_withList rfl rfl fun l hl => ?_
    exact over_afterExchange_of_grows rfl rfl hl rfl (l.grows_set a s _ v d)
  case setHeld l a s h hold exhausted =>
    refine over_withAllocator rfl rfl fun a => over_withHeld rfl fun p υ hυ => ?_
    split
    · exact over_unchanged rfl rfl listEvents_nil (by simp)
    next v _ =>
      refine over_withList rfl hυ fun l hl => ?_
      exact over_afterExchange_of_grows rfl hυ hl rfl (l.grows_set a s _ v p.destructor)
  case get l a s =>
    refine over_withAllocator rfl rfl fun a => over_withList rfl rfl fun l hl => ?_
    exact over_afterList rfl rfl hl rfl (l.get_quiet a s)
  case append l a s text =>
    refine over_withAllocator rfl rfl fun a => over_withList rfl rfl fun l hl => ?_
    exact over_afterList rfl rfl hl rfl (l.modify_quiet a s _)
  case clear l a s hold =>
    refine over_withAllocator rfl rfl fun a => over_withList rfl rfl fun l hl => ?_
    exact over_afterExchange_of_quiet rfl rfl hl rfl (l.clear_quiet a s)
  case length l =>
    exact over_withList rfl rfl fun l hl => over_unchanged rfl rfl listEvents_nil (by simp)
  case showList l =>
    exact over_withList rfl rfl fun l hl => over_unchanged rfl rfl listEvents_nil (by simp)
  case destroy | dropList => cases htears
  all_goals cases htarget

section
variable {σ : Session α} {c : Call α} {name : String} (htears : c.tears? = some name)
include htears

theorem start_of_tears_none (hl : σ.lists.find? name = none) : Over σ c (σ.start c) := by
  have hnone : σ.takeList? name = none := takeList?_eq_none_iff.mpr hl
  have hzero : σ.lengthOf name = 0 := by
    rw [lengthOf, hl]
    rfl
  have hstores : c.stores? = none := (Call.target?_of_tears? htears).2
  have hover : ∀ {τ : Session α} {r : Reply α}, (∀ other, τ.lengthOf other = σ.lengthOf other) →
      Over σ c (τ.reply r) := fun hlength =>
    ⟨_, rfl, .nothing listEvents_nil hlength (fun l s p hs => by cases hstores.symm.trans hs)
      fun l h => Option.some.inj (htears.symm.trans h) ▸ hl⟩
  rcases Call.cases_of_tears? htears with rfl | rfl | ⟨source, limits, rfl, hsource⟩
  · rw [start, withList, hnone]
    exact hover fun _ => rfl
  · rw [start, withList, hnone]
    exact hover fun _ => rfl
  · simp only [start, hsource, hnone]
    obtain ⟨hself, hothers⟩ := lengthOf_put (τ := σ.putList name { limit := limits.length }) rfl
    refine hover fun other => ?_
    by_cases h : other = name
    · rw [h, hself, hzero]
      rfl
    · exact hothers other h

theorem start_of_tears {l : SlotList α (Destructor α)} (hl : σ.lists.find? name = some l) :
    ∃ sequel : Sequel α,
      (sequel = .report none ∨ ∃ l, sequel = .reinstate name l ∧ l.length = 0) ∧
      σ.start c = ⟨σ.away name, [.event (.destroyed l.length)], .teardown l.entries sequel⟩ := by
  rcases Call.cases_of_tears? htears with rfl | rfl | ⟨source, limits, rfl, hsource⟩
  · exact ⟨_, .inr ⟨l.emptied, rfl, rfl⟩, start_destroy hl⟩
  · exact ⟨_, .inl rfl, start_dropList hl⟩
  · refine ⟨.reinstate name { limit := limits.length }, .inr ⟨_, rfl, rfl⟩, ?_⟩
    simp only [start, hsource, takeList?_of_find? hl]

end

theorem listless_runs {σ : Session α} {ps : List (Pair α (Destructor α))} {sequel : Sequel α}
    (h : Listless (journalDeeds (σ.settle (.teardown ps sequel)).result.2)) :
    Listless (journalDeeds (σ.runAll ps).result.2) := by
  rw [settle_teardown_result, List.append_assoc, journalDeeds_append] at h
  exact (List.forall_mem_append.mp h).1

theorem settle_reinstate {σ : Session α} {ps : List (Pair α (Destructor α))} {name : String}
    (h : (σ.runAll ps).session.lists.find? name = none) (l : SlotList α (Destructor α)) :
    (σ.settle (.teardown ps (.reinstate name l))).session =
        (σ.runAll ps).session.putList name l ∧
      (σ.settle (.teardown ps (.reinstate name l))).result.2 = (σ.runAll ps).result.2 := by
  have hended : σ.afterTeardown ps (.reinstate name l) =
      ((σ.runAll ps).session.putList name l).reply (afterRuns (σ.runAll ps).result.1) := by
    rw [afterTeardown, resume, takeList?_eq_none_iff.mpr h]
  obtain ⟨hsession, -, hnotes⟩ := settle_of_afterTeardown hended
  simp only [reply, settle_done_session, settle_done_result, List.append_nil] at hsession hnotes
  exact ⟨hsession, hnotes⟩

/-- The length of a list that was torn down, and of the others. -/
theorem settle_lengths {σ : Session α} {name : String} {ps : List (Pair α (Destructor α))}
    {sequel : Sequel α}
    (hsequel : sequel = .report none ∨ ∃ l, sequel = .reinstate name l ∧ l.length = 0)
    (hdeeds : Listless (journalDeeds ((σ.away name).settle (.teardown ps sequel)).result.2)) :
    let ended := (σ.away name).settle (.teardown ps sequel)
    listEvents ended.result.2 = [] ∧ ended.session.lengthOf name = 0 ∧
      ∀ other, other ≠ name → ended.session.lengthOf other = σ.lengthOf other := by
  intro ended
  obtain ⟨hlists, hsilent⟩ := listless_hereditary.runAll (σ.away name) ps (listless_runs hdeeds)
  obtain ⟨hzero, hothers⟩ := lengthOf_without hlists
  rcases hsequel with rfl | ⟨l, rfl, hl⟩
  · obtain ⟨hsession, -, hnotes⟩ := settle_report (σ.away name) ps none
    refine ⟨hnotes ▸ hsilent, ?_⟩
    change (((σ.away name).settle _).session.lengthOf name = 0 ∧ _)
    rw [hsession]
    exact ⟨hzero, hothers⟩
  · have hnone : ((σ.away name).runAll ps).session.lists.find? name = none := by
      rw [hlists]
      exact Named.find?_without_self ..
    obtain ⟨hsession, hnotes⟩ := settle_reinstate hnone l
    obtain ⟨hback, hbackOthers⟩ := lengthOf_put (congrArg Session.lists hsession)
    exact ⟨hnotes ▸ hsilent, hback.trans hl,
      fun other hother => (hbackOthers other hother).trans (hothers other hother)⟩

/-! ## Steps -/

section
variable {σ : Session α} {x : Step α}

theorem tells_of_over (h : Over σ x.call (σ.start x.call)) :
    Tells σ x.call (σ.perform x).session (σ.perform x).result.summary.reply
      (σ.perform x).result.journal := by
  obtain ⟨r, hwork, htells⟩ := h
  have hstart : σ.start x.call =
      ⟨(σ.start x.call).session, (σ.start x.call).notes, .done r⟩ := by rw [← hwork]
  obtain ⟨hsession, hreply, hjournal⟩ := perform_of_done hstart
  rw [hsession, hreply, hjournal]
  exact htells

theorem tells_of_tears {name : String} {l : SlotList α (Destructor α)}
    (htears : x.call.tears? = some name) (hl : σ.lists.find? name = some l)
    (hdeeds : Listless (σ.perform x).result.deeds) :
    Tells σ x.call (σ.perform x).session (σ.perform x).result.summary.reply
      (σ.perform x).result.journal := by
  obtain ⟨sequel, hsequel, hstart⟩ := start_of_tears htears hl
  obtain ⟨hsession, -, hjournal⟩ := perform_of_start hstart
  rw [Answer.deeds, hjournal, journalDeeds_append] at hdeeds
  obtain ⟨hsilent, hzero, hothers⟩ := settle_lengths hsequel (List.forall_mem_append.mp hdeeds).2
  rw [hsession]
  exact .torn htears hl hjournal hsilent hzero hothers

/-- A step is all that becomes of lists in it. -/
theorem perform_tells (hdeeds : Listless (σ.perform x).result.deeds) :
    Tells σ x.call (σ.perform x).session (σ.perform x).result.summary.reply
      (σ.perform x).result.journal := by
  cases htarget : x.call.target? with
  | none =>
    obtain ⟨hlists, hsilent⟩ := listless_hereditary.perform σ x htarget hdeeds
    refine .nothing hsilent (lengthOf_congr hlists) (fun l s _ hs => ?_) fun l hl => ?_
    · cases htarget.symm.trans (Call.target?_of_stores? hs).1
    · cases htarget.symm.trans (Call.target?_of_tears? hl).1
  | some name =>
    cases htears : x.call.tears? with
    | none => exact tells_of_over (σ.start_over htarget htears)
    | some other =>
      cases hl : σ.lists.find? other with
      | none => exact tells_of_over (start_of_tears_none htears hl)
      | some l => exact tells_of_tears htears hl hdeeds

end

/-! ## Runs -/

/-- The events about lists in the steps of a run whose calls are made on one list, in order. -/
def eventsOn (σ : Session α) (name : String) (script : List (Step α)) : List Event :=
  ((σ.transcript script).filter fun x => x.1.call.target? = some name).flatMap fun x =>
    listEvents x.2.journal

theorem eventsOn_cons (σ : Session α) (name : String) (x : Step α) (script : List (Step α)) :
    σ.eventsOn name (x :: script) =
      (if x.call.target? = some name then listEvents (σ.perform x).result.journal else []) ++
        (σ.perform x).session.eventsOn name script := by
  rw [eventsOn, transcript_cons, List.filter_cons]
  simp only [decide_eq_true_eq]
  split
  · rw [List.flatMap_cons, eventsOn]
  · rw [List.nil_append, eventsOn]

/-- The events on a list keep its length through a run. -/
theorem count_eventsOn {σ : Session α} {script : List (Step α)}
    (h : Listless ((σ.carryOut script).result.flatMap Answer.deeds)) (name : String) :
    (σ.eventsOn name script).foldlM Event.count? (σ.lengthOf name) =
      some ((σ.carryOut script).session.lengthOf name) := by
  induction script generalizing σ with
  | nil =>
    rw [carryOut_nil_session]
    rfl
  | cons x script ih =>
    rw [carryOut_cons_result, List.flatMap_cons] at h
    obtain ⟨hx, hscript⟩ := List.forall_mem_append.mp h
    have htells := perform_tells hx
    rw [eventsOn_cons, carryOut_cons_session, List.foldlM_append, ← ih hscript]
    split
    next hname => rw [htells.count hname, Option.bind_eq_bind, Option.bind_some]
    next hname =>
      rw [htells.lengthOf_other hname, List.foldlM_nil]
      rfl

/-- **The events of a list account for its length.** Take any session whose destructors make no
calls on lists: the steps of its script and then the drops of the lists that are left. For each
list keep a number, at first 0, by the events of the calls that are made on it. Every event goes on
from that number, and after each step it is the length of the list; at the end it is 0. The calls
that report that a list grows are those that store something at or past its end, and it is then one
longer than the slot. Each call that tears a list down reports that once, before any destructor
runs. No other call reports anything about lists. -/
theorem events_account_for_lengths (script : List (Step α))
    (hlistless : ∀ p ∈ scriptSites script, ∀ d, p.destructor = some d → d.Listless) :
    ∃ names : List String,
      let whole := script ++ names.map dropStep
      let after (steps : List (Step α)) := (({} : Session α).carryOut steps).session
      (play script).answers ++ (play script).closing.map Prod.snd =
        (({} : Session α).carryOut whole).result ∧
      (∀ steps, steps <+: whole → ∀ name,
        (({} : Session α).eventsOn name steps).foldlM Event.count? 0 =
          some ((after steps).lengthOf name)) ∧
      (∀ steps x, steps ++ [x] <+: whole →
        (after steps).Accounted x.call ((after steps).perform x).result) ∧
      (∀ name, (({} : Session α).eventsOn name whole).foldlM Event.count? 0 = some 0) := by
  obtain ⟨names, hend, hclosing⟩ := close_eq (({} : Session α).carryOut script).session
  refine ⟨names, ?_⟩
  intro whole after
  obtain ⟨hsession, hresult⟩ := carryOut_append {} script (names.map dropStep)
  have hdeeds : ∀ steps, steps <+: whole →
      Listless ((({} : Session α).carryOut steps).result.flatMap Answer.deeds) := by
    rintro steps ⟨more, hmore⟩
    refine listless_deeds fun p hp => hlistless p ?_
    have hsites : scriptSites whole = scriptSites script := by
      rw [scriptSites_append, scriptSites_dropSteps, List.append_nil]
    rw [← hsites, ← hmore, scriptSites_append]
    exact List.mem_append_left _ hp
  have hcount : ∀ steps, steps <+: whole → ∀ name,
      (({} : Session α).eventsOn name steps).foldlM Event.count? 0 =
        some ((after steps).lengthOf name) :=
    fun steps hsteps name => count_eventsOn (hdeeds steps hsteps) name
  refine ⟨?_, hcount, fun steps x hsteps => ?_, fun name => ?_⟩
  · rw [hresult, ← hclosing]
    rfl
  · have h := hdeeds _ hsteps
    rw [(carryOut_append {} steps [x]).2, carryOut_cons_result, List.flatMap_append,
      List.flatMap_cons] at h
    exact (perform_tells (List.forall_mem_append.mp (List.forall_mem_append.mp h).2).1).accounted
  · have hnone : (after whole).lists.find? name = none := by
      have hlists : (after whole).lists.entries = [] := by
        have hafter : after whole = (({} : Session α).carryOut script).session.close.2 :=
          hsession.trans hend.symm
        rw [hafter]
        exact lists_close _
      rw [Named.find?, hlists, List.lookup_nil]
    rw [hcount whole (List.prefix_refl _) name, lengthOf, hnone]
    rfl

/-- A list that grows, and whose destruction frees a slot and panics. -/
theorem destroyed_in_a_panic_accounts :
    let d : Destructor := .mk "d" [.mk (.free "a" ⟨0⟩) none none] (some "out of order")
    let newAllocator : Step := .mk (.newAllocator "a" (.given {})) none none
    let allocate : Step := .mk (.allocate "a" false) none none
    let newList : Step := .mk (.newList "l" (.given {})) none none
    let set : Step := .mk (.set "l" "a" ⟨0⟩ "x" (some d) none false) none none
    let destroy : Step := .mk (.destroy "l") none none
    let script := [newAllocator, allocate, newList, set, destroy]
    (∀ p ∈ scriptSites script, ∀ d, p.destructor = some d → d.Listless) ∧
    ({} : Session).eventsOn "l" script = [.grew 0 1, .destroyed 1] ∧
    ∃ names : List String,
      (({} : Session).eventsOn "l" (script ++ names.map dropStep)).foldlM Event.count? 0 =
        some 0 := by
  intro d newAllocator allocate newList set destroy script
  have hlistless : ∀ p ∈ scriptSites script, ∀ d, p.destructor = some d → d.Listless := by
    simp [script, newAllocator, allocate, newList, set, destroy, d, scriptSites, Step.sites,
      Call.sites, Destructor.sites, Destructor.Listless, Destructor.script, Step.call,
      Call.target?]
  -- the session after each of the first four steps
  let σ₁ : Session := ({} : Session).putAllocator "a" {}
  let σ₂ : Session := σ₁.putAllocator "a" ⟨[some ⟨0⟩], 1, none⟩
  let σ₃ : Session := σ₂.putList "l" {}
  let σ₄ : Session := σ₃.putList "l" ⟨[⟨some "x", some d⟩], none⟩
  obtain ⟨h₁, -, -⟩ := perform_of_done (σ := {}) (s := newAllocator) (τ := σ₁) rfl
  obtain ⟨h₂, -, -⟩ := perform_of_done (σ := σ₁) (s := allocate) (τ := σ₂) rfl
  obtain ⟨h₃, -, hmade⟩ := perform_of_done (σ := σ₂) (s := newList) (τ := σ₃) rfl
  obtain ⟨h₄, -, hgrown⟩ := perform_of_done (σ := σ₃) (s := set) (τ := σ₄) rfl
  obtain ⟨names, -, -, haccounted, hend⟩ := events_account_for_lengths script hlistless
  have hbefore : (({} : Session).carryOut [newAllocator, allocate, newList, set]).session = σ₄ := by
    rw [carryOut_cons_session, h₁, carryOut_cons_session, h₂, carryOut_cons_session, h₃,
      carryOut_cons_session, h₄, carryOut_nil_session]
  have hdestroy : σ₄.Accounted destroy.call (σ₄.perform destroy).result := by
    rw [← hbefore]
    exact haccounted [newAllocator, allocate, newList, set] destroy (List.prefix_append script _)
  obtain ⟨rest, htorn, hrest⟩ := hdestroy.tears "l" _ rfl rfl
  refine ⟨hlistless, ?_, names, hend "l"⟩
  rw [eventsOn_cons, h₁, eventsOn_cons, h₂, eventsOn_cons, h₃, eventsOn_cons, h₄, eventsOn_cons,
    hmade, hgrown, htorn, listEvents_event, hrest]
  rfl

end Session

end SlotStore
