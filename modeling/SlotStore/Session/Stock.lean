import SlotStore.Session.State

/-!
# Stock

Whatever is counted of the pairs in a session, a call neither makes nor loses any of it. A `Scale`
says what to count: some number for each pair, nothing for an empty one; and a number for each list
besides its pairs.

The main statement (`start_balances`): what a session and a call bring together is what the session
has when the call has begun, with what is left to be torn down, and the pairs that were let go. Only
lists disappear without a trace. One call changes a value, and the statement is about it if the scale
does not see the change (`Scale.Ignores`). `resume_balances` says the same of going on with a sequel.
-/

namespace SlotStore

section

variable {α : Type}

def Call.pairs : Call α → List (Pair α (Destructor α))
  | .set _ _ _ v d _ _ => [⟨some v, d⟩]
  | .newHeld _ v d => [⟨v, d⟩]
  | _ => []

/-- The number of lists that a call brings into a session. -/
def Call.lists : Call α → Nat
  | .newList _ _ => 1
  | _ => 0

/-! ## Deeds of a journal -/

@[simp] theorem journalDeeds_nil : journalDeeds ([] : List (Note α)) = [] := by
  rw [journalDeeds]

theorem journalDeeds_cons (n : Note α) (journal : List (Note α)) :
    journalDeeds (n :: journal) = n.deeds ++ journalDeeds journal := by
  rw [journalDeeds]

@[simp] theorem journalDeeds_append (journal others : List (Note α)) :
    journalDeeds (journal ++ others) = journalDeeds journal ++ journalDeeds others := by
  induction journal with
  | nil => rw [journalDeeds_nil, List.nil_append, List.nil_append]
  | cons n journal ih => rw [List.cons_append, journalDeeds, ih, journalDeeds, List.append_assoc]

@[simp] theorem journalDeeds_events (events : List Event) :
    journalDeeds (events.map Note.event : List (Note α)) = [] := by
  induction events with
  | nil => rw [List.map_nil, journalDeeds_nil]
  | cons e events ih => rw [List.map_cons, journalDeeds, Note.deeds, ih, List.nil_append]

@[simp] theorem journalDeeds_event (e : Event) : journalDeeds ([.event e] : List (Note α)) = [] :=
  journalDeeds_events [e]

@[simp] theorem journalDeeds_dropped (pairs : List (Pair α (Destructor α))) (loss : Loss) :
    journalDeeds (pairs.map fun p => .dropped p loss) = pairs.map fun p => .dropped p loss := by
  induction pairs with
  | nil => rw [List.map_nil, List.map_nil, journalDeeds_nil]
  | cons p pairs ih =>
    rw [List.map_cons, journalDeeds, Note.deeds, ih, List.map_cons, List.singleton_append]

def Deed.pair : Deed α → Pair α (Destructor α)
  | .ran v d => ⟨some v, some d⟩
  | .dropped p _ => p

end

/-! ## Scales -/

/-- Something that can be counted of lists and pairs. -/
structure Scale (α : Type) where
  /-- What is counted of a list besides its pairs. -/
  list : Nat
  pair : Pair α (Destructor α) → Nat
  /-- There is nothing to count of an empty pair. -/
  pair_empty : pair {} = 0

namespace Scale

variable {α : Type} (κ : Scale α)

def pairs (ps : List (Pair α (Destructor α))) : Nat := ps.foldr (fun p n => κ.pair p + n) 0

def ofList (l : SlotList α (Destructor α)) : Nat := κ.list + κ.pairs l.entries

def session (σ : Session α) : Nat := σ.lists.total κ.ofList + σ.held.total κ.pair

def sequel : Sequel α → Nat
  | .report _ => 0
  | .reinstate _ l => κ.ofList l

def work : Work α → Nat
  | .done _ => 0
  | .teardown ps s => κ.pairs ps + κ.sequel s

def stage (t : Stage α) : Nat := κ.session t.session + κ.work t.work

/-- What a call brings into a session. -/
def call (c : Call α) : Nat := κ.pairs c.pairs + κ.list * c.lists

/-- What the deeds of a journal have spent. -/
def spent (journal : List (Note α)) : Nat := κ.pairs ((journalDeeds journal).map Deed.pair)

/-- A stage has what there was before, apart from what was let go; and lists may be gone. -/
def Balances (before : Nat) (t : Stage α) : Prop :=
  ∃ gone, before = κ.stage t + κ.spent t.notes + κ.list * gone

@[simp] theorem pairs_nil : κ.pairs [] = 0 := rfl

@[simp] theorem pairs_cons (p : Pair α (Destructor α)) (ps : List (Pair α (Destructor α))) :
    κ.pairs (p :: ps) = κ.pair p + κ.pairs ps :=
  rfl

@[simp] theorem pairs_append (ps qs : List (Pair α (Destructor α))) :
    κ.pairs (ps ++ qs) = κ.pairs ps + κ.pairs qs := by
  induction ps with
  | nil => rw [List.nil_append, pairs_nil, Nat.zero_add]
  | cons p ps ih => rw [List.cons_append, pairs_cons, ih, pairs_cons, Nat.add_assoc]

@[simp] theorem spent_append (journal others : List (Note α)) :
    κ.spent (journal ++ others) = κ.spent journal + κ.spent others := by
  simp [spent]

@[simp] theorem spent_nil : κ.spent [] = 0 := by simp [spent]

@[simp] theorem spent_events (events : List Event) : κ.spent (events.map .event) = 0 := by
  simp [spent]

@[simp] theorem spent_event (e : Event) : κ.spent [.event e] = 0 := by simp [spent]

@[simp] theorem spent_dropped (ps : List (Pair α (Destructor α))) (loss : Loss) :
    κ.spent (ps.map fun p => .dropped p loss) = κ.pairs ps := by
  rw [spent, journalDeeds_dropped, List.map_map]
  congr 1
  exact List.map_id ps

/-! ## Lists -/

theorem pairs_replicate_empty (n : Nat) : κ.pairs (List.replicate n {}) = 0 := by
  induction n with
  | zero => rfl
  | succ n ih => rw [List.replicate_succ, pairs_cons, ih, κ.pair_empty]

/-- Exchanging a pair changes the count by the two pairs. Beyond the end there is an empty one, and
nothing can be put in its place. -/
theorem ofList_exchange (l : SlotList α (Destructor α)) (i : Nat) (p : Pair α (Destructor α))
    (h : i < l.length ∨ κ.pair p = 0) :
    κ.ofList l + κ.pair p = κ.ofList (l.exchange i p) + κ.pair (l.pairAt i) := by
  obtain ⟨entries, limit⟩ := l
  simp only [ofList, SlotList.exchange, SlotList.pairAt, SlotList.length] at h ⊢
  induction entries generalizing i with
  | nil =>
    have hp : κ.pair p = 0 := by
      rcases h with h | h
      · exact absurd h (Nat.not_lt_zero i)
      · exact h
    simp [hp, κ.pair_empty]
  | cons q entries ih =>
    cases i with
    | zero =>
      simp only [List.set_cons_zero, pairs_cons, List.getElem?_cons_zero, Option.getD_some]
      omega
    | succ i =>
      have := ih i (by rwa [List.length_cons, Nat.succ_lt_succ_iff] at h)
      simp only [List.set_cons_succ, pairs_cons, List.getElem?_cons_succ]
      omega

theorem ofList_growTo (m : Memory) (n : Nat) (l : SlotList α (Destructor α)) :
    κ.ofList (l.growTo m n).state = κ.ofList l := by
  unfold SlotList.growTo
  split
  · rfl
  · split
    · rfl
    · split
      · simp [ofList, pairs_replicate_empty]
      · rfl

/-- What is counted of what a call hands back: the pair that was there, or those it was to store. -/
def returned (ps : List (Pair α (Destructor α))) : Except Fault (Pair α (Destructor α)) → Nat
  | .ok p => κ.pair p
  | .error _ => κ.pairs ps

theorem ofList_put (m : Memory) (i : Nat) (p : Pair α (Destructor α))
    (l : SlotList α (Destructor α)) :
    κ.ofList l + κ.pair p = κ.ofList (l.put m i p).state + κ.returned [p] (l.put m i p).answer := by
  have h := κ.ofList_growTo m (i + 1) l
  simp only [SlotList.put]
  split
  · simp only [returned, pairs_cons, pairs_nil]
    omega
  next he =>
    have := κ.ofList_exchange (l.growTo m (i + 1)).state i p (.inl (SlotList.length_growTo he))
    simp only [returned]
    omega

theorem ofList_guarded (a : Allocator) (s : Slot) (l : SlotList α (Destructor α))
    (ps : List (Pair α (Destructor α)))
    (call : SlotList α (Destructor α) →
      Outcome (SlotList α (Destructor α)) (Pair α (Destructor α)))
    (h : κ.ofList l + κ.pairs ps = κ.ofList (call l).state + κ.returned ps (call l).answer) :
    κ.ofList l + κ.pairs ps =
      κ.ofList (l.guarded a s call).state + κ.returned ps (l.guarded a s call).answer := by
  unfold SlotList.guarded
  split
  · exact h
  · rfl

theorem ofList_set (a : Allocator) (m : Memory) (s : Slot) (v : α) (d : Option (Destructor α))
    (l : SlotList α (Destructor α)) :
    κ.ofList l + κ.pairs [⟨some v, d⟩] =
      κ.ofList (l.set a m s v d).state + κ.returned [⟨some v, d⟩] (l.set a m s v d).answer :=
  κ.ofList_guarded a s l _ _ (by rw [pairs_cons, pairs_nil]; exact κ.ofList_put m s.index _ l)

theorem ofList_clear (a : Allocator) (s : Slot) (l : SlotList α (Destructor α)) :
    κ.ofList l + κ.pairs [] =
      κ.ofList (l.clear a s).state + κ.returned [] (l.clear a s).answer := by
  refine κ.ofList_guarded a s l _ _ ?_
  have := κ.ofList_exchange l s.index {} (.inr κ.pair_empty)
  rwa [κ.pair_empty] at this

theorem ofList_get (a : Allocator) (s : Slot) (l : SlotList α (Destructor α)) :
    κ.ofList (l.get a s).state = κ.ofList l := by
  simp only [SlotList.get, SlotList.guarded]
  split <;> rfl

theorem ofList_alter (f : α → α) (i : Nat) (l : SlotList α (Destructor α))
    (h : κ.pair { l.pairAt i with value := (l.value? i).map f } = κ.pair (l.pairAt i)) :
    κ.ofList (l.alter f i) = κ.ofList l := by
  have := κ.ofList_exchange l i { l.pairAt i with value := (l.value? i).map f } (by
    by_cases hi : i < l.length
    · exact .inl hi
    · rw [h, SlotList.pairAt, List.getElem?_eq_none (Nat.le_of_not_lt hi)]
      exact .inr κ.pair_empty)
  rw [SlotList.alter]
  omega

theorem ofList_modify (a : Allocator) (s : Slot) (f : α → α) (l : SlotList α (Destructor α))
    (h : a.isLive s = true →
      κ.pair { l.pairAt s.index with value := (l.value? s.index).map f } =
        κ.pair (l.pairAt s.index)) :
    κ.ofList (l.modify a s f).state = κ.ofList l := by
  simp only [SlotList.modify, SlotList.guarded]
  split
  next hs => exact κ.ofList_alter f s.index l (h hs)
  next => rfl

/-! ## Parts of sessions -/

theorem session_putAllocator (σ : Session α) (name : String) (a : Allocator) :
    κ.session (σ.putAllocator name a) = κ.session σ := rfl

theorem session_putList {σ : Session α} {name : String} (h : σ.lists.find? name = none)
    (l : SlotList α (Destructor α)) :
    κ.session (σ.putList name l) = κ.session σ + κ.ofList l := by
  have := σ.lists.total_put κ.ofList name l
  rw [h] at this
  simp only [session, Session.putList, Option.map_none, Option.getD_none] at this ⊢
  omega

theorem session_of_takeList? {σ σ' : Session α} {name : String} {l : SlotList α (Destructor α)}
    (h : σ.takeList? name = some (l, σ')) :
    κ.session σ = κ.session σ' + κ.ofList l ∧ σ'.lists.find? name = none := by
  simp only [Session.takeList?, Named.take?, Option.map_map, Option.map_eq_some_iff] at h
  obtain ⟨k, hk, he⟩ := h
  cases he
  have := Named.total_of_find? κ.ofList hk
  refine ⟨?_, Named.find?_without_self ..⟩
  simp only [session] at this ⊢
  omega

theorem session_of_takeHeld? {σ σ' : Session α} {name : String} {p : Pair α (Destructor α)}
    (h : σ.takeHeld? name = some (p, σ')) : κ.session σ = κ.session σ' + κ.pair p := by
  simp only [Session.takeHeld?, Named.take?, Option.map_map, Option.map_eq_some_iff] at h
  obtain ⟨q, hq, he⟩ := h
  cases he
  have := Named.total_of_find? κ.pair hq
  simp only [session] at this ⊢
  omega

theorem session_hold (σ : Session α) (name : String) (p : Pair α (Destructor α)) :
    κ.session σ + κ.pair p = κ.session (σ.hold name p).1 + κ.spent (σ.hold name p).2 := by
  have := σ.held.total_put κ.pair name p
  have hs : κ.spent (σ.hold name p).2 = ((σ.held.find? name).map κ.pair).getD 0 := by
    rw [Session.hold, spent_dropped]
    cases σ.held.find? name with
    | none => rfl
    | some q => simp
  rw [hs]
  simp only [session, Session.hold] at this ⊢
  omega

theorem session_keep (σ : Session α) (name : Option String) (p : Pair α (Destructor α)) :
    κ.session σ + κ.pair p = κ.session (σ.keep name p).1 + κ.spent (σ.keep name p).2 := by
  cases name with
  | some name => exact κ.session_hold σ name p
  | none =>
    have := κ.spent_dropped [p] .released
    simp only [List.map_cons, List.map_nil, pairs_cons, pairs_nil] at this
    show κ.session σ + κ.pair p = κ.session σ + κ.spent [.dropped p .released]
    omega

variable [HAppend α String α]

/-- A text behind a value changes nothing that is counted. -/
def Steady : Prop :=
  ∀ v (text : String) d, κ.pair ⟨some (v ++ text), d⟩ = κ.pair ⟨some v, d⟩

/-- If a call changes the value of an entry, its pair counts as much as before. -/
def Ignores (σ : Session α) : Call α → Prop
  | .append name allocator s text => ∀ a l, σ.allocators.find? allocator = some a →
      σ.lists.find? name = some l → a.isLive s = true →
      κ.pair { l.pairAt s.index with value := (l.value? s.index).map (· ++ text) } =
        κ.pair (l.pairAt s.index)
  | _ => True

variable {κ} in
theorem Steady.ignores (h : κ.Steady) (σ : Session α) (c : Call α) : κ.Ignores σ c := by
  cases c
  case append name allocator s text =>
    intro a l _ _ _
    rw [SlotList.value?]
    obtain ⟨v, d⟩ := l.pairAt s.index
    cases v with
    | none => rfl
    | some v => exact h v text d
  all_goals exact trivial

end Scale

namespace Session

theorem lists_keep {α : Type} (σ : Session α) (name : Option String)
    (p : Pair α (Destructor α)) : (σ.keep name p).1.lists = σ.lists := by
  cases name <;> rfl

variable {α : Type} {κ : Scale α}

/-! ## Stages -/

theorem reply_balances (σ : Session α) (r : Reply α) : κ.Balances (κ.session σ) (σ.reply r) :=
  ⟨0, by simp [reply, Scale.stage, Scale.work]⟩

theorem putAllocator_balances (σ : Session α) (name : String) (a : Allocator)
    (events : List Event) (r : Reply α) :
    κ.Balances (κ.session σ) ⟨σ.putAllocator name a, events.map .event, .done r⟩ :=
  ⟨0, by simp [Scale.stage, Scale.work, κ.session_putAllocator]⟩

theorem withAllocator_balances {σ : Session α} {name : String}
    {ps : List (Pair α (Destructor α))} {f : Allocator → Stage α}
    (h : ∀ a, σ.allocators.find? name = some a →
      κ.Balances (κ.session σ + κ.pairs ps) (f a)) :
    κ.Balances (κ.session σ + κ.pairs ps) (σ.withAllocator name ps f) := by
  unfold withAllocator
  split
  · exact ⟨0, by simp [Scale.stage, Scale.work]⟩
  next a ha => exact h a ha

theorem withList_balances {σ : Session α} {name : String} {ps : List (Pair α (Destructor α))}
    {f : SlotList α (Destructor α) → Session α → Stage α}
    (h : ∀ l σ', σ.lists.find? name = some l → κ.session σ = κ.session σ' + κ.ofList l →
      σ'.lists.find? name = none → κ.Balances (κ.session σ + κ.pairs ps) (f l σ')) :
    κ.Balances (κ.session σ + κ.pairs ps) (σ.withList name ps f) := by
  unfold withList
  split
  · exact ⟨0, by simp [Scale.stage, Scale.work]⟩
  next l σ' hl =>
    have hs := κ.session_of_takeList? hl
    exact h l σ' (find?_of_takeList? hl) hs.1 hs.2

theorem withHeld_balances {σ : Session α} {name : String}
    {f : Pair α (Destructor α) → Session α → Stage α}
    (h : ∀ p σ', κ.session σ = κ.session σ' + κ.pair p → κ.Balances (κ.session σ) (f p σ')) :
    κ.Balances (κ.session σ) (σ.withHeld name f) := by
  unfold withHeld
  split
  · exact reply_balances ..
  next p σ' hp => exact h p σ' (κ.session_of_takeHeld? hp)

theorem afterList_balances {ρ : Type} {σ : Session α} {name : String}
    (hn : σ.lists.find? name = none) (l : SlotList α (Destructor α))
    (o : Outcome (SlotList α (Destructor α)) ρ) (reply : ρ → Reply α)
    (ho : κ.ofList o.state = κ.ofList l) :
    κ.Balances (κ.session σ + κ.ofList l) (σ.afterList name o reply) := by
  refine ⟨0, ?_⟩
  simp only [afterList, Scale.stage, Scale.work, κ.session_putList hn, Scale.spent_events]
  omega

theorem afterExchange_balances {σ : Session α} {name : String} (hn : σ.lists.find? name = none)
    (hold : Option String) (ps : List (Pair α (Destructor α))) (l : SlotList α (Destructor α))
    (o : Outcome (SlotList α (Destructor α)) (Pair α (Destructor α)))
    (ho : κ.ofList l + κ.pairs ps = κ.ofList o.state + κ.returned ps o.answer) :
    κ.Balances (κ.session σ + κ.ofList l + κ.pairs ps) (σ.afterExchange name hold ps o) := by
  unfold afterExchange
  split
  next p hp =>
    have hk := κ.session_keep σ hold p
    rw [hp, Scale.returned] at ho
    refine ⟨0, ?_⟩
    simp only [Scale.stage, Scale.work, Scale.spent_append, Scale.spent_events]
    rw [κ.session_putList (by rw [lists_keep]; exact hn)]
    omega
  next f hf =>
    rw [hf, Scale.returned] at ho
    refine ⟨0, ?_⟩
    simp only [Scale.stage, Scale.work, Scale.spent_append, Scale.spent_events,
      Scale.spent_dropped, κ.session_putList hn]
    omega

theorem teardown_balances (σ : Session α) (e : Event) (l : SlotList α (Destructor α))
    (sequel : Sequel α) (n : Nat) (hn : κ.sequel sequel + κ.list * n = κ.list) :
    κ.Balances (κ.session σ + κ.ofList l) ⟨σ, [.event e], .teardown l.entries sequel⟩ := by
  refine ⟨n, ?_⟩
  simp only [Scale.stage, Scale.work, Scale.spent_event, Scale.ofList]
  omega

theorem newList_balances (σ : Session α) (name : String) (new : SlotList α (Destructor α))
    (hnew : new.entries = []) :
    κ.Balances (κ.session σ + κ.list) (match σ.takeList? name with
      | none => (σ.putList name new).reply .done
      | some (l, σ) => ⟨σ, [.event (.destroyed l.length)],
          .teardown l.entries (.reinstate name new)⟩) := by
  have hcount : κ.ofList new = κ.list := by rw [Scale.ofList, hnew, Scale.pairs_nil, Nat.add_zero]
  split
  next hl =>
    refine ⟨0, ?_⟩
    simp only [Scale.stage, Scale.work, reply, Scale.spent_nil,
      κ.session_putList (takeList?_eq_none_iff.mp hl), hcount]
    omega
  next l σ' hl =>
    rw [(κ.session_of_takeList? hl).1]
    obtain ⟨gone, h⟩ := teardown_balances σ' (.destroyed l.length) l (.reinstate name new) 0 hcount
    exact ⟨gone + 1, by rw [h, Nat.mul_add]; omega⟩

/-! ## Calls -/

/-- What a session and a call bring together is there when the call has begun, or was let go. -/
theorem start_balances [HAppend α String α] {σ : Session α} {c : Call α} (h : κ.Ignores σ c) :
    κ.Balances (κ.session σ + κ.call c) (σ.start c) := by
  cases c
  case newAllocator name source =>
    simp only [start]
    split
    · exact reply_balances ..
    · exact putAllocator_balances ..
  case newList name source =>
    have hcall : κ.call (.newList name source) = κ.list := by
      simp [Scale.call, Call.pairs, Call.lists]
    rw [hcall]
    simp only [start]
    split
    · -- the list that was to be made is the one that is gone
      refine ⟨1, ?_⟩
      simp only [Scale.stage, Scale.work, reply, Scale.spent_nil]
      omega
    next limits _ => exact newList_balances σ name { limit := limits.length } rfl
  case set name allocator s v d hold exhausted =>
    apply withAllocator_balances
    intro a _
    apply withList_balances
    intro l σ' _ hs hn
    rw [hs]
    exact afterExchange_balances hn _ _ l _ (κ.ofList_set a _ s v d l)
  case setHeld name allocator s held hold exhausted =>
    apply withAllocator_balances
    intro a _
    apply withHeld_balances
    intro p σ' hp
    cases hv : p.value with
    | none => exact reply_balances ..
    | some v =>
      have hpair : p = ⟨some v, p.destructor⟩ := by rw [← hv]
      rw [hp, ← Nat.add_zero (κ.pair p), ← κ.pairs_nil, ← κ.pairs_cons]
      apply withList_balances
      intro l σ'' _ hs hn
      rw [hs]
      refine afterExchange_balances hn _ _ l _ ?_
      have := κ.ofList_set a (memory exhausted) s v p.destructor l
      rwa [← hpair] at this
  case get name allocator s =>
    apply withAllocator_balances
    intro a _
    apply withList_balances
    intro l σ' _ hs hn
    rw [hs]
    exact afterList_balances hn l _ _ (κ.ofList_get a s l)
  case append name allocator s text =>
    apply withAllocator_balances
    intro a ha
    apply withList_balances
    intro l σ' hl hs hn
    rw [hs]
    exact afterList_balances hn l _ _ (κ.ofList_modify a s _ l (h a l ha hl))
  case clear name allocator s hold =>
    apply withAllocator_balances
    intro a _
    apply withList_balances
    intro l σ' _ hs hn
    rw [hs]
    exact afterExchange_balances hn _ _ l _ (κ.ofList_clear a s l)
  case destroy name =>
    apply withList_balances
    intro l σ' _ hs _
    rw [hs]
    exact teardown_balances σ' _ l _ 0 (by simp [Scale.sequel, Scale.ofList, SlotList.emptied])
  case dropList name =>
    apply withList_balances
    intro l σ' _ hs _
    rw [hs]
    exact teardown_balances σ' _ l _ 1 (by simp [Scale.sequel])
  case length name | showList name =>
    exact withList_balances fun l σ' _ _ _ => reply_balances ..
  case newHeld name v d =>
    have := κ.session_hold σ name ⟨v, d⟩
    refine ⟨0, ?_⟩
    simp only [start, Scale.call, Call.pairs, Call.lists, Scale.pairs_cons, Scale.pairs_nil,
      Scale.stage, Scale.work]
    omega
  case showHeld name => exact withHeld_balances fun p σ' _ => reply_balances ..
  case finalize name =>
    refine withHeld_balances fun p σ' hp => ⟨0, ?_⟩
    simp only [Scale.stage, Scale.work, Scale.sequel, Scale.spent_nil, Scale.pairs_cons,
      Scale.pairs_nil]
    omega
  case dropHeld name =>
    refine withHeld_balances fun p σ' hp => ⟨0, ?_⟩
    have := κ.spent_dropped [p] .released
    simp only [List.map_cons, List.map_nil, Scale.pairs_cons, Scale.pairs_nil] at this
    simp only [Scale.stage, Scale.work]
    omega
  -- the others need an allocator, and lists and held pairs stay as they are
  all_goals
    apply withAllocator_balances
    intro a _
    first
      | exact putAllocator_balances ..
      | exact reply_balances ..

/-- What a session and a sequel have together is there when the sequel goes on. -/
theorem resume_balances (σ : Session α) (panic : Option String) (sequel : Sequel α) :
    κ.Balances (κ.session σ + κ.sequel sequel) (σ.resume panic sequel) := by
  cases sequel with
  | report earlier => exact reply_balances ..
  | reinstate name l =>
    simp only [resume, Scale.sequel]
    split
    next hl =>
      refine ⟨0, ?_⟩
      simp [Scale.stage, Scale.work, reply, κ.session_putList (takeList?_eq_none_iff.mp hl)]
    next other σ' hl =>
      obtain ⟨hs, hn⟩ := κ.session_of_takeList? hl
      refine ⟨1, ?_⟩
      simp only [Scale.stage, Scale.work, Scale.sequel, Scale.spent_event,
        κ.session_putList hn, Scale.ofList] at hs ⊢
      omega

end Session

end SlotStore
