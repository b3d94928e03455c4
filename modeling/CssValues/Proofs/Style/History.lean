import CssValues.Proofs.Style.Tidy

/-!
# Declarations as an ordered map

A style that went through any number of operations is what its history of writes and drops at
lower-case names says: a name has the value of the last event that touched it, and the names stand in
the order in which they were inserted (`Style.instance_refines`). The empty name alone is never kept.
-/

namespace CssValues

namespace Style

/-! ## Operations -/

/-- The operations on declarations, with values that are there. -/
inductive Operation where
  | set (name value : Text)
  | remove (name : Text)
  | merge (pairs : List (Text × Text))

namespace Operation

def apply (s : Style) : Operation → Style
  | .set name value => s.set name (some value)
  | .remove name => s.remove name
  | .merge pairs => s.merge (pairs.map fun p => (p.1, some p.2))

/-- No name has white space around it, and no value is blank. -/
def IsPlain : Operation → Prop
  | .set name value => name.trim = name ∧ Text.isBlankText value = false
  | .remove name => name.trim = name
  | .merge pairs => ∀ p ∈ pairs, p.1.trim = p.1 ∧ Text.isBlankText p.2 = false

instance : DecidablePred IsPlain
  | .set name value => inferInstanceAs (Decidable (name.trim = name ∧ Text.isBlankText value = false))
  | .remove name => inferInstanceAs (Decidable (name.trim = name))
  | .merge pairs =>
    inferInstanceAs (Decidable (∀ p ∈ pairs, p.1.trim = p.1 ∧ Text.isBlankText p.2 = false))

end Operation

/-- The instances that come up when operations follow one another, the first one included. -/
def instances (start : Entries (Option Text)) (operations : List Operation) : List Style :=
  operations.scanl Operation.apply (ofEntries start)

/-! ## Histories -/

/-- What happens to a name in lower case. -/
inductive Event where
  | write (name value : Text)
  | drop (name : Text)

namespace Event

def name : Event → Text
  | .write name _ => name
  | .drop name => name

/-- The value that an event leaves at its name. -/
def value? : Event → Option Text
  | .write _ value => some value
  | .drop _ => none

end Event

/-- The events of an operation; a merge touches its names one after the other. -/
def Operation.events : Operation → List Event
  | .set name value => [.write (Text.lower name) value.trim]
  | .remove name => [.drop (Text.lower name)]
  | .merge pairs => pairs.map fun p => .write (Text.lower p.1) p.2.trim

/-- The event of a pair that declarations start with, unless its name or value is blank or its value
is missing. -/
def startEvent? (pair : Text × Option Text) : Option Event :=
  match pair.2 with
  | some value =>
    if Text.isBlankText pair.1 || Text.isBlankText value then none
    else some (.write (propertyName pair.1) value.trim)
  | none => none

/-- All events in order, from the start on. -/
def history (start : Entries (Option Text)) (operations : List Operation) : List Event :=
  start.filterMap startEvent? ++ operations.flatMap Operation.events

/-- What the last event that touched a name left there. -/
def lastValue? (events : List Event) (name : Text) : Option Text :=
  (events.reverse.find? fun e => e.name = name).bind Event.value?

/-- The event at `i` is the first write of the name since it was absent, and it is not dropped any
more. -/
structure InsertedAt (events : List Event) (name : Text) (i : Nat) : Prop where
  writes : ∃ value, events[i]? = some (.write name value)
  absent : lastValue? (events.take i) name = none
  stays : ∀ e ∈ events.drop (i + 1), e ≠ .drop name

section

variable {events : List Event} {name : Text} {i : Nat}

theorem lastValue?_append (events : List Event) (e : Event) (name : Text) :
    lastValue? (events ++ [e]) name = if e.name = name then e.value? else lastValue? events name := by
  rw [lastValue?, List.reverse_append, List.reverse_singleton, List.singleton_append,
    List.find?_cons]
  by_cases h : e.name = name <;> simp [h, lastValue?]

theorem InsertedAt.lt_length (h : InsertedAt events name i) : i < events.length := by
  obtain ⟨value, hvalue⟩ := h.writes
  exact (List.getElem?_eq_some_iff.mp hvalue).1

/-- A name stays inserted where it was unless it is dropped now. -/
theorem insertedAt_append_of_lt (e : Event) (hi : i < events.length) :
    InsertedAt (events ++ [e]) name i ↔ InsertedAt events name i ∧ e ≠ .drop name := by
  have hget : (events ++ [e])[i]? = events[i]? := List.getElem?_append_left hi
  have htake : (events ++ [e]).take i = events.take i := List.take_append_of_le_length hi.le
  have hdrop : (events ++ [e]).drop (i + 1) = events.drop (i + 1) ++ [e] :=
    List.drop_append_of_le_length hi
  constructor
  · rintro ⟨hwrites, habsent, hstays⟩
    rw [hget] at hwrites
    rw [htake] at habsent
    rw [hdrop] at hstays
    exact ⟨⟨hwrites, habsent, fun d hd => hstays d (List.mem_append_left _ hd)⟩,
      hstays e (List.mem_append_right _ (List.mem_singleton_self e))⟩
  · rintro ⟨⟨hwrites, habsent, hstays⟩, he⟩
    refine ⟨hget ▸ hwrites, htake ▸ habsent, fun d hd => ?_⟩
    rw [hdrop] at hd
    rcases List.mem_append.mp hd with hd | hd
    · exact hstays d hd
    · exact List.mem_singleton.mp hd ▸ he

/-- A name is inserted now if it is written and was absent. -/
theorem insertedAt_append_length {e : Event} : InsertedAt (events ++ [e]) name events.length
    ↔ (∃ value, e = .write name value) ∧ lastValue? events name = none := by
  have hget : (events ++ [e])[events.length]? = some e := List.getElem?_concat_length
  constructor
  · rintro ⟨⟨value, hvalue⟩, habsent, -⟩
    rw [hget] at hvalue
    rw [List.take_left] at habsent
    exact ⟨⟨value, Option.some.inj hvalue⟩, habsent⟩
  · rintro ⟨⟨value, rfl⟩, habsent⟩
    refine ⟨⟨value, hget⟩, by rwa [List.take_left], fun d hd => ?_⟩
    rw [List.drop_eq_nil_of_le (by simp)] at hd
    cases hd

theorem insertedAt_append (e : Event) : InsertedAt (events ++ [e]) name i
    ↔ (InsertedAt events name i ∧ e ≠ .drop name)
      ∨ (i = events.length ∧ (∃ value, e = .write name value) ∧ lastValue? events name = none) := by
  constructor
  · intro h
    have hi : i < events.length + 1 := by simpa using h.lt_length
    rcases Nat.lt_succ_iff_lt_or_eq.mp hi with hlt | rfl
    · exact .inl ((insertedAt_append_of_lt e hlt).mp h)
    · exact .inr ⟨rfl, insertedAt_append_length.mp h⟩
  · rintro (⟨h, he⟩ | ⟨rfl, h⟩)
    · exact (insertedAt_append_of_lt e h.lt_length).mpr ⟨h, he⟩
    · exact insertedAt_append_length.mpr h

/-- A name has a value if it was inserted and stayed. -/
theorem exists_insertedAt_iff (events : List Event) (name : Text) :
    (∃ i, InsertedAt events name i) ↔ (lastValue? events name).isSome = true := by
  induction events using List.reverseRecOn with
  | nil => exact ⟨fun ⟨i, h⟩ => absurd h.lt_length (Nat.not_lt_zero i), nofun⟩
  | append_singleton events e ih =>
    simp only [insertedAt_append, lastValue?_append]
    by_cases he : e.name = name
    · rw [if_pos he]
      cases e with
      | write k value =>
        obtain rfl : k = name := he
        refine ⟨fun _ => rfl, fun _ => ?_⟩
        cases hvalue : lastValue? events k with
        | none => exact ⟨_, .inr ⟨rfl, ⟨value, rfl⟩, rfl⟩⟩
        | some v =>
          obtain ⟨i, hi⟩ := ih.mpr (by rw [hvalue]; rfl)
          exact ⟨i, .inl ⟨hi, nofun⟩⟩
      | drop k =>
        obtain rfl : k = name := he
        exact ⟨by rintro ⟨i, ⟨-, h⟩ | ⟨-, ⟨_, ⟨⟩⟩, -⟩⟩; exact absurd rfl h, nofun⟩
    · rw [if_neg he, ← ih]
      constructor
      · rintro ⟨i, ⟨h, -⟩ | ⟨-, ⟨value, rfl⟩, -⟩⟩
        · exact ⟨i, h⟩
        · exact absurd rfl he
      · rintro ⟨i, h⟩
        exact ⟨i, .inl ⟨h, fun heq => he (heq ▸ rfl)⟩⟩

end

/-! ## Replaying a history -/

/-- An event on properties. Nothing is written at the empty name. -/
def Event.apply (properties : Entries Text) : Event → Entries Text
  | .write name value => if name = [] then properties else properties.put name value
  | .drop name => properties.erase name

/-- The properties that a history leaves. -/
def replay (events : List Event) : Entries Text := events.foldl Event.apply []

theorem replay_append (events more : List Event) :
    replay (events ++ more) = more.foldl Event.apply (replay events) := List.foldl_append

theorem replay_concat (events : List Event) (e : Event) :
    replay (events ++ [e]) = e.apply (replay events) := List.foldl_append

/-- **Values.** A name has what the last event left there. -/
theorem get?_replay (events : List Event) {name : Text} (hname : name ≠ []) :
    (replay events).get? name = lastValue? events name := by
  induction events using List.reverseRecOn with
  | nil => rfl
  | append_singleton events e ih =>
    rw [replay_concat, lastValue?_append, ← ih]
    cases e with
    | write k value =>
      by_cases hk : k = name
      · subst hk
        simp [Event.apply, Event.name, Event.value?, hname]
      · by_cases hempty : k = []
        · simp [Event.apply, Event.name, hempty, Ne.symm hname]
        · simp [Event.apply, Event.name, hempty, hk, Entries.get?_put_of_ne (Ne.symm hk)]
    | drop k =>
      by_cases hk : k = name
      · subst hk
        simp [Event.apply, Event.name, Event.value?]
      · simp [Event.apply, Event.name, hk, Entries.get?_erase_of_ne (Ne.symm hk)]

theorem nil_notMem_keys_replay (events : List Event) : [] ∉ (replay events).keys := by
  induction events using List.reverseRecOn with
  | nil => exact List.not_mem_nil
  | append_singleton events e ih =>
    rw [replay_concat]
    cases e with
    | write k value =>
      rw [Event.apply]
      split
      · exact ih
      · next hk =>
        rw [Entries.mem_keys_put, not_or]
        exact ⟨Ne.symm hk, ih⟩
    | drop k =>
      rw [Event.apply, Entries.keys_erase]
      exact fun h => ih (List.mem_of_mem_filter h)

/-- **Names.** The names are those that were inserted and stayed. -/
theorem mem_keys_replay_iff (events : List Event) (name : Text) :
    name ∈ (replay events).keys ↔ name ≠ [] ∧ ∃ i, InsertedAt events name i := by
  by_cases hname : name = []
  · rw [hname]
    exact ⟨fun h => absurd h (nil_notMem_keys_replay events), fun h => absurd rfl h.1⟩
  · rw [exists_insertedAt_iff, ← get?_replay events hname, Entries.isSome_get?_iff]
    exact ⟨fun h => ⟨hname, h⟩, And.right⟩

/-- A name that is there is inserted by what came before or not at all. -/
theorem InsertedAt.of_append {events : List Event} {e : Event} {name : Text} {i : Nat}
    (h : InsertedAt (events ++ [e]) name i) (hname : name ∈ (replay events).keys) :
    InsertedAt events name i := by
  rcases insertedAt_append e |>.mp h with ⟨h, -⟩ | ⟨-, -, habsent⟩
  · exact h
  · have hsome := (exists_insertedAt_iff events name).mp ((mem_keys_replay_iff events name).mp hname).2
    rw [habsent] at hsome
    cases hsome

/-- **Order.** The names stand in the order of their insertion. -/
theorem keys_replay_pairwise (events : List Event) : (replay events).keys.Pairwise fun m n =>
    ∀ i j, InsertedAt events m i → InsertedAt events n j → i < j := by
  induction events using List.reverseRecOn with
  | nil => exact List.Pairwise.nil
  | append_singleton events e ih =>
    -- the names that were there before are in order still
    have hold : (replay events).keys.Pairwise fun m n => ∀ i j,
        InsertedAt (events ++ [e]) m i → InsertedAt (events ++ [e]) n j → i < j :=
      ih.imp_of_mem fun hm hn h i j hi hj => h i j (hi.of_append hm) (hj.of_append hn)
    rw [replay_concat]
    cases e with
    | write k value =>
      rw [Event.apply]
      split
      · exact hold
      · next hk =>
        rw [Entries.keys_put]
        split
        · exact hold
        · next hnew =>
          refine List.pairwise_append.mpr ⟨hold, List.pairwise_singleton _ _, ?_⟩
          intro m hm n hn i j hi hj
          obtain rfl := List.mem_singleton.mp hn
          -- the new name is inserted only now
          rcases insertedAt_append _ |>.mp hj with ⟨hj, -⟩ | ⟨rfl, -, -⟩
          · exact absurd ((mem_keys_replay_iff events n).mpr ⟨hk, j, hj⟩) hnew
          · exact (hi.of_append hm).lt_length
    | drop k =>
      rw [Event.apply, Entries.keys_erase]
      exact hold.filter _

/-! ## Instances -/

/-- What taking in a pair comes to. -/
theorem take_eq (properties : Entries Text) (pair : Text × Option Text) : take properties pair
    = (startEvent? pair).elim properties (Event.apply properties) := by
  obtain ⟨name, _ | value⟩ := pair
  · rfl
  · unfold take startEvent?
    dsimp only
    split
    · rfl
    · next hnot =>
      have hname := (Bool.or_eq_false_iff.mp (Bool.eq_false_iff.mpr hnot)).1
      rw [Option.elim_some, Event.apply, if_neg (propertyName_ne_nil hname)]

/-- The properties at the start. -/
theorem properties_ofEntries (start : Entries (Option Text)) :
    (ofEntries start).properties = replay (start.filterMap startEvent?) := by
  suffices h : ∀ properties, start.foldl take properties
      = (start.filterMap startEvent?).foldl Event.apply properties from h []
  induction start with
  | nil => exact fun _ => rfl
  | cons pair start ih =>
    intro properties
    rw [List.foldl_cons, take_eq, ih, List.filterMap_cons]
    cases startEvent? pair <;> rfl

/-- **Step.** An operation on tidy declarations comes to its events. -/
theorem Operation.properties_apply {s : Style} (h : IsTidy s.properties) {o : Operation}
    (ho : o.IsPlain) : (o.apply s).properties = o.events.foldl Event.apply s.properties := by
  cases o with
  | set name value =>
    obtain ⟨hname, hvalue⟩ := ho
    simp only [Operation.apply, properties_set h hname hvalue, Operation.events, List.foldl_cons,
      List.foldl_nil, Event.apply, Text.lower_eq_nil_iff]
  | remove name => exact properties_remove h name
  | merge pairs =>
    rw [Operation.apply, properties_merge h (fun p hp => (ho p hp).1) fun p hp => (ho p hp).2,
      Operation.events, List.foldl_map]
    simp only [Event.apply, Text.lower_eq_nil_iff]

/-- Every operation leaves tidy declarations. -/
theorem Operation.isTidy_apply (o : Operation) (s : Style) : IsTidy (o.apply s).properties := by
  cases o <;> exact isTidy_normalize _

/-- **Run.** Declarations are tidy, and have what their history leaves. -/
theorem properties_foldl (start : Entries (Option Text)) {operations : List Operation}
    (h : ∀ o ∈ operations, o.IsPlain) :
    IsTidy (operations.foldl Operation.apply (ofEntries start)).properties
      ∧ (operations.foldl Operation.apply (ofEntries start)).properties
        = replay (history start operations) := by
  induction operations using List.reverseRecOn with
  | nil =>
    refine ⟨isTidy_normalize start, ?_⟩
    rw [history, List.flatMap_nil, List.append_nil]
    exact properties_ofEntries start
  | append_singleton operations o ih =>
    obtain ⟨htidy, hreplay⟩ := ih fun o ho => h o (List.mem_append_left _ ho)
    have ho : o.IsPlain := h o (List.mem_append_right _ (List.mem_singleton_self o))
    rw [List.foldl_append, List.foldl_cons, List.foldl_nil]
    refine ⟨o.isTidy_apply _, ?_⟩
    rw [Operation.properties_apply htidy ho, hreplay, ← replay_append, history, history,
      List.flatMap_append, List.flatMap_singleton, List.append_assoc]

/-- **Declarations as an ordered map.** The instance that operations lead to stays as it is, whatever
follows. It is tidy. A name in any letter case has what the last event that touched it left there, and
the empty name has nothing. The names that were inserted and stayed are there in the order of their
insertion. -/
theorem instance_refines (start : Entries (Option Text)) (operations more : List Operation)
    (h : ∀ o ∈ operations, o.IsPlain) :
    ∃ s, (instances start (operations ++ more))[operations.length]? = some s
      ∧ IsTidy s.properties
      ∧ (∀ name, s.get? name = if name = [] then none
          else lastValue? (history start operations) (Text.lower name))
      ∧ (∀ name, name ∈ s.properties.keys
          ↔ name ≠ [] ∧ ∃ i, InsertedAt (history start operations) name i)
      ∧ s.properties.keys.Pairwise fun m n => ∀ i j, InsertedAt (history start operations) m i →
          InsertedAt (history start operations) n j → i < j := by
  obtain ⟨htidy, hreplay⟩ := properties_foldl start h
  refine ⟨operations.foldl Operation.apply (ofEntries start), ?_, htidy, ?_, ?_, ?_⟩
  · rw [instances, List.getElem?_scanl, List.take_left, if_pos]
    rw [List.length_append]
    exact Nat.le_add_right _ _
  · intro name
    rw [get?, hreplay]
    split
    · next hname =>
      rw [Entries.get?_eq_none_iff, hname]
      exact nil_notMem_keys_replay _
    · next hname => exact get?_replay _ (mt Text.lower_eq_nil_iff.mp hname)
  · intro name
    rw [hreplay]
    exact mem_keys_replay_iff _ name
  · rw [hreplay]
    exact keys_replay_pairwise _

/-- A color that is removed and written again stands behind the width, which is written in place. -/
theorem instance_refines_rewritten :
    let start := [("Color".toList, some "red".toList), ("width".toList, some "1px".toList)]
    let operations : List Operation := [.set "WIDTH".toList " 2px ".toList, .remove "COLOR".toList,
      .merge [("color".toList, "blue".toList)]]
    (∀ o ∈ operations, o.IsPlain)
      ∧ ∃ s, (instances start (operations ++ [.remove "width".toList]))[3]? = some s
        ∧ s.get? "Width".toList = some "2px".toList
        ∧ s.get? "cOLOR".toList = some "blue".toList
        ∧ s.properties.keys = ["width".toList, "color".toList] := by
  intro start operations
  have hplain : ∀ o ∈ operations, o.IsPlain := by decide +kernel
  obtain ⟨s, hs, -, hget, -, -⟩ :=
    instance_refines start operations [.remove "width".toList] hplain
  have hkeys : ((instances start (operations ++ [.remove "width".toList]))[3]?).map
      (fun s => s.properties.keys) = some ["width".toList, "color".toList] := by decide +kernel
  refine ⟨hplain, s, hs, ?_, ?_, ?_⟩
  · rw [hget]
    decide +kernel
  · rw [hget]
    decide +kernel
  · rw [show (3 : Nat) = operations.length from rfl, hs] at hkeys
    exact Option.some.inj hkeys

/-- The empty name is no exception to what is asked of names, and still it is not kept: what is set
there is not read back. -/
theorem get?_empty_name :
    let operations : List Operation := [.set [] ['x']]
    (∀ o ∈ operations, o.IsPlain)
      ∧ lastValue? (history [] operations) (Text.lower []) = some ['x']
      ∧ ∃ s, (instances [] operations)[1]? = some s ∧ s.get? [] = none := by
  exact ⟨by decide +kernel, by decide +kernel, normalize [([], some ['x'])], rfl, rfl⟩

end Style

end CssValues
