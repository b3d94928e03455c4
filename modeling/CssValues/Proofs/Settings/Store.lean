import CssValues.Proofs.Settings.Objects
import Mathlib.Data.List.Induction
import Mathlib.Data.List.Perm.Subperm

/-!
# Settings in use as a store of dotted paths

Settings are changed in place. As long as no mapping in them is held under two keys, this comes to what
is done with their values (`Store.Shows`), and this stays so under every change but sharing. Then a key
gives what was set under it, or under one that leads to it or further, and changes under keys that part
from it are not seen (`Store.dotted_store`, `Store.holds_run`). What is set in a mapping that is held
twice is seen under both keys (`Store.find?_put_of_same`).
-/

namespace CssValues

/-! ## The settings that a store shows -/

namespace Store

open Object (Stands Made made_make made_makeEntries)
open Settings (path path_ne_nil Apart)

variable {s : Store} {shown : Settings} {key : Text}

/-- The settings in use are these, and no mapping or list in them is held twice. -/
def Shows (s : Store) (shown : Settings) : Prop :=
  ∃ ps, Stands s.objects [.object s.root] [.mapping shown.entries] ps ∧ ps.Nodup

/-- What stands for a value by objects of which none comes twice is read as the value. -/
theorem read?_of_stands {held : Held} {value : Value} {ps : List Nat}
    (h : Stands s.objects [held] [value] ps) (hnodup : ps.Nodup) : s.read? held = some value := by
  have hlength : ps.length ≤ s.objects.length := by
    have hsub : ps ⊆ List.range s.objects.length := fun p hp => List.mem_range.mpr (h.lt_length p hp)
    exact (hnodup.subperm hsub).length_le.trans_eq List.length_range
  have hread := h.mapM_readUpTo hlength
  rw [List.mapM_cons] at hread
  cases hheld : Object.readUpTo s.objects s.objects.length held with
  | none =>
    rw [hheld] at hread
    cases hread
  | some v =>
    rw [hheld] at hread
    cases hread
    exact hheld

theorem Shows.settings?_eq (h : s.Shows shown) : s.settings? = some shown := by
  obtain ⟨ps, hps, hnodup⟩ := h
  rw [settings?, read?_of_stands hps hnodup]

/-- A caller reads what the settings have. -/
theorem Shows.get_eq (h : s.Shows shown) (key : Text) (fallback : Value) :
    s.get key fallback = some (shown.get key fallback) := by
  obtain ⟨ps, hps, hnodup⟩ := h
  rw [get, find?, Settings.get]
  rcases hps.find? with ⟨hheld, hvalue⟩ | ⟨held, value, own, hheld, hvalue, hstands, hsub⟩
  · rw [hheld, hvalue]
    rfl
  · rw [hheld, hvalue]
    exact read?_of_stands hstands (hnodup.sublist hsub)

/-- **Step.** A value of its own is set where it is set in the settings. -/
theorem Shows.set (h : s.Shows shown) (key : Text) (value : Value) :
    (s.set key value).Shows (shown.set key value) := by
  obtain ⟨ps, hps, hnodup⟩ := h
  obtain ⟨hfront, given, hgiven, hgivenNodup, hnew⟩ := made_make s.objects value
  have hwritten := (hps.of_isPrefix hfront).write (path_ne_nil key) hnodup hgiven hgivenNodup
    fun q hq hmem => absurd (hps.lt_length q hq) (Nat.not_lt.mpr (hnew q hmem))
  obtain ⟨qs, hqs, hqsNodup, -⟩ := hwritten.stands
  exact ⟨qs, hqs, hqsNodup⟩

/-- **Step.** -/
theorem Shows.remove (h : s.Shows shown) (key : Text) :
    (s.remove key).1 = (shown.remove key).1 ∧ (s.remove key).2.Shows (shown.remove key).2 := by
  obtain ⟨ps, hps, hnodup⟩ := h
  rw [Store.remove, Settings.remove]
  rcases hps.erase? hnodup with ⟨hnone, hnone'⟩ | ⟨after, left, hafter, hleft, hwritten⟩
  · rw [hnone, hnone']
    exact ⟨rfl, ps, hps, hnodup⟩
  · rw [hafter, hleft]
    obtain ⟨qs, hqs, hqsNodup, -⟩ := hwritten.stands
    exact ⟨rfl, qs, hqs, hqsNodup⟩

/-- Settings that are put in place of those in use are made anew, whatever is in use. -/
theorem shows_hold (s : Store) (shown : Settings) : (s.hold shown).Shows shown := by
  obtain ⟨hkeys, hmade⟩ := made_makeEntries s.objects shown.entries
  obtain ⟨-, ps, hps, hnodup, -⟩ := hmade.mapping hkeys
  exact ⟨ps, hps, hnodup⟩

theorem shows_merge (h : s.Shows shown) (override : Entries Value) :
    (s.merge override).Shows (shown.merge override) := by
  rw [merge, h.settings?_eq]
  exact shows_hold s _

/-- **Step.** -/
theorem shows_load (s : Store) (before : Settings) (path : Option Text) (file : SettingsFile) :
    (s.load path file).1.Shows (before.reload path file).1
      ∧ (s.load path file).2 = (before.reload path file).2 := by
  have hreset : s.reset.Shows before.reset := shows_hold s .default
  rw [load, Settings.reload]
  obtain ⟨override, problems⟩ := file.overrideAt path
  cases override with
  | none => exact ⟨hreset, rfl⟩
  | some override => exact ⟨shows_merge hreset override, rfl⟩

/-! ## Runs -/

/-- A change of the settings in use. -/
inductive Change where
  /-- A value of its own under a key. -/
  | set (key : Text) (value : Value)
  /-- What one key gives under another. -/
  | share (key source : Text)
  | remove (key : Text)
  | load (path : Option Text) (file : SettingsFile)

namespace Change

def apply (s : Store) : Change → Store
  | .set key value => s.set key value
  | .share key source => s.share key source
  | .remove key => (s.remove key).2
  | .load path file => (s.load path file).1

/-- Nothing comes to be held twice by it. -/
def IsOwn : Change → Prop
  | .share .. => False
  | .set .. | .remove _ | .load .. => True

/-- The path of the key that it is about. -/
def target? : Change → Option (List Text)
  | .set key _ | .share key _ | .remove key => some (path key)
  | .load .. => none

end Change

/-- The store after several changes. -/
def run (s : Store) (changes : List Change) : Store := changes.foldl Change.apply s

/-- Settings that have been loaded for the first time. -/
def opened (path : Option Text) (file : SettingsFile) : Store := (empty.load path file).1

/-- **Step.** A change that shares nothing leaves settings of which nothing is held twice. -/
theorem Shows.apply {c : Change} (h : s.Shows shown) (hown : c.IsOwn) :
    ∃ after, (c.apply s).Shows after := by
  cases c with
  | set key value => exact ⟨_, h.set key value⟩
  | share => exact hown.elim
  | remove key => exact ⟨_, (h.remove key).2⟩
  | load path file => exact ⟨_, (shows_load s shown path file).1⟩

/-- **Run.** -/
theorem shows_run {changes : List Change} (hown : ∀ c ∈ changes, c.IsOwn) (path : Option Text)
    (file : SettingsFile) : ∃ after, ((opened path file).run changes).Shows after := by
  induction changes using List.reverseRecOn with
  | nil => exact ⟨_, (shows_load empty ⟨[]⟩ path file).1⟩
  | append_singleton changes c ih =>
    obtain ⟨after, hafter⟩ := ih fun d hd => hown d (List.mem_append_left _ hd)
    rw [run, List.foldl_append]
    exact hafter.apply (hown c (List.mem_append_right _ (List.mem_singleton_self c)))

/-- The store holds a value under a key, whatever is asked for in its place: nothing, too, can be a
value. -/
def Holds (s : Store) (key : Text) (value : Value) : Prop := ∀ fallback, s.get key fallback = some value

theorem Shows.get_set_of_apart {other : Text} (h : s.Shows shown)
    (happart : Apart (path key) (path other)) (value fallback : Value) :
    (s.set key value).get other fallback = s.get other fallback := by
  rw [(h.set key value).get_eq, h.get_eq, Settings.get_set_of_apart happart]

theorem Shows.get_remove_of_apart {other : Text} (h : s.Shows shown)
    (happart : Apart (path key) (path other)) (fallback : Value) :
    (s.remove key).2.get other fallback = s.get other fallback := by
  rw [(h.remove key).2.get_eq, h.get_eq, Settings.get_remove_of_apart happart]

/-- **Step.** One change is not seen under a key that parts from its key. -/
theorem Shows.get_apply_of_apart {c : Change} {p : List Text} (h : s.Shows shown) (hown : c.IsOwn)
    (hp : p ∈ c.target?) (happart : Apart p (path key)) (fallback : Value) :
    (c.apply s).get key fallback = s.get key fallback := by
  cases c with
  | set k value =>
    cases hp
    exact h.get_set_of_apart happart value fallback
  | share => exact hown.elim
  | remove k =>
    cases hp
    exact h.get_remove_of_apart happart fallback
  | load => cases hp

theorem Shows.holds_iff {value : Value} (h : s.Shows shown) :
    s.Holds key value ↔ shown.Holds key value :=
  forall_congr' fun fallback => by rw [h.get_eq, Option.some_inj]

/-- **Run.** What was set is held, whatever was changed before, and whatever was changed since under
keys that part from its key. -/
theorem holds_run (place : Option Text) (file : SettingsFile) {before after : List Change}
    (hbefore : ∀ c ∈ before, c.IsOwn) (hafter : ∀ c ∈ after, c.IsOwn) (key : Text) (value : Value)
    (h : ∀ c ∈ after, ∃ p ∈ c.target?, Apart p (path key)) :
    ((opened place file).run (before ++ .set key value :: after)).Holds key value := by
  induction after using List.reverseRecOn with
  | nil =>
    obtain ⟨all, hall⟩ := shows_run hbefore place file
    rw [run, List.foldl_append]
    exact (hall.set key value).holds_iff.mpr (Settings.holds_set all key value)
  | append_singleton after c ih =>
    have hheld := ih (fun d hd => hafter d (List.mem_append_left _ hd))
      fun d hd => h d (List.mem_append_left _ hd)
    have hown : ∀ d ∈ before ++ .set key value :: after, d.IsOwn := by
      rw [List.forall_mem_append, List.forall_mem_cons]
      exact ⟨hbefore, trivial, fun d hd => hafter d (List.mem_append_left _ hd)⟩
    obtain ⟨all, hall⟩ := shows_run hown place file
    have hc := List.mem_append_right after (List.mem_singleton_self c)
    obtain ⟨p, hp, happart⟩ := h c hc
    intro fallback
    rw [← List.cons_append, ← List.append_assoc, run, List.foldl_append, List.foldl_cons,
      List.foldl_nil, ← run, hall.get_apply_of_apart (hafter c hc) hp happart]
    exact hheld fallback

end Store

/-! ## Sharing -/

namespace Object

variable {objects : List Object} {n m : Nat} {p q : List Text}

/-- The mapping that a path leads to from a mapping, by its number. -/
def place? (objects : List Object) : List Text → Nat → Option Nat
  | [], n => some n
  | key :: keys, n =>
    (mapping? objects ((entriesAt objects n).get? key)).bind (place? objects keys)

theorem find?_append_singleton (objects : List Object) (p : List Text) (key : Text) (n : Nat) :
    find? objects (p ++ [key]) n
      = (place? objects p n).bind fun m => (entriesAt objects m).get? key := by
  induction p generalizing n with
  | nil => rfl
  | cons k keys ih =>
    obtain ⟨next, more, hmore⟩ := List.exists_cons_of_ne_nil (List.append_ne_nil_of_right_ne_nil keys
      (List.cons_ne_nil key []))
    rw [List.cons_append, hmore, place?, Option.bind_assoc]
    simp only [find?]
    cases mapping? objects ((entriesAt objects n).get? k) with
    | none => rfl
    | some m => rw [Option.bind_some, ← ih m, hmore]

theorem write_append_singleton (h : place? objects p n = some m) (key : Text) (held : Held) :
    write held (p ++ [key]) objects n = putAt objects m key held := by
  induction p generalizing n with
  | nil =>
    cases h
    rfl
  | cons k keys ih =>
    obtain ⟨next, more, hmore⟩ := List.exists_cons_of_ne_nil (List.append_ne_nil_of_right_ne_nil keys
      (List.cons_ne_nil key []))
    obtain ⟨m', hm', hrest⟩ := Option.bind_eq_some_iff.mp h
    have hwrite := ih hrest
    rw [hmore] at hwrite
    rw [List.cons_append, hmore]
    simp only [write, hm', hwrite]

/-- An entry of a mapping does not matter to which of the objects are mappings. -/
theorem mapping?_putAt {inner : Entries Held} (h : objects[m]? = some (.mapping inner)) (key : Text)
    (held : Held) (found : Option Held) :
    mapping? (putAt objects m key held) found = mapping? objects found := by
  unfold mapping?
  split
  · next k =>
    by_cases hk : k = m
    · rw [hk, getElem?_putAt_self h, h]
    · rw [getElem?_putAt_of_ne hk]
  · rfl

/-- A path that comes to a mapping for the first time at its end still does when the mapping has another
entry. -/
theorem place?_putAt {inner : Entries Held} (h : objects[m]? = some (.mapping inner))
    (hq : place? objects q n = some m)
    (hfirst : ∀ r, r <+: q → r ≠ q → place? objects r n ≠ some m) (key : Text) (held : Held) :
    place? (putAt objects m key held) q n = some m := by
  induction q generalizing n with
  | nil => exact hq
  | cons k keys ih =>
    have hn : n ≠ m := fun heq => hfirst [] List.nil_prefix (List.cons_ne_nil k keys).symm (heq ▸ rfl)
    obtain ⟨m', hm', hrest⟩ := Option.bind_eq_some_iff.mp hq
    have hentries : entriesAt (putAt objects m key held) n = entriesAt objects n := by
      rw [entriesAt, getElem?_putAt_of_ne hn, entriesAt]
    rw [place?, hentries, mapping?_putAt h, hm', Option.bind_some]
    refine ih hrest fun r hr hne heq => ?_
    refine hfirst (k :: r) (List.cons_prefix_cons.mpr ⟨rfl, hr⟩) (fun hr => hne (List.cons.inj hr).2) ?_
    rw [place?, hm', Option.bind_some, heq]

end Object

namespace Store

open Object (place? find?_append_singleton write_append_singleton place?_putAt getElem?_putAt_self
  entriesAt_eq)
open Settings (path)

/-- **Sharing.** What is put under a key is found under every other that leads to the same mapping at the
last, though neither is the beginning of the other. -/
theorem find?_put_of_same {s : Store} {key other last : Text} {p q : List Text} {m : Nat}
    {inner : Entries Held} (hm : s.objects[m]? = some (.mapping inner)) (hkey : path key = p ++ [last])
    (hother : path other = q ++ [last]) (hp : place? s.objects p s.root = some m)
    (hq : place? s.objects q s.root = some m)
    (hfirst : ∀ r, r <+: q → r ≠ q → place? s.objects r s.root ≠ some m) (held : Held) :
    (s.put key held).find? other = some held := by
  rw [find?, put, hkey, hother, write_append_singleton hp, find?_append_singleton,
    place?_putAt hm hq hfirst, Option.bind_some, entriesAt_eq (getElem?_putAt_self hm last held),
    Entries.get?_put_self]

/-- A number set in a mapping that is held under two keys. -/
example :
    let s := (opened none .missing).share "backup".toList "context".toList
    (s.get "backup.font_size".toList .null = some (.number 16))
      ∧ (s.set "context.font_size".toList (.number 20)).get "backup.font_size".toList .null
        = some (.number 20) := ⟨by rfl, by rfl⟩

end Store

end CssValues
