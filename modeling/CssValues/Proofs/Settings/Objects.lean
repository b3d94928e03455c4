import CssValues.Proofs.Entries
import CssValues.Proofs.Settings
import CssValues.Settings.Store
import Mathlib.Data.List.Nodup

/-!
# Values made of objects

A mapping or a list in use is an object that refers to others. What is held stands for a value by the
objects behind it (`Object.Stands`). As long as none of them comes twice, a path that is looked up,
written or dropped in the objects leads where it leads in the value (`Object.Stands.find?`,
`Object.Stands.write`, `Object.Stands.erase?`), and objects that are not behind the value stay as they
are.
-/

namespace CssValues

/-- The value behind what is held, if it has no parts. -/
def Held.plain? : Held → Option Value
  | .null => some .null
  | .bool b => some (.bool b)
  | .number n => some (.number n)
  | .text t => some (.text t)
  | .object _ => none

namespace Object

/-- What is held stands for these values, one by one. The numbers are those of the objects behind them,
in the order in which they are come upon. -/
inductive Stands (objects : List Object) : List Held → List Value → List Nat → Prop where
  | nil : Stands objects [] [] []
  | plain {held value helds values ps} (h : Held.plain? held = some value)
      (rest : Stands objects helds values ps) : Stands objects (held :: helds) (value :: values) ps
  | mapping {n inner entries qs helds values ps} (h : objects[n]? = some (.mapping inner))
      (keys : Entries.keys inner = Entries.keys entries)
      (parts : Stands objects (inner.map Prod.snd) (entries.map Prod.snd) qs)
      (rest : Stands objects helds values ps) :
      Stands objects (.object n :: helds) (.mapping entries :: values) (n :: (qs ++ ps))
  | array {n inner items qs helds values ps} (h : objects[n]? = some (.array inner))
      (parts : Stands objects inner items qs) (rest : Stands objects helds values ps) :
      Stands objects (.object n :: helds) (.array items :: values) (n :: (qs ++ ps))

variable {objects after : List Object} {held : Held} {helds : List Held} {value : Value}
  {values : List Value} {ps qs : List Nat} {n : Nat}

theorem Stands.lt_length (h : Stands objects helds values ps) : ∀ p ∈ ps, p < objects.length := by
  induction h with
  | nil => exact List.forall_mem_nil _
  | plain _ _ ih => exact ih
  | mapping h _ _ _ ihparts ihrest | array h _ _ ihparts ihrest =>
    rw [List.forall_mem_cons, List.forall_mem_append]
    exact ⟨(List.getElem?_eq_some_iff.mp h).1, ihparts, ihrest⟩

/-- **Frame.** What is held stands for the same values as long as the objects behind them stay. -/
theorem Stands.of_agree (h : Stands objects helds values ps)
    (hsame : ∀ p ∈ ps, after[p]? = objects[p]?) : Stands after helds values ps := by
  induction h with
  | nil => exact .nil
  | plain h _ ih => exact .plain h (ih hsame)
  | mapping h keys _ _ ihparts ihrest =>
    rw [List.forall_mem_cons, List.forall_mem_append] at hsame
    exact .mapping (hsame.1.trans h) keys (ihparts hsame.2.1) (ihrest hsame.2.2)
  | array h _ _ ihparts ihrest =>
    rw [List.forall_mem_cons, List.forall_mem_append] at hsame
    exact .array (hsame.1.trans h) (ihparts hsame.2.1) (ihrest hsame.2.2)

/-- What is held is taken one by one. -/
theorem stands_cons_iff : Stands objects (held :: helds) (value :: values) ps ↔
    ∃ qs rs, ps = qs ++ rs ∧ Stands objects [held] [value] qs ∧ Stands objects helds values rs := by
  constructor
  · intro h
    cases h with
    | plain h rest => exact ⟨[], _, rfl, .plain h .nil, rest⟩
    | mapping h keys parts rest => exact ⟨_, _, by simp, .mapping h keys parts .nil, rest⟩
    | array h parts rest => exact ⟨_, _, by simp, .array h parts .nil, rest⟩
  · rintro ⟨qs, rs, rfl, hfirst, hrest⟩
    cases hfirst with
    | plain h rest =>
      cases rest
      exact .plain h hrest
    | mapping h keys parts rest =>
      cases rest
      simpa using Stands.mapping h keys parts hrest
    | array h parts rest =>
      cases rest
      simpa using Stands.array h parts hrest

/-- Objects that are added do not matter. -/
theorem Stands.of_isPrefix (h : Stands objects helds values ps) (hfront : objects <+: after) :
    Stands after helds values ps := by
  obtain ⟨more, rfl⟩ := hfront
  exact h.of_agree fun p hp => List.getElem?_append_left (h.lt_length p hp)

/-- **Reading.** What is held is read as the values that it stands for. -/
theorem Stands.mapM_readUpTo (h : Stands objects helds values ps) {depth : Nat}
    (hdepth : ps.length ≤ depth) : helds.mapM (readUpTo objects depth) = some values := by
  induction h generalizing depth with
  | nil => rfl
  | @plain held value helds values ps h _ ih =>
    have hread : readUpTo objects depth held = some value := by
      cases held <;> cases h <;> cases depth <;> rfl
    rw [List.mapM_cons, hread, ih hdepth]
    rfl
  | @mapping n inner entries qs helds values ps h keys _ _ ihparts ihrest =>
    rw [List.length_cons, List.length_append] at hdepth
    obtain ⟨depth, rfl⟩ : ∃ d, depth = d + 1 := ⟨depth - 1, by omega⟩
    have hzip : entries = (inner.map Prod.fst).zip (entries.map Prod.snd) :=
      List.zip_of_prod keys.symm rfl
    have hread : readUpTo objects (depth + 1) (.object n) = some (.mapping entries) := by
      rw [readUpTo, h]
      dsimp only
      rw [ihparts (by omega), Option.map_some, ← hzip]
    rw [List.mapM_cons, hread, ihrest (by omega)]
    rfl
  | @array n inner items qs helds values ps h _ _ ihparts ihrest =>
    rw [List.length_cons, List.length_append] at hdepth
    obtain ⟨depth, rfl⟩ : ∃ d, depth = d + 1 := ⟨depth - 1, by omega⟩
    have hread : readUpTo objects (depth + 1) (.object n) = some (.array items) := by
      rw [readUpTo, h]
      dsimp only
      rw [ihparts (by omega), Option.map_some]
    rw [List.mapM_cons, hread, ihrest (by omega)]
    rfl

/-! ## New objects -/

/-- The objects afterwards are those before and some new ones, and what is held stands for the values by
new ones alone, none of them twice. -/
def Made (objects after : List Object) (helds : List Held) (values : List Value) : Prop :=
  objects <+: after ∧ ∃ ps, Stands after helds values ps ∧ ps.Nodup ∧ ∀ p ∈ ps, objects.length ≤ p

theorem made_nil (objects : List Object) : Made objects objects [] [] :=
  ⟨List.prefix_rfl, [], .nil, List.nodup_nil, List.forall_mem_nil _⟩

theorem made_plain (h : held.plain? = some value) (objects : List Object) :
    Made objects objects [held] [value] :=
  ⟨List.prefix_rfl, [], .plain h .nil, List.nodup_nil, List.forall_mem_nil _⟩

theorem Made.cons {next : List Object} (h : Made objects next [held] [value])
    (hrest : Made next after helds values) : Made objects after (held :: helds) (value :: values) := by
  obtain ⟨hfront, ps, hps, hnodup, hnew⟩ := h
  obtain ⟨hfront', qs, hqs, hnodup', hnew'⟩ := hrest
  refine ⟨hfront.trans hfront', ps ++ qs,
    stands_cons_iff.mpr ⟨ps, qs, rfl, hps.of_isPrefix hfront', hqs⟩, ?_, ?_⟩
  · refine List.nodup_append.mpr ⟨hnodup, hnodup', fun p hp q hq => ?_⟩
    exact ((hps.lt_length p hp).trans_le (hnew' q hq)).ne
  · rw [List.forall_mem_append]
    exact ⟨hnew, fun q hq => hfront.length_le.trans (hnew' q hq)⟩

/-- An object that holds what has been made comes last. -/
theorem Made.object {o : Object} (h : Made objects after helds values)
    (hstands : ∀ ps, Stands (after ++ [o]) helds values ps →
      Stands (after ++ [o]) [.object after.length] [value] (after.length :: ps)) :
    Made objects (after ++ [o]) [.object after.length] [value] := by
  obtain ⟨hfront, ps, hps, hnodup, hnew⟩ := h
  refine ⟨hfront.trans (List.prefix_append _ _), after.length :: ps,
    hstands ps (hps.of_isPrefix (List.prefix_append _ _)), ?_, ?_⟩
  · refine List.nodup_cons.mpr ⟨fun hmem => ?_, hnodup⟩
    exact Nat.lt_irrefl _ (hps.lt_length _ hmem)
  · exact List.forall_mem_cons.mpr ⟨hfront.length_le, hnew⟩

theorem Made.array {items : List Value} (h : Made objects after helds items) :
    Made objects (after ++ [.array helds]) [.object after.length] [.array items] := by
  refine h.object fun ps hps => ?_
  have harray := Stands.array (List.getElem?_concat_length) hps .nil
  rwa [List.append_nil] at harray

theorem Made.mapping {inner : Entries Held} {entries : Entries Value}
    (hkeys : inner.keys = entries.keys)
    (h : Made objects after (inner.map Prod.snd) (entries.map Prod.snd)) :
    Made objects (after ++ [.mapping inner]) [.object after.length] [.mapping entries] := by
  refine h.object fun ps hps => ?_
  have hmapping := Stands.mapping (List.getElem?_concat_length) hkeys hps .nil
  rwa [List.append_nil] at hmapping

mutual

theorem made_make (objects : List Object) : ∀ value : Value,
    Made objects (make objects value).1 [(make objects value).2] [value]
  | .null | .bool _ | .number _ | .text _ => made_plain rfl objects
  | .array items => (made_makeItems objects items).array
  | .mapping entries => (made_makeEntries objects entries).2.mapping (made_makeEntries objects entries).1

theorem made_makeItems (objects : List Object) : ∀ items : List Value,
    Made objects (makeItems objects items).1 (makeItems objects items).2 items
  | [] => made_nil objects
  | value :: rest => (made_make objects value).cons (made_makeItems _ rest)

theorem made_makeEntries (objects : List Object) : ∀ entries : List (Text × Value),
    Entries.keys (makeEntries objects entries).2 = Entries.keys entries
      ∧ Made objects (makeEntries objects entries).1 ((makeEntries objects entries).2.map Prod.snd)
        (entries.map Prod.snd)
  | [] => ⟨rfl, made_nil objects⟩
  | (key, value) :: rest =>
    have ⟨hkeys, hrest⟩ := made_makeEntries (make objects value).1 rest
    ⟨congrArg (key :: ·) hkeys, (made_make objects value).cons hrest⟩

end

/-! ## The entries of a mapping -/

/-- Entries have the same keys, and what is held under them stands for the values. -/
def StandsFor (objects : List Object) (inner : Entries Held) (entries : Entries Value)
    (ps : List Nat) : Prop :=
  Entries.keys inner = Entries.keys entries
    ∧ Stands objects (inner.map Prod.snd) (entries.map Prod.snd) ps

variable {inner : Entries Held} {entries : Entries Value} {key : Text}

theorem standsFor_nil : StandsFor objects [] [] [] := ⟨rfl, .nil⟩

theorem standsFor_cons_iff : StandsFor objects ((key, held) :: inner) ((key, value) :: entries) ps ↔
    ∃ qs rs, ps = qs ++ rs ∧ Stands objects [held] [value] qs ∧ StandsFor objects inner entries rs := by
  constructor
  · rintro ⟨hkeys, hparts⟩
    obtain ⟨qs, rs, rfl, hfirst, hrest⟩ := stands_cons_iff.mp hparts
    exact ⟨qs, rs, rfl, hfirst, (List.cons.inj hkeys).2, hrest⟩
  · rintro ⟨qs, rs, rfl, hfirst, hkeys, hrest⟩
    exact ⟨congrArg (key :: ·) hkeys, stands_cons_iff.mpr ⟨qs, rs, rfl, hfirst, hrest⟩⟩

/-- **Induction.** Along entries that stand for others. -/
theorem StandsFor.cases_cons {k : Text} (h : StandsFor objects ((k, held) :: inner) entries ps) :
    ∃ value rest qs rs, entries = (k, value) :: rest ∧ ps = qs ++ rs
      ∧ Stands objects [held] [value] qs ∧ StandsFor objects inner rest rs := by
  cases entries with
  | nil => cases h.1
  | cons entry rest =>
    obtain ⟨k', value⟩ := entry
    obtain rfl : k = k' := (List.cons.inj h.1).1
    obtain ⟨qs, rs, rfl, hfirst, hrest⟩ := standsFor_cons_iff.mp h
    exact ⟨value, rest, qs, rs, rfl, rfl, hfirst, hrest⟩

theorem StandsFor.of_agree (h : StandsFor objects inner entries ps)
    (hsame : ∀ p ∈ ps, after[p]? = objects[p]?) : StandsFor after inner entries ps :=
  ⟨h.1, h.2.of_agree hsame⟩

/-- The entry under a key: the objects `own` are behind it, if it is there, and others behind the entries
before it and after it. They need not change if it does. -/
structure EntryAt (objects : List Object) (inner : Entries Held) (entries : Entries Value) (key : Text)
    (before own behind : List Nat) : Prop where
  get : inner.get? key = none ∧ entries.get? key = none
    ∨ ∃ held value, inner.get? key = some held ∧ entries.get? key = some value
      ∧ Stands objects [held] [value] own
  put : ∀ {after held value qs}, (∀ p ∈ before ++ behind, after[p]? = objects[p]?) →
    Stands after [held] [value] qs →
    StandsFor after (inner.put key held) (entries.put key value) (before ++ qs ++ behind)

theorem StandsFor.entryAt (h : StandsFor objects inner entries ps) (key : Text) :
    ∃ before own behind, ps = before ++ own ++ behind
      ∧ EntryAt objects inner entries key before own behind := by
  induction inner generalizing entries ps with
  | nil =>
    obtain ⟨hkeys, hparts⟩ := h
    obtain rfl : entries = [] := List.map_eq_nil_iff.mp hkeys.symm
    cases hparts
    refine ⟨[], [], [], rfl, .inl ⟨rfl, rfl⟩, fun {after held value qs} _ hnew => ?_⟩
    exact standsFor_cons_iff.mpr ⟨qs, [], rfl, hnew, standsFor_nil⟩
  | cons entry inner ih =>
    obtain ⟨k, first⟩ := entry
    obtain ⟨value, rest, qs, rs, rfl, rfl, hfirst, hrest⟩ := h.cases_cons
    by_cases hk : k = key
    · subst hk
      refine ⟨[], qs, rs, rfl, .inr ⟨first, value, if_pos rfl, if_pos rfl, hfirst⟩,
        fun {after held value' qs'} hsame hnew => ?_⟩
      rw [Entries.put, Entries.put, if_pos rfl, if_pos rfl]
      exact standsFor_cons_iff.mpr ⟨qs', rs, rfl, hnew, hrest.of_agree hsame⟩
    · obtain ⟨before, own, behind, rfl, hentry⟩ := ih hrest
      refine ⟨qs ++ before, own, behind, by simp, ?_, fun {after held value' qs'} hsame hnew => ?_⟩
      · rw [Entries.get?, Entries.get?, if_neg hk, if_neg hk]
        exact hentry.get
      · rw [List.append_assoc, List.forall_mem_append] at hsame
        rw [Entries.put, Entries.put, if_neg hk, if_neg hk]
        exact standsFor_cons_iff.mpr ⟨qs, before ++ qs' ++ behind, by simp,
          hfirst.of_agree hsame.1, hentry.put hsame.2 hnew⟩

/-- The entries that are left stand for those that are left. -/
theorem StandsFor.erase (h : StandsFor objects inner entries ps) (key : Text) :
    ∃ qs, qs.Sublist ps ∧ StandsFor objects (inner.erase key) (entries.erase key) qs := by
  induction inner generalizing entries ps with
  | nil =>
    obtain ⟨hkeys, -⟩ := h
    obtain rfl : entries = [] := List.map_eq_nil_iff.mp hkeys.symm
    exact ⟨[], List.nil_sublist _, standsFor_nil⟩
  | cons entry inner ih =>
    obtain ⟨k, first⟩ := entry
    obtain ⟨value, rest, qs, rs, rfl, rfl, hfirst, hrest⟩ := h.cases_cons
    obtain ⟨rs', hsub, hleft⟩ := ih hrest
    rw [Entries.erase_cons, Entries.erase_cons]
    by_cases hk : k = key
    · rw [if_pos hk, if_pos hk]
      exact ⟨rs', hsub.trans (List.sublist_append_right qs rs), hleft⟩
    · rw [if_neg hk, if_neg hk]
      exact ⟨qs ++ rs', hsub.append_left qs, standsFor_cons_iff.mpr ⟨qs, rs', rfl, hfirst, hleft⟩⟩

/-! ## A mapping -/

theorem stands_mapping_iff : Stands objects [.object n] [.mapping entries] ps ↔
    ∃ inner qs, ps = n :: qs ∧ objects[n]? = some (.mapping inner)
      ∧ StandsFor objects inner entries qs := by
  constructor
  · intro h
    cases h with
    | plain h _ => cases h
    | mapping h keys parts rest =>
      cases rest
      exact ⟨_, _, by simp, h, keys, parts⟩
  · rintro ⟨inner, qs, rfl, h, keys, parts⟩
    simpa using Stands.mapping h keys parts .nil

/-- What is held is a mapping just if it stands for one. -/
theorem Stands.mapping?_eq (h : Stands objects [held] [value] ps) :
    (∃ n entries, held = .object n ∧ value = .mapping entries
        ∧ mapping? objects (some held) = some n)
      ∨ (∀ entries, value ≠ .mapping entries) ∧ mapping? objects (some held) = none := by
  cases h with
  | plain h _ => cases held <;> cases h <;> exact .inr ⟨nofun, rfl⟩
  | mapping h => exact .inl ⟨_, _, rfl, rfl, by rw [mapping?, h]⟩
  | array h => exact .inr ⟨nofun, by rw [mapping?, h]⟩

/-- Under a key there is a mapping in both, or in neither. -/
theorem EntryAt.mapping? {before own behind : List Nat}
    (h : EntryAt objects inner entries key before own behind) :
    (∃ m below, inner.get? key = some (.object m) ∧ entries.get? key = some (.mapping below)
        ∧ Object.mapping? objects (inner.get? key) = some m
        ∧ Stands objects [.object m] [.mapping below] own)
      ∨ Object.mapping? objects (inner.get? key) = none
        ∧ ∀ below, entries.get? key ≠ some (.mapping below) := by
  rcases h.get with ⟨hheld, hvalue⟩ | ⟨held, value, hheld, hvalue, hstands⟩
  · rw [hheld, hvalue]
    exact .inr ⟨rfl, nofun⟩
  · rw [hheld, hvalue]
    rcases hstands.mapping?_eq with ⟨m, below, rfl, rfl, hm⟩ | ⟨hnot, hm⟩
    · exact .inl ⟨m, below, rfl, rfl, hm, hstands⟩
    · exact .inr ⟨hm, fun below heq => hnot below (Option.some.inj heq)⟩

theorem entriesAt_eq (h : objects[n]? = some (.mapping inner)) : entriesAt objects n = inner := by
  rw [entriesAt, h]

theorem sublist_own (n : Nat) (before own behind : List Nat) :
    own.Sublist (n :: (before ++ own ++ behind)) :=
  ((List.sublist_append_right before own).trans (List.sublist_append_left _ behind)).cons n

/-! ## Looking up -/

/-- **Looking up.** A path leads to something that stands for what it leads to in the values. -/
theorem Stands.find? {p : List Text} (h : Stands objects [.object n] [.mapping entries] ps) :
    find? objects p n = none ∧ Settings.find? p entries = none
      ∨ ∃ held value own, find? objects p n = some held ∧ Settings.find? p entries = some value
        ∧ Stands objects [held] [value] own ∧ own.Sublist ps := by
  induction p generalizing n entries ps with
  | nil => exact .inl ⟨rfl, rfl⟩
  | cons key keys ih =>
    obtain ⟨inner, qs, rfl, hinner, hparts⟩ := stands_mapping_iff.mp h
    obtain ⟨before, own, behind, rfl, hentry⟩ := hparts.entryAt key
    have hown := sublist_own n before own behind
    cases keys with
    | nil =>
      rw [Object.find?, Settings.find?, entriesAt_eq hinner]
      rcases hentry.get with ⟨hheld, hvalue⟩ | ⟨held, value, hheld, hvalue, hstands⟩
      · exact .inl ⟨hheld, hvalue⟩
      · exact .inr ⟨held, value, own, hheld, hvalue, hstands, hown⟩
    | cons next more =>
      simp only [Object.find?, Settings.find?, entriesAt_eq hinner]
      rcases hentry.mapping? with ⟨m, below, -, hvalue, hm, hstands⟩ | ⟨hm, hnot⟩
      · rw [hm, hvalue]
        rcases ih hstands with hnone | ⟨held, value, own', hheld, hvalue, hstands', hsub⟩
        · exact .inl hnone
        · exact .inr ⟨held, value, own', hheld, hvalue, hstands', hsub.trans hown⟩
      · rw [hm]
        refine .inl ⟨rfl, ?_⟩
        split
        · next below hbelow => exact absurd hbelow (hnot below)
        · rfl

/-! ## Writing -/

/-- What is written below a mapping: it stands for other entries, by objects that it stood by before, by
those of what was given, and by new ones, none of them twice. The other objects stay as they are. -/
structure Written (objects after : List Object) (n : Nat) (entries : Entries Value)
    (ps given : List Nat) : Prop where
  stands : ∃ qs, Stands after [.object n] [.mapping entries] qs ∧ qs.Nodup
    ∧ ∀ q ∈ qs, q ∈ ps ∨ q ∈ given ∨ objects.length ≤ q
  same : ∀ q < objects.length, q ∉ ps → after[q]? = objects[q]?
  length_le : objects.length ≤ after.length

/-- An entry of a mapping is replaced, and what stands behind it. -/
theorem nodup_replace {before own behind : List Nat} (h : (n :: (before ++ own ++ behind)).Nodup)
    (hqs : qs.Nodup) (hapart : ∀ q ∈ qs, q ∈ own ∨ q ∉ n :: (before ++ own ++ behind)) :
    (n :: (before ++ qs ++ behind)).Nodup := by
  simp only [List.nodup_cons, List.nodup_append, List.mem_append, List.mem_cons] at h hapart ⊢
  obtain ⟨hn, ⟨hbefore, -, hbo⟩, hbehind, hbb⟩ := h
  grind

theorem written_put {before own behind given : List Nat} {entries : Entries Value}
    (hnodup : (n :: (before ++ own ++ behind)).Nodup)
    (hlt : ∀ p ∈ n :: (before ++ own ++ behind), p < objects.length)
    (hapart : ∀ p ∈ n :: (before ++ own ++ behind), p ∉ given)
    (hput : StandsFor after (inner.put key held) (entries.put key value) (before ++ qs ++ behind))
    (hn : after[n]? = some (.mapping (inner.put key held))) (hqs : qs.Nodup)
    (hfrom : ∀ q ∈ qs, q ∈ own ∨ q ∈ given ∨ objects.length ≤ q)
    (hsame : ∀ q < objects.length, q ∉ n :: (before ++ own ++ behind) → after[q]? = objects[q]?)
    (hlength : objects.length ≤ after.length) :
    Written objects after n (entries.put key value) (n :: (before ++ own ++ behind)) given := by
  refine ⟨⟨n :: (before ++ qs ++ behind), stands_mapping_iff.mpr ⟨_, _, rfl, hn, hput⟩,
    nodup_replace hnodup hqs fun q hq => ?_, fun q hq => ?_⟩, hsame, hlength⟩
  · rcases hfrom q hq with hown | hgiven | hnew
    · exact .inl hown
    · exact .inr fun hmem => hapart q hmem hgiven
    · exact .inr fun hmem => absurd (hlt q hmem) (Nat.not_lt.mpr hnew)
  · simp only [List.mem_cons, List.mem_append] at hq ⊢
    rcases hq with hn' | (hbefore | hqs') | hbehind
    · exact .inl (.inl hn')
    · exact .inl (.inr (.inl (.inl hbefore)))
    · rcases hfrom q hqs' with hown | hrest
      · exact .inl (.inr (.inl (.inr hown)))
      · exact .inr hrest
    · exact .inl (.inr (.inr hbehind))

theorem innerEntries_of_ne_mapping {v? : Option Value} (h : ∀ entries, v? ≠ some (.mapping entries)) :
    Settings.innerEntries v? = [] := by
  unfold Settings.innerEntries
  split
  · next entries => exact absurd rfl (h entries)
  · rfl

theorem getElem?_putAt_of_ne {q : Nat} (hq : q ≠ n) (objects : List Object) (key : Text) (held : Held) :
    (putAt objects n key held)[q]? = objects[q]? :=
  List.getElem?_set_ne hq.symm

theorem getElem?_putAt_self (hinner : objects[n]? = some (.mapping inner)) (key : Text) (held : Held) :
    (putAt objects n key held)[n]? = some (.mapping (inner.put key held)) := by
  rw [putAt, entriesAt_eq hinner]
  exact List.getElem?_set_self (List.getElem?_eq_some_iff.mp hinner).1

theorem length_putAt (objects : List Object) (n : Nat) (key : Text) (held : Held) :
    (putAt objects n key held).length = objects.length := List.length_set

theorem length_putNew (objects : List Object) (n : Nat) (key : Text) :
    (putNew objects n key).length = objects.length + 1 := by
  rw [putNew, List.length_append, length_putAt, List.length_singleton]

theorem getElem?_putNew_of_ne {q : Nat} (hq : q < objects.length) (hne : q ≠ n) (key : Text) :
    (putNew objects n key)[q]? = objects[q]? := by
  rw [putNew, List.getElem?_append_left (by rwa [length_putAt]), getElem?_putAt_of_ne hne]

theorem getElem?_putNew_self (hinner : objects[n]? = some (.mapping inner)) (key : Text) :
    (putNew objects n key)[n]? = some (.mapping (inner.put key (.object objects.length))) := by
  have hn := (List.getElem?_eq_some_iff.mp hinner).1
  rw [putNew, List.getElem?_append_left (by rwa [length_putAt]), getElem?_putAt_self hinner]

theorem stands_putNew (objects : List Object) (n : Nat) (key : Text) :
    Stands (putNew objects n key) [.object objects.length] [.mapping []] [objects.length] := by
  refine stands_mapping_iff.mpr ⟨[], [], rfl, ?_, standsFor_nil⟩
  have hlength := length_putAt objects n key (.object objects.length)
  rw [putNew, List.getElem?_append_right hlength.le, hlength, Nat.sub_self]
  rfl

/-- What is written below a mapping that is held under a key is written below the one that holds it. The
mapping may be a new one. -/
theorem Written.entry {start : List Object} {m : Nat} {below : Entries Value}
    {before own behind ownBelow given : List Nat} (h : Written start after m below ownBelow given)
    (hentry : EntryAt objects inner entries key before own behind)
    (hnodup : (n :: (before ++ own ++ behind)).Nodup)
    (hlt : ∀ p ∈ n :: (before ++ own ++ behind), p < objects.length)
    (hapart : ∀ p ∈ n :: (before ++ own ++ behind), p ∉ given)
    (hstart : start[n]? = some (.mapping (inner.put key (.object m))))
    (hsame : ∀ q < objects.length, q ≠ n → start[q]? = objects[q]?)
    (hlength : objects.length ≤ start.length)
    (hbelow : ∀ q ∈ ownBelow, q ∈ own ∨ objects.length ≤ q) :
    Written objects after n (entries.put key (.mapping below)) (n :: (before ++ own ++ behind))
      given := by
  obtain ⟨⟨qs, hqs, hqsNodup, hfrom⟩, hkept, hle⟩ := h
  have hafter : ∀ q < objects.length, q ∉ own → after[q]? = start[q]? := fun q hq hown =>
    hkept q (hq.trans_le hlength) fun hmem =>
      (hbelow q hmem).elim hown fun hge => absurd hq (Nat.not_lt.mpr hge)
  have hothers : ∀ p ∈ before ++ behind, p ≠ n ∧ p ∉ own := by
    simp only [List.nodup_cons, List.nodup_append, List.mem_append] at hnodup ⊢
    grind
  have hn : n ∉ own := fun hmem => (List.nodup_cons.mp hnodup).1 (by simp [hmem])
  have hmem : ∀ p ∈ before ++ behind, p ∈ n :: (before ++ own ++ behind) := by
    simp only [List.mem_cons, List.mem_append]
    grind
  refine written_put hnodup hlt hapart (hentry.put (fun p hp => ?_) hqs)
    ((hafter n (hlt n List.mem_cons_self) hn).trans hstart) hqsNodup (fun q hq => ?_)
    (fun q hq hnot => ?_) (hlength.trans hle)
  · have hp' := hlt p (hmem p hp)
    exact (hafter p hp' (hothers p hp).2).trans (hsame p hp' (hothers p hp).1)
  · rcases hfrom q hq with hmem | hgiven | hnew
    · exact (hbelow q hmem).imp_right .inr
    · exact .inr (.inl hgiven)
    · exact .inr (.inr (hlength.trans hnew))
  · rw [List.mem_cons, List.mem_append, List.mem_append, not_or, not_or, not_or] at hnot
    exact (hafter q hq hnot.2.1.2).trans (hsame q hq hnot.1)

/-- What stands for a value is put under a key of a mapping. -/
theorem EntryAt.written_putAt {before own behind given : List Nat}
    (hentry : EntryAt objects inner entries key before own behind)
    (hnodup : (n :: (before ++ own ++ behind)).Nodup)
    (hlt : ∀ p ∈ n :: (before ++ own ++ behind), p < objects.length)
    (hapart : ∀ p ∈ n :: (before ++ own ++ behind), p ∉ given)
    (hinner : objects[n]? = some (.mapping inner)) (hheld : Stands objects [held] [value] given)
    (hgiven : given.Nodup) :
    Written objects (putAt objects n key held) n (entries.put key value)
      (n :: (before ++ own ++ behind)) given := by
  have hsame : ∀ q, q ≠ n → (putAt objects n key held)[q]? = objects[q]? :=
    fun q hq => getElem?_putAt_of_ne hq objects key held
  have hrest : ∀ q ∈ before ++ behind, q ≠ n := fun q hq heq =>
    (List.nodup_cons.mp hnodup).1 (by simp only [List.mem_append] at hq ⊢; grind)
  have hother : ∀ q ∈ given, q ≠ n := fun q hq heq => hapart n List.mem_cons_self (heq ▸ hq)
  exact written_put hnodup hlt hapart
    (hentry.put (fun q hq => hsame q (hrest q hq))
      (hheld.of_agree fun q hq => hsame q (hother q hq)))
    (getElem?_putAt_self hinner key held) hgiven (fun q hq => .inr (.inl hq))
    (fun q _ hq => hsame q fun heq => hq (heq ▸ List.mem_cons_self)) (length_putAt ..).ge

/-- **Writing.** What stands for a value is written where the value is written. -/
theorem Stands.write {p : List Text} {given : List Nat} (hp : p ≠ [])
    (h : Stands objects [.object n] [.mapping entries] ps) (hnodup : ps.Nodup)
    (hheld : Stands objects [held] [value] given) (hgiven : given.Nodup)
    (hapart : ∀ q ∈ ps, q ∉ given) :
    Written objects (write held p objects n) n (Settings.write p value entries) ps given := by
  induction p generalizing objects n entries ps with
  | nil => exact absurd rfl hp
  | cons key keys ih =>
    have hlt := h.lt_length
    obtain ⟨inner, qs, rfl, hinner, hparts⟩ := stands_mapping_iff.mp h
    obtain ⟨before, own, behind, rfl, hentry⟩ := hparts.entryAt key
    cases keys with
    | nil => exact hentry.written_putAt hnodup hlt hapart hinner hheld hgiven
    | cons next more =>
      have hmore : next :: more ≠ [] := List.cons_ne_nil _ _
      simp only [Object.write, Settings.write, entriesAt_eq hinner]
      rcases hentry.mapping? with ⟨m, below, hfound, hvalue, hm, hstands⟩ | ⟨hm, hnot⟩
      · -- the next key leads to a mapping, below which the rest is written
        have hsub := sublist_own n before own behind
        rw [hm, hvalue]
        refine (ih hmore hstands (hnodup.sublist hsub) hheld fun q hq => hapart q (hsub.subset hq)).entry
          hentry hnodup hlt hapart ?_ (fun _ _ _ => rfl) le_rfl fun q hq => .inl hq
        rw [hinner, Entries.put_of_get? hfound]
      · -- a new mapping takes the place of what is there
        rw [hm, innerEntries_of_ne_mapping hnot]
        have hother : ∀ q ∈ given, q ≠ n := fun q hq heq => hapart n List.mem_cons_self (heq ▸ hq)
        have hheld' : Stands (putNew objects n key) [held] [value] given :=
          hheld.of_agree fun q hq => getElem?_putNew_of_ne (hheld.lt_length q hq) (hother q hq) key
        have hfresh : ∀ q ∈ [objects.length], q ∉ given := by
          intro q hq hmem
          obtain rfl := List.mem_singleton.mp hq
          exact Nat.lt_irrefl _ (hheld.lt_length _ hmem)
        refine (ih hmore (stands_putNew objects n key) (List.nodup_singleton _) hheld' hfresh).entry
          hentry hnodup hlt hapart (getElem?_putNew_self hinner key)
          (fun q hq hne => getElem?_putNew_of_ne hq hne key) ?_
          fun q hq => .inr (List.mem_singleton.mp hq).ge
        rw [length_putNew]
        exact Nat.le_succ _

/-! ## Dropping -/

/-- **Dropping.** What stands for a value is dropped where the value is dropped. -/
theorem Stands.erase? {p : List Text} (h : Stands objects [.object n] [.mapping entries] ps)
    (hnodup : ps.Nodup) :
    Object.erase? objects p n = none ∧ Settings.erase? p entries = none
      ∨ ∃ after left, Object.erase? objects p n = some after ∧ Settings.erase? p entries = some left
        ∧ Written objects after n left ps [] := by
  induction p generalizing n entries ps with
  | nil => exact .inl ⟨rfl, rfl⟩
  | cons key keys ih =>
    have hlt := h.lt_length
    obtain ⟨inner, qs, rfl, hinner, hparts⟩ := stands_mapping_iff.mp h
    cases keys with
    | nil =>
      rw [Object.erase?, Settings.erase?, entriesAt_eq hinner]
      have hsome : (inner.get? key).isSome = (entries.get? key).isSome := by
        rw [Bool.eq_iff_iff, Entries.isSome_get?_iff, Entries.isSome_get?_iff, hparts.1]
      rw [hsome]
      split
      · obtain ⟨rs, hsub, hleft⟩ := hparts.erase key
        have hn : n ∉ rs := fun hmem => (List.nodup_cons.mp hnodup).1 (hsub.subset hmem)
        have hsame : ∀ q, q ≠ n →
            (objects.set n (.mapping (inner.erase key)))[q]? = objects[q]? :=
          fun q hq => List.getElem?_set_ne hq.symm
        refine .inr ⟨_, _, rfl, rfl, ⟨n :: rs, stands_mapping_iff.mpr ⟨inner.erase key, rs, rfl,
          List.getElem?_set_self (hlt n List.mem_cons_self), hleft.of_agree fun q hq => hsame q ?_⟩,
          hnodup.sublist (hsub.cons_cons n), fun q hq => .inl ((hsub.cons_cons n).subset hq)⟩,
          fun q _ hq => hsame q ?_, List.length_set.ge⟩
        · exact fun heq => hn (heq ▸ hq)
        · exact fun heq => hq (heq ▸ List.mem_cons_self)
      · exact .inl ⟨rfl, rfl⟩
    | cons next more =>
      obtain ⟨before, own, behind, rfl, hentry⟩ := hparts.entryAt key
      simp only [Object.erase?, Settings.erase?, entriesAt_eq hinner]
      rcases hentry.mapping? with ⟨m, below, hfound, hvalue, hm, hstands⟩ | ⟨hm, hnot⟩
      · rw [hm, hvalue]
        have hsub := sublist_own n before own behind
        rcases ih hstands (hnodup.sublist hsub) with
          ⟨hnone, hnone'⟩ | ⟨after, left, hafter, hleft, hwritten⟩
        · exact .inl ⟨hnone, Option.map_eq_none_iff.mpr hnone'⟩
        · refine .inr ⟨after, _, hafter, Option.map_eq_some_iff.mpr ⟨left, hleft, rfl⟩, ?_⟩
          refine hwritten.entry hentry hnodup hlt (fun _ _ => List.not_mem_nil) ?_
            (fun _ _ _ => rfl) le_rfl fun q hq => .inl hq
          rw [hinner, Entries.put_of_get? hfound]
      · rw [hm]
        refine .inl ⟨rfl, ?_⟩
        split
        · next below hbelow => exact absurd hbelow (hnot below)
        · rfl

end Object

end CssValues
