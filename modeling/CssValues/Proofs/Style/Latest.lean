import CssValues.Proofs.Declaration
import CssValues.Proofs.Style.History

/-!
# The last declaration of a property

The declarations of a style attribute are collected under their names as they are spelled there, and
the spellings are brought to lower case only then. So a property has the last value not of all its
declarations, but of those with the spelling that came up last (`Style.get?_read`). This is the last
value declared if the property is spelled in one way.
-/

namespace CssValues

namespace Entries

variable {α : Type}

/-- A key has the value of the last pair with that key. -/
theorem get?_ofPairs (pairs : List (Text × α)) (key : Text) :
    (ofPairs pairs).get? key = (pairs.reverse.find? fun p => p.1 = key).map Prod.snd := by
  induction pairs using List.reverseRecOn with
  | nil => rfl
  | append_singleton pairs pair ih =>
    rw [ofPairs, putAll_append, ← ofPairs, List.reverse_concat, List.find?_cons]
    by_cases h : pair.1 = key
    · subst h
      simp [putAll, get?_put_self]
    · simp [putAll, get?_put_of_ne (Ne.symm h), h, ih]

/-- The keys stand in the order in which they first came up. -/
theorem keys_ofPairs (pairs : List (Text × α)) :
    (ofPairs pairs).keys = (keys pairs).eraseDups := by
  induction pairs using List.reverseRecOn with
  | nil => rfl
  | append_singleton pairs pair ih =>
    obtain ⟨key, value⟩ := pair
    have hput : (ofPairs (pairs ++ [(key, value)])).keys = ((ofPairs pairs).put key value).keys := by
      rw [ofPairs, putAll_append]
      rfl
    have hsingle : keys [(key, value)] = [key] := rfl
    rw [hput, keys_put, ih, keys_append, hsingle, List.eraseDups_append]
    by_cases h : key ∈ keys pairs
    · simp [List.removeAll, h]
    · simp [List.removeAll, h]
      rfl

/-- Of entries with distinct keys, the last whose key satisfies `f` is found by its key. -/
theorem find?_reverse {entries : Entries α} (h : entries.keys.Nodup) (f : Text → Bool) :
    (entries.reverse.find? fun p => f p.1).map Prod.snd
      = (entries.keys.reverse.find? f).bind fun key => entries.get? key := by
  induction entries with
  | nil => rfl
  | cons entry rest ih =>
    obtain ⟨k, v⟩ := entry
    obtain ⟨hk, hrest⟩ := List.nodup_cons.mp h
    rw [keys_cons, List.reverse_cons, List.reverse_cons, List.find?_append, List.find?_append,
      Option.map_or, ih hrest]
    cases hfind : (keys rest).reverse.find? f with
    | none =>
      by_cases hf : f k = true <;> simp [hf, get?]
    | some key =>
      have hkey : key ∈ keys rest := List.mem_reverse.mp (List.mem_of_find?_eq_some hfind)
      have hne : k ≠ key := fun heq => hk (heq ▸ hkey)
      obtain ⟨w, hw⟩ := Option.isSome_iff_exists.mp (isSome_get?_iff.mpr hkey)
      simp [get?, hne, hw]

end Entries

namespace Style

/-! ## Declarations in order -/

/-- The names and values that items declare, in order; blank values are left out. -/
def declared (items : List DeclarationItem) : List (Text × Text) :=
  items.filterMap fun
    | .declaration d =>
      let value := (Component.listCss d.value).trim
      if value.isEmpty then none else some (d.name, value)
    | _ => none

/-- The last declaration of a property, however its name is spelled. -/
def lastDeclared? (pairs : List (Text × Text)) (name : Text) : Option (Text × Text) :=
  pairs.reverse.find? fun p => propertyName p.1 = name

/-- The last value under a name spelled in exactly this way. -/
def lastSpelled? (pairs : List (Text × Text)) (spelling : Text) : Option Text :=
  (pairs.reverse.find? fun p => p.1 = spelling).map Prod.snd

/-- Of the spellings of a property, the one that came up last. -/
def newestSpelling? (pairs : List (Text × Text)) (name : Text) : Option Text :=
  (Entries.keys pairs).eraseDups.reverse.find? fun spelling => propertyName spelling = name

section

variable {pairs : List (Text × Text)} {name : Text}

theorem filterMap_itemPair (items : List DeclarationItem) :
    items.filterMap itemPair = (declared items).map fun p => (p.1, some p.2) := by
  rw [declared, List.map_filterMap]
  refine List.filterMap_congr fun item _ => ?_
  cases item with
  | declaration d => simp only [itemPair]; split <;> rfl
  | rule => rfl
  | malformed => rfl

/-- What items declare was declared by one of them, with a value that is not blank. -/
theorem exists_declaration {items : List DeclarationItem} {p : Text × Text} (h : p ∈ declared items) :
    ∃ d, .declaration d ∈ items ∧ p = (d.name, (Component.listCss d.value).trim) ∧ p.2 ≠ [] := by
  obtain ⟨item, hitem, hp⟩ := List.mem_filterMap.mp h
  cases item with
  | declaration d =>
    dsimp only at hp
    split at hp
    · cases hp
    · next hne =>
      cases hp
      exact ⟨d, hitem, rfl, by simpa using hne⟩
  | rule => cases hp
  | malformed => cases hp

/-- What items declare are trimmed values that are not empty. -/
theorem declared_value {items : List DeclarationItem} {p : Text × Text} (h : p ∈ declared items) :
    p.2 ≠ [] ∧ p.2.trim = p.2 := by
  obtain ⟨d, -, rfl, hne⟩ := exists_declaration h
  exact ⟨hne, Text.trim_trim⟩

/-- A property has the value of the last of its entries. -/
theorem get?_normalize {entries : Entries Text} (hvalue : ∀ p ∈ entries, p.2 ≠ [] ∧ p.2.trim = p.2)
    (hname : name ≠ []) : (normalize (entries.mapValues some)).properties.get? name
      = (entries.reverse.find? fun p => propertyName p.1 = name).map Prod.snd := by
  have hreplay := properties_ofEntries (entries.mapValues some)
  rw [ofEntries] at hreplay
  rw [hreplay, get?_replay _ hname]
  clear hreplay
  induction entries using List.reverseRecOn with
  | nil => rfl
  | append_singleton entries p ih =>
    obtain ⟨hne, htrim⟩ := hvalue p (List.mem_append_right _ (List.mem_singleton_self p))
    have hkept : Text.isBlankText p.2 = false := by
      rw [isBlankText_of_trim htrim]
      exact decide_eq_false hne
    have ih := ih fun q hq => hvalue q (List.mem_append_left _ hq)
    rw [Entries.mapValues, List.map_append, List.filterMap_append, ← Entries.mapValues,
      List.reverse_concat, List.find?_cons, List.map_singleton]
    cases hblank : Text.isBlankText p.1 with
    | true =>
      -- a blank name is no property name, least of all `name`
      have hempty : propertyName p.1 = [] := by
        rw [propertyName, Text.lower_eq_nil_iff, Text.trim_eq_nil_iff, hblank]
      simp [startEvent?, hblank, ih, hempty, Ne.symm hname]
    | false =>
      have hevent : [(p.1, some p.2)].filterMap startEvent? = [.write (propertyName p.1) p.2] := by
        simp [startEvent?, hblank, hkept, htrim]
      rw [hevent, lastValue?_append]
      by_cases h : propertyName p.1 = name <;> simp [Event.name, Event.value?, h, ih]

theorem get?_normalize_ofPairs (hvalue : ∀ p ∈ pairs, p.2 ≠ [] ∧ p.2.trim = p.2)
    (hname : name ≠ []) :
    (normalize (Entries.ofPairs (pairs.map fun p => (p.1, some p.2)))).properties.get? name
      = (newestSpelling? pairs name).bind (lastSpelled? pairs) := by
  have hentries : Entries.ofPairs (pairs.map fun p => (p.1, some p.2))
      = (Entries.ofPairs pairs).mapValues some :=
    (Entries.mapValues_putAll some [] pairs).symm
  have hvalues : ∀ p ∈ Entries.ofPairs pairs, p.2 ≠ [] ∧ p.2.trim = p.2 := fun p hp =>
    (Entries.mem_putAll hp).elim (hvalue p) nofun
  rw [hentries, get?_normalize hvalues hname,
    Entries.find?_reverse (Entries.nodup_keys_ofPairs pairs) fun k => propertyName k = name,
    Entries.keys_ofPairs, newestSpelling?]
  exact congrArg _ (funext (Entries.get?_ofPairs pairs))

theorem lastDeclared?_spec {p : Text × Text} (h : lastDeclared? pairs name = some p) :
    p ∈ pairs ∧ propertyName p.1 = name := by
  rw [lastDeclared?] at h
  have hname := List.find?_some h
  exact ⟨List.mem_reverse.mp (List.mem_of_find?_eq_some h), of_decide_eq_true hname⟩

theorem newestSpelling?_spec {spelling : Text} (h : newestSpelling? pairs name = some spelling) :
    propertyName spelling = name ∧ ∃ p ∈ pairs, p.1 = spelling := by
  rw [newestSpelling?] at h
  have hname := List.find?_some h
  have hmem := List.mem_reverse.mp (List.mem_of_find?_eq_some h)
  exact ⟨of_decide_eq_true hname, List.mem_map.mp (List.mem_eraseDups.mp hmem)⟩

/-- A property that has been declared has a spelling that came up last, and a value under it. -/
theorem isSome_newest (h : (lastDeclared? pairs name).isSome) :
    ((newestSpelling? pairs name).bind (lastSpelled? pairs)).isSome := by
  obtain ⟨p, hp⟩ := Option.isSome_iff_exists.mp h
  obtain ⟨hmem, hname⟩ := lastDeclared?_spec hp
  have hspelling : (newestSpelling? pairs name).isSome := by
    rw [newestSpelling?, List.find?_isSome]
    exact ⟨p.1, List.mem_reverse.mpr (List.mem_eraseDups.mpr (List.mem_map_of_mem hmem)),
      decide_eq_true hname⟩
  obtain ⟨spelling, hspelling⟩ := Option.isSome_iff_exists.mp hspelling
  obtain ⟨q, hq, rfl⟩ := (newestSpelling?_spec hspelling).2
  rw [hspelling, Option.bind_some, lastSpelled?, Option.isSome_map, List.find?_isSome]
  exact ⟨q, List.mem_reverse.mpr hq, decide_eq_true rfl⟩

/-- The last declaration of a property is the last with its spelling. -/
theorem lastSpelled?_of_lastDeclared? {p : Text × Text} (h : lastDeclared? pairs name = some p) :
    lastSpelled? pairs p.1 = some p.2 := by
  rw [lastDeclared?] at h
  obtain ⟨hname, later, earlier, heq, hlater⟩ := List.find?_eq_some_iff_append.mp h
  rw [lastSpelled?, heq, List.find?_append, List.find?_eq_none.mpr, Option.none_or,
    List.find?_cons_of_pos (by simp), Option.map_some]
  intro q hq hspelled
  have := hlater q hq
  rw [of_decide_eq_true hspelled, hname] at this
  cases this

/-- Without a declaration of the property there is no spelling of it. -/
theorem newestSpelling?_eq_none (h : lastDeclared? pairs name = none) :
    newestSpelling? pairs name = none := by
  cases hspelling : newestSpelling? pairs name with
  | none => rfl
  | some spelling =>
    obtain ⟨hname, p, hp, rfl⟩ := newestSpelling?_spec hspelling
    exact absurd (decide_eq_true hname) (List.find?_eq_none.mp h p (List.mem_reverse.mpr hp))

end

/-! ## Blank attributes -/

/-- Blank text declares nothing. -/
theorem declared_of_isBlankText {t : Text} {items : List DeclarationItem}
    (hblank : Text.isBlankText t = true) (h : DeclarationItem.ofText t = .ok items) :
    declared items = [] := by
  have hplain : ∀ c ∈ Token.normalize t, isPlain c = true := fun c hc =>
    isPlain_of_isBlank (Token.isBlank_normalize (List.all_eq_true.mp hblank) c hc)
  obtain ⟨components, hreads, -⟩ := Component.exists_reads (.plain hplain)
  have hitems : items = DeclarationItem.ofComponents components := by
    rw [← hreads.ofTokens_eq]
    exact (DeclarationItem.ofText_eq_ok_iff.mp h).2
  refine List.filterMap_eq_nil_iff.mpr fun item hitem => ?_
  cases item with
  | declaration d =>
    rw [hitems] at hitem
    obtain ⟨c, hc, hcolon⟩ := DeclarationItem.isLiteral_of_mem_ofComponents hitem
    rw [(hreads.top c hc).isLiteral_eq_false (by decide)] at hcolon
    cases hcolon
  | rule => rfl
  | malformed => rfl

/-! ## Reading -/

/-- A style attribute is read into what its items declare. -/
theorem read_of_ofText {t : Text} {items : List DeclarationItem}
    (h : DeclarationItem.ofText t = .ok items) : (read t).result
      = .ok (normalize (Entries.ofPairs ((declared items).map fun p => (p.1, some p.2)))) := by
  unfold read
  split
  · next hblank => rw [declared_of_isBlankText hblank h]; rfl
  · rw [h, ← filterMap_itemPair]

/-- A style that was read is empty, or it is what the items of the text declare. -/
theorem eq_of_read {t : Text} {s : Style} (h : (read t).result = .ok s) :
    s = empty ∨ ∃ items, DeclarationItem.ofText t = .ok items
      ∧ s = normalize (Entries.ofPairs ((declared items).map fun p => (p.1, some p.2))) := by
  unfold read at h
  split at h
  · cases h
    exact .inl rfl
  · split at h
    · cases h
    · next items hitems =>
      cases h
      exact .inr ⟨items, hitems, by rw [filterMap_itemPair]⟩

/-- **Later declarations win among one spelling.** A property of a style attribute has the last
value of the spelling of it that came up last. It has a value if it is declared at all, and this is
the last value declared if the last declaration has that spelling or repeats its value, so
certainly if the property has one spelling. No name is empty. -/
theorem get?_read {t : Text} {items : List DeclarationItem}
    (h : DeclarationItem.ofText t = .ok items) :
    ∃ s, (read t).result = .ok s ∧ s.get? [] = none ∧ ∀ name, name ≠ [] →
      s.get? name = (newestSpelling? (declared items) (Text.lower name)).bind
        (lastSpelled? (declared items))
      ∧ (s.get? name = none ↔ lastDeclared? (declared items) (Text.lower name) = none)
      ∧ (∀ p, lastDeclared? (declared items) (Text.lower name) = some p →
        (s.get? name = some p.2 ↔
          ∃ spelling, newestSpelling? (declared items) (Text.lower name) = some spelling
            ∧ (spelling = p.1 ∨ lastSpelled? (declared items) spelling = some p.2)))
      ∧ ((∀ p ∈ declared items, ∀ q ∈ declared items, propertyName p.1 = Text.lower name →
          propertyName q.1 = Text.lower name → p.1 = q.1) →
        s.get? name = (lastDeclared? (declared items) (Text.lower name)).map Prod.snd) := by
  set pairs := declared items with hpairs
  have hvalue : ∀ p ∈ pairs, p.2 ≠ [] ∧ p.2.trim = p.2 := fun p hp => declared_value hp
  refine ⟨_, read_of_ofText h, ?_, fun name hname => ?_⟩
  · rw [get?, Entries.get?_eq_none_iff]
    exact fun hmem => ((isTidy_normalize _).name _ hmem).1 rfl
  have hlower : Text.lower name ≠ [] := mt Text.lower_eq_nil_iff.mp hname
  rw [get?, get?_normalize_ofPairs hvalue hlower]
  refine ⟨rfl, ⟨fun hnone => ?_, fun hnone => ?_⟩, fun p hp => ⟨fun hsome => ?_, ?_⟩, fun hone => ?_⟩
  · by_contra hlast
    have := isSome_newest (Option.isSome_iff_ne_none.mpr hlast)
    rw [hnone] at this
    cases this
  · rw [newestSpelling?_eq_none hnone, Option.bind_none]
  · obtain ⟨spelling, hspelling, hlast⟩ := Option.bind_eq_some_iff.mp hsome
    exact ⟨spelling, hspelling, .inr hlast⟩
  · rintro ⟨spelling, hspelling, rfl | hlast⟩
    · rw [hspelling, Option.bind_some, lastSpelled?_of_lastDeclared? hp]
    · rw [hspelling, Option.bind_some, hlast]
  · cases hp : lastDeclared? pairs (Text.lower name) with
    | none => rw [newestSpelling?_eq_none hp]; rfl
    | some p =>
      obtain ⟨value, hsome⟩ := Option.isSome_iff_exists.mp (isSome_newest (by rw [hp]; rfl))
      obtain ⟨spelling, hspelling, -⟩ := Option.bind_eq_some_iff.mp hsome
      obtain ⟨hnamed, q, hq, rfl⟩ := newestSpelling?_spec hspelling
      obtain ⟨hlast, hname⟩ := lastDeclared?_spec hp
      have hsame : q.1 = p.1 := hone q hq p hlast hnamed hname
      rw [hspelling, Option.bind_some, hsame, lastSpelled?_of_lastDeclared? hp, Option.map_some]

/-- A width that is spelled in one way, with a rule and a name without a value in between. -/
theorem get?_read_one_spelling :
    ∃ s, (read "WIDTH: 1; @media; height; width: 2; width: ".toList).result = .ok s
      ∧ s.get? "Width".toList = some "2".toList ∧ s.get? "height".toList = none := by
  have hok : (DeclarationItem.ofText
      "WIDTH: 1; @media; height; width: 2; width: ".toList).toOption.map declared
        = some [("width".toList, "1".toList), ("width".toList, "2".toList)] := by decide +kernel
  cases hitems : DeclarationItem.ofText "WIDTH: 1; @media; height; width: 2; width: ".toList with
  | error f =>
    rw [hitems] at hok
    cases hok
  | ok items =>
    rw [hitems] at hok
    have hdeclared := Option.some.inj hok
    obtain ⟨s, hs, -, hget⟩ := get?_read hitems
    rw [hdeclared] at hget
    refine ⟨s, hs, ?_, ?_⟩
    · rw [(hget "Width".toList (by decide)).2.2.2 (by decide +kernel)]
      decide +kernel
    · rw [(hget "height".toList (by decide)).2.1]
      decide +kernel

/-- Not every later declaration wins: the sign for kelvin has `k` for its small letter, and its
value stands behind those of `k`. -/
theorem get?_read_two_spellings :
    ¬∀ (t : Text) (items : List DeclarationItem) (s : Style) (name : Text),
      DeclarationItem.ofText t = .ok items → (read t).result = .ok s → name ≠ [] →
        s.get? name = (lastDeclared? (declared items) (Text.lower name)).map Prod.snd := by
  intro h
  let t := "k: 1; \u212a: 2; k: 3".toList
  have hget : ((read t).result.toOption.bind fun s => s.get? ['k']) = some ['2'] := by
    decide +kernel
  have hlast : ((DeclarationItem.ofText t).toOption.bind fun items =>
      lastDeclared? (declared items) ['k']) = some (['k'], ['3']) := by decide +kernel
  cases hread : (read t).result with
  | error f =>
    rw [hread] at hget
    cases hget
  | ok s =>
    cases hitems : DeclarationItem.ofText t with
    | error f =>
      rw [hitems] at hlast
      cases hlast
    | ok items =>
      have hclaim := h t items s ['k'] hitems hread (by decide)
      have hlower : Text.lower ['k'] = ['k'] := by decide +kernel
      rw [hread] at hget
      rw [hitems] at hlast
      simp only [Except.toOption, Option.bind_some] at hget hlast
      rw [hget, hlower, hlast] at hclaim
      exact absurd hclaim (by decide)

end Style

end CssValues
