import CssValues.Proofs.Entries
import CssValues.Proofs.Settings
import CssValues.Settings.Loading

/-!
# Settings laid over others

What a path leads to in settings with others laid over them depends on where its walk through the
upper ones ends (`Value.at?_overlay`): what is there counts, and what lies below shows through where a
mapping does not have the next key. Laying the same settings over twice comes to doing it once
(`Settings.overlay_overlay`). What is read from a file is laid over the defaults, whatever was in force
before (`Settings.merges_by_path`).
-/

namespace CssValues

/-! ## Walks -/

/-- Where a walk along a path ends. -/
inductive Walk where
  /-- At the end of the path, with what is there. -/
  | found (v : Value)
  /-- At a mapping that does not have the next key. -/
  | missing
  /-- In front of a key, at a value that is no mapping. -/
  | blocked

/-- What a walk found at the end of its path. -/
def Walk.found? : Walk → Option Value
  | .found v => some v
  | _ => none

namespace Value

/-- The walk along a path from a value. -/
def walk : Value → List Text → Walk
  | v, [] => .found v
  | .mapping entries, key :: keys =>
    match Entries.get? key entries with
    | some v => v.walk keys
    | none => .missing
  | _, _ :: _ => .blocked

theorem walk_nil (v : Value) : v.walk [] = .found v := by
  cases v <;> rfl

theorem at?_eq_found? (v : Value) (p : List Text) : v.at? p = (v.walk p).found? := by
  induction p generalizing v with
  | nil => rw [at?_nil, walk_nil, Walk.found?]
  | cons key keys ih =>
    cases v with
    | mapping entries =>
      rw [at?_mapping, walk]
      cases Entries.get? key entries with
      | none => rfl
      | some w => exact ih w
    | _ => rfl

/-- **Induction.** What holds of every value that is no mapping, and of a mapping if it holds of the
values in it, holds of every value. -/
@[elab_as_elim]
theorem byEntries {motive : Value → Prop}
    (other : ∀ v, (∀ entries, v ≠ .mapping entries) → motive v)
    (mapping : ∀ entries, (∀ entry ∈ entries, motive entry.2) → motive (.mapping entries)) :
    ∀ v, motive v
  | .mapping entries => mapping entries fun entry hentry =>
    have hlt : sizeOf entry.2 < sizeOf (Value.mapping entries) := by
      have hmem := List.sizeOf_lt_of_mem hentry
      have hpair : sizeOf entry = 1 + sizeOf entry.1 + sizeOf entry.2 := rfl
      rw [Value.mapping.sizeOf_spec]
      omega
    byEntries other mapping entry.2
  | .null => other _ nofun
  | .bool _ => other _ nofun
  | .number _ => other _ nofun
  | .text _ => other _ nofun
  | .array _ => other _ nofun
termination_by v => sizeOf v
decreasing_by exact hlt

/-! ## Distinct keys -/

/-- In every mapping that a path leads to, the keys are distinct. -/
def IsKeyed (v : Value) : Prop :=
  ∀ p entries, v.at? p = some (.mapping entries) → (Entries.keys entries).Nodup

variable {v w : Value} {entries : Entries Value} {key : Text}

theorem IsKeyed.at? (h : v.IsKeyed) {p : List Text} (hw : v.at? p = some w) : w.IsKeyed := by
  intro q inner hinner
  refine h (p ++ q) inner ?_
  rw [at?_append, hw, Option.bind_some, hinner]

theorem IsKeyed.nodup (h : (mapping entries).IsKeyed) : entries.keys.Nodup :=
  h [] entries (at?_nil _)

theorem IsKeyed.get? (h : (mapping entries).IsKeyed) (hw : entries.get? key = some w) :
    w.IsKeyed := by
  refine h.at? (p := [key]) ?_
  rw [at?_mapping, hw, Option.bind_some, at?_nil]

theorem isKeyed_mapping (hnodup : entries.keys.Nodup) (h : ∀ entry ∈ entries, entry.2.IsKeyed) :
    (mapping entries).IsKeyed := by
  intro p inner hinner
  cases p with
  | nil =>
    rw [at?_nil] at hinner
    cases hinner
    exact hnodup
  | cons key keys =>
    rw [at?_mapping] at hinner
    obtain ⟨w, hw, hrest⟩ := Option.bind_eq_some_iff.mp hinner
    exact h _ (Entries.mem_of_get? hw) keys inner hrest

/-- A value that is no mapping leads to none. -/
theorem isKeyed_of_ne_mapping (h : ∀ entries, v ≠ .mapping entries) : v.IsKeyed := by
  intro p inner hinner
  cases p with
  | nil =>
    rw [at?_nil] at hinner
    exact absurd (Option.some.inj hinner) (h inner)
  | cons key keys =>
    cases v with
    | mapping entries => exact absurd rfl (h entries)
    | _ => cases hinner

end Value

/-! ## One mapping over another -/

namespace Settings

open Value (at?_nil at?_mapping at?_eq_found? walk_nil IsKeyed)

variable {below : Option Value} {base upper : Entries Value} {v : Value}

theorem overlay_none (v : Value) : overlay none v = v := by
  cases v <;> rfl

theorem overlay_of_ne_mapping (h : ∀ entries, v ≠ .mapping entries) (below : Option Value) :
    overlay below v = v := by
  cases v with
  | mapping entries => exact absurd rfl (h entries)
  | _ => rfl

/-- **Step.** Each key of the upper entries is laid over the lower entry under it, and the other keys
stay. -/
theorem get?_mergeInto (hnodup : upper.keys.Nodup) (base : Entries Value) (key : Text) :
    (mergeInto base upper).get? key =
      match upper.get? key with
      | some v => some (overlay (base.get? key) v)
      | none => base.get? key := by
  induction upper generalizing base with
  | nil => rfl
  | cons entry rest ih =>
    obtain ⟨k, v⟩ := entry
    obtain ⟨hk, hrest⟩ := List.nodup_cons.mp hnodup
    rw [mergeInto, ih hrest, Entries.get?]
    by_cases heq : k = key
    · subst heq
      rw [if_pos rfl, Entries.get?_eq_none_iff.mpr hk, Entries.get?_put_self]
    · rw [if_neg heq, Entries.get?_put_of_ne (Ne.symm heq)]

/-- The same where what lies below need not be a mapping. -/
theorem get?_overlay (hnodup : upper.keys.Nodup) (below : Option Value) (key : Text) :
    (innerEntries (some (overlay below (.mapping upper)))).get? key =
      match upper.get? key with
      | some v => some (overlay ((innerEntries below).get? key) v)
      | none => (innerEntries below).get? key := by
  have hbare : upper.get? key = match upper.get? key with
      | some v => some (overlay ((innerEntries none).get? key) v)
      | none => (innerEntries none).get? key := by
    cases upper.get? key with
    | none => rfl
    | some v => exact congrArg some (overlay_none v).symm
  cases below with
  | none => exact hbare
  | some w =>
    cases w with
    | mapping base => exact get?_mergeInto hnodup base key
    | _ => exact hbare

/-- **Paths through layers.** What is found in the upper value is laid over what the path leads to
below; a key that is missing in it is looked up below, and a value in the way hides what is below. -/
theorem at?_overlay (hv : v.IsKeyed) (below : Option Value) (p : List Text) :
    (overlay below v).at? p =
      match v.walk p with
      | .found w => some (overlay (below.bind fun u => u.at? p) w)
      | .missing => below.bind fun u => u.at? p
      | .blocked => none := by
  induction p generalizing v below with
  | nil =>
    have hself : (below.bind fun u => u.at? []) = below := by
      cases below with
      | none => rfl
      | some u => exact at?_nil u
    rw [walk_nil, at?_nil]
    exact congrArg (fun u => some (overlay u v)) hself.symm
  | cons key keys ih =>
    cases v with
    | mapping upper =>
      have hinner := Value.at?_innerEntries (some (overlay below (.mapping upper))) key keys
      rw [Option.bind_some] at hinner
      rw [← hinner, at?_mapping, get?_overlay hv.nodup, Value.walk,
        ← Value.at?_innerEntries below key keys, at?_mapping]
      cases hget : Entries.get? key upper with
      | none => rfl
      | some w => exact ih (hv.get? hget) _
    | _ => rfl

/-! ## The same over again -/

/-- Entries of which each is in force already change nothing. -/
theorem mergeInto_eq_self (h : ∀ entry ∈ upper, ∃ w, base.get? entry.1 = some w
    ∧ overlay (some w) entry.2 = w) : mergeInto base upper = base := by
  induction upper with
  | nil => rfl
  | cons entry rest ih =>
    obtain ⟨w, hget, hover⟩ := h entry List.mem_cons_self
    have hput : base.put entry.1 (overlay (base.get? entry.1) entry.2) = base := by
      rw [hget, hover]
      exact Entries.put_of_get? hget
    rw [mergeInto, hput]
    exact ih fun other hother => h other (List.mem_cons_of_mem _ hother)

/-- **Idempotence.** What has been laid over already changes nothing. -/
theorem overlay_overlay (hv : v.IsKeyed) (below : Option Value) :
    overlay (some (overlay below v)) v = overlay below v := by
  induction v using Value.byEntries generalizing below with
  | other v h => rw [overlay_of_ne_mapping h, overlay_of_ne_mapping h]
  | mapping upper ih =>
    obtain ⟨base, hbase⟩ : ∃ base, overlay below (.mapping upper) = .mapping base := by
      unfold overlay
      split <;> exact ⟨_, rfl⟩
    have hget := get?_overlay hv.nodup below
    rw [hbase] at hget ⊢
    refine congrArg Value.mapping (mergeInto_eq_self fun entry hentry => ?_)
    have hupper := Entries.get?_of_mem hv.nodup hentry
    have hlower := hget entry.1
    rw [hupper] at hlower
    exact ⟨_, hlower, ih entry hentry (hv.get? hupper) _⟩

end Settings

/-! ## What files hold -/

namespace Json

theorem isKeyed_ofPairs {pairs : List (Text × Value)} (h : ∀ pair ∈ pairs, pair.2.IsKeyed) :
    (Value.mapping (Entries.ofPairs pairs)).IsKeyed := by
  refine Value.isKeyed_mapping (Entries.nodup_keys_ofPairs pairs) fun entry hentry => ?_
  rcases Entries.mem_putAll hentry with hpair | hnil
  · exact h entry hpair
  · cases hnil

/-- The words and numbers of JSON are no mappings. -/
theorem isKeyed_readWord? {t rest : Text} {v : Value} (h : readWord? t = some (v, rest)) :
    v.IsKeyed := by
  refine Value.isKeyed_of_ne_mapping ?_
  rintro entries rfl
  obtain ⟨⟨word, value⟩, hmem, hword⟩ := List.exists_of_findSome?_eq_some h
  obtain ⟨more, -, heq⟩ := Option.map_eq_some_iff.mp hword
  cases heq
  simp at hmem

section

variable {fuel : Nat} {t rest : Text}

theorem isKeyed_readValue?_succ {v : Value}
    (hmembers : ∀ t members rest, readMembers? fuel t = some (members, rest) →
      ∀ member ∈ members, member.2.IsKeyed)
    (h : readValue? (fuel + 1) t = some (v, rest)) : v.IsKeyed := by
  unfold readValue? at h
  split at h
  · -- a string
    obtain ⟨found, -, heq⟩ := Option.map_eq_some_iff.mp h
    cases heq
    exact Value.isKeyed_of_ne_mapping nofun
  · -- a list
    split at h
    · cases h
      exact Value.isKeyed_of_ne_mapping nofun
    · obtain ⟨found, -, heq⟩ := Option.map_eq_some_iff.mp h
      cases heq
      exact Value.isKeyed_of_ne_mapping nofun
  · split at h
    · -- a mapping, which may be empty
      split at h
      · split at h
        · cases h
          exact isKeyed_ofPairs (List.forall_mem_nil _)
        · obtain ⟨⟨members, more⟩, hfound, heq⟩ := Option.map_eq_some_iff.mp h
          cases heq
          exact isKeyed_ofPairs (hmembers _ _ _ hfound)
      · cases h
    · rcases Option.or_eq_some_iff.mp (Option.orElse_eq_or ▸ h) with hword | ⟨-, hnumber⟩
      · exact isKeyed_readWord? hword
      · obtain ⟨found, -, heq⟩ := Option.map_eq_some_iff.mp hnumber
        cases heq
        exact Value.isKeyed_of_ne_mapping nofun
  · cases h

theorem isKeyed_readMembers?_succ {members : List (Text × Value)}
    (hvalue : ∀ t v rest, readValue? fuel t = some (v, rest) → v.IsKeyed)
    (hmembers : ∀ t members rest, readMembers? fuel t = some (members, rest) →
      ∀ member ∈ members, member.2.IsKeyed)
    (h : readMembers? (fuel + 1) t = some (members, rest)) :
    ∀ member ∈ members, member.2.IsKeyed := by
  unfold readMembers? at h
  split at h
  · split at h
    · cases h
    split at h
    · split at h
      · cases h
      next value rest hread =>
      have hfirst : value.IsKeyed := hvalue _ _ _ hread
      split at h
      · obtain ⟨⟨others, more⟩, hothers, heq⟩ := Option.map_eq_some_iff.mp h
        cases heq
        intro member hmember
        rcases List.mem_cons.mp hmember with rfl | hmember
        · exact hfirst
        · exact hmembers _ _ _ hothers member hmember
      · split at h
        · cases h
          intro member hmember
          obtain rfl := List.mem_singleton.mp hmember
          exact hfirst
        · cases h
      · cases h
    · cases h
  · cases h

end

theorem isKeyed_of_fuel (fuel : Nat) :
    (∀ t v rest, readValue? fuel t = some (v, rest) → v.IsKeyed)
    ∧ ∀ t members rest, readMembers? fuel t = some (members, rest) →
      ∀ member ∈ members, member.2.IsKeyed := by
  induction fuel with
  | zero => exact ⟨nofun, nofun⟩
  | succ fuel ih =>
    obtain ⟨hvalue, hmembers⟩ := ih
    exact ⟨fun t v rest h => isKeyed_readValue?_succ hmembers h,
      fun t members rest h => isKeyed_readMembers?_succ hvalue hmembers h⟩

/-- The mappings that are read have distinct keys, at every depth. -/
theorem isKeyed_of_read? {t : Text} {v : Value} (h : read? t = some v) : v.IsKeyed := by
  unfold read? at h
  split at h
  · next found rest hfound =>
    split at h
    · cases h
      exact (isKeyed_of_fuel _).1 _ _ _ hfound
    · cases h
  · cases h

end Json

/-- The mapping that a file holds as JSON, if it can be read and holds one. -/
def SettingsFile.mapping? : SettingsFile → Option (Entries Value)
  | .text t =>
    match Json.read? t with
    | some (.mapping entries) => some entries
    | _ => none
  | _ => none

theorem SettingsFile.isKeyed_of_mapping? {file : SettingsFile} {entries : Entries Value}
    (h : file.mapping? = some entries) : (Value.mapping entries).IsKeyed := by
  unfold mapping? at h
  split at h
  · split at h
    · next hread =>
      cases h
      exact Json.isKeyed_of_read? hread
    · cases h
  · cases h

/-! ## Loading -/

namespace Settings

/-- A file lays over the settings the mapping that it holds. -/
theorem override_fst (place : Text) (file : SettingsFile) :
    (file.override place).1 = file.mapping? := by
  cases file with
  | text t =>
    rw [SettingsFile.override, SettingsFile.mapping?]
    cases Json.read? t with
    | none => rfl
    | some v => cases v <;> rfl
  | _ => rfl

/-- What was in force before does not count. -/
theorem reload_fst (s : Settings) (place : Option Text) (file : SettingsFile) :
    (s.reload place file).1 = (file.overrideAt place).1.elim default default.merge := rfl

theorem reload_of_mapping?_none {file : SettingsFile} (h : file.mapping? = none) (s : Settings)
    (place : Option Text) : (s.reload place file).1 = default := by
  rw [reload_fst]
  unfold SettingsFile.overrideAt
  split
  · rfl
  · rfl
  · rw [override_fst, h, Option.elim_none]

theorem reload_of_mapping? {file : SettingsFile} {entries : Entries Value}
    (h : file.mapping? = some entries) (s : Settings) {place : Text} (hplace : place ≠ []) :
    (s.reload (some place) file).1 = default.merge entries := by
  obtain ⟨c, rest, rfl⟩ := List.exists_cons_of_ne_nil hplace
  rw [reload_fst, SettingsFile.overrideAt, override_fst, h, Option.elim_some]
  exact nofun

/-- **Merging by path.** In settings with others laid over them, a key that leads to a value in the upper
ones has that value; if it is a mapping, it is merged into the one below, if there is one. A key that is
missing there is looked up below, and one that a value is in the way of leads nowhere. Merging the same
settings again changes nothing, nor do settings without entries. Loading starts from the defaults,
whatever was in force: a file without a mapping leaves just them, any other is merged into them. -/
theorem merges_by_path (b : Settings) {o : Entries Value} (ho : (Value.mapping o).IsKeyed) :
    (∀ key fallback, (⟨o⟩ : Settings).get key fallback
      = ((Value.mapping o).walk (path key)).found?.getD fallback)
    ∧ (∀ key fallback, (b.merge o).get key fallback =
      match (Value.mapping o).walk (path key) with
      | .found (.mapping inner) =>
        match (Value.mapping b.entries).at? (path key) with
        | some (.mapping base) => .mapping (mergeInto base inner)
        | _ => .mapping inner
      | .found v => v
      | .missing => b.get key fallback
      | .blocked => fallback)
    ∧ (b.merge o).merge o = b.merge o
    ∧ b.merge [] = b
    ∧ (∀ place file, file.mapping? = none → (b.reload place file).1 = default)
    ∧ ∀ place file loaded, place ≠ [] → file.mapping? = some loaded →
      (b.reload (some place) file).1 = default.merge loaded ∧ (Value.mapping loaded).IsKeyed := by
  refine ⟨fun key fallback => ?_, fun key fallback => ?_, ?_, rfl,
    fun place file h => reload_of_mapping?_none h b place,
    fun place file loaded hplace h =>
      ⟨reload_of_mapping? h b hplace, file.isKeyed_of_mapping? h⟩⟩
  · rw [get_eq, Value.at?_eq_found?]
  · have hmerged : Value.mapping (b.merge o).entries
        = overlay (some (.mapping b.entries)) (.mapping o) := rfl
    rw [get_eq, get_eq, hmerged, at?_overlay ho, Option.bind_some]
    cases (Value.mapping o).walk (path key) with
    | missing => rfl
    | blocked => rfl
    | found w =>
      cases w with
      | mapping inner =>
        cases (Value.mapping b.entries).at? (path key) with
        | none => rfl
        | some u => cases u <;> rfl
      | _ => rfl
  · exact congrArg Settings.mk (Value.mapping.inj (overlay_overlay ho (some (.mapping b.entries))))

/-- Over the defaults: a number in a mapping, nothing in place of a mapping, and a new mapping. Then a
file is loaded, first a directory in its place. -/
theorem merges_by_path_over_defaults :
    let o := [("context".toList, Value.mapping [("font_size".toList, .number 18)]),
      ("logging".toList, .null), ("output".toList, .mapping [("pretty".toList, .bool true)])]
    let s := default.merge o
    s.get "context.font_size".toList .null = .number 18
      ∧ s.get "context.viewport_width".toList .null = .number 1920
      ∧ s.get "context".toList .null = .mapping
          [("viewport_width".toList, .number 1920), ("viewport_height".toList, .number 1080),
            ("font_size".toList, .number 18)]
      ∧ s.get "logging.file_level".toList (.bool true) = .bool true
      ∧ s.get "output".toList .null = .mapping [("pretty".toList, .bool true)]
      ∧ s.merge o = s
      ∧ (s.reload (some "config.json".toList) .directory).1 = default
      ∧ (s.reload (some "config.json".toList) (.text "\x7b\"logging\": null\x7d".toList)).1
        = default.merge [("logging".toList, .null)] := by
  intro o s
  have ho : (Value.mapping o).IsKeyed := by
    refine Value.isKeyed_mapping (by decide) ?_
    simp only [o, List.forall_mem_cons, List.not_mem_nil, false_imp_iff, implies_true, and_true]
    exact ⟨Value.isKeyed_mapping (by decide) (by simp [Value.isKeyed_of_ne_mapping]),
      Value.isKeyed_of_ne_mapping nofun,
      Value.isKeyed_mapping (by decide) (by simp [Value.isKeyed_of_ne_mapping])⟩
  have hfile : (SettingsFile.text "\x7b\"logging\": null\x7d".toList).mapping?
      = some [("logging".toList, .null)] := by
    have hread : ((SettingsFile.text "\x7b\"logging\": null\x7d".toList).mapping?.elim false
        fun entries => Entries.keys entries == ["logging".toList]
          && entries.all fun entry => entry.2.equals .null) = true := by
      decide +kernel
    cases hmapping : (SettingsFile.text "\x7b\"logging\": null\x7d".toList).mapping? with
    | none =>
      rw [hmapping] at hread
      cases hread
    | some entries =>
      rw [hmapping, Option.elim_some] at hread
      obtain ⟨hkeys, hnull⟩ := Bool.and_eq_true_iff.mp hread
      obtain ⟨⟨key, v⟩, rfl, hkey⟩ := List.map_eq_singleton_iff.mp (eq_of_beq hkeys)
      obtain rfl : key = "logging".toList := hkey
      have hv : v.equals .null = true := List.all_eq_true.mp hnull _ List.mem_cons_self
      cases v with
      | null => rfl
      | _ => cases hv
  obtain ⟨-, hget, hagain, -⟩ := merges_by_path default ho
  obtain ⟨-, -, -, -, hnone, hsome⟩ := merges_by_path s ho
  exact ⟨hget _ _, hget _ _, hget _ _, hget _ _, hget _ _, hagain, hnone _ .directory rfl,
    (hsome _ _ _ (by decide) hfile).1⟩

end Settings

end CssValues
