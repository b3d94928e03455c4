import CssValues.Proofs.Context
import CssValues.Proofs.Entries

/-!
# Changing a context

Whether changes are refused, and why, does not depend on the context they are made to: what is there
already has passed the check (`Context.Field.change_ok`). So after a chain of changes, some of them
refused, every parameter has the value that the last admissible changes with its name give it
(`Context.replace_chain`), and two changes in a row are one.
-/

namespace CssValues

/-! ## Values that are dimensions -/

/-- The value is a finite positive number. -/
def Value.IsDimension (v : Value) : Prop := ∃ n, v = .number n ∧ n.isDimension = true

namespace Dimension

variable {name : Text} {v : Value}

/-- A parameter passes its own check. -/
theorem ofValue_value (name : Text) (d : Dimension) : ofValue name (.number d.value) = .ok d := by
  obtain ⟨hfinite, -⟩ := Bool.and_eq_true_iff.mp d.isDimension
  obtain ⟨x, hx, -⟩ := Number.exists_toDouble hfinite
  unfold ofValue
  simp only [hx, d.isDimension, dite_true]

theorem ofValue_eq_ok_iff {d : Dimension} :
    ofValue name v = .ok d ↔ v = .number d.value := by
  refine ⟨fun h => ?_, by rintro rfl; exact ofValue_value name d⟩
  unfold ofValue at h
  split at h
  · split at h
    · cases h
    · split at h <;> cases h
      rfl
  · cases h

theorem exists_ofValue_iff : (∃ d, ofValue name v = .ok d) ↔ v.IsDimension := by
  simp only [ofValue_eq_ok_iff]
  exact ⟨fun ⟨d, hd⟩ => ⟨d.value, hd, d.isDimension⟩, fun ⟨n, hn, h⟩ => ⟨⟨n, h⟩, hn⟩⟩

end Dimension

namespace Context

variable {c d : Context} {changes : Entries Value}

@[ext] theorem ext_get (h : ∀ f, c.get f = d.get f) : c = d := by
  obtain ⟨width, height, font⟩ := c
  obtain ⟨width', height', font'⟩ := d
  obtain rfl : width = width' := h .viewportWidth
  obtain rfl : height = height' := h .viewportHeight
  obtain rfl : font = font' := h .fontSize
  rfl

/-! ## Three checks in a row -/

/-- The context of three parameters, unless one of them is refused; the first refusal counts. -/
def gather (r : Field → Except Error Dimension) : Except Error Context := do
  let width ← r .viewportWidth
  let height ← r .viewportHeight
  let font ← r .fontSize
  return ⟨width, height, font⟩

section

variable {r s : Field → Except Error Dimension} {e : Error}

theorem gather_eq_ok_iff : gather r = .ok c ↔ ∀ f, r f = .ok (c.get f) := by
  constructor
  · intro h
    unfold gather at h
    cases hw : r .viewportWidth with
    | error e => rw [hw] at h; cases h
    | ok width =>
    cases hh : r .viewportHeight with
    | error e => rw [hw, hh] at h; cases h
    | ok height =>
    cases hf : r .fontSize with
    | error e => rw [hw, hh, hf] at h; cases h
    | ok font =>
    rw [hw, hh, hf] at h
    cases h
    rintro (_ | _ | _)
    · exact hw
    · exact hh
    · exact hf
  · intro h
    unfold gather
    rw [h .viewportWidth, h .viewportHeight, h .fontSize]
    rfl

theorem exists_gather_iff : (∃ c, gather r = .ok c) ↔ ∀ f, ∃ d, r f = .ok d := by
  constructor
  · rintro ⟨c, hc⟩ f
    exact ⟨c.get f, gather_eq_ok_iff.mp hc f⟩
  · intro h
    choose d hd using h
    exact ⟨⟨d .viewportWidth, d .viewportHeight, d .fontSize⟩,
      gather_eq_ok_iff.mpr (by rintro (_ | _ | _) <;> exact hd _)⟩

/-- The parameters that are checked before this one. -/
def Field.earlier : Field → List Field
  | .viewportWidth => []
  | .viewportHeight => [.viewportWidth]
  | .fontSize => [.viewportWidth, .viewportHeight]

theorem gather_eq_error_iff :
    gather r = .error e ↔ ∃ f, r f = .error e ∧ ∀ g ∈ f.earlier, ∃ d, r g = .ok d := by
  constructor
  · intro h
    unfold gather at h
    cases hw : r .viewportWidth with
    | error e' =>
      rw [hw] at h
      cases h
      exact ⟨.viewportWidth, hw, nofun⟩
    | ok width =>
    cases hh : r .viewportHeight with
    | error e' =>
      rw [hw, hh] at h
      cases h
      exact ⟨.viewportHeight, hh, by simp [Field.earlier, hw]⟩
    | ok height =>
    cases hf : r .fontSize with
    | error e' =>
      rw [hw, hh, hf] at h
      cases h
      exact ⟨.fontSize, hf, by simp [Field.earlier, hw, hh]⟩
    | ok font => rw [hw, hh, hf] at h; cases h
  · rintro ⟨_ | _ | _, he, hearlier⟩
    · rw [gather, he]
      rfl
    · obtain ⟨width, hw⟩ := hearlier .viewportWidth (by simp [Field.earlier])
      rw [gather, hw, he]
      rfl
    · obtain ⟨width, hw⟩ := hearlier .viewportWidth (by simp [Field.earlier])
      obtain ⟨height, hh⟩ := hearlier .viewportHeight (by simp [Field.earlier])
      rw [gather, hw, hh, he]
      rfl

/-- What is refused is refused in the same way by checks that accept and refuse alike. -/
theorem gather_error (herror : ∀ f e, r f = .error e → s f = .error e)
    (hok : ∀ f d, r f = .ok d → ∃ d', s f = .ok d') (h : gather r = .error e) :
    gather s = .error e := by
  obtain ⟨f, he, hearlier⟩ := gather_eq_error_iff.mp h
  refine gather_eq_error_iff.mpr ⟨f, herror f e he, fun g hg => ?_⟩
  obtain ⟨d, hd⟩ := hearlier g hg
  exact hok g d hd

end

/-! ## One parameter -/

namespace Field

def name : Field → Text
  | .viewportWidth => viewportWidthName
  | .viewportHeight => viewportHeightName
  | .fontSize => fontSizeName

/-- The parameter after the changes, checked if it is among them. -/
def change (f : Field) (changes : Entries Value) (before : Dimension) : Except Error Dimension :=
  match changes.get? f.name with
  | some v => Dimension.ofValue f.name v
  | none => .ok before

/-- The parameter has the value that the changes give it, or is left as it was. -/
def Changed (f : Field) (changes : Entries Value) (before after : Dimension) : Prop :=
  changes.get? f.name = some (.number after.value) ∨ changes.get? f.name = none ∧ after = before

variable {f : Field} {before after : Dimension}

theorem ofValue_getD (f : Field) (changes : Entries Value) (before : Dimension) :
    Dimension.ofValue f.name ((changes.get? f.name).getD (.number before.value))
      = f.change changes before := by
  unfold change
  cases changes.get? f.name with
  | none => exact Dimension.ofValue_value f.name before
  | some v => rfl

theorem change_eq_ok_iff : f.change changes before = .ok after ↔ f.Changed changes before after := by
  unfold change Changed
  cases changes.get? f.name with
  | none => simp [eq_comm]
  | some v => simp [Dimension.ofValue_eq_ok_iff]

/-- **Independence.** What was there before has no part in whether a change is accepted. -/
theorem change_ok (h : f.change changes before = .ok after) (other : Dimension) :
    ∃ d, f.change changes other = .ok d := by
  unfold change at h ⊢
  split at h
  · exact ⟨after, h⟩
  · exact ⟨other, rfl⟩

/-- Nor in why it is refused. -/
theorem change_error {e : Error} (h : f.change changes before = .error e) (other : Dimension) :
    f.change changes other = .error e := by
  unfold change at h ⊢
  split at h
  · exact h
  · cases h

theorem exists_change_iff :
    (∃ d, f.change changes before = .ok d) ↔ ∀ v ∈ changes.get? f.name, v.IsDimension := by
  unfold change
  cases changes.get? f.name with
  | none => exact ⟨fun _ => nofun, fun _ => ⟨before, rfl⟩⟩
  | some v => simpa using Dimension.exists_ofValue_iff

end Field

/-! ## One step -/

/-- Changes that a context takes on: of known parameters, to finite positive numbers. -/
structure Admissible (changes : Entries Value) : Prop where
  known : ∀ name ∈ changes.keys, ∃ f : Field, f.name = name
  dimension : ∀ f : Field, ∀ v ∈ changes.get? f.name, v.IsDimension

theorem isEmpty_unknownNames_iff : (unknownNames changes).isEmpty = true
    ↔ ∀ name ∈ changes.keys, ∃ f : Field, f.name = name := by
  have hknown (name : Text) : (∃ f : Field, f.name = name)
      ↔ (name = viewportWidthName ∨ name = viewportHeightName) ∨ name = fontSizeName := by
    constructor
    · rintro ⟨_ | _ | _, rfl⟩
      · exact .inl (.inl rfl)
      · exact .inl (.inr rfl)
      · exact .inr rfl
    · rintro ((rfl | rfl) | rfl)
      · exact ⟨.viewportWidth, rfl⟩
      · exact ⟨.viewportHeight, rfl⟩
      · exact ⟨.fontSize, rfl⟩
  simp [unknownNames, hknown, or_iff_not_imp_left]

theorem replace_eq (c : Context) (changes : Entries Value) : c.replace changes
    = if (unknownNames changes).isEmpty then gather fun f => f.change changes (c.get f)
      else .error (.unknownParameters (unknownNames changes)) := by
  simp only [← Field.ofValue_getD]
  rfl

theorem replace_eq_ok_iff : c.replace changes = .ok d
    ↔ (∀ name ∈ changes.keys, ∃ f : Field, f.name = name)
      ∧ ∀ f : Field, f.Changed changes (c.get f) (d.get f) := by
  rw [replace_eq, ← isEmpty_unknownNames_iff]
  split
  · next h => simp [h, gather_eq_ok_iff, Field.change_eq_ok_iff]
  · next h => simp [h]

/-- **Acceptance.** -/
theorem exists_replace_iff : (∃ d, c.replace changes = .ok d) ↔ Admissible changes := by
  rw [replace_eq]
  split
  · next h =>
    rw [exists_gather_iff]
    simp only [Field.exists_change_iff]
    exact ⟨fun hd => ⟨isEmpty_unknownNames_iff.mp h, hd⟩, fun hd => hd.dimension⟩
  · next h =>
    refine iff_of_false (by rintro ⟨_, ⟨⟩⟩) fun hd => h (isEmpty_unknownNames_iff.mpr hd.known)

/-- **Refusal.** The reason is the same in every context. -/
theorem replace_error {e : Error} (h : c.replace changes = .error e) (d : Context) :
    d.replace changes = .error e := by
  rw [replace_eq] at h ⊢
  split at h
  · next hknown =>
    rw [if_pos hknown]
    exact gather_error (fun f e he => Field.change_error he (d.get f))
      (fun f a ha => Field.change_ok ha (d.get f)) h
  · next hunknown =>
    rw [if_neg hunknown]
    exact h

/-! ## Many steps -/

/-- The context after changes that may be refused; then it stays as it is. -/
def step (c : Context) (changes : Entries Value) : Context := (c.replace changes).toOption.getD c

/-- The context after one step after the other. -/
def run (c : Context) (steps : List (Entries Value)) : Context := steps.foldl step c

theorem run_append_singleton (c : Context) (steps : List (Entries Value))
    (changes : Entries Value) : c.run (steps ++ [changes]) = (c.run steps).step changes := by
  rw [run, List.foldl_append]
  rfl

theorem step_of_admissible (h : Admissible changes) (c : Context) :
    ∀ f : Field, f.Changed changes (c.get f) ((c.step changes).get f) := by
  obtain ⟨d, hd⟩ := exists_replace_iff.mpr h
  rw [step, hd]
  exact (replace_eq_ok_iff.mp hd).2

theorem step_of_not_admissible (h : ¬Admissible changes) (c : Context) : c.step changes = c := by
  unfold step
  cases hd : c.replace changes with
  | ok d => exact absurd (exists_replace_iff.mp ⟨d, hd⟩) h
  | error e => rfl

/-- None of the admissible steps names the parameter. -/
def Unnamed (f : Field) (steps : List (Entries Value)) : Prop :=
  ∀ changes ∈ steps, Admissible changes → changes.get? f.name = none

/-- The number is the one that the last admissible step with the name of the parameter gives it. -/
def LastGiven (f : Field) (steps : List (Entries Value)) (n : Number) : Prop :=
  ∃ earlier changes later, steps = earlier ++ changes :: later ∧ Admissible changes
    ∧ changes.get? f.name = some (.number n) ∧ Unnamed f later

section

variable {f : Field} {steps : List (Entries Value)} {n : Number}

theorem Unnamed.append_singleton (h : Unnamed f steps)
    (hchanges : Admissible changes → changes.get? f.name = none) :
    Unnamed f (steps ++ [changes]) := by
  intro later hmem
  rcases List.mem_append.mp hmem with hmem | hmem
  · exact h later hmem
  · rwa [List.mem_singleton.mp hmem]

theorem LastGiven.append_singleton (h : LastGiven f steps n)
    (hchanges : Admissible changes → changes.get? f.name = none) :
    LastGiven f (steps ++ [changes]) n := by
  obtain ⟨earlier, given, later, rfl, hgiven, hn, hlater⟩ := h
  exact ⟨earlier, given, later ++ [changes], by simp, hgiven, hn, hlater.append_singleton hchanges⟩

/-- A step that does not name the parameter, or is refused, leaves the parameter as it was. -/
theorem get_step_of_unnamed (h : Admissible changes → changes.get? f.name = none) (c : Context) :
    (c.step changes).get f = c.get f := by
  by_cases hadmissible : Admissible changes
  · rcases step_of_admissible hadmissible c f with hgiven | ⟨-, hkept⟩
    · rw [h hadmissible] at hgiven
      cases hgiven
    · exact hkept
  · rw [step_of_not_admissible hadmissible]

/-- **Last accepted change.** A parameter has the value that the last admissible step with its name
gives it, or the value it had at the start. -/
theorem get_run (c : Context) (steps : List (Entries Value)) (f : Field) :
    LastGiven f steps ((c.run steps).get f).value
      ∨ Unnamed f steps ∧ (c.run steps).get f = c.get f := by
  induction steps using List.reverseRecOn with
  | nil => exact .inr ⟨nofun, rfl⟩
  | append_singleton steps changes ih =>
    rw [run_append_singleton]
    by_cases hnamed : Admissible changes → changes.get? f.name = none
    · rw [get_step_of_unnamed hnamed]
      exact ih.imp (·.append_singleton hnamed) (.imp_left (·.append_singleton hnamed))
    · obtain ⟨hadmissible, hsome⟩ := Classical.not_imp.mp hnamed
      rcases step_of_admissible hadmissible (c.run steps) f with hgiven | ⟨hnone, -⟩
      · exact .inl ⟨steps, changes, [], rfl, hadmissible, hgiven, nofun⟩
      · exact absurd hnone hsome

end

/-! ## Two steps as one -/

theorem equals_self (c : Context) : c.equals c = true := by
  have hself (d : Dimension) : d.value.equals d.value = true := by
    obtain ⟨q, hq, -⟩ := Number.exists_isAt_of_isDimension d.isDimension
    exact (Number.equals_iff hq hq).mpr rfl
  simp [equals, hself]

theorem Field.Changed.trans {f : Field} {a b : Entries Value} {x y z : Dimension}
    (hb : b.keys.Nodup) (h : f.Changed a x y) (h' : f.Changed b y z) :
    f.Changed (a.putAll b) x z := by
  unfold Changed at h h' ⊢
  rw [Entries.get?_putAll_of_nodup hb]
  rcases h' with hb | ⟨hb, rfl⟩
  · exact .inl (by rw [hb, Option.some_or])
  · rw [hb, Option.none_or]
    exact h

/-- **Joining.** Two changes in a row are the change by both mappings, the later one winning. -/
theorem replace_putAll {a b : Entries Value} {e : Context} (hb : b.keys.Nodup)
    (hd : c.replace a = .ok d) (he : d.replace b = .ok e) : c.replace (a.putAll b) = .ok e := by
  obtain ⟨hknown, hchanged⟩ := replace_eq_ok_iff.mp hd
  obtain ⟨hknown', hchanged'⟩ := replace_eq_ok_iff.mp he
  refine replace_eq_ok_iff.mpr ⟨fun name hname => ?_, fun f => (hchanged f).trans hb (hchanged' f)⟩
  rcases Entries.mem_keys_putAll.mp hname with hname | hname
  · exact hknown' name hname
  · exact hknown name hname

/-! ## Main result -/

/-- **Changes.** They are accepted in every context or in none, and refused for one reason. After a
chain of steps each parameter has the value that the last admissible step with its name gives it,
and otherwise the one it had; a step that is not admissible changes nothing. -/
theorem replace_chain :
    (∀ (c : Context) (changes : Entries Value),
      ((∃ d, c.replace changes = .ok d) ↔ Admissible changes)
      ∧ (∀ (e : Error) (d : Context), c.replace changes = .error e → d.replace changes = .error e)
      ∧ ∀ d, c.replace changes = .ok d → ∀ f : Field, f.Changed changes (c.get f) (d.get f))
    ∧ (∀ (c : Context) (steps : List (Entries Value)) (f : Field),
      LastGiven f steps ((c.run steps).get f).value
        ∨ Unnamed f steps ∧ (c.run steps).get f = c.get f)
    ∧ (∀ (c : Context) (changes : Entries Value), ¬Admissible changes → c.step changes = c)
    ∧ ∀ (c d e : Context) (a b : Entries Value), b.keys.Nodup → c.replace a = .ok d →
      d.replace b = .ok e → ∃ m, c.replace (a.putAll b) = .ok m ∧ e.equals m = true :=
  ⟨fun _ _ => ⟨exists_replace_iff, fun _ d h => replace_error h d,
      fun _ h => (replace_eq_ok_iff.mp h).2⟩,
    get_run, fun c _ h => step_of_not_admissible h c,
    fun _ _ e _ _ hb hd he => ⟨e, replace_putAll hb hd he, e.equals_self⟩⟩

/-- A font and then a width are taken on one by one or together. An unknown name is refused in the new
context as in the default one, and a width beside a font of zero changes neither. -/
theorem replace_chain_mixed : ∃ d e m, default.replace [(fontSizeName, .number 20)] = .ok d
    ∧ Field.fontSize.Changed [(fontSizeName, .number 20)] default.fontSize d.fontSize
    ∧ d.replace [(viewportWidthName, .number 1280)] = .ok e
    ∧ default.replace (Entries.putAll [(fontSizeName, .number 20)]
      [(viewportWidthName, .number 1280)]) = .ok m ∧ e.equals m = true
    ∧ d.replace [(fontSizeName, .number 12), ("dpi".toList, .number 96)]
      = .error (.unknownParameters ["dpi".toList])
    ∧ d.step [(viewportWidthName, .number 10), (fontSizeName, .number 0)] = d := by
  obtain ⟨hone, -, hrefused, hjoined⟩ := replace_chain
  obtain ⟨d, hd⟩ := exists_of_isOk (r := default.replace [(fontSizeName, .number 20)])
    (by decide +kernel)
  have hwidth : Admissible [(viewportWidthName, .number 1280)] :=
    (hone default _).1.mp (exists_of_isOk (by decide +kernel))
  obtain ⟨e, he⟩ := (hone d _).1.mpr hwidth
  obtain ⟨m, hm, hequal⟩ := hjoined _ _ _ _ [(viewportWidthName, .number 1280)]
    (List.nodup_singleton _) hd he
  have hzero : ¬Admissible [(viewportWidthName, .number 10), (fontSizeName, .number 0)] := by
    intro h
    obtain ⟨c, hc⟩ := (hone default _).1.mpr h
    have hok : (default.replace [(viewportWidthName, .number 10), (fontSizeName, .number 0)]).isOk
      = false := by decide +kernel
    rw [hc] at hok
    cases hok
  exact ⟨d, e, m, hd, (hone _ _).2.2 d hd .fontSize, he, hm, hequal,
    (hone default _).2.1 _ d rfl, hrefused d _ hzero⟩

end Context

end CssValues
