import CssValues.Proofs.Declaration

/-!
# Values of declarations

The value of a declaration is a part of the components that was read, without semicolons and without
a mark of importance (`DeclarationItem.exists_value`), and it is a value by itself, with whatever
white space around it (`Declaration.readValue?_again`).
-/

namespace CssValues

namespace Declaration

/-! ## How far a value has been read -/

/-- How much of `! important` has been read. -/
inductive Phase where
  | value
  | bang
  | important

def Importance.phase : Importance → Phase
  | .value => .value
  | .bang _ => .bang
  | .important _ => .important

/-- What was read before a mark of importance. -/
def Importance.before? : Importance → Option (List Component)
  | .value => none
  | .bang before => some before
  | .important before => some before

namespace Importance

variable {state state' : Importance} {before : List Component} {c : Component}

theorem step_of_ne (h : c ≠ .leaf (.literal ['!'])) : step before .value c = .value := by
  unfold step
  split
  · exact absurd rfl h
  · next heq => cases heq
  · rfl
  · rfl

/-- The next phase depends on the phase and the component only. -/
theorem phase_step (before before' : List Component) (h : state.phase = state'.phase) (c : Component) :
    (step before state c).phase = (step before' state' c).phase := by
  cases state with
  | value =>
    cases state' <;> cases h
    by_cases hc : c = .leaf (.literal ['!'])
    · subst hc
      rfl
    · rw [step_of_ne hc, step_of_ne hc]
  | bang mark =>
    cases state' <;> cases h
    cases c with
    | leaf token =>
      cases token with
      | ident name =>
        simp only [step]
        split <;> rfl
      | _ => rfl
    | _ => rfl
  | important mark =>
    cases state' <;> cases h
    cases c with
    | leaf token => cases token <;> rfl
    | _ => rfl

theorem marks_eq (h : state.phase = state'.phase) (c : Component) :
    state.marks c = state'.marks c := by
  cases state <;> cases state' <;> cases h
  · rfl
  · cases c with
    | leaf token => cases token <;> rfl
    | _ => rfl
  · cases c with
    | leaf token => cases token <;> rfl
    | _ => rfl

theorem step_whitespace (t : Text) : step before state (.leaf (.whitespace t)) = state := by
  cases state <;> rfl

/-- A mark starts at an exclamation mark in the value, or it goes on. -/
theorem before?_step {c : Component} {m : List Component}
    (h : (step before state c).before? = some m) :
    state.before? = some m ∨ state.phase = .value ∧ m = before := by
  unfold step at h
  split at h
  · exact .inr ⟨rfl, (Option.some.inj h).symm⟩
  · split at h
    · exact .inl h
    · cases h
  · exact .inl h
  · cases h
end Importance

namespace ValueReading

variable {r r' : ValueReading} {components : List Component}

/-- What decides about the rest of a value. -/
def outline (r : ValueReading) : Phase × Bool × Bool := (r.state.phase, r.occupied, r.broken)

theorem outline_step (h : r.outline = r'.outline) (c : Component) :
    (r.step c).outline = (r'.step c).outline := by
  obtain ⟨hphase, hflags⟩ := Prod.mk.inj h
  obtain ⟨hoccupied, hbroken⟩ := Prod.mk.inj hflags
  have hnext := Importance.phase_step r.components r'.components hphase c
  simp only [outline, step, hnext, Importance.marks_eq hphase, hoccupied, hbroken]

theorem outline_foldl (h : r.outline = r'.outline) (components : List Component) :
    (components.foldl step r).outline = (components.foldl step r').outline := by
  induction components generalizing r r' with
  | nil => exact h
  | cons c rest ih => exact ih (outline_step h c)

/-- White space has no part in how a value is read. -/
theorem outline_whitespace (h : ∀ c ∈ components, c.isWhitespace = true) (r : ValueReading) :
    (components.foldl step r).outline = r.outline := by
  induction components generalizing r with
  | nil => rfl
  | cons c rest ih =>
    obtain ⟨hc, hrest⟩ := List.forall_mem_cons.mp h
    obtain ⟨t, rfl⟩ := Component.exists_of_isWhitespace hc
    have hstep : (r.step (.leaf (.whitespace t))).outline = r.outline := by
      simp [outline, step, Importance.step_whitespace, Component.isWhitespace]
    exact (ih hrest _).trans hstep

theorem components_foldl (components : List Component) (r : ValueReading) :
    (components.foldl step r).components = components.reverse ++ r.components := by
  induction components generalizing r with
  | nil => rfl
  | cons c rest ih =>
    rw [List.foldl_cons, ih]
    simp [step]

theorem broken_foldl (h : r.broken = true) (components : List Component) :
    (components.foldl step r).broken = true := by
  induction components generalizing r with
  | nil => exact h
  | cons c rest ih => exact ih (by simp [step, h])

/-- What was read before a mark of importance was a value up to there. -/
theorem exists_before {m : List Component}
    (h : (components.foldl step start).state.before? = some m) :
    m.reverse <+: components ∧ (m.reverse.foldl step start).state.phase = .value := by
  induction components using List.reverseRecOn with
  | nil => cases h
  | append_singleton components c ih =>
    rw [List.foldl_append] at h
    rcases Importance.before?_step h with hbefore | ⟨hphase, rfl⟩
    · obtain ⟨hfront, hvalue⟩ := ih hbefore
      exact ⟨hfront.trans (List.prefix_append components [c]), hvalue⟩
    · rw [components_foldl, start, List.append_nil, List.reverse_reverse]
      exact ⟨List.prefix_append components [c], hphase⟩

end ValueReading

/-! ## Values -/

section

variable {components value : List Component}

/-- A value is the front of the components, and it is neither broken nor important. -/
theorem readValue?_spec (h : readValue? components = some value) : value <+: components
    ∧ (value.foldl ValueReading.step .start).broken = false
    ∧ (value.foldl ValueReading.step .start).state.phase ≠ .important := by
  unfold readValue? at h
  dsimp only at h
  split at h
  · cases h
  · next hbroken =>
    rw [Bool.not_eq_true] at hbroken
    have hall := ValueReading.components_foldl components .start
    have hvalue := Option.some.inj h
    unfold ValueReading.value at hvalue
    split at hvalue
    · next m hstate =>
      have hbefore : (components.foldl ValueReading.step .start).state.before? = some m := by
        rw [hstate]
        rfl
      obtain ⟨hfront, hphase⟩ := ValueReading.exists_before hbefore
      rw [hvalue] at hfront hphase
      refine ⟨hfront, ?_, by simp [hphase]⟩
      obtain ⟨rest, rfl⟩ := hfront
      rw [List.foldl_append] at hbroken
      by_contra hbroke
      rw [ValueReading.broken_foldl (by simpa using hbroke)] at hbroken
      cases hbroken
    · next hstate =>
      rw [hall, ValueReading.start, List.append_nil, List.reverse_reverse] at hvalue
      subst hvalue
      refine ⟨List.prefix_rfl, hbroken, fun hphase => ?_⟩
      cases hend : (components.foldl ValueReading.step .start).state with
      | value => simp [hend, Importance.phase] at hphase
      | bang before => simp [hend, Importance.phase] at hphase
      | important before => exact hstate before hend

theorem readValue?_eq_some (hbroken : (value.foldl ValueReading.step .start).broken = false)
    (hphase : (value.foldl ValueReading.step .start).state.phase ≠ .important) :
    readValue? value = some value := by
  have hall := ValueReading.components_foldl value .start
  unfold readValue?
  simp only [hbroken, Bool.false_eq_true, if_false]
  unfold ValueReading.value
  split
  · next before hstate => exact absurd (by rw [hstate]; rfl) hphase
  · rw [hall, ValueReading.start, List.append_nil, List.reverse_reverse]

/-- **A value again.** A value is a value by itself, whatever white space is around it. -/
theorem readValue?_again {before after : List Component}
    (h : readValue? components = some (before ++ value ++ after))
    (hbefore : ∀ c ∈ before, c.isWhitespace = true) (hafter : ∀ c ∈ after, c.isWhitespace = true)
    {spaces : List Component} (hspaces : ∀ c ∈ spaces, c.isWhitespace = true) :
    readValue? (spaces ++ value) = some (spaces ++ value) := by
  obtain ⟨-, hbroken, hphase⟩ := readValue?_spec h
  have houtline : ((before ++ value ++ after).foldl ValueReading.step .start).outline
      = ((spaces ++ value).foldl ValueReading.step .start).outline := by
    have hstart := (ValueReading.outline_whitespace hbefore .start).trans
      (ValueReading.outline_whitespace hspaces .start).symm
    rw [List.foldl_append, List.foldl_append, List.foldl_append,
      ValueReading.outline_whitespace hafter]
    exact ValueReading.outline_foldl hstart value
  obtain ⟨hsame, hflags⟩ := Prod.mk.inj houtline
  refine readValue?_eq_some ?_ ?_
  · rw [← (Prod.mk.inj hflags).2, hbroken]
  · rwa [← hsame]

end

theorem exists_of_read {components : List Component} {d : Declaration}
    (h : read components = .declaration d) : ∃ name rest, .leaf (.ident name) ∈ components
      ∧ d.name = Text.asciiLower name ∧ rest <:+ components ∧ readValue? rest = some d.value := by
  unfold read at h
  split at h
  · next name rest =>
    split at h
    · next colon after heq =>
      split at h
      · split at h
        · next value hvalue =>
          cases h
          refine ⟨name, after, List.mem_cons_self, rfl, ?_, hvalue⟩
          have hsuffix : after <:+ rest.dropWhile Component.isWhitespace :=
            heq ▸ List.suffix_cons colon after
          exact (hsuffix.trans (List.dropWhile_suffix _)).trans (List.suffix_cons _ rest)
        · cases h
      · cases h
    · cases h
  · cases h

end Declaration

namespace DeclarationItem

/-- A declaration was read from components without a semicolon. -/
theorem exists_read {components : List Component} {d : Declaration}
    (h : .declaration d ∈ ofComponents components) : ∃ part, part <:+: components
      ∧ (∀ c ∈ part, c.isLiteral ';' = false) ∧ Declaration.read part = .declaration d := by
  fun_induction ofComponents components with
  | case1 => cases h
  | case2 c rest _ ih =>
    obtain ⟨part, hpart, hread⟩ := ih h
    exact ⟨part, hpart.trans (List.suffix_cons c rest).isInfix, hread⟩
  | case3 rest name _ ih =>
    have hrest := (List.mem_cons.mp h).resolve_left (by rintro ⟨⟩)
    obtain ⟨part, hpart, hread⟩ := ih hrest
    have hsuffix := (skipRule_suffix rest).trans (List.suffix_cons (.leaf (.atKeyword name)) rest)
    exact ⟨part, hpart.trans hsuffix.isInfix, hread⟩
  | case4 c rest hc _ ih =>
    rcases List.mem_cons.mp h with h | h
    · refine ⟨_, ?_, List.forall_mem_cons.mpr ⟨?_, fun e he => ?_⟩, h.symm⟩
      · exact (List.prefix_cons_inj c).mpr (List.takeWhile_prefix _) |>.isInfix
      · simpa using (not_or.mp (mt (Bool.or_eq_true _ _).mpr hc)).2
      · simpa using List.mem_takeWhile_imp he
    · obtain ⟨part, hpart, hread⟩ := ih h
      have hsuffix := ((List.drop_suffix 1 _).trans (List.dropWhile_suffix
        (l := rest) fun d => !d.isLiteral ';')).trans (List.suffix_cons c rest)
      exact ⟨part, hpart.trans hsuffix.isInfix, hread⟩

/-- **Values.** A declaration has the name of an identifier, and its value was read from components
without a semicolon. -/
theorem exists_value {components : List Component} {d : Declaration}
    (h : .declaration d ∈ ofComponents components) : ∃ name rest, .leaf (.ident name) ∈ components
      ∧ d.name = Text.asciiLower name ∧ rest <:+: components
      ∧ (∀ c ∈ rest, c.isLiteral ';' = false) ∧ Declaration.readValue? rest = some d.value := by
  obtain ⟨part, hpart, hend, hread⟩ := exists_read h
  obtain ⟨name, rest, hmem, hname, hsuffix, hvalue⟩ := Declaration.exists_of_read hread
  exact ⟨name, rest, hpart.mem hmem, hname, hsuffix.isInfix.trans hpart,
    fun c hc => hend c (hsuffix.mem hc), hvalue⟩

end DeclarationItem

end CssValues
