import CssValues.Proofs.Box
import CssValues.Proofs.Color
import CssValues.Proofs.Resolver
import CssValues.Proofs.Spelling
import CssValues.Style.Getter

/-!
# Where style values fail

Bad values give nothing and leave a note. What is left are integers with more digits than may be
written: as a number of a shorthand or of a style attribute, as a channel of a colour, or as the
stacking order (`returns_iff_short`).
-/

namespace CssValues

/-! ## Shorthands -/

theorem exists_fault_of_mapM {α β : Type} {f : α → Except Resolver.Refusal β} {as : List α}
    {why : Resolver.Refusal} (h : as.mapM f = .error why) : ∃ a ∈ as, f a = .error why := by
  induction as with
  | nil => cases h
  | cons a as ih =>
    rw [List.mapM_cons] at h
    cases ha : f a with
    | error _ =>
      rw [ha] at h
      cases h
      exact ⟨a, List.mem_cons_self, ha⟩
    | ok b =>
      cases has : as.mapM f with
      | error _ =>
        rw [ha, has] at h
        cases h
        obtain ⟨a', hmem, ha'⟩ := ih has
        exact ⟨a', List.mem_cons_of_mem _ hmem, ha'⟩
      | ok bs =>
        rw [ha, has] at h
        cases h

/-- Components are found in every text whose numbers are not too long. -/
theorem exists_components_iff {t : Text} :
    (∃ components, Component.ofText t = .ok components) ↔ IsShort t := by
  rw [IsShort, ← List.findSome?_eq_none_iff, Component.ofText, Token.ofText]
  cases (Token.scanAll (Token.normalize t)).findSome? Token.fault? with
  | none => exact iff_of_true ⟨_, rfl⟩ rfl
  | some f =>
    refine iff_of_false ?_ (Option.some_ne_none f)
    rintro ⟨components, hcomponents⟩
    cases hcomponents

theorem exists_shorthandParts_iff {t : Text} :
    (∃ parts, shorthandParts t = .ok parts) ↔ IsShort t :=
  ⟨fun ⟨_, h⟩ => (shorthandParts_eq_ok h).1, fun h => ⟨_, shorthandParts_of_isShort h⟩⟩

/-! ## Fractions -/

namespace Percentage

variable {p : Percentage}

theorem toFraction_of_zero (h : p.value = 0) : p.toFraction = .ok (.double (.zero false)) := by
  rw [toFraction, h]
  show Number.intQuotient 0 100 = _
  rw [Number.intQuotient, if_neg (by decide), Int.natAbs_zero, Nat.cast_zero, zero_div,
    Binary64.ofMagnitude_zero]
  rfl

theorem toFraction_of_double {x : Binary64} (h : p.value = .double x) :
    p.toFraction = .ok (.double (x.div (.ofInt 100))) := by
  rw [toFraction, h]
  exact Number.double_div_int (k := 100) (by simp) (by decide) x

end Percentage

/-! ## Attempts -/

namespace Resolver

/-- An attempt returns if what is attempted has no fault. -/
theorem returns_attempt_iff {α : Type} {r : Except Refusal α} :
    (attempt r).Returns ↔ ∀ f, r ≠ .error (.fault f) := by
  constructor
  · rintro ⟨o, ho⟩ f rfl
    cases ho
  · intro h
    cases r with
    | ok a => exact Noted.returns_pure _
    | error why =>
      cases why with
      | fault f => exact absurd rfl (h f)
      | _ => exact ⟨none, rfl⟩

theorem eq_of_attempt {α : Type} {r : Except Refusal α} {a : α}
    (h : (attempt r).result = .ok (some a)) : r = .ok a := by
  cases r with
  | ok a => cases h; rfl
  | error why => cases why <;> cases h

theorem Answers.returns {α : Type} {p : α → Prop} {r : Except Refusal α} (h : Answers p r) :
    (attempt r).Returns := by
  obtain ⟨o, ho, -⟩ := h.exists_attempt
  exact ⟨o, ho⟩

theorem edge_ne_fault (c : Context) (t part : Text) (f : Fault) :
    edge c t part ≠ .error (.fault f) := by
  have hpart : partPixels c part ≠ .error (.fault f) := by
    intro h
    unfold partPixels at h
    split at h
    · split at h <;> cases h
    · exact Resolver.returns_attempt_iff.mp (answers_pixels c part).returns f h
  intro h
  unfold edge at h
  split at h
  · cases h
  · next f' hf =>
    cases h
    exact hpart hf
  · cases h

/-- **Boxes.** A box shorthand fails only at a number that is too long. -/
theorem returns_box_iff (c : Context) (t : Text) :
    (attempt (box c t)).Returns ↔ Text.isBlankText t = true ∨ IsShort t := by
  rw [returns_attempt_iff]
  constructor
  · intro h
    by_contra hlong
    obtain ⟨hblank, hlong⟩ := not_or.mp hlong
    cases hparts : shorthandParts t with
    | ok parts => exact hlong (exists_shorthandParts_iff.mp ⟨parts, hparts⟩)
    | error f =>
      refine h f ?_
      rw [box, if_neg hblank, hparts]
  · intro h f hfault
    unfold box at hfault
    split at hfault
    · cases hfault
    next hblank =>
    obtain ⟨parts, hparts⟩ := exists_shorthandParts_iff.mpr (h.resolve_left hblank)
    rw [hparts] at hfault
    dsimp only at hfault
    split at hfault
    · cases hfault
    split at hfault
    · next why hedges =>
      cases hfault
      obtain ⟨part, -, hedge⟩ := exists_fault_of_mapM hedges
      exact edge_ne_fault c t part f hedge
    · split at hfault <;> cases hfault

/-- What resolves to a size is no colour in the form of a function. -/
theorem not_hasLongChannel_of_size {c : Context} {t : Text} {r : Size} (h : size c t = .ok r) :
    ¬Color.HasLongChannel t := by
  rintro ⟨_, _, _, hsplit, -⟩
  obtain ⟨d, more, htrim, hd, hparen⟩ := Color.exists_of_splitRgb? hsplit
  have hspelled := spelled_of_size h
  generalize hu : t.trim = u at hspelled hparen
  cases hspelled with
  | figures _ hfigures => exact absurd (hfigures '(' hparen) (by decide)
  | calculation _ _ =>
    obtain ⟨rfl, -⟩ := List.cons.inj (htrim.symm.trans hu)
    exact absurd hd (by decide)

/-- The percentage of a size is that of a double. -/
theorem exists_clamp_of_size {c : Context} {t : Text} {p : Percentage}
    (h : size c t = .ok (.percentage p)) : ∃ x : Binary64, p = .clamp (.double x) := by
  rcases exists_of_size h with ⟨-, hcalc⟩ | ⟨-, -, q, hq, hp⟩ | ⟨-, -, -, l, -, hl⟩
  · unfold calcSize at hcalc
    split at hcalc
    · cases hcalc
    next e he =>
    obtain ⟨x, hx, -⟩ := (CalcExpression.isRead_of_read he).1
    split at hcalc
    · cases hcalc
      exact ⟨x, by rw [hx]⟩
    · cases hfinite : finite t (e.evaluate c) <;> rw [hfinite] at hcalc <;> cases hcalc
  · cases hp
    unfold Percentage.read at hq
    split at hq
    · split at hq
      · cases hq
      · next x _ => cases hq; exact ⟨x, rfl⟩
    · cases hq
  · cases hfinite : finite t (l.toPixels c) <;> rw [hfinite] at hl <;> cases hl

/-- So it can be divided by a hundred. -/
theorem exists_toFraction {c : Context} {t : Text} {p : Percentage}
    (h : size c t = .ok (.percentage p)) : ∃ q, p.toFraction = .ok q := by
  obtain ⟨x, rfl⟩ := exists_clamp_of_size h
  rcases Number.max_cases 0 (.double x) with hmax | hmax
  · exact ⟨_, Percentage.toFraction_of_zero hmax⟩
  · exact ⟨_, Percentage.toFraction_of_double hmax⟩

theorem returns_size (c : Context) (t : Text) : (attempt (size c t)).Returns :=
  (answers_size c t).returns

theorem returns_pixels (c : Context) (t : Text) : (attempt (pixels c t)).Returns :=
  (answers_pixels c t).returns

end Resolver

/-! ## Borders -/

namespace Border

/-- No line style has a parenthesis. -/
theorem styles_contains_eq_false {t : Text} (h : '(' ∈ t) :
    styles.contains (Text.lower t) = false := by
  have hstyles : ∀ w ∈ styles, '(' ∉ w := by decide
  rw [← Bool.not_eq_true, List.contains_iff_mem]
  exact fun hmem => hstyles _ hmem (Text.mem_lower h (by decide) (by decide))

/-- A part of a border shorthand fails only as a colour. -/
theorem returns_step_iff (c : Context) (b : Border) (part : Text) :
    (step c b part).Returns ↔ ¬Color.HasLongChannel part := by
  obtain ⟨o, ho⟩ := Resolver.returns_size c part
  unfold step
  rw [Noted.returns_bind]
  simp only [ho, Except.ok.injEq, exists_eq_left']
  split
  · -- a width
    exact ⟨fun _ => Resolver.not_hasLongChannel_of_size (Resolver.eq_of_attempt ho),
      fun _ => Noted.returns_pure _⟩
  · split
    · -- a line style
      next hcontains =>
      refine ⟨?_, fun _ => Noted.returns_pure _⟩
      rintro - ⟨_, _, _, hsplit, -⟩
      obtain ⟨_, _, -, -, hparen⟩ := Color.exists_of_splitRgb? hsplit
      rw [styles_contains_eq_false (Text.of_mem_trimWhere hparen)] at hcontains
      cases hcontains
    · -- a colour or nothing
      rw [Noted.returns_bind_of, Color.returns_attempt_iff]
      intro o
      cases o with
      | none => exact ⟨b, rfl⟩
      | some color => exact Noted.returns_pure _

/-- **Borders.** -/
theorem returns_read_iff (c : Context) (t : Text) :
    (read c t).Returns ↔ IsShort t ∧ ∀ part ∈ partTexts t, ¬Color.HasLongChannel part := by
  unfold read
  rw [Noted.returns_bind]
  constructor
  · rintro ⟨parts, hparts, hread⟩
    obtain ⟨hshort, rfl⟩ := shorthandParts_eq_ok hparts
    exact ⟨hshort, (Noted.returns_foldlM (returns_step_iff c) _ _).mp hread⟩
  · rintro ⟨hshort, hparts⟩
    exact ⟨partTexts t, shorthandParts_of_isShort hshort,
      (Noted.returns_foldlM (returns_step_iff c) _ _).mpr hparts⟩

end Border

/-! ## Style attributes -/

/-- A style attribute fails only at a number that is too long. -/
theorem Style.returns_read_iff (t : Text) :
    (read t).Returns ↔ Text.isBlankText t = true ∨ IsShort t := by
  unfold read
  by_cases hblank : Text.isBlankText t = true
  · rw [if_pos hblank]
    exact ⟨fun _ => .inl hblank, fun _ => Noted.returns_pure _⟩
  · rw [if_neg hblank, ← exists_components_iff, DeclarationItem.ofText]
    cases Component.ofText t with
    | ok components => exact ⟨fun _ => .inr ⟨_, rfl⟩, fun _ => ⟨_, rfl⟩⟩
    | error f =>
      exact ⟨by rintro ⟨_, ⟨⟩⟩, fun h => (h.resolve_left hblank).elim fun _ h => nomatch h⟩

/-! ## Typed properties -/

namespace Style

variable (s : Style) (c : Context) (name : Text)

theorem returns_getSize : (s.getSize c name).Returns := by
  unfold getSize
  split
  · exact Noted.returns_pure _
  · exact Resolver.returns_size c _

theorem returns_getPixels : (s.getPixels c name).Returns := by
  unfold getPixels
  split
  · exact Noted.returns_pure _
  · split
    · refine (Noted.returns_bind_of fun o => ?_).mpr (Resolver.returns_size c _)
      split <;> exact Noted.returns_pure _
    · exact Noted.returns_pure _

theorem returns_getEdge (side : Side) : (s.getEdge c name side).Returns := by
  unfold getEdge
  split
  · exact Noted.returns_pure _
  · exact (Noted.returns_bind_of fun _ => Noted.returns_pure _).mpr (Resolver.returns_pixels c _)

/-- What needs the four longhands goes on with them. -/
theorem returns_edges {β : Type}
    {f : Option Number → Option Number → Option Number → Option Number → Noted β}
    (hf : ∀ top right bottom left, (f top right bottom left).Returns) :
    Noted.Returns (do
      let top ← s.getEdge c name .top
      let right ← s.getEdge c name .right
      let bottom ← s.getEdge c name .bottom
      let left ← s.getEdge c name .left
      f top right bottom left) := by
  refine (Noted.returns_bind_of fun top => ?_).mpr (s.returns_getEdge c name .top)
  refine (Noted.returns_bind_of fun right => ?_).mpr (s.returns_getEdge c name .right)
  refine (Noted.returns_bind_of fun bottom => ?_).mpr (s.returns_getEdge c name .bottom)
  exact (Noted.returns_bind_of fun left => hf top right bottom left).mpr
    (s.returns_getEdge c name .left)

/-- The longhands never fail, so a box fails as its shorthand does. -/
theorem returns_getBox_iff : (s.getBox c name).Returns
    ↔ ∀ value ∈ s.get? name, Text.isBlankText value = true ∨ IsShort value := by
  unfold getBox
  cases s.get? name with
  | none =>
    refine ⟨fun _ => nofun, fun _ => (Noted.returns_bind_of fun _ => ?_).mpr (Noted.returns_pure _)⟩
    exact s.returns_edges c name fun _ _ _ _ => by split <;> exact Noted.returns_pure _
  | some value =>
    refine (Noted.returns_bind_of fun _ => ?_).trans
      (by simpa using Resolver.returns_box_iff c value)
    exact s.returns_edges c name fun _ _ _ _ => by split <;> exact Noted.returns_pure _

theorem returns_getColor_iff :
    (s.getColor name).Returns ↔ ∀ value ∈ s.get? name, ¬Color.HasLongChannel value := by
  unfold getColor
  cases s.get? name with
  | none => exact ⟨fun _ => nofun, fun _ => Noted.returns_pure _⟩
  | some value => simpa using Color.returns_attempt_iff value

theorem returns_backgroundColor_iff : s.backgroundColor.Returns
    ↔ ∀ value ∈ (s.get? "background-color".toList).or (s.get? "background".toList),
      ¬Color.HasLongChannel value := by
  unfold backgroundColor contains
  cases hcolor : s.get? "background-color".toList with
  | none =>
    rw [Option.none_or]
    exact s.returns_getColor_iff "background".toList
  | some value =>
    rw [if_pos Option.isSome_some, Option.some_or, ← hcolor]
    exact s.returns_getColor_iff "background-color".toList

theorem returns_border_iff : (s.border c).Returns
    ↔ ∀ value ∈ s.get? "border".toList, IsShort value
      ∧ ∀ part ∈ partTexts value, ¬Color.HasLongChannel part := by
  unfold border
  cases s.get? "border".toList with
  | none => exact ⟨fun _ => nofun, fun _ => Noted.returns_pure _⟩
  | some value =>
    refine (Noted.returns_bind_of fun _ => Noted.returns_pure _).trans ?_
    simpa using Border.returns_read_iff c value

theorem returns_opacity : (s.opacity c).Returns := by
  unfold opacity
  split
  · exact Noted.returns_pure _
  · next value _ =>
    split
    · obtain ⟨o, ho⟩ := Resolver.returns_size c value
      rw [Noted.returns_bind]
      refine ⟨o, ho, ?_⟩
      split
      · next p =>
        obtain ⟨q, hq⟩ := Resolver.exists_toFraction (Resolver.eq_of_attempt ho)
        exact Noted.returns_bind.mpr ⟨q, hq, Noted.returns_pure _⟩
      · exact Noted.returns_pure _
    · split
      · exact Noted.returns_pure _
      · exact ⟨none, rfl⟩

theorem returns_zIndex_iff : s.zIndex.Returns
    ↔ ∀ value ∈ s.get? "z-index".toList, isInteger value = true →
      (splitSign value).2.length ≤ maxDigits := by
  unfold zIndex
  cases s.get? "z-index".toList with
  | none => exact ⟨fun _ => nofun, fun _ => Noted.returns_pure _⟩
  | some value =>
    simp only [Option.mem_some_iff, forall_eq']
    split
    · next hinteger =>
      rw [Noted.returns_bind_of fun _ => Noted.returns_pure _, Noted.returns_ofResult]
      simp only [hinteger, forall_true_left, readInteger]
      by_cases hshort : (splitSign value).2.length ≤ maxDigits
      · rw [Color.readDigits_of_short hshort]
        exact ⟨fun _ => hshort, fun _ => ⟨_, rfl⟩⟩
      · rw [Color.readDigits_of_long (not_le.mp hshort)]
        exact ⟨by rintro ⟨_, ⟨⟩⟩, fun h => absurd h hshort⟩
    · next hinteger => exact ⟨fun _ h => absurd h hinteger, fun _ => Noted.returns_pure _⟩

end Style

/-- No number that the property is read from is too long. -/
def Getter.IsShort (g : Getter) (s : Style) : Prop :=
  match g with
  | .padding =>
    ∀ value ∈ s.get? "padding".toList, Text.isBlankText value = true ∨ CssValues.IsShort value
  | .margin =>
    ∀ value ∈ s.get? "margin".toList, Text.isBlankText value = true ∨ CssValues.IsShort value
  | .color => ∀ value ∈ s.get? "color".toList, ¬Color.HasLongChannel value
  | .backgroundColor =>
    ∀ value ∈ (s.get? "background-color".toList).or (s.get? "background".toList),
      ¬Color.HasLongChannel value
  | .border =>
    ∀ value ∈ s.get? "border".toList, CssValues.IsShort value
      ∧ ∀ part ∈ partTexts value, ¬Color.HasLongChannel part
  | .zIndex =>
    ∀ value ∈ s.get? "z-index".toList, Style.isInteger value = true →
      (splitSign value).2.length ≤ maxDigits
  | _ => True

/-- **Typed properties.** Those that are sizes, lengths or an opacity never fail. -/
theorem Getter.returns_get_iff (g : Getter) (s : Style) (c : Context) :
    (g.get s c).Returns ↔ g.IsShort s := by
  have hmap : ∀ {α : Type} (x : Noted (Option α)) (f : α → Resolved),
      Noted.Returns (do return (← x).map f) ↔ x.Returns :=
    fun _ _ => Noted.returns_bind_of fun _ => Noted.returns_pure _
  cases g with
  | width | height | borderRadius | top | right | bottom | left =>
    exact (hmap _ _).trans ⟨fun _ => trivial, fun _ => s.returns_getSize c _⟩
  | minWidth | maxWidth | minHeight | maxHeight =>
    exact (hmap _ _).trans ⟨fun _ => trivial, fun _ => s.returns_getPixels c _⟩
  | padding | margin => exact (hmap _ _).trans (s.returns_getBox_iff c _)
  | color => exact (hmap _ _).trans (s.returns_getColor_iff _)
  | backgroundColor => exact (hmap _ _).trans s.returns_backgroundColor_iff
  | border => exact (hmap _ _).trans (s.returns_border_iff c)
  | opacity => exact (hmap _ _).trans ⟨fun _ => trivial, fun _ => s.returns_opacity c⟩
  | zIndex => exact (hmap _ _).trans s.returns_zIndex_iff

/-! ## Main result -/

/-- **Failure.** Reading a colour, a box shorthand, a style attribute or a typed property returns if
none of its integers has more digits than may be written, and only then. -/
theorem returns_iff_short (t : Text) (c : Context) (s : Style) (g : Getter) :
    ((Color.attempt t).Returns ↔ ¬Color.HasLongChannel t)
    ∧ ((Resolver.attempt (Resolver.box c t)).Returns ↔ Text.isBlankText t = true ∨ IsShort t)
    ∧ ((Style.read t).Returns ↔ Text.isBlankText t = true ∨ IsShort t)
    ∧ ((g.get s c).Returns ↔ g.IsShort s) :=
  ⟨Color.returns_attempt_iff t, Resolver.returns_box_iff c t, Style.returns_read_iff t,
    g.returns_get_iff s c⟩

/-- A colour whose red is one digit too long. -/
theorem attempt_color_long : ∃ f, (Color.attempt
    ("rgb(".toList ++ (List.replicate 4301 '1' ++ ",0,0)".toList))).result = .error f := by
  have hlength : (List.replicate 4301 '1').length = 4301 := List.length_replicate
  have hdigits : ∀ c ∈ List.replicate 4301 '1', Text.isDigit c = true :=
    fun c hc => List.eq_of_mem_replicate hc ▸ by decide
  have hsplit := Color.splitRgb?_digits hdigits (List.ne_nil_of_length_pos (by omega))
  have hlong : Color.HasLongChannel ("rgb(".toList ++ (List.replicate 4301 '1' ++ ",0,0)".toList)) :=
    ⟨_, _, _, hsplit, _, List.mem_cons_self, by rw [hlength]; decide⟩
  have hnone := mt (Color.returns_attempt_iff _).mp (not_not.mpr hlong)
  cases hresult : (Color.attempt ("rgb(".toList
      ++ (List.replicate 4301 '1' ++ ",0,0)".toList))).result with
  | ok o => exact absurd ⟨o, hresult⟩ hnone
  | error f => exact ⟨f, rfl⟩

end CssValues
