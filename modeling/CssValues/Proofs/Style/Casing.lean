import CssValues.Proofs.Border
import CssValues.Proofs.Resolver.Casing
import CssValues.Proofs.Style.Edges

/-!
# Styles in another case

Two styles whose values are alike but for the case of ASCII letters have the same typed properties, as
long as the same calculations in them are miscased, and the same plain numbers of pixels. Main result:
`results_of_isRecased`.
-/

namespace CssValues

open CalcSource (IsMiscased)
open Resolver (HasMiscasedPart)
open Text (asciiLower isTranscription_toLower)

/-! ## Plain pixels -/

namespace Style

/-- A text that would be a plain number of pixels in small letters, but whose `px` has a capital. -/
def IsMiscasedPixels (t : Text) : Prop := isPlainPixels t = false ∧ isPlainPixels (asciiLower t) = true

instance (t : Text) : Decidable (IsMiscasedPixels t) :=
  inferInstanceAs (Decidable (isPlainPixels t = false ∧ isPlainPixels (asciiLower t) = true))

/-- Digits have no case. -/
theorem asciiLower_digits {w : Text} (h : ∀ c ∈ w, Text.isDigit c = true) : asciiLower w = w := by
  refine Text.asciiLower_eq_self fun c hc => ?_
  rw [← Bool.not_eq_true]
  intro hletter
  have hdigit := h c hc
  rw [(Text.of_isLetter hletter).1] at hdigit
  cases hdigit

/-- A plain number of pixels is in small letters. -/
theorem asciiLower_of_isPlainPixels {t : Text} (h : isPlainPixels t = true) : asciiLower t = t := by
  have hdigits (t : Text) : asciiLower (t.takeWhile Text.isDigit) = t.takeWhile Text.isDigit :=
    asciiLower_digits fun _ hc => List.mem_takeWhile_imp hc
  have hend {t : Text} (h : (decide (t = []) || decide (t = ['p', 'x'])) = true) : asciiLower t = t := by
    rw [Bool.or_eq_true, decide_eq_true_iff, decide_eq_true_iff] at h
    rcases h with rfl | rfl <;> rfl
  have hsplit (t : Text) (hrest : asciiLower (t.dropWhile Text.isDigit) = t.dropWhile Text.isDigit) :
      asciiLower t = t := by
    conv_lhs => rw [← List.takeWhile_append_dropWhile (p := Text.isDigit) (l := t)]
    rw [Text.asciiLower_append, hdigits, hrest, List.takeWhile_append_dropWhile]
  refine hsplit t ?_
  unfold isPlainPixels at h
  obtain ⟨-, h⟩ := Bool.and_eq_true_iff.mp h
  split at h
  · next more hrest =>
    rw [hrest, Text.asciiLower_cons, hsplit more (hend (Bool.and_eq_true_iff.mp h).2)]
    rfl
  · exact hend h

end Style

/-- Two plain numbers of pixels that are alike but for case are the same. -/
theorem Text.IsRecased.eq_or_not_isPlainPixels {v v' : Text} (h : v.IsRecased v')
    (hv : ¬Style.IsMiscasedPixels v) (hv' : ¬Style.IsMiscasedPixels v') :
    v = v' ∨ Style.isPlainPixels v = false ∧ Style.isPlainPixels v' = false := by
  have hself {v : Text} (hplain : Style.isPlainPixels v = true) : asciiLower v = v :=
    Style.asciiLower_of_isPlainPixels hplain
  have hmade {v : Text} (hv : ¬Style.IsMiscasedPixels v)
      (hlower : Style.isPlainPixels (asciiLower v) = true) : Style.isPlainPixels v = true := by
    by_contra hnot
    exact hv ⟨Bool.eq_false_iff.mpr hnot, hlower⟩
  have hcase : asciiLower v = asciiLower v' := h
  cases hplain : Style.isPlainPixels v with
  | true =>
    have hplain' : Style.isPlainPixels v' = true := hmade hv' (by rw [← hcase, hself hplain, hplain])
    exact .inl (by rw [← hself hplain, hcase, hself hplain'])
  | false =>
    refine .inr ⟨rfl, Bool.eq_false_iff.mpr fun hplain' => ?_⟩
    have := hmade hv (by rw [hcase, hself hplain', hplain'])
    rw [hplain] at this
    cases this

namespace Style

/-! ## Values of a property -/

/-- Styles whose values are alike but for the case of ASCII letters. -/
def IsRecased (s s' : Style) : Prop :=
  ∀ name, (s.get? name).map asciiLower = (s'.get? name).map asciiLower

section

variable {s s' : Style} {name : Text}

theorem IsRecased.cases (h : s.IsRecased s') (name : Text) :
    s.get? name = none ∧ s'.get? name = none
      ∨ ∃ v v', s.get? name = some v ∧ s'.get? name = some v' ∧ v.IsRecased v' := by
  have hname := h name
  cases hv : s.get? name with
  | none =>
    rw [hv, Option.map_none] at hname
    exact .inl ⟨rfl, Option.map_eq_none_iff.mp hname.symm⟩
  | some v =>
    rw [hv, Option.map_some] at hname
    obtain ⟨v', hv', heq⟩ := Option.map_eq_some_iff.mp hname.symm
    exact .inr ⟨v, v', rfl, hv', heq.symm⟩

/-- A reader of values, at the value of a property. -/
theorem caseCountsIn_property {β : Type} {M : Text → Prop} {R : Text → Except Fault (Option β)}
    (h : CaseCountsIn Text.IsRecased M R) (name : Text) :
    CaseCountsIn IsRecased (fun s => ∃ v ∈ s.get? name, M v)
      fun s => (s.get? name).elim (.ok none) R where
  nothing s hs := by
    obtain ⟨v, hv, hM⟩ := hs
    rw [Option.mem_def.mp hv]
    exact h.nothing v hM
  same s s' hcase hs hs' := by
    rcases hcase.cases name with ⟨hv, hv'⟩ | ⟨v, v', hv, hv', hvalue⟩
    · rw [hv, hv']
    · rw [hv, hv']
      exact h.same v v' hvalue (fun hM => hs ⟨v, hv, hM⟩) fun hM => hs' ⟨v', hv', hM⟩

/-- Both styles have something of a kind in a property, or neither has. -/
def SameAt (M : Text → Prop) (name : Text) (s s' : Style) : Prop :=
  (∃ v ∈ s.get? name, M v) ↔ ∃ v ∈ s'.get? name, M v

variable (c : Context)

theorem result_getSize (s : Style) (name : Text) : (s.getSize c name).result
    = (s.get? name).elim (.ok none) fun v => (Resolver.attempt (Resolver.size c v)).result := by
  unfold getSize
  cases s.get? name <;> rfl

theorem caseCountsIn_getPixels (name : Text) :
    CaseCountsIn IsRecased (fun s => ∃ v ∈ s.get? name, IsMiscasedPixels v)
      fun s => (s.getPixels c name).result where
  nothing s hs := by
    obtain ⟨v, hv, hplain, -⟩ := hs
    unfold getPixels
    rw [Option.mem_def.mp hv]
    dsimp only
    rw [hplain]
    rfl
  same s s' hcase hs hs' := by
    unfold getPixels
    rcases hcase.cases name with ⟨hv, hv'⟩ | ⟨v, v', hv, hv', hvalue⟩
    · rw [hv, hv']
    · rw [hv, hv']
      rcases hvalue.eq_or_not_isPlainPixels (fun hM => hs ⟨v, hv, hM⟩) fun hM => hs' ⟨v', hv', hM⟩ with
        rfl | ⟨hplain, hplain'⟩
      · rfl
      · dsimp only
        rw [hplain, hplain']
        rfl

/-! ## Boxes -/

theorem result_getBox (s : Style) (name : Text) : (s.getBox c name).result
    = ((s.get? name).elim (.ok none) fun v => (Resolver.attempt (Resolver.box c v)).result).map
      fun shorthand => overridden shorthand fun side =>
        (s.longhand? c name side).map (Number.max 0) := by
  have hjoin (shorthand : Option BoxEdges) := result_overridden shorthand fun side =>
    (s.longhand? c name side).map (Number.max 0)
  unfold getBox
  cases s.get? name with
  | none =>
    simp only [Noted.result_bind, result_getEdge, Except.bind, Noted.result_pure]
    exact hjoin none
  | some v =>
    simp only [Noted.result_bind, result_getEdge, Except.bind, Option.elim_some]
    cases (Resolver.attempt (Resolver.box c v)).result with
    | error f => rfl
    | ok shorthand => exact hjoin shorthand

/-- The parts of both shorthands are miscased alike, and so are both longhands of each side. -/
def SameBox (name : Text) (s s' : Style) : Prop :=
  SameAt HasMiscasedPart name s s' ∧ ∀ side, SameAt IsMiscased (sideName name side) s s'

theorem longhand?_congr (h : s.IsRecased s') {side : Side}
    (hside : SameAt IsMiscased (sideName name side) s s') :
    s.longhand? c name side = s'.longhand? c name side := by
  have hresult (s : Style) : ((s.get? (sideName name side)).elim (.ok none) fun v =>
      (Resolver.attempt (Resolver.pixels c v)).result) = .ok (s.longhand? c name side) := by
    unfold longhand?
    cases s.get? (sideName name side) with
    | none => rfl
    | some v => exact (Resolver.answers_pixels c v).result_attempt
  have hcounts := caseCountsIn_property (Resolver.caseCountsIn_pixels c) (sideName name side)
  have heq := (hcounts.eq_iff h).mpr (.inl hside)
  rw [hresult, hresult] at heq
  exact Except.ok.inj heq

theorem getBox_congr (h : s.IsRecased s') (hsame : SameBox name s s') :
    (s.getBox c name).result = (s'.getBox c name).result := by
  have hcounts := caseCountsIn_property (Resolver.caseCountsIn_box c) name
  have hshorthand := (hcounts.eq_iff h).mpr (.inl hsame.1)
  have hlonghands : s.longhand? c name = s'.longhand? c name :=
    funext fun side => longhand?_congr c h (hsame.2 side)
  rw [result_getBox, result_getBox, hshorthand, hlonghands]

end

end Style

/-! ## Borders -/

/-- Whether each part of a shorthand is miscased. -/
def partCases (parts : List Text) : List Bool := parts.map fun part => decide (IsMiscased part)

namespace Border

variable {c : Context} {p q t u : Text} {ps qs : List Text}

/-- Line styles do not depend on case. -/
theorem lower_styles (h : p.IsRecased q) :
    styles.contains (Text.lower p) = styles.contains (Text.lower q)
    ∧ (styles.contains (Text.lower q) = true → Text.lower p = Text.lower q) := by
  have hascii : ∀ w ∈ styles, ∀ d ∈ w, d.toNat < 0x80 := by decide
  have hword : ∀ w ∈ styles, Text.lower p = w ↔ Text.lower q = w := fun w hw => by
    rw [← Text.lower_asciiLower_eq_iff (hascii w hw) p,
      ← Text.lower_asciiLower_eq_iff (hascii w hw) q, h]
  refine ⟨?_, fun hq => (hword _ (List.contains_iff_mem.mp hq)).mpr rfl⟩
  rw [Bool.eq_iff_iff, List.contains_iff_mem, List.contains_iff_mem]
  refine ⟨fun hp => ?_, fun hq => ?_⟩
  · rwa [(hword _ hp).mp rfl]
  · rwa [(hword _ hq).mpr rfl]

/-- **Step.** -/
theorem result_step_congr (b : Border) (h : p.IsRecased q) (hsame : IsMiscased p ↔ IsMiscased q) :
    (step c b p).result = (step c b q).result := by
  have hsize := ((Resolver.caseCountsIn_size c).eq_iff h).mpr (.inl hsame)
  have hcolor := Color.result_attempt_of_isRecased h
  obtain ⟨hmem, hstyle⟩ := lower_styles h
  unfold step
  rw [Noted.result_bind, Noted.result_bind, hsize]
  refine congrArg (Except.bind _) (funext fun o => ?_)
  split
  · rfl
  dsimp only
  rw [hmem]
  split
  · next hq => rw [hstyle hq]
  · rw [Noted.result_bind, Noted.result_bind, hcolor]
    refine congrArg (Except.bind _) (funext fun o => ?_)
    cases o <;> rfl

/-- **Run.** -/
theorem result_foldlM_congr (b : Border) (hcase : ps.map asciiLower = qs.map asciiLower)
    (hsame : partCases ps = partCases qs) :
    (ps.foldlM (step c) b).result = (qs.foldlM (step c) b).result := by
  induction ps generalizing qs b with
  | nil =>
    rw [List.map_eq_nil_iff.mp hcase.symm]
  | cons p ps ih =>
    cases qs with
    | nil => cases hcase
    | cons q qs =>
      obtain ⟨hp, hps⟩ := List.cons.inj hcase
      obtain ⟨hflag, hflags⟩ := List.cons.inj hsame
      have hstep (b : Border) : (step c b p).result = (step c b q).result :=
        result_step_congr b hp (decide_eq_decide.mp hflag)
      rw [List.foldlM_cons, List.foldlM_cons, Noted.result_bind, Noted.result_bind, hstep]
      exact congrArg (Except.bind _) (funext fun b => ih b hps hflags)

theorem result_read_congr (h : t.IsRecased u)
    (hsame : partCases (partTexts t) = partCases (partTexts u)) :
    (read c t).result = (read c u).result := by
  have hparts := (shorthandParts_asciiLower t).symm.trans
    ((congrArg (fun t => (shorthandParts t).map (List.map asciiLower)) h).trans
      (shorthandParts_asciiLower u))
  unfold read
  rw [Noted.result_bind, Noted.result_bind]
  show (shorthandParts t).bind _ = (shorthandParts u).bind _
  cases ht : shorthandParts t with
  | error f =>
    cases hu : shorthandParts u with
    | error f' =>
      rw [ht, hu] at hparts
      cases hparts
      rfl
    | ok qs =>
      rw [ht, hu] at hparts
      cases hparts
  | ok ps =>
    cases hu : shorthandParts u with
    | error f =>
      rw [ht, hu] at hparts
      cases hparts
    | ok qs =>
      rw [ht, hu] at hparts
      rw [← (shorthandParts_eq_ok ht).2, ← (shorthandParts_eq_ok hu).2] at hsame
      exact result_foldlM_congr default (Except.ok.inj hparts) hsame

end Border

namespace Style

variable {s s' : Style}

/-- The parts of both borders are miscased alike. -/
def SameBorder (s s' : Style) : Prop :=
  ∀ v ∈ s.get? "border".toList, ∀ v' ∈ s'.get? "border".toList,
    partCases (partTexts v) = partCases (partTexts v')

theorem border_congr (c : Context) (h : s.IsRecased s') (hsame : SameBorder s s') :
    (s.border c).result = (s'.border c).result := by
  unfold border
  rcases h.cases "border".toList with ⟨hv, hv'⟩ | ⟨v, v', hv, hv', hvalue⟩
  · rw [hv, hv']
  · rw [hv, hv']
    dsimp only
    rw [Noted.result_bind, Noted.result_bind, Border.result_read_congr hvalue (hsame v hv v' hv')]

/-! ## Colours, opacity and stacking order -/

theorem getColor_congr (h : s.IsRecased s') (name : Text) :
    (s.getColor name).result = (s'.getColor name).result := by
  unfold getColor
  rcases h.cases name with ⟨hv, hv'⟩ | ⟨v, v', hv, hv', hvalue⟩
  · rw [hv, hv']
  · rw [hv, hv']
    exact Color.result_attempt_of_isRecased hvalue

theorem backgroundColor_congr (h : s.IsRecased s') :
    s.backgroundColor.result = s'.backgroundColor.result := by
  have hcontains : s.contains "background-color".toList = s'.contains "background-color".toList := by
    rw [contains, contains, ← Option.isSome_map, h, Option.isSome_map]
  unfold backgroundColor
  rw [hcontains]
  split <;> exact getColor_congr h _

theorem opacity_congr (c : Context) (h : s.IsRecased s') :
    (s.opacity c).result = (s'.opacity c).result := by
  unfold opacity
  rcases h.cases "opacity".toList with ⟨hv, hv'⟩ | ⟨v, v', hv, hv', hvalue⟩
  · rw [hv, hv']
  rw [hv, hv']
  have hpercent : ['%'].isSuffixOf v = ['%'].isSuffixOf v' := by
    rw [← isTranscription_toLower.isSuffixOf_map (by decide) v,
      ← isTranscription_toLower.isSuffixOf_map (by decide) v']
    exact congrArg _ hvalue
  have hread : Binary64.read? v = Binary64.read? v' := by
    rw [← isTranscription_toLower.read?_map v, ← isTranscription_toLower.read?_map v']
    exact congrArg _ hvalue
  dsimp only
  rw [hpercent]
  split
  · next hsuffix =>
    have hsize := (Resolver.caseCountsIn_size c).same v v' hvalue
      (CalcSource.not_isMiscased_of_percent (hpercent.trans hsuffix))
      (CalcSource.not_isMiscased_of_percent hsuffix)
    rw [Noted.result_bind, Noted.result_bind, hsize]
  · rw [hread]
    cases Binary64.read? v' <;> rfl

theorem zIndex_congr (h : s.IsRecased s') : s.zIndex.result = s'.zIndex.result := by
  unfold zIndex
  rcases h.cases "z-index".toList with ⟨hv, hv'⟩ | ⟨v, v', hv, hv', hvalue⟩
  · rw [hv, hv']
  rw [hv, hv']
  have hsign (v : Text) : (splitSign (asciiLower v)).1 = (splitSign v).1
      ∧ (splitSign (asciiLower v)).2 = (splitSign v).2.map Char.toLower :=
    ⟨isTranscription_toLower.splitSign_map_fst v,
      congrArg Prod.snd (isTranscription_toLower.splitSign_map v)⟩
  have hinteger (v : Text) : isInteger (asciiLower v) = isInteger v := by
    rw [isInteger, isInteger, (hsign v).2, List.isEmpty_map,
      Text.all_map isTranscription_toLower.isDigit]
  have hread (v : Text) : readInteger (asciiLower v) = readInteger v := by
    rw [readInteger, readInteger, (hsign v).1, (hsign v).2, readDigits, readDigits, List.length_map,
      isTranscription_toLower.ofDigits_map]
  dsimp only
  rw [← hinteger v, ← hinteger v', ← hread v, ← hread v', hvalue]

end Style

/-! ## Main result -/

namespace Getter

open Style (IsMiscasedPixels SameAt SameBorder SameBox)

/-- As far as a typed property needs them, the values of two styles are miscased alike. For colours,
opacity and stacking order there is nothing to compare. -/
def SameCase (g : Getter) (s s' : Style) : Prop :=
  match g with
  | .width => SameAt IsMiscased "width".toList s s'
  | .height => SameAt IsMiscased "height".toList s s'
  | .borderRadius => SameAt IsMiscased "border-radius".toList s s'
  | .top => SameAt IsMiscased "top".toList s s'
  | .right => SameAt IsMiscased "right".toList s s'
  | .bottom => SameAt IsMiscased "bottom".toList s s'
  | .left => SameAt IsMiscased "left".toList s s'
  | .minWidth => SameAt IsMiscasedPixels "min-width".toList s s'
  | .maxWidth => SameAt IsMiscasedPixels "max-width".toList s s'
  | .minHeight => SameAt IsMiscasedPixels "min-height".toList s s'
  | .maxHeight => SameAt IsMiscasedPixels "max-height".toList s s'
  | .padding => SameBox "padding".toList s s'
  | .margin => SameBox "margin".toList s s'
  | .border => SameBorder s s'
  | .color | .backgroundColor | .opacity | .zIndex => True

/-- The typed properties that are read from one value as a whole. -/
def isWhole (g : Getter) : Bool := !([padding, margin, border].contains g)

variable {s s' : Style} (c : Context)

theorem result_map {α : Type} (x : Noted (Option α)) (f : α → Resolved) :
    Noted.result (do return (← x).map f) = x.result.map (Option.map f) := Noted.result_bind _ _

theorem map_congr {α : Type} {x y : Noted (Option α)} (h : x.result = y.result) (f : α → Resolved) :
    Noted.result (do return (← x).map f) = Noted.result (do return (← y).map f) := by
  rw [result_map, result_map, h]

theorem caseCountsIn_sizeOf (name : Text) : CaseCountsIn Style.IsRecased
    (fun s => ∃ v ∈ s.get? name, IsMiscased v)
    fun s => Noted.result (do return (← s.getSize c name).map Size.toResolved) := by
  have hcounts := (Style.caseCountsIn_property (Resolver.caseCountsIn_size c) name).map Size.toResolved
  simp only [result_map, Style.result_getSize]
  exact hcounts

theorem caseCountsIn_pixelsOf (name : Text) : CaseCountsIn Style.IsRecased
    (fun s => ∃ v ∈ s.get? name, IsMiscasedPixels v)
    fun s => Noted.result (do return (← s.getPixels c name).map Resolved.number) := by
  simp only [result_map]
  exact (Style.caseCountsIn_getPixels c name).map Resolved.number

/-- A typed property that is read from one value. -/
theorem get_eq_iff {g : Getter} (hg : g.isWhole = true) (h : s.IsRecased s') :
    (g.get s c).result = (g.get s' c).result
      ↔ g.SameCase s s' ∨ (g.get s c).result = .ok none ∧ (g.get s' c).result = .ok none := by
  cases g with
  | width | height | borderRadius | top | right | bottom | left =>
    exact (caseCountsIn_sizeOf c _).eq_iff h
  | minWidth | maxWidth | minHeight | maxHeight => exact (caseCountsIn_pixelsOf c _).eq_iff h
  | color => exact iff_of_true (map_congr (Style.getColor_congr h _) _) (.inl trivial)
  | backgroundColor => exact iff_of_true (map_congr (Style.backgroundColor_congr h) _) (.inl trivial)
  | opacity => exact iff_of_true (map_congr (Style.opacity_congr c h) _) (.inl trivial)
  | zIndex => exact iff_of_true (map_congr (Style.zIndex_congr h) _) (.inl trivial)
  | padding | margin | border => cases hg

/-- Any typed property. -/
theorem get_congr {g : Getter} (h : s.IsRecased s') (hsame : g.SameCase s s') :
    (g.get s c).result = (g.get s' c).result := by
  cases g with
  | padding | margin => exact map_congr (Style.getBox_congr c h hsame) _
  | border => exact map_congr (Style.border_congr c h hsame) _
  | _ => exact (get_eq_iff c rfl h).mpr (.inl hsame)

end Getter

/-- **Case.** For texts that are alike but for the case of ASCII letters, colours are the same. Sizes,
pixels and box shorthands are the same just if both or none of the texts are calculations whose `calc`
has a capital, or have such a part, or if both texts give nothing. For styles with such values a typed
property is the same if its values are miscased alike: as calculations, or as plain numbers of pixels
where the property has to be one. If it is read from one value as a whole and they are not, it is the
same only where both styles have nothing. -/
theorem results_of_isRecased (c : Context) :
    (∀ t u : Text, t.IsRecased u →
      (Color.attempt t).result = (Color.attempt u).result
      ∧ ((Resolver.attempt (Resolver.size c t)).result = (Resolver.attempt (Resolver.size c u)).result
        ↔ (IsMiscased t ↔ IsMiscased u) ∨ (Resolver.attempt (Resolver.size c t)).result = .ok none
          ∧ (Resolver.attempt (Resolver.size c u)).result = .ok none)
      ∧ ((Resolver.attempt (Resolver.pixels c t)).result
          = (Resolver.attempt (Resolver.pixels c u)).result
        ↔ (IsMiscased t ↔ IsMiscased u) ∨ (Resolver.attempt (Resolver.pixels c t)).result = .ok none
          ∧ (Resolver.attempt (Resolver.pixels c u)).result = .ok none)
      ∧ ((Resolver.attempt (Resolver.box c t)).result = (Resolver.attempt (Resolver.box c u)).result
        ↔ (HasMiscasedPart t ↔ HasMiscasedPart u)
          ∨ (Resolver.attempt (Resolver.box c t)).result = .ok none
            ∧ (Resolver.attempt (Resolver.box c u)).result = .ok none))
    ∧ ∀ (s s' : Style) (g : Getter), s.IsRecased s' →
      (g.SameCase s s' → (g.get s c).result = (g.get s' c).result)
      ∧ (g.isWhole = true → (g.get s c).result = (g.get s' c).result →
        g.SameCase s s' ∨ (g.get s c).result = .ok none ∧ (g.get s' c).result = .ok none) :=
  ⟨fun _ _ h => ⟨Color.result_attempt_of_isRecased h, (Resolver.caseCountsIn_size c).eq_iff h,
      (Resolver.caseCountsIn_pixels c).eq_iff h, (Resolver.caseCountsIn_box c).eq_iff h⟩,
    fun _ _ _ h => ⟨Getter.get_congr c h, fun hg => (Getter.get_eq_iff c hg h).mp⟩⟩

/-- A style of one property. -/
theorem Style.isRecased_singleton (name : Text) {v v' : Text} (h : v.IsRecased v') :
    IsRecased ⟨[(name, v)]⟩ ⟨[(name, v')]⟩ := by
  intro m
  unfold Style.get? Entries.get?
  split
  · exact congrArg some h
  · rfl

/-- A length in capitals is the same size, and a border with capitals the same border. -/
theorem results_of_isRecased_capitals :
    (Resolver.attempt (Resolver.size .default "10PX".toList)).result
      = (Resolver.attempt (Resolver.size .default "10px".toList)).result
    ∧ (Getter.border.get ⟨[("border".toList, "2PX Dashed RED".toList)]⟩ .default).result
      = (Getter.border.get ⟨[("border".toList, "2px dashed red".toList)]⟩ .default).result := by
  have hplain : IsMiscased "10PX".toList ↔ IsMiscased "10px".toList := by decide +kernel
  have hparts : partCases (partTexts "2PX Dashed RED".toList)
      = partCases (partTexts "2px dashed red".toList) := by decide +kernel
  have hname : Text.lower "border".toList = "border".toList :=
    Text.lower_eq_self (by decide) (by decide)
  have hborder : Style.SameBorder ⟨[("border".toList, "2PX Dashed RED".toList)]⟩
      ⟨[("border".toList, "2px dashed red".toList)]⟩ := by
    unfold Style.SameBorder Style.get?
    rw [hname]
    rintro _ ⟨⟩ _ ⟨⟩
    exact hparts
  have hvalue : Text.IsRecased "2PX Dashed RED".toList "2px dashed red".toList := by
    unfold Text.IsRecased
    decide +kernel
  obtain ⟨hvalues, hgetters⟩ := results_of_isRecased .default
  have hsize := (hvalues "10PX".toList "10px".toList (by unfold Text.IsRecased; decide +kernel)).2.1
  exact ⟨hsize.mpr (.inl hplain),
    (hgetters _ _ .border (Style.isRecased_singleton _ hvalue)).1 hborder⟩

/-- Case does count: a calculation and a plain number of pixels that are such only in small letters. -/
theorem results_of_isRecased_miscased :
    (¬∀ (c : Context) (t u : Text), t.IsRecased u →
      (Resolver.attempt (Resolver.size c t)).result = (Resolver.attempt (Resolver.size c u)).result)
    ∧ ¬∀ (c : Context) (s s' : Style), s.IsRecased s' →
      (Getter.minWidth.get s c).result = (Getter.minWidth.get s' c).result := by
  have hsize : (Resolver.size .default "CALC(1px + 2px)".toList).toOption.isSome = false
      ∧ (Resolver.size .default "calc(1px + 2px)".toList).toOption.isSome = true := by decide +kernel
  have hget : (Getter.minWidth.get ⟨[("min-width".toList, "100PX".toList)]⟩ .default).result.toOption.map
        Option.isSome = some false
      ∧ (Getter.minWidth.get ⟨[("min-width".toList, "100px".toList)]⟩ .default).result.toOption.map
        Option.isSome = some true := by decide +kernel
  have hcalc : Text.IsRecased "CALC(1px + 2px)".toList "calc(1px + 2px)".toList := by
    unfold Text.IsRecased
    decide +kernel
  have hvalue : Text.IsRecased "100PX".toList "100px".toList := by
    unfold Text.IsRecased
    decide +kernel
  refine ⟨fun h => ?_, fun h => ?_⟩
  · have heq := h .default _ _ hcalc
    rw [(Resolver.answers_size _ _).result_attempt, (Resolver.answers_size _ _).result_attempt] at heq
    have hsome := congrArg Option.isSome (Except.ok.inj heq)
    rw [hsize.1, hsize.2] at hsome
    cases hsome
  · have heq := h .default _ _ (Style.isRecased_singleton "min-width".toList hvalue)
    rw [heq, hget.2] at hget
    cases hget.1

end CssValues
