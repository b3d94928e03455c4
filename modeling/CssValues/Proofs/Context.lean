import CssValues.Proofs.Calc
import CssValues.Proofs.Number.Order
import CssValues.Proofs.Spelling
import CssValues.Proofs.Unit
import CssValues.Proofs.Resolver
import CssValues.Style.Getter

/-!
# What resolving reads of a context

Every unit reads some fields of a context, and a text the fields of its units. Contexts whose fields
there are equal as numbers, be they integers or doubles, resolve the text to the very same
(`Resolver.congr_of_agreesOn`).
-/

namespace CssValues

/-! ## Contexts that agree -/

namespace Context

/-- The parameters of a context. -/
inductive Field where
  | viewportWidth
  | viewportHeight
  | fontSize
  deriving DecidableEq

def get (c : Context) : Field → Dimension
  | .viewportWidth => c.viewportWidth
  | .viewportHeight => c.viewportHeight
  | .fontSize => c.fontSize

/-- The contexts have equal numbers in the given fields. -/
def AgreesOn (fields : List Field) (c d : Context) : Prop :=
  ∀ f ∈ fields, (c.get f).value.equals (d.get f).value = true

instance (fields : List Field) (c d : Context) : Decidable (AgreesOn fields c d) :=
  inferInstanceAs (Decidable (∀ f ∈ fields, _))

variable {fields more : List Field} {c d : Context}

theorem AgreesOn.append_left (h : AgreesOn (fields ++ more) c d) : AgreesOn fields c d :=
  fun f hf => h f (List.mem_append_left _ hf)

theorem AgreesOn.append_right (h : AgreesOn (fields ++ more) c d) : AgreesOn more c d :=
  fun f hf => h f (List.mem_append_right _ hf)

/-- A field where the contexts agree stands at one positive place on the number line. -/
theorem AgreesOn.exists_isAt (h : AgreesOn fields c d) {f : Field} (hf : f ∈ fields) :
    ∃ q, 0 < q ∧ (c.get f).value.IsAt q ∧ (d.get f).value.IsAt q := by
  obtain ⟨p, hp, hpos⟩ := Number.exists_isAt_of_isDimension (c.get f).isDimension
  obtain ⟨q, hq, -⟩ := Number.exists_isAt_of_isDimension (d.get f).isDimension
  obtain rfl : p = q := (Number.equals_iff hp hq).mp (h f hf)
  exact ⟨p, hpos, hp, hq⟩

end Context

open Context (AgreesOn)

/-! ## Units -/

/-- The fields of a context that a unit is measured by. -/
def LengthUnit.fields : LengthUnit → List Context.Field
  | .em | .rem | .ch | .ex => [.fontSize]
  | .vw => [.viewportWidth]
  | .vh => [.viewportHeight]
  | .vmin | .vmax => [.viewportWidth, .viewportHeight]
  | .px | .pt | .pc | .inch | .cm | .mm => []

def TermUnit.fields : TermUnit → List Context.Field
  | .length u => u.fields
  | .percent => []

/-- The fields that the two terms of a calculation are measured by. -/
def CalcExpression.fields (e : CalcExpression) : List Context.Field :=
  e.left.unit.fields ++ e.right.unit.fields

section

variable {c d : Context}

/-- A unit that is measured by the context has equal factors, smaller and larger sides included. -/
theorem LengthUnit.exists_isAt_factor {u : LengthUnit} (h : AgreesOn u.fields c d)
    (hrelative : u.fields ≠ []) :
    ∃ q, 0 < q ∧ (u.factor c).IsAt q ∧ (u.factor d).IsAt q := by
  have hfield : ∀ f ∈ u.fields, ∃ q, 0 < q ∧ (c.get f).value.IsAt q ∧ (d.get f).value.IsAt q :=
    fun _ => h.exists_isAt
  cases u with
  | px | pt | pc | inch | cm | mm => exact absurd rfl hrelative
  | em | rem | ch | ex => exact hfield .fontSize (List.mem_singleton_self _)
  | vw => exact hfield .viewportWidth (List.mem_singleton_self _)
  | vh => exact hfield .viewportHeight (List.mem_singleton_self _)
  | vmin =>
    obtain ⟨p, hp, hpc, hpd⟩ := hfield .viewportWidth (by simp [fields])
    obtain ⟨q, hq, hqc, hqd⟩ := hfield .viewportHeight (by simp [fields])
    exact ⟨min p q, lt_min hp hq, Number.isAt_min hpc hqc, Number.isAt_min hpd hqd⟩
  | vmax =>
    obtain ⟨p, hp, hpc, hpd⟩ := hfield .viewportWidth (by simp [fields])
    obtain ⟨q, hq, hqc, hqd⟩ := hfield .viewportHeight (by simp [fields])
    exact ⟨max p q, lt_max_of_lt_left hp, Number.isAt_max hpc hqc, Number.isAt_max hpd hqd⟩

theorem LengthUnit.toDouble_factor_congr {u : LengthUnit} (h : AgreesOn u.fields c d) :
    (u.factor c).toDouble = (u.factor d).toDouble := by
  by_cases hrelative : u.fields = []
  · cases u <;> first | rfl | cases hrelative
  · obtain ⟨q, hq, hc, hd⟩ := exists_isAt_factor h hrelative
    rw [Number.toDouble_of_isAt hc hq, Number.toDouble_of_isAt hd hq]

/-- **Units.** A double has the same size in contexts that agree on the fields of its unit. -/
theorem LengthUnit.toPixels_congr {u : LengthUnit} (h : AgreesOn u.fields c d) (x : Binary64) :
    u.toPixels (.double x) c = u.toPixels (.double x) d := by
  obtain ⟨f, hf, -⟩ := Number.exists_toDouble (u.factor_hasFiniteDouble c)
  have hproduct : (Number.double x).mul (u.factor c) = (Number.double x).mul (u.factor d) := by
    rw [Number.double_mul hf, Number.double_mul (toDouble_factor_congr h ▸ hf)]
  rw [toPixels, hproduct]
  rfl

theorem Term.toPixels_congr {t : Term} (ht : t.IsRead) (h : AgreesOn t.unit.fields c d) :
    t.toPixels c = t.toPixels d := by
  obtain ⟨x, hx, -⟩ := ht
  obtain ⟨value, unit⟩ := t
  subst hx
  cases unit with
  | percent => rfl
  | length u => exact LengthUnit.toPixels_congr h x

theorem CalcExpression.evaluate_congr {t : Text} {e : CalcExpression} (he : read t = .ok e)
    (h : AgreesOn e.fields c d) : e.evaluate c = e.evaluate d := by
  obtain ⟨hleft, hright⟩ := isRead_of_read he
  rw [evaluate, evaluate, Term.toPixels_congr hleft h.append_left,
    Term.toPixels_congr hright h.append_right]

theorem Length.toPixels_congr {t : Text} {l : Length} (hl : read t = .ok l)
    (h : AgreesOn l.unit.fields c d) : l.toPixels c = l.toPixels d := by
  obtain ⟨x, hx, -, heq, -, -⟩ := exists_double_of_read hl
  rw [heq]
  exact LengthUnit.toPixels_congr h x

end

/-! ## Texts -/

theorem CalcExpression.read_trim (t : Text) : read t.trim = read t := by
  simp only [read, CalcSource.ofText?, CalcSource.body?, Text.trim_trim]

theorem Length.read_trim (t : Text) : read t.trim = read t := by
  simp only [read, Text.trim_trim]

/-- A calculation that is read has the shape of one. -/
theorem CalcExpression.isValid_of_read {t : Text} {e : CalcExpression} (h : read t = .ok e) :
    CalcSource.isValid t = true := by
  unfold read at h
  split at h
  · cases h
  · next s hs =>
    obtain ⟨body, hbody, -⟩ := Option.map_eq_some_iff.mp hs
    simp [CalcSource.isValid, hbody]

namespace Resolver

/-- The fields that the units of a text are measured by: those of a length, or of both terms of a
calculation. -/
def pixelFields (t : Text) : List Context.Field :=
  match CalcExpression.read t, Length.read t with
  | .ok e, _ => e.fields
  | .error _, .ok l => l.unit.fields
  | .error _, .error _ => []

/-- The fields that a text is measured by as a size; a percentage less a length needs none. -/
def sizeFields (t : Text) : List Context.Field :=
  match CalcExpression.read t with
  | .ok e => if e.isPercentageMinusPixels then [] else pixelFields t
  | .error _ => pixelFields t

theorem pixelFields_of_calc {t : Text} {e : CalcExpression} (h : CalcExpression.read t = .ok e) :
    pixelFields t = e.fields := by
  rw [pixelFields, h]

variable {c d : Context} {t : Text}

theorem calculation_congr (h : AgreesOn (pixelFields t) c d) : calculation c t = calculation d t := by
  unfold calculation
  cases he : CalcExpression.read t with
  | error why => rfl
  | ok e =>
    dsimp only
    rw [CalcExpression.evaluate_congr he (pixelFields_of_calc he ▸ h)]

/-- A length is measured by the fields of its text. -/
theorem toPixels_congr {l : Length} (hl : Length.read t = .ok l)
    (hvalid : CalcSource.isValid t = false) (h : AgreesOn (pixelFields t) c d) :
    l.toPixels c = l.toPixels d := by
  refine Length.toPixels_congr hl ?_
  unfold pixelFields at h
  rw [hl] at h
  cases he : CalcExpression.read t with
  | ok e =>
    rw [CalcExpression.isValid_of_read he] at hvalid
    cases hvalid
  | error why => rwa [he] at h

theorem pixelFields_trim (t : Text) : pixelFields t.trim = pixelFields t := by
  rw [pixelFields, CalcExpression.read_trim, Length.read_trim, pixelFields]

theorem pixels_congr (h : AgreesOn (pixelFields t) c d) : pixels c t = pixels d t := by
  rw [← pixelFields_trim] at h
  unfold pixels
  dsimp only
  split
  · exact calculation_congr h
  · next hvalid =>
    cases hl : Length.read t.trim with
    | error why => cases why <;> rfl
    | ok l =>
      dsimp only
      rw [toPixels_congr hl (Bool.eq_false_iff.mpr hvalid) h]

theorem sizeFields_trim (t : Text) : sizeFields t.trim = sizeFields t := by
  rw [sizeFields, CalcExpression.read_trim, pixelFields_trim, sizeFields]

theorem calcSize_congr {s : Text} (h : AgreesOn (sizeFields t) c d) :
    calcSize c s t = calcSize d s t := by
  unfold calcSize
  unfold sizeFields at h
  cases he : CalcExpression.read t with
  | error why => rfl
  | ok e =>
    rw [he] at h
    dsimp only at h ⊢
    by_cases hshare : e.isPercentageMinusPixels = true
    · rw [if_pos hshare, if_pos hshare]
    · rw [if_neg hshare, pixelFields_of_calc he] at h
      rw [if_neg hshare, if_neg hshare, CalcExpression.evaluate_congr he h]

/-- What has not the shape of a calculation is measured as a size by all its fields. -/
theorem sizeFields_of_not_valid (h : CalcSource.isValid t = false) :
    sizeFields t = pixelFields t := by
  unfold sizeFields
  split
  · next e he =>
    rw [CalcExpression.isValid_of_read he] at h
    cases h
  · rfl

theorem size_congr (h : AgreesOn (sizeFields t) c d) : size c t = size d t := by
  rw [← sizeFields_trim] at h
  unfold size
  dsimp only
  split
  · rfl
  split
  · exact calcSize_congr h
  next hvalid =>
  have hvalid : CalcSource.isValid t.trim = false := Bool.eq_false_iff.mpr hvalid
  rw [sizeFields_of_not_valid hvalid] at h
  split
  · rfl
  split
  · rfl
  · cases hl : Length.read t.trim with
    | error why => cases why <;> rfl
    | ok l =>
      dsimp only
      rw [toPixels_congr hl hvalid h]

theorem spacingOr_congr (h : AgreesOn (pixelFields t) c d) (fallback : Value) :
    spacingOr c fallback (.text t) = spacingOr d fallback (.text t) := by
  simp only [spacingOr, onText, spacing, pixels_congr h]

end Resolver

/-! ## Plain pixels -/

namespace Style

theorem splitMantissa?_of_isPlainPixels {t : Text} (h : isPlainPixels t = true) :
    ∃ number unitName, splitMantissa? t = some (number, unitName)
      ∧ (unitName = [] ∨ unitName = ['p', 'x']) := by
  unfold isPlainPixels at h
  obtain ⟨hwhole, hrest⟩ := Bool.and_eq_true_iff.mp h
  have hwhole : (t.takeWhile Text.isDigit).isEmpty = false := by simpa using hwhole
  unfold splitMantissa?
  dsimp only at hrest ⊢
  generalize t.dropWhile Text.isDigit = rest at hrest ⊢
  split at hrest
  · next more =>
    obtain ⟨-, hend⟩ := Bool.and_eq_true_iff.mp hrest
    simp only [hwhole, Bool.false_and, Bool.false_eq_true, if_false]
    exact ⟨_, _, rfl, by simpa using hend⟩
  · next hdot =>
    simp only [hwhole, Bool.false_eq_true, if_false]
    exact ⟨_, _, rfl, by simpa using hrest⟩

/-- A plain number of pixels is a number and `px` or nothing behind it. -/
theorem splitNumber?_of_isPlainPixels {t : Text} (h : isPlainPixels t = true) :
    ∃ number unitName, splitNumber? t = some (number, unitName)
      ∧ (unitName = [] ∨ unitName = ['p', 'x']) := by
  obtain ⟨number, unitName, hsplit, hunit⟩ := splitMantissa?_of_isPlainPixels h
  obtain ⟨l, hnone, rfl, rfl⟩ := Literal.exists_of_splitMantissa? hsplit
  have hend : EndsNumeral unitName := by
    rcases hunit with rfl | rfl
    · exact endsNumeral_nil
    · exact endsNumeral_letters rfl rfl []
  rw [← Literal.text_of_exponent_none hnone]
  exact ⟨l.text, unitName, l.splitNumber?_text .absent hend, hunit⟩

theorem isFigure_of_isPlainPixels {t : Text} (h : isPlainPixels t = true) :
    ∀ c ∈ t, isFigure c = true := by
  obtain ⟨number, unitName, hsplit, hunit⟩ := splitNumber?_of_isPlainPixels h
  obtain ⟨rfl, -, hnumber⟩ := splitNumber?_chars hsplit
  have hname : ∀ c ∈ unitName, isFigure c = true := by
    rcases hunit with rfl | rfl
    · exact List.forall_mem_nil _
    · decide
  exact fun c hc => (List.mem_append.mp hc).elim
    (fun hc => isFigure_of_isNumberChar (hnumber c hc)) (hname c)

/-- Plain pixels are in pixels, and need no context. -/
theorem sizeFields_of_isPlainPixels {t : Text} (h : isPlainPixels t = true) :
    Resolver.sizeFields t = [] := by
  have hfigure := isFigure_of_isPlainPixels h
  have htrim : t.trim = t :=
    Text.trimWhere_of_none fun c hc => isBlank_of_isFigure (hfigure c hc)
  have hvalid : CalcSource.isValid t = false := by
    rw [← Bool.not_eq_true]
    intro hvalid
    obtain ⟨body, hbody⟩ := Option.isSome_iff_exists.mp hvalid
    have hmem : '(' ∈ t := by
      rw [← htrim, (CalcSource.body?_eq_some hbody).1]
      simp [CalcSource.opening]
    exact absurd (hfigure _ hmem) (by decide)
  have hpx : ∀ l, Length.read t = .ok l → l.unit = .px := by
    intro l hl
    obtain ⟨number, unitName, hsplit, hunit⟩ := splitNumber?_of_isPlainPixels h
    obtain ⟨_, _, -, hparts, -, hread, -⟩ := Length.exists_parts hl
    rw [htrim, hsplit] at hparts
    cases hparts
    rcases hread with ⟨-, hread⟩ | hread
    · exact hread
    · rcases hunit with rfl | rfl
      · have hnone : LengthUnit.lookup? [] = none := rfl
        rw [hnone] at hread
        cases hread
      · exact LengthUnit.name_inj ((LengthUnit.lookup?_eq_some_iff rfl).mp hread).symm
  rw [Resolver.sizeFields_of_not_valid hvalid, Resolver.pixelFields]
  split
  · next e he =>
    rw [CalcExpression.isValid_of_read he] at hvalid
    cases hvalid
  · next l _ hl =>
    rw [hpx l hl]
    rfl
  · rfl

theorem getPixels_congr (s : Style) (c d : Context) (name : Text) :
    s.getPixels c name = s.getPixels d name := by
  unfold getPixels
  cases s.get? name with
  | none => rfl
  | some value =>
    dsimp only
    split
    · next hplain =>
      have hnone : AgreesOn (Resolver.sizeFields value) c d := by
        rw [sizeFields_of_isPlainPixels hplain]
        nofun
      rw [Resolver.size_congr hnone]
    · rfl

end Style

/-! ## Main result -/

/-- **Locality.** Contexts that agree on the fields of the units of a text resolve it to the same, as
a size, as pixels and as a spacing; the least and greatest sides need no context. -/
theorem Resolver.congr_of_agreesOn (c d : Context) :
    (∀ t : Text, AgreesOn (sizeFields t) c d → size c t = size d t)
    ∧ (∀ t : Text, AgreesOn (pixelFields t) c d → pixels c t = pixels d t
      ∧ ∀ fallback, spacingOr c fallback (.text t) = spacingOr d fallback (.text t))
    ∧ ∀ (s : Style) (g : Getter), g ∈ [.minWidth, .maxWidth, .minHeight, .maxHeight] →
      g.get s c = g.get s d := by
  refine ⟨fun t h => size_congr h, fun t h => ⟨pixels_congr h, spacingOr_congr h⟩, ?_⟩
  intro s g hg
  simp only [List.mem_cons, List.not_mem_nil, or_false] at hg
  rcases hg with rfl | rfl | rfl | rfl
  all_goals
    simp only [Getter.get]
    rw [Style.getPixels_congr]

/-- A viewport of the same width, given as a double, and of another height. -/
def Context.narrow : Context where
  viewportWidth := ⟨.double (Binary64.ofInt 1920), by decide +kernel⟩
  viewportHeight := ⟨1, by decide +kernel⟩
  fontSize := Context.default.fontSize

/-- The height is read by neither text, and of a percentage less a length nothing is read. -/
theorem Resolver.congr_of_agreesOn_narrow :
    (∃ n, pixels .default "calc(50VW + 1.5ex)".toList = .ok n
      ∧ pixels .narrow "calc(50VW + 1.5ex)".toList = .ok n)
    ∧ (∃ r, size .default "calc(100% - 1vmin)".toList = .ok r
      ∧ size .narrow "calc(100% - 1vmin)".toList = .ok r)
    ∧ ∀ s : Style, Getter.minWidth.get s .default = Getter.minWidth.get s .narrow := by
  obtain ⟨hsize, hpixels, hget⟩ := congr_of_agreesOn .default .narrow
  refine ⟨?_, ?_, fun s => hget s .minWidth (by decide)⟩
  · obtain ⟨n, hn⟩ := exists_of_isOk (r := pixels .default "calc(50VW + 1.5ex)".toList)
      (by decide +kernel)
    exact ⟨n, hn, (hpixels "calc(50VW + 1.5ex)".toList (by decide +kernel)).1 ▸ hn⟩
  · obtain ⟨r, hr⟩ := exists_of_isOk (r := size .default "calc(100% - 1vmin)".toList)
      (by decide +kernel)
    exact ⟨r, hr, hsize "calc(100% - 1vmin)".toList (by decide +kernel) ▸ hr⟩

end CssValues
