import CssValues.Proofs.Declaration
import CssValues.Proofs.Resolver
import CssValues.Style.Getter

/-!
# Widths in a style attribute

A size that stands in a style attribute goes through the tokens of style text, which are put
together again to the value of the property. `Style.width_read` says exactly when the width is the
size: when the tokens are written as they were read. Operators of a calculation without spaces
around them are not, and neither are numbers with a point at their end.
-/

namespace CssValues

/-! ## Spaces in front -/

namespace Token

/-- White space in front of tokens has no part in whether their text is kept. -/
theorem keepsText_cons_whitespace (t : Text) (tokens : List Token) :
    KeepsText (.whitespace t :: tokens) ↔ KeepsText tokens := by
  have hapart := isChain_cons_of_isQuiet Component.Kind.isQuiet_whitespace (tokens.map kind)
  constructor
  · rintro ⟨hshort, hunits, hchain⟩
    exact ⟨(List.forall_mem_cons.mp hshort).2, (List.forall_mem_cons.mp hunits).2,
      hapart.mp hchain⟩
  · rintro ⟨hshort, hunits, hchain⟩
    exact ⟨List.forall_mem_cons.mpr ⟨rfl, hshort⟩, List.forall_mem_cons.mpr ⟨rfl, hunits⟩,
      hapart.mpr hchain⟩

theorem keepsText_dropSpaces (t : Text) :
    KeepsText (scanAll (t.dropWhile isSpace)) ↔ KeepsText (scanAll t) := by
  rcases scanAll_eq_or t with heq | ⟨s, -, heq⟩
  · rw [heq]
  · rw [heq, keepsText_cons_whitespace]

/-- The tokens of a width: the name, a colon, the spaces behind it, and the value. -/
theorem scanAll_width (t : Text) :
    scanAll ("width: ".toList ++ t) = .ident "width".toList :: .literal [':']
      :: .whitespace (' ' :: t.takeWhile isSpace) :: scanAll (t.dropWhile isSpace) := by
  have hname := scanAll_name (⟨rfl, by decide⟩ : IsName "width".toList) (' ' :: t)
  rw [scanAll_space rfl] at hname
  exact hname

end Token

/-! ## The style of a width -/

/-- The tokens of the value of a width, spaces in front apart. -/
def valueTokens (v : Text) : List Token :=
  Token.scanAll ((Token.normalize v).dropWhile Token.isSpace)

/-- The value as the style of a width holds it: its tokens written again. -/
def writtenWidth (v : Text) : Text :=
  (Component.cssAfter none ((valueTokens v).map .leaf)).trim

section

variable {v : Text}

theorem Token.ofText_width (v : Text) :
    ofText ("width: ".toList ++ v) = match (valueTokens v).findSome? fault? with
      | some f => .error f
      | none => .ok (.ident "width".toList :: .literal [':']
        :: .whitespace (' ' :: (normalize v).takeWhile isSpace) :: valueTokens v) := by
  have hnormal : normalize ("width: ".toList ++ v) = "width: ".toList ++ normalize v := by
    rw [normalize_append (.inl (by decide)), normalize_eq_self (by decide)]
  rw [ofText, hnormal, scanAll_width]
  rfl

/-- A number that is too long is a fault of the whole attribute. -/
theorem Style.read_width_of_long (h : ¬∀ t ∈ valueTokens v, t.fault? = none) :
    ∃ f, (read ("width: ".toList ++ v)).result = .error f := by
  cases hfind : (valueTokens v).findSome? Token.fault? with
  | none => exact absurd (List.findSome?_eq_none_iff.mp hfind) h
  | some f =>
    refine ⟨f, ?_⟩
    have hitems : DeclarationItem.ofText ("width: ".toList ++ v) = .error f := by
      rw [DeclarationItem.ofText, Component.ofText, Token.ofText_width, hfind]
      rfl
    have hblank : Text.isBlankText ("width: ".toList ++ v) = false := rfl
    rw [read, hblank, hitems]
    rfl

/-- The style of a width, if no number is too long. -/
theorem Style.read_width_of_short (hlaid : IsLaidOut (Token.normalize v))
    (hshort : ∀ t ∈ valueTokens v, t.fault? = none) (hne : writtenWidth v ≠ []) :
    (read ("width: ".toList ++ v)).result = .ok ⟨[("width".toList, writtenWidth v)]⟩ := by
  obtain ⟨components, hreads, hcss⟩ := Component.exists_reads hlaid.dropSpaces
  have hspaces : ∀ c ∈ ' ' :: (Token.normalize v).takeWhile Token.isSpace,
      Token.isSpace c = true :=
    List.forall_mem_cons.mpr ⟨rfl, fun c hc => List.mem_takeWhile_imp hc⟩
  generalize hw : ' ' :: (Token.normalize v).takeWhile Token.isSpace = w at hspaces
  have hitems : DeclarationItem.ofText ("width: ".toList ++ v)
      = .ok [.declaration ⟨"width".toList, .leaf (.whitespace w) :: components⟩] := by
    have htop : ∀ c ∈ .leaf (.whitespace w) :: components, c.IsTop :=
      List.forall_mem_cons.mpr ⟨.leaf (.whitespace hspaces), hreads.top⟩
    have hcomponents : Component.ofTokens (.ident "width".toList :: .literal [':']
        :: .whitespace w :: valueTokens v)
        = .leaf (.ident "width".toList) :: .leaf (.literal [':'])
          :: .leaf (.whitespace w) :: components := by
      rw [Component.ofTokens, List.foldl_cons, List.foldl_cons, List.foldl_cons, valueTokens,
        hreads.step]
      simp [Component.Reading.finish, Component.Reading.start, Component.Reading.step,
        Component.Reading.push]
    rw [DeclarationItem.ofText, Component.ofText, Token.ofText_width,
      List.findSome?_eq_none_iff.mpr hshort, hw]
    simp only [bind, Except.bind, pure, Except.pure, hcomponents,
      DeclarationItem.ofComponents_simple _ htop]
    rfl
  have hvalue : (Component.listCss (.leaf (.whitespace w) :: components)).trim
      = writtenWidth v := by
    have hlist : Component.listCss (.leaf (.whitespace w) :: components)
        = w ++ Component.cssAfter none ((valueTokens v).map .leaf) := by
      rw [Component.listCss, Component.cssAfter, valueTokens, ← hcss none]
      exact congrArg (w ++ ·) (Component.cssAfter_of_isQuiet Component.Kind.isQuiet_whitespace _)
    have hblank : ∀ c ∈ w, Text.isBlank c = true := fun c hc =>
      Token.isBlank_of_isSpace (hspaces c hc)
    have htrim := Text.trimWhere_append (t := Component.cssAfter none ((valueTokens v).map .leaf))
      hblank (List.forall_mem_nil _)
    rw [List.append_nil] at htrim
    rw [hlist]
    exact htrim
  have htake : take [] ("width".toList, some (writtenWidth v))
      = [("width".toList, writtenWidth v)] := by
    have hblank : Text.isBlankText (writtenWidth v) = false := Text.isBlankText_trim hne
    have hwidth : Text.isBlankText "width".toList = false := rfl
    have hname : propertyName "width".toList = "width".toList :=
      Text.lower_eq_self (by decide) (by decide)
    have htrim : (writtenWidth v).trim = writtenWidth v := Text.trimWhere_trimWhere
    simp only [take, hblank, hwidth, hname, htrim, Bool.or_self, Bool.false_eq_true, if_false]
    rfl
  have hempty : (writtenWidth v).isEmpty = false := by simpa using hne
  have hread : Text.isBlankText ("width: ".toList ++ v) = false := rfl
  rw [read, hread, hitems]
  simp only [List.filterMap_cons, List.filterMap_nil, itemPair, hvalue, hempty, Bool.false_eq_true,
    if_false]
  exact congrArg (fun properties => Except.ok (Style.mk properties)) htake

/-! ## The width of that style -/

theorem Getter.result_width (c : Context) (value : Text) :
    (width.get ⟨[("width".toList, value)]⟩ c).result
      = (Resolver.attempt (Resolver.size c value)).result.map (Option.map Size.toResolved) := by
  have hname : Text.lower "width".toList = "width".toList :=
    Text.lower_eq_self (by decide) (by decide)
  have hvalue : Style.get? ⟨[("width".toList, value)]⟩ "width".toList = some value := by
    rw [Style.get?, hname]
    rfl
  unfold get
  simp only [Style.getSize, hvalue, Noted.result_bind]
  cases (Resolver.attempt (Resolver.size c value)).result <;> rfl

theorem writtenWidth_of_keepsText (hlaid : IsLaidOut (Token.normalize v))
    (h : Token.KeepsText (valueTokens v)) : writtenWidth v = (Token.normalize v).trim := by
  obtain ⟨hsimple, hsource⟩ := Token.scanAll_simple hlaid.dropSpaces.isTame
  have hblank : ∀ c ∈ (Token.normalize v).takeWhile Token.isSpace, Text.isBlank c = true :=
    fun c hc => Token.isBlank_of_isSpace (List.mem_takeWhile_imp hc)
  have htrim := Text.trimWhere_append (t := (Token.normalize v).dropWhile Token.isSpace) hblank
    (List.forall_mem_nil _)
  rw [List.append_nil, List.takeWhile_append_dropWhile] at htrim
  rw [writtenWidth, h.css_eq hsimple, valueTokens, hsource]
  exact htrim.symm

theorem slash_mem_writtenWidth (hshort : ∀ t ∈ valueTokens v, t.fault? = none)
    (h : ¬Token.KeepsText (valueTokens v)) : '/' ∈ writtenWidth v ∨ '\\' ∈ writtenWidth v :=
  (Token.slash_mem_css hshort h).imp (fun hmem => Text.mem_trimWhere hmem (by decide))
    fun hmem => Text.mem_trimWhere hmem (by decide)

/-- **Widths.** Of a value that is a size, the width in a style attribute is that size exactly if
the tokens of the value keep its text; else there is no width, or the attribute is a fault. -/
theorem Style.width_read {c : Context} {v : Text} {r : Size} (h : Resolver.size c v = .ok r) :
    (Token.KeepsText (Token.scanAll (Token.normalize v)) →
      ∃ s, (read ("width: ".toList ++ v)).result = .ok s
        ∧ (Getter.width.get s c).result = .ok (some r.toResolved))
    ∧ (¬Token.KeepsText (Token.scanAll (Token.normalize v)) →
      (∃ f, (read ("width: ".toList ++ v)).result = .error f)
      ∨ ∃ s, (read ("width: ".toList ++ v)).result = .ok s
        ∧ (Getter.width.get s c).result = .ok none) := by
  have hspelled := Resolver.spelled_of_size h
  have hlaid := IsLaidOut.of_spelled hspelled
  rw [← Token.keepsText_dropSpaces]
  constructor
  · intro hkeeps
    have hwritten := writtenWidth_of_keepsText hlaid hkeeps
    have hsize : Resolver.size c (writtenWidth v) = .ok r := by
      have hnormal := Resolver.size_of_respelled hspelled.respelled_normalize h
      rw [hwritten]
      exact Resolver.size_of_respelled (.same Text.trim_trim.symm) hnormal
    have hne : writtenWidth v ≠ [] := by
      rw [hwritten]
      exact hspelled.respelled_normalize.ne_nil hspelled
    -- the written value is the normal form, which is another spelling of `v`
    refine ⟨_, read_width_of_short hlaid hkeeps.short hne, ?_⟩
    rw [Getter.result_width, hsize]
    rfl
  · intro hkeeps
    by_cases hshort : ∀ t ∈ valueTokens v, t.fault? = none
    · have hslash := slash_mem_writtenWidth hshort hkeeps
      have hne : writtenWidth v ≠ [] := by
        intro hnil
        simp [hnil] at hslash
      refine .inr ⟨_, read_width_of_short hlaid hshort hne, ?_⟩
      rw [Getter.result_width, (Resolver.answers_size c _).attempt_eq_none fun s hs => ?_]
      · rfl
      · have hspelled := Resolver.spelled_of_size hs
        rw [writtenWidth, Text.trim_trim] at hspelled
        exact hslash.elim hspelled.slash_not_mem.1 hspelled.slash_not_mem.2
    · exact .inl (read_width_of_long hshort)

/-- A calculation with spaces around its operator is the width. -/
theorem Style.width_read_spaced :
    ∃ r s, Resolver.size .default "calc(1px + 2px)".toList = .ok r
      ∧ (read "width: calc(1px + 2px)".toList).result = .ok s
      ∧ (Getter.width.get s .default).result = .ok (some r.toResolved) := by
  have hok : (Resolver.size .default "calc(1px + 2px)".toList).toOption.isSome = true := by
    decide +kernel
  cases hr : Resolver.size .default "calc(1px + 2px)".toList with
  | error why =>
    rw [hr] at hok
    cases hok
  | ok r =>
    obtain ⟨s, hs, hwidth⟩ := (width_read hr).1 (by decide +kernel)
    exact ⟨r, s, rfl, hs, hwidth⟩

/-- Not every size is the width: a calculation without spaces around its operator is none. -/
theorem Style.width_read_unspaced :
    ¬∀ (c : Context) (v : Text) (r : Size), Resolver.size c v = .ok r →
      ∃ s, (read ("width: ".toList ++ v)).result = .ok s
        ∧ (Getter.width.get s c).result = .ok (some r.toResolved) := by
  intro h
  have hok : (Resolver.size .default "calc(1px+2px)".toList).toOption.isSome = true := by
    decide +kernel
  have hnone : ((read "width: calc(1px+2px)".toList).result.toOption.bind fun s =>
      (Getter.width.get s .default).result.toOption.join).isNone = true := by
    decide +kernel
  cases hr : Resolver.size .default "calc(1px+2px)".toList with
  | error why =>
    rw [hr] at hok
    cases hok
  | ok r =>
    obtain ⟨s, hs, hwidth⟩ := h .default "calc(1px+2px)".toList r hr
    have hread : (read "width: calc(1px+2px)".toList).result = .ok s := hs
    rw [hread] at hnone
    simp only [Except.toOption, Option.bind_some, hwidth, Option.join_some] at hnone
    cases hnone

end

end CssValues
