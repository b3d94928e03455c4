import CssValues.Proofs.Component.Row
import CssValues.Proofs.Declaration.Value
import CssValues.Proofs.Style.RoundTrip
import CssValues.Proofs.Token.Lowered

/-!
# Reading what was written

The properties that a plain style attribute declares are written so that they are read back
(`Style.IsPlain.readsBack`), and then so is the whole style (`Style.read_written`). Not every style
is: a name with a colon, which takes an escape, is cut at the colon.
-/

namespace CssValues

open Component (Nests listCss)
open Token (isSpace isNormal isBreaker scanAll)

namespace Style

/-! ## Rows as declarations -/

/-- The space behind the colon. -/
def space : Component := .leaf (.whitespace [' '])

section

variable {name : Text} {tokens : List Token} {core : List Component}

theorem trim_listCss_space (hrow : IsRow tokens core) :
    (listCss (space :: core)).trim = listCss core := by
  have hspace : listCss (space :: core) = [' '] ++ listCss core ++ [] := by
    rw [listCss, Component.cssAfter, List.append_nil]
    exact congrArg ([' '] ++ ·) (Component.cssAfter_of_isQuiet Component.Kind.isQuiet_whitespace core)
  rw [hspace]
  exact (Text.trimWhere_append (by decide) (List.forall_mem_nil _)).trans hrow.trim

theorem normalize_declarationText (hname : Token.IsName name) (hrow : IsRow tokens core) :
    Token.normalize (declarationText (name, listCss core))
      = declarationText (name, listCss core) := by
  refine Token.normalize_eq_self fun c hc => ?_
  rcases List.mem_append.mp hc with hc | hc
  · exact Token.isNormal_of (by decide) (hname.2 c hc)
  rcases List.mem_cons.mp hc with rfl | hc
  · rfl
  rcases List.mem_cons.mp hc with rfl | hc
  · rfl
  · exact hrow.normal c hc

/-- The tokens of a declaration are the same if a semicolon follows. -/
theorem scanAll_declarationText (hname : Token.IsName name) (hrow : IsRow tokens core)
    (hne : listCss core ≠ []) {e : Text} (he : ∀ c ∈ e.head?, isBreaker c = true) :
    scanAll (declarationText (name, listCss core) ++ e)
      = .ident name :: .literal [':'] :: .whitespace [' '] :: tokens ++ scanAll e := by
  have hfirst : ∀ c ∈ (listCss core ++ e).head?, isSpace c = false := by
    intro c hc
    rw [List.head?_append_of_ne_nil _ hne] at hc
    exact hrow.first c hc
  rw [declarationText, List.append_assoc]
  refine (Token.scanAll_property hname hfirst).trans ?_
  rw [hrow.scan e he]
  rfl

theorem scanAll_declarationText_alone (hname : Token.IsName name) (hrow : IsRow tokens core)
    (hne : listCss core ≠ []) : scanAll (declarationText (name, listCss core))
      = .ident name :: .literal [':'] :: .whitespace [' '] :: tokens := by
  have hscan := scanAll_declarationText (e := []) hname hrow hne nofun
  rwa [Token.scanAll_nil, List.append_nil, List.append_nil] at hscan

theorem nests_declarationText (name : Text) (hrow : IsRow tokens core) :
    Nests (.ident name :: .literal [':'] :: .whitespace [' '] :: tokens)
      (.leaf (.ident name) :: .leaf (.literal [':']) :: space :: core) :=
  .leaf rfl (.leaf rfl (.leaf rfl hrow.nests))

theorem isClosed_of_isRow (hname : Token.IsName name) (hrow : IsRow tokens core)
    (hne : listCss core ≠ []) : IsClosed (declarationText (name, listCss core)) where
  tokens := by
    have hsemicolon : ∀ c ∈ [';'].head?, isBreaker c = true := by
      rintro c ⟨⟩
      rfl
    rw [Token.EndsAtSemicolon, normalize_declarationText hname hrow,
      scanAll_declarationText hname hrow hne hsemicolon,
      scanAll_declarationText_alone hname hrow hne, Token.scanAll_semicolon, Token.scanAll_nil]
  brackets := by
    rw [normalize_declarationText hname hrow, scanAll_declarationText_alone hname hrow hne,
      Component.IsBalanced, (nests_declarationText name hrow).foldl_step]
    rfl

theorem readsBack_of_isRow (hname : Token.IsName name) (hlower : Text.asciiLower name = name)
    (hrow : IsRow tokens core) (hne : listCss core ≠ []) (hshort : ∀ a ∈ tokens, a.fault? = none)
    (hend : ∀ c ∈ core, c.isLiteral ';' = false)
    (hvalue : Declaration.readValue? (space :: core) = some (space :: core)) :
    ReadsBack (name, listCss core) := by
  have hitems : DeclarationItem.ofText (declarationText (name, listCss core))
      = .ok [.declaration ⟨name, space :: core⟩] := by
    rw [DeclarationItem.ofText_eq_ok_iff, normalize_declarationText hname hrow,
      scanAll_declarationText_alone hname hrow hne, (nests_declarationText name hrow).ofTokens_eq,
      DeclarationItem.ofComponents_declaration name (List.forall_mem_cons.mpr ⟨rfl, hend⟩) hvalue,
      hlower]
    exact ⟨by simpa using ⟨rfl, rfl, rfl, hshort⟩, rfl⟩
  rw [ReadsBack, hitems]
  simp [declared, Except.toOption, trim_listCss_space hrow, hne]

end

/-! ## Plain attributes -/

/-- A text without escapes and comments, without blanks other than spaces, tabs and line breaks, and
without URLs and ranges of code points, in which every string and every bracket is closed. -/
structure IsPlain (t : Text) : Prop where
  slash : '\\' ∉ Token.normalize t
  comment : ¬['/', '*'] <:+: Token.normalize t
  blank : ∀ c ∈ Token.normalize t, Text.isBlank c = true → isSpace c = true
  tokens : ∀ a ∈ scanAll (Token.normalize t), a.isKept = true
  brackets : Token.bracketsMatch [] (scanAll (Token.normalize t)) = true

instance (t : Text) : Decidable (IsPlain t) :=
  decidable_of_iff ('\\' ∉ Token.normalize t ∧ ¬['/', '*'] <:+: Token.normalize t
      ∧ (∀ c ∈ Token.normalize t, Text.isBlank c = true → isSpace c = true)
      ∧ (∀ a ∈ scanAll (Token.normalize t), a.isKept = true)
      ∧ Token.bracketsMatch [] (scanAll (Token.normalize t)) = true)
    ⟨fun ⟨hslash, hcomment, hblank, htokens, hbrackets⟩ =>
        ⟨hslash, hcomment, hblank, htokens, hbrackets⟩,
      fun ⟨hslash, hcomment, hblank, htokens, hbrackets⟩ =>
        ⟨hslash, hcomment, hblank, htokens, hbrackets⟩⟩

namespace IsPlain

variable {t : Text}

theorem scans (h : IsPlain t) : Token.Scans (Token.normalize t) (scanAll (Token.normalize t)) :=
  Token.scans_scanAll h.slash (fun _ hd => Token.isNormal_of_mem_normalize hd) h.comment h.tokens

/-- An identifier of a plain text is a name that needs no escapes and has no blanks. -/
theorem isName_of_ident (h : IsPlain t) {name : Text}
    (hname : .ident name ∈ scanAll (Token.normalize t)) :
    Token.IsName name ∧ ∀ c ∈ name, Text.isBlank c = false := by
  obtain ⟨-, u, rest, hu, ha⟩ := h.scans.of_mem hname
  have hproper : Token.IsName name := ha.proper
  have hsource : (Token.ident name).css = name := Token.identCss_eq hproper
  refine ⟨hproper, fun c hc => ?_⟩
  have hspace := Token.isSpace_of_isNameChar (hproper.2 c hc)
  rcases ha.chars c (hsource.symm ▸ hc) with hmem | rfl | rfl
  · refine Bool.eq_false_iff.mpr fun hyes => ?_
    rw [h.blank c (hu.mem hmem) hyes] at hspace
    cases hspace
  · decide
  · decide

/-- Every property of a plain attribute is read back, and a semicolon ends it. -/
theorem readsBack (hplain : IsPlain t) {s : Style} (h : (read t).result = .ok s) {p : Text × Text}
    (hp : p ∈ s.properties) : ReadsBack p ∧ IsClosed (declarationText p) := by
  obtain rfl | ⟨items, hitems, rfl⟩ := eq_of_read h
  · cases hp
  obtain ⟨hshort, rfl⟩ := DeclarationItem.ofText_eq_ok_iff.mp hitems
  obtain ⟨components, hnests⟩ := Component.exists_nests hplain.brackets
  rw [hnests.ofTokens_eq] at hp
  -- the declaration that the property comes from, and the part of the text with its value
  obtain ⟨_, hq, value, hvalue, rfl⟩ := exists_of_mem_normalize hp
  obtain ⟨q, hdeclared, rfl⟩ : ∃ q ∈ declared (DeclarationItem.ofComponents components),
      (q.1, some q.2) = _ := List.mem_map.mp ((Entries.mem_putAll hq).resolve_right nofun)
  obtain rfl := Option.some.inj hvalue
  obtain ⟨hne, htrim⟩ := declared_value hdeclared
  obtain ⟨d, hd, rfl, -⟩ := exists_declaration hdeclared
  obtain ⟨name, rest, hname, hlower, hrest, hend, hread⟩ := DeclarationItem.exists_value hd
  obtain ⟨hfront, -⟩ := Declaration.readValue?_spec hread
  obtain ⟨before, core, after, inside, hsplit, hbefore, hafter, hinside, hrow, hcss⟩ :=
    exists_isRow hplain.scans hnests (fun _ hd => Token.isNormal_of_mem_normalize hd) hplain.blank
      (hfront.isInfix.trans hrest)
  obtain ⟨hproper, hsolid⟩ := hplain.isName_of_ident (hnests.mem_of_leaf hname)
  have hkey := hproper.propertyName hsolid
  have hcore : ∀ c ∈ core, c.isLiteral ';' = false := fun c hc =>
    hend c (hfront.mem (by rw [hsplit]; simp [hc]))
  have hagain : Declaration.readValue? ([space] ++ core) = some ([space] ++ core) :=
    Declaration.readValue?_again (hsplit ▸ hread) hbefore hafter (List.forall_mem_singleton.mpr rfl)
  dsimp only at hne htrim ⊢
  rw [hcss] at hne
  rw [htrim, hcss, hlower]
  exact ⟨readsBack_of_isRow hkey (Text.asciiLower_of_lower (Text.lower_lower _)) hrow hne
    (fun a ha => hshort a (hinside a ha)) hcore hagain, isClosed_of_isRow hkey hrow hne⟩

end IsPlain

/-- **Reading what was written.** A style that was read is read back as it is, in the same order,
if each of its declarations is read back by itself and a semicolon ends each but the last. It is
read back if it was read from a plain attribute. -/
theorem read_written {t : Text} {s : Style} (h : (read t).result = .ok s) :
    ((∀ p ∈ s.properties, ReadsBack p)
      → (∀ p ∈ s.properties.dropLast, IsClosed (declarationText p)) → (read s.css).result = .ok s)
    ∧ (IsPlain t → (read s.css).result = .ok s) := by
  refine ⟨read_css_of_readsBack h, fun hplain => read_css_of_readsBack h ?_ ?_⟩
  · exact fun p hp => (hplain.readsBack h hp).1
  · exact fun p hp => (hplain.readsBack h (List.mem_of_mem_dropLast hp)).2

/-- Strings with semicolons, functions, importance and a repeated name, with a URL and without. -/
theorem read_written_ordinary :
    (∃ s, (read "a: x; WIDTH: calc(1px + 2px); b: \"u;v\" !important; a: url(y)".toList).result = .ok s
      ∧ (read s.css).result = .ok s)
    ∧ ∃ s, IsPlain "a: x; WIDTH: calc(1px+2px); b: \"u;v\" !important; a: #c (d)".toList
      ∧ (read "a: x; WIDTH: calc(1px+2px); b: \"u;v\" !important; a: #c (d)".toList).result = .ok s
      ∧ (read s.css).result = .ok s := by
  have hproperties : (read "a: x; WIDTH: calc(1px + 2px); b: \"u;v\" !important; a: url(y)".toList
      ).result.toOption.map properties = some [("a".toList, "url(y)".toList),
        ("width".toList, "calc(1px + 2px)".toList), ("b".toList, "\"u;v\"".toList)] := by
    decide +kernel
  have hok : (read "a: x; WIDTH: calc(1px+2px); b: \"u;v\" !important; a: #c (d)".toList
      ).result.toOption.isSome = true := by
    decide +kernel
  have hplain : IsPlain "a: x; WIDTH: calc(1px+2px); b: \"u;v\" !important; a: #c (d)".toList := by
    decide +kernel
  constructor
  · cases hread : (read "a: x; WIDTH: calc(1px + 2px); b: \"u;v\" !important; a: url(y)".toList
        ).result with
    | error f =>
      rw [hread] at hproperties
      cases hproperties
    | ok s =>
      rw [hread] at hproperties
      have hproperties := Option.some.inj hproperties
      refine ⟨s, rfl, (read_written hread).1 ?_ ?_⟩
      · rw [hproperties]
        decide +kernel
      · rw [hproperties]
        decide +kernel
  · cases hread : (read "a: x; WIDTH: calc(1px+2px); b: \"u;v\" !important; a: #c (d)".toList
        ).result with
    | error f =>
      rw [hread] at hok
      cases hok
    | ok s => exact ⟨s, hplain, rfl, (read_written hread).2 hplain⟩

/-- Not every style is read back: a name with a colon is cut at the colon. -/
theorem read_written_colon :
    ¬∀ (t : Text) (s : Style), (read t).result = .ok s →
      ∃ r, (read s.css).result = .ok r ∧ r.equals s = true := by
  intro h
  have hagain : ((read "a\\:b: c".toList).result.toOption.bind fun s =>
      (read s.css).result.toOption.map fun r => r.equals s) = some false := by
    decide +kernel
  cases hread : (read "a\\:b: c".toList).result with
  | error f =>
    rw [hread] at hagain
    cases hagain
  | ok s =>
    obtain ⟨r, hr, hequal⟩ := h _ s hread
    rw [hread] at hagain
    simp only [Except.toOption, Option.bind_some, hr, Option.map_some, hequal] at hagain
    cases hagain

end Style

end CssValues
