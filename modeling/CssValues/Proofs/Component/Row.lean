import CssValues.Proofs.Component.Nest
import CssValues.Proofs.Component.Parts
import CssValues.Proofs.Token.Rescan

/-!
# Rows of components

Some components of a text that was scanned token by token, with the white space around them taken
off, are written as a trimmed text that makes them up again (`exists_isRow`).
-/

namespace CssValues

open Component (Nests Kind cssAfter listCss)
open Token (Scans isSpace isNormal isBreaker scanAll)

/-! ## White space at the ends -/

/-- Components without white space at their ends, with white space around them. -/
theorem Component.exists_core (components : List Component) : ∃ before core after,
    components = before ++ core ++ after
      ∧ (∀ c ∈ before, c.isWhitespace = true) ∧ (∀ c ∈ after, c.isWhitespace = true)
      ∧ (∀ c ∈ core.head?, c.isWhitespace = false)
      ∧ ∀ c ∈ core.getLast?, c.isWhitespace = false := by
  obtain ⟨core, after, heq, hlast, hafter⟩ :=
    Text.exists_trimEnd Component.isWhitespace (components.dropWhile Component.isWhitespace)
  refine ⟨components.takeWhile Component.isWhitespace, core, after, ?_,
    fun c hc => List.mem_takeWhile_imp hc, hafter, fun c hc => ?_, hlast⟩
  · rw [List.append_assoc, ← heq, List.takeWhile_append_dropWhile]
  · refine Text.head?_dropWhile (t := components) c ?_
    rw [heq, List.head?_append, hc]
    rfl

section

variable {n : Text} {tokens more : List Token} {core components : List Component}

theorem Token.ne_whitespace {a : Token} (h : (Component.leaf a).isWhitespace = false) :
    ∀ s, a ≠ .whitespace s := by
  rintro s rfl
  cases h

/-- No white space is written in front if none stands there. -/
theorem Token.Scans.first_written (hscans : Scans n (tokens ++ more)) (hnests : Nests tokens core)
    (hfirst : ∀ c ∈ core.head?, c.isWhitespace = false) :
    ∀ d ∈ (cssAfter none (tokens.map .leaf)).head?, isSpace d = false := by
  cases core with
  | nil =>
    cases hnests
    nofun
  | cons c core =>
    obtain ⟨a, rest, rfl, hwhite⟩ := hnests.exists_first
    obtain ⟨-, u, after, -, ha⟩ := hscans.of_mem (a := a) (by simp)
    obtain ⟨e, he, hspace⟩ := ha.first (ne_whitespace (hwhite.trans (hfirst c rfl)))
    intro d hd
    rw [List.map_cons, cssAfter, List.append_assoc, Component.separator, List.nil_append,
      Component.css, List.head?_append, he] at hd
    obtain rfl : e = d := Option.some.inj hd
    exact hspace

/-- No white space is written at the end if none stands there. -/
theorem Token.Scans.last_written (hscans : Scans n (tokens ++ more)) (hnests : Nests tokens core)
    (hlast : ∀ c ∈ core.getLast?, c.isWhitespace = false) :
    ∀ d ∈ (cssAfter none (tokens.map .leaf)).getLast?, isSpace d = false := by
  induction core using List.reverseRecOn with
  | nil =>
    cases hnests
    nofun
  | append_singleton core c _ =>
    obtain ⟨front, a, rfl, hwhite⟩ := hnests.exists_last
    obtain ⟨-, u, after, -, ha⟩ := hscans.of_mem (a := a) (by simp)
    obtain ⟨e, he, hspace⟩ :=
      ha.last (ne_whitespace (hwhite.trans (hlast c List.getLast?_concat)))
    obtain ⟨k, -, hcss⟩ := Component.exists_cssAfter_append none (front.map .leaf)
    intro d hd
    rw [List.map_append, hcss, List.map_singleton, cssAfter, cssAfter, List.append_nil,
      Component.css, List.getLast?_append, List.getLast?_append, he] at hd
    obtain rfl : e = d := Option.some.inj hd
    exact hspace

end

/-! ## Rows -/

/-- Components that are written as a text without blanks around it, and that are read again. -/
structure IsRow (tokens : List Token) (core : List Component) : Prop where
  nests : Nests tokens core
  first : ∀ d ∈ (listCss core).head?, isSpace d = false
  trim : (listCss core).trim = listCss core
  normal : ∀ d ∈ listCss core, isNormal d = true
  scan (e : Text) (he : ∀ c ∈ e.head?, isBreaker c = true) :
    scanAll (listCss core ++ e) = tokens ++ scanAll e

section

variable {n : Text} {tokens more : List Token} {core components value : List Component}

/-- Nested components are written like the tokens that were scanned. -/
theorem Token.Scans.listCss_eq (hscans : Scans n (tokens ++ more)) (hnests : Nests tokens core) :
    listCss core = cssAfter none (tokens.map .leaf) := by
  refine hnests.cssAfter_eq (fun hmem => ?_) (fun a ha => ?_) none
  · -- the end of the text inside a string is written as nothing, which starts with no character
    obtain ⟨-, u, rest, -, ha⟩ := hscans.of_mem (List.mem_append_left _ hmem)
    obtain ⟨d, hd, -⟩ := ha.first nofun
    cases hd
  · exact (hscans.of_mem (List.mem_append_left _ ha)).1

theorem Token.Scans.mem_listCss (hscans : Scans n (tokens ++ more)) (hnests : Nests tokens core)
    {d : Char} (hd : d ∈ listCss core) : d ∈ n ∨ d ∈ ['"', '\\', '/', '*'] := by
  have hfront : (none : Option Kind) ≠ some (Kind.char '\\') := nofun
  rw [hscans.listCss_eq hnests] at hd
  exact hscans.mem_written hfront hd

theorem isRow_of_scans (hscans : Scans n (tokens ++ more)) (hnests : Nests tokens core)
    (hfirst : ∀ c ∈ core.head?, c.isWhitespace = false)
    (hlast : ∀ c ∈ core.getLast?, c.isWhitespace = false) (hnormal : ∀ d ∈ n, isNormal d = true)
    (hblank : ∀ d ∈ n, Text.isBlank d = true → isSpace d = true) : IsRow tokens core := by
  have hcss := hscans.listCss_eq hnests
  have hhead : ∀ d ∈ (listCss core).head?, isSpace d = false :=
    hcss ▸ hscans.first_written hnests hfirst
  have hend : ∀ d ∈ (listCss core).getLast?, isSpace d = false :=
    hcss ▸ hscans.last_written hnests hlast
  have hsolid {d : Char} (hd : d ∈ listCss core) (hspace : isSpace d = false) :
      Text.isBlank d = false := by
    rcases hscans.mem_listCss hnests hd with hmem | hmem
    · refine Bool.eq_false_iff.mpr fun hyes => ?_
      rw [hblank d hmem hyes] at hspace
      cases hspace
    · have hall : ∀ d ∈ ['"', '\\', '/', '*'], Text.isBlank d = false := by decide
      exact hall d hmem
  refine ⟨hnests, hhead, ?_, fun d hd => ?_, fun e he => ?_⟩
  · exact Text.trimWhere_of_ends (fun d hd => hsolid (List.mem_of_mem_head? hd) (hhead d hd))
      fun d hd => hsolid (List.mem_of_mem_getLast? hd) (hend d hd)
  · rcases hscans.mem_listCss hnests hd with hmem | hmem
    · exact hnormal d hmem
    · have hall : ∀ d ∈ ['"', '\\', '/', '*'], isNormal d = true := by decide
      exact hall d hmem
  · have hfront : (none : Option Kind) ≠ some (Kind.char '\\') := nofun
    rw [hcss]
    exact (hscans.scanAll_written hfront he).1

theorem Token.Scans.isSpaces (hscans : Scans n tokens) (hnests : Nests tokens components)
    {c : Component} (hc : c ∈ components) (hwhite : c.isWhitespace = true) : c.IsSpaces := by
  obtain ⟨w, rfl⟩ := Component.exists_of_isWhitespace hwhite
  obtain ⟨-, u, rest, -, ha⟩ := hscans.of_mem (hnests.mem_of_leaf hc)
  exact ⟨w, rfl, ha.proper⟩

/-- **Rows.** Some components of a text, but for the white space around them, are read again as they
are written. -/
theorem exists_isRow (hscans : Scans n tokens) (hnests : Nests tokens components)
    (hnormal : ∀ d ∈ n, isNormal d = true)
    (hblank : ∀ d ∈ n, Text.isBlank d = true → isSpace d = true) (hvalue : value <:+: components) :
    ∃ before core after inside, value = before ++ core ++ after
      ∧ (∀ c ∈ before, c.isWhitespace = true) ∧ (∀ c ∈ after, c.isWhitespace = true)
      ∧ (∀ a ∈ inside, a ∈ tokens) ∧ IsRow inside core
      ∧ (listCss value).trim = listCss core := by
  obtain ⟨left, right, rfl⟩ := hvalue
  obtain ⟨before, core, after, rfl, hbefore, hafter, hfirst, hlast⟩ := Component.exists_core value
  have hsplit : left ++ (before ++ core ++ after) ++ right
      = (left ++ before) ++ (core ++ (after ++ right)) := by simp
  have hspaces {c : Component} (hc : c ∈ left ++ (before ++ core ++ after) ++ right)
      (hwhite : c.isWhitespace = true) : c.IsSpaces := hscans.isSpaces hnests hc hwhite
  obtain ⟨front, back, rfl, -, hback⟩ := (hsplit ▸ hnests).exists_append
  obtain ⟨inside, behind, rfl, hinside, -⟩ := hback.exists_append
  obtain ⟨u, hu, hscanned⟩ := hscans.exists_suffix
  have hrow := isRow_of_scans hscanned hinside hfirst hlast (fun d hd => hnormal d (hu.mem hd))
    fun d hd => hblank d (hu.mem hd)
  refine ⟨before, core, after, inside, rfl, hbefore, hafter, fun a ha => by simp [ha], hrow, ?_⟩
  have hkind : ∀ a ∈ inside, a.kind ≠ Kind.char '\\' := fun a ha =>
    (hscanned.of_mem (List.mem_append_left _ ha)).1
  obtain ⟨s, e, heq, hs, he⟩ := Component.exists_cssAfter_spaces
    (fun c hc => hspaces (by simp [hc]) (hbefore c hc))
    (fun c hc => hinside.kind_ne_backslash hkind hc)
    fun c hc => hspaces (by simp [hc]) (hafter c hc)
  rw [listCss, heq, ← listCss]
  refine (Text.trimWhere_append ?_ ?_).trans hrow.trim
  · exact fun d hd => Token.isBlank_of_isSpace (hs d hd)
  · exact fun d hd => Token.isBlank_of_isSpace (he d hd)

end

end CssValues
