import CssValues.Component.Parts
import CssValues.Proofs.Component.Layout

/-!
# The parts of texts in a row

The components of spellings with spaces between them are those of the spellings one after the other,
white space apart (`Component.Lists.join`). A part is the text of its component without spaces
around it (`Component.exists_cssAfter_single`).
-/

namespace CssValues

namespace Component

open Token (scanAll isSpace)

/-! ## White space around a component -/

theorem Kind.clash_whitespace (k : Kind) : k.clash .whitespace = false := by
  simp [Kind.clash, Kind.clashes, Kind.char]

variable {c : Component}

/-- White space that is made of spaces. -/
def IsSpaces (c : Component) : Prop := ∃ w, c = .leaf (.whitespace w) ∧ ∀ d ∈ w, isSpace d = true

theorem IsTop.isSpaces (h : c.IsTop) (hwhite : c.isWhitespace = true) : c.IsSpaces := by
  cases h with
  | block _ => cases hwhite
  | function _ _ => cases hwhite
  | leaf h =>
    cases h with
    | whitespace h => exact ⟨_, rfl, h⟩
    | _ => cases hwhite

theorem IsTop.kind_ne_backslash (h : c.IsTop) : c.kind ≠ Kind.char '\\' := by
  cases h with
  | block _ => nofun
  | function _ _ => nofun
  | leaf h => exact h.kind_ne_backslash

/-- White space is written as it is. -/
theorem isSpace_of_mem_cssAfter {components : List Component}
    (h : ∀ c ∈ components, c.IsSpaces) {k : Option Kind} (hk : k ≠ some (Kind.char '\\')) :
    ∀ d ∈ cssAfter k components, isSpace d = true := by
  induction components generalizing k with
  | nil => nofun
  | cons c rest ih =>
    obtain ⟨⟨w, rfl, hw⟩, hrest⟩ := List.forall_mem_cons.mp h
    have hseparator : separator k (.leaf (.whitespace w)) = [] := by
      cases k with
      | none => rfl
      | some k => exact separator_eq_nil (Kind.clash_whitespace k) fun heq => hk (congrArg some heq)
    have hnext : some Kind.whitespace ≠ some (Kind.char '\\') := nofun
    intro d hd
    rw [cssAfter, hseparator] at hd
    rcases List.mem_append.mp hd with hd | hd
    · exact hw d hd
    · exact ih hrest hnext d hd

/-- Components with white space around them are written between spaces. -/
theorem exists_cssAfter_spaces {before core after : List Component}
    (hbefore : ∀ d ∈ before, d.IsSpaces) (hcore : ∀ d ∈ core, d.kind ≠ Kind.char '\\')
    (hafter : ∀ d ∈ after, d.IsSpaces) :
    ∃ s e, cssAfter none (before ++ core ++ after) = s ++ cssAfter none core ++ e
      ∧ (∀ d ∈ s, isSpace d = true) ∧ ∀ d ∈ e, isSpace d = true := by
  obtain ⟨k, hk, hcss⟩ := exists_cssAfter_append none core
  have hspaces : ∀ d ∈ cssAfter k after, isSpace d = true := by
    refine isSpace_of_mem_cssAfter hafter ?_
    rcases hk with rfl | ⟨d, hd, rfl⟩
    · nofun
    · exact fun heq => hcore d hd (Option.some.inj heq)
  induction before with
  | nil => exact ⟨[], _, hcss after, List.forall_mem_nil _, hspaces⟩
  | cons d rest ih =>
    obtain ⟨⟨w, rfl, hw⟩, hrest⟩ := List.forall_mem_cons.mp hbefore
    obtain ⟨s, e, heq, hs, he⟩ := ih hrest
    refine ⟨w ++ s, e, ?_, fun d hd => (List.mem_append.mp hd).elim (hw d) (hs d), he⟩
    have hquiet := cssAfter_of_isQuiet Kind.isQuiet_whitespace (rest ++ core ++ after)
    rw [heq] at hquiet
    rw [List.cons_append, List.cons_append, cssAfter]
    simp only [List.append_assoc] at hquiet ⊢
    exact congrArg (w ++ ·) hquiet

/-- A component with white space around it is written as it is between spaces. -/
theorem exists_cssAfter_single {before after : List Component}
    (htop : ∀ d ∈ before ++ c :: after, d.IsTop)
    (hbefore : ∀ d ∈ before, d.isWhitespace = true)
    (hafter : ∀ d ∈ after, d.isWhitespace = true) :
    ∃ s e, cssAfter none (before ++ c :: after) = s ++ c.css ++ e
      ∧ (∀ d ∈ s, isSpace d = true) ∧ ∀ d ∈ e, isSpace d = true := by
  obtain ⟨hfront, hback⟩ := List.forall_mem_append.mp htop
  obtain ⟨hc, hrest⟩ := List.forall_mem_cons.mp hback
  obtain ⟨s, e, heq, hs, he⟩ := exists_cssAfter_spaces
    (fun d hd => (hfront d hd).isSpaces (hbefore d hd))
    (List.forall_mem_singleton.mpr hc.kind_ne_backslash)
    fun d hd => (hrest d hd).isSpaces (hafter d hd)
  refine ⟨s, e, ?_, hs, he⟩
  have hsingle : cssAfter none [c] = c.css := by simp [cssAfter, separator]
  rwa [List.append_assoc, List.singleton_append, hsingle] at heq

/-! ## Components without white space -/

/-- The components without white space. -/
def solid (components : List Component) : List Component :=
  components.filter fun c => !c.isWhitespace

theorem solid_append (components more : List Component) :
    solid (components ++ more) = solid components ++ solid more := List.filter_append ..

/-- Behind the spaces in front, a text makes up components; these are all but the white space. -/
def Lists (t : Text) (components : List Component) : Prop :=
  ∃ all, Reads (scanAll (t.dropWhile isSpace)) all ∧ solid all = components

theorem reads_whitespace {w : Text} (h : ∀ c ∈ w, isSpace c = true) :
    Reads [.whitespace w] [.leaf (.whitespace w)] where
  top := List.forall_mem_singleton.mpr (.leaf (.whitespace h))
  step _ := rfl

/-- Spaces in front of a text add no more than white space. -/
theorem Reads.of_dropSpaces {t : Text} {components : List Component}
    (h : Reads (scanAll (t.dropWhile isSpace)) components) :
    ∃ all, Reads (scanAll t) all ∧ solid all = solid components := by
  rcases Token.scanAll_eq_or t with heq | ⟨w, hw, heq⟩
  · rw [heq]
    exact ⟨components, h, rfl⟩
  · rw [heq]
    exact ⟨_, (reads_whitespace hw).append h, rfl⟩

theorem Lists.solid_ofTokens {t : Text} {components : List Component} (h : Lists t components) :
    solid (ofTokens (scanAll t)) = components := by
  obtain ⟨all, hreads, rfl⟩ := h
  obtain ⟨more, hmore, hsolid⟩ := hreads.of_dropSpaces
  rw [hmore.ofTokens_eq, hsolid]

theorem dropWhile_spaces {e : Text} (h : ∀ c ∈ e, isSpace c = true) (w : Text) :
    (e ++ ' ' :: w).dropWhile isSpace = w.dropWhile isSpace := by
  rw [List.dropWhile_append_of_pos h, List.dropWhile_cons_of_pos rfl]

/-- Components of texts with a space between them stand one after the other. -/
theorem Lists.join {s w : Text} {components more : List Component} (hlaid : IsLaidOut s)
    (hne : s.dropWhile isSpace ≠ []) (hs : Lists s components) (hw : Lists w more) :
    Lists (s ++ ' ' :: w) (components ++ more) := by
  obtain ⟨all, hreads, rfl⟩ := hs
  obtain ⟨rest, hrest, rfl⟩ := hw
  obtain ⟨t, e, heq, ht, hlast, he⟩ := hlaid.dropSpaces.exists_append
  obtain ⟨front, hfront, -⟩ := exists_reads ht
  have hends : Token.EndsToken e := fun c hc => .inl (he c (List.mem_of_mem_head? hc))
  have hgap : Token.EndsToken (e ++ ' ' :: w) := by
    cases e with
    | nil => rintro c ⟨⟩; exact .inl rfl
    | cons c e => exact hends
  obtain ⟨tail, htail, hsolid⟩ : ∃ tail, Reads (scanAll e) tail ∧ solid tail = [] := by
    have hnil : e.dropWhile isSpace = [] := List.dropWhile_eq_nil_iff.mpr he
    have hempty : Reads (scanAll (e.dropWhile isSpace)) [] := by
      rw [hnil, Token.scanAll_nil]
      exact ⟨nofun, fun _ => rfl⟩
    exact hempty.of_dropSpaces
  have hall : solid all = solid front := by
    rw [← hreads.ofTokens_eq, heq, Token.scanAll_append hends ht.isTame hlast,
      (hfront.append htail).ofTokens_eq, solid_append, hsolid, List.append_nil]
  obtain ⟨back, hback, hsame⟩ := Reads.of_dropSpaces (t := e ++ ' ' :: w) (by
    rw [dropWhile_spaces he]
    exact hrest)
  refine ⟨front ++ back, ?_, by rw [solid_append, hsame, hall]⟩
  have hdrop : (s ++ ' ' :: w).dropWhile isSpace = t ++ (e ++ ' ' :: w) := by
    rw [← List.append_assoc, ← heq, List.dropWhile_append]
    rw [if_neg (by simpa using hne)]
  rw [hdrop, Token.scanAll_append hgap ht.isTame hlast]
  exact hfront.append hback

/-! ## Numbers that are too long -/

theorem short_dropSpaces (t : Text) :
    (∀ u ∈ scanAll (t.dropWhile isSpace), u.fault? = none) ↔ ∀ u ∈ scanAll t, u.fault? = none := by
  rcases Token.scanAll_eq_or t with heq | ⟨w, -, heq⟩
  · rw [heq]
  · rw [heq, List.forall_mem_cons]
    exact (and_iff_right rfl).symm

/-- Texts with a space between them have a number that is too long if one of them has. -/
theorem short_join {s : Text} (hlaid : IsLaidOut s) (w : Text) :
    (∀ u ∈ scanAll (s ++ ' ' :: w), u.fault? = none)
      ↔ (∀ u ∈ scanAll s, u.fault? = none) ∧ ∀ u ∈ scanAll w, u.fault? = none := by
  obtain ⟨t, e, rfl, ht, hlast, he⟩ := hlaid.exists_append
  have hends : Token.EndsToken e := fun c hc => .inl (he c (List.mem_of_mem_head? hc))
  have hgap : Token.EndsToken (e ++ ' ' :: w) := by
    cases e with
    | nil => rintro c ⟨⟩; exact .inl rfl
    | cons c e => exact hends
  have hspaces : ∀ u ∈ scanAll e, u.fault? = none := by
    rw [← short_dropSpaces, List.dropWhile_eq_nil_iff.mpr he, Token.scanAll_nil]
    nofun
  have hw : (∀ u ∈ scanAll (e ++ ' ' :: w), u.fault? = none) ↔ ∀ u ∈ scanAll w, u.fault? = none := by
    rw [← short_dropSpaces, dropWhile_spaces he, short_dropSpaces]
  rw [List.append_assoc, Token.scanAll_append hgap ht.isTame hlast,
    Token.scanAll_append hends ht.isTame hlast, List.forall_mem_append, List.forall_mem_append, hw]
  exact and_congr_left' (and_iff_left hspaces).symm

end Component

end CssValues
