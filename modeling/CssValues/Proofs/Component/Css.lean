import CssValues.Proofs.Token.Scan

/-!
# Writing simple tokens

Simple tokens are written as they were read exactly if no two neighbours have to be kept apart and
no unit could be taken for an exponent. Else what is written has a slash or a backslash in it.
-/

namespace CssValues

namespace Component

theorem exists_of_isWhitespace {c : Component} (h : c.isWhitespace = true) :
    ∃ t, c = .leaf (.whitespace t) := by
  unfold isWhitespace at h
  split at h
  · exact ⟨_, rfl⟩
  · cases h

/-! ## Neighbours -/

/-- A kind after which anything may be written. -/
structure Kind.IsQuiet (k : Kind) : Prop where
  clash_eq : ∀ l : Kind, k.clash l = false
  ne_backslash : k ≠ Kind.char '\\'

theorem Kind.isQuiet_whitespace : Kind.whitespace.IsQuiet := ⟨fun _ => rfl, nofun⟩

theorem Kind.isQuiet_function : Kind.function.IsQuiet := ⟨fun _ => rfl, nofun⟩

theorem Kind.isQuiet_block {b : Bracket} : (Kind.block b).IsQuiet := ⟨fun _ => rfl, nofun⟩

theorem Kind.isQuiet_error : Kind.error.IsQuiet := ⟨fun _ => rfl, nofun⟩

variable {k : Kind} {c : Component}

theorem separator_eq_nil (hclash : k.clash c.kind = false) (hslash : k ≠ Kind.char '\\') :
    separator (some k) c = [] := by
  simp [separator, hclash, hslash]

theorem slash_mem_separator (hclash : k.clash c.kind = true) : '/' ∈ separator (some k) c := by
  simp [separator, hclash]

theorem cssAfter_of_isQuiet (hk : k.IsQuiet) (components : List Component) :
    cssAfter (some k) components = cssAfter none components := by
  cases components with
  | nil => rfl
  | cons c rest =>
    rw [cssAfter, cssAfter, separator_eq_nil (hk.clash_eq _) hk.ne_backslash]
    rfl

end Component

/-! ## Tokens in a row -/

namespace Token

open Component (Kind cssAfter)

/-- What a token on its own looks like to its neighbours. -/
def kind (t : Token) : Kind := (Component.leaf t).kind

/-- Tokens that are written as they were read: no integer is too long to be read, no unit could be
taken for an exponent, and no two neighbours have to be kept apart. -/
structure KeepsText (tokens : List Token) : Prop where
  short : ∀ t ∈ tokens, t.fault? = none
  units : ∀ t ∈ tokens, t.hasExponentUnit = false
  apart : (tokens.map kind).IsChain fun a b => a.clash b = false

instance (tokens : List Token) : Decidable (KeepsText tokens) :=
  decidable_of_iff ((∀ t ∈ tokens, t.fault? = none) ∧ (∀ t ∈ tokens, t.hasExponentUnit = false)
      ∧ (tokens.map kind).IsChain fun a b => a.clash b = false)
    ⟨fun ⟨hshort, hunits, hapart⟩ => ⟨hshort, hunits, hapart⟩,
      fun ⟨hshort, hunits, hapart⟩ => ⟨hshort, hunits, hapart⟩⟩

theorem IsSimple.kind_ne_backslash {t : Token} (h : t.IsSimple) : t.kind ≠ Kind.char '\\' := by
  intro heq
  cases h with
  | @literal c hc =>
    have hslash : [c] = ['\\'] := Kind.literal.inj heq
    rw [List.head_eq_of_cons_eq hslash] at hc
    exact absurd hc (by decide)
  | _ => nomatch heq

theorem cssAfter_eq_source {before : Kind} {tokens : List Token}
    (hsimple : ∀ t ∈ tokens, t.IsSimple) (hbefore : before ≠ Kind.char '\\')
    (hunits : ∀ t ∈ tokens, t.hasExponentUnit = false)
    (hapart : (before :: tokens.map kind).IsChain fun a b => a.clash b = false) :
    cssAfter (some before) (tokens.map .leaf) = tokens.flatMap source := by
  induction tokens generalizing before with
  | nil => rfl
  | cons t rest ih =>
    obtain ⟨htoken, hrest⟩ := List.forall_mem_cons.mp hsimple
    obtain ⟨hunit, hunits⟩ := List.forall_mem_cons.mp hunits
    rw [List.map_cons, List.isChain_cons_cons] at hapart
    rw [List.map_cons, cssAfter, Component.separator_eq_nil hapart.1 hbefore, List.nil_append,
      List.flatMap_cons]
    exact congr (congrArg HAppend.hAppend (htoken.css_eq hunit))
      (ih hrest htoken.kind_ne_backslash hunits hapart.2)

/-- What keeps two neighbours apart has a slash in it, and an escape has a backslash. -/
theorem slash_mem_cssAfter {before : Kind} {tokens : List Token}
    (h : ¬((∀ t ∈ tokens, t.hasExponentUnit = false)
      ∧ (before :: tokens.map kind).IsChain fun a b => a.clash b = false)) :
    '/' ∈ cssAfter (some before) (tokens.map .leaf)
      ∨ '\\' ∈ cssAfter (some before) (tokens.map .leaf) := by
  induction tokens generalizing before with
  | nil => exact absurd ⟨nofun, .singleton _⟩ h
  | cons t rest ih =>
    rw [List.map_cons, cssAfter]
    -- a clash in front of `t`, an exponent in `t`, or either of them in `rest`
    cases hclash : before.clash t.kind with
    | true =>
      have hslash := Component.slash_mem_separator (c := .leaf t) hclash
      exact .inl (List.mem_append_left _ (List.mem_append_left _ hslash))
    | false =>
      cases hunit : t.hasExponentUnit with
      | true =>
        have hslash := IsSimple.backslash_mem_css hunit
        exact .inr (List.mem_append_left _ (List.mem_append_right _ hslash))
      | false =>
        have hrest : ¬((∀ u ∈ rest, u.hasExponentUnit = false)
            ∧ (t.kind :: rest.map kind).IsChain fun a b => a.clash b = false) :=
          fun ⟨hunits, hapart⟩ => h ⟨List.forall_mem_cons.mpr ⟨hunit, hunits⟩,
            List.isChain_cons_cons.mpr ⟨hclash, hapart⟩⟩
        exact (ih hrest).imp (List.mem_append_right _) (List.mem_append_right _)

/-- A quiet kind in front does not matter. -/
theorem isChain_cons_of_isQuiet {k : Kind} (hk : k.IsQuiet) (kinds : List Kind) :
    (k :: kinds).IsChain (fun a b => a.clash b = false)
      ↔ kinds.IsChain fun a b => a.clash b = false := by
  cases kinds with
  | nil => simp
  | cons l rest =>
    rw [List.isChain_cons_cons]
    exact and_iff_right (hk.clash_eq l)

variable {tokens : List Token}

/-- Tokens that keep their text are written as they were read. -/
theorem KeepsText.css_eq (h : KeepsText tokens) (hsimple : ∀ t ∈ tokens, t.IsSimple) :
    cssAfter none (tokens.map .leaf) = tokens.flatMap source := by
  have hquiet := Kind.isQuiet_whitespace
  rw [← Component.cssAfter_of_isQuiet hquiet]
  exact cssAfter_eq_source hsimple hquiet.ne_backslash h.units
    ((isChain_cons_of_isQuiet hquiet _).mpr h.apart)

/-- Tokens that do not keep their text are written with a slash or a backslash. -/
theorem slash_mem_css (hshort : ∀ t ∈ tokens, t.fault? = none) (h : ¬KeepsText tokens) :
    '/' ∈ cssAfter none (tokens.map .leaf) ∨ '\\' ∈ cssAfter none (tokens.map .leaf) := by
  have hquiet := Kind.isQuiet_whitespace
  rw [← Component.cssAfter_of_isQuiet hquiet]
  refine slash_mem_cssAfter fun ⟨hunits, hapart⟩ => h ⟨hshort, hunits, ?_⟩
  exact (isChain_cons_of_isQuiet hquiet _).mp hapart

end Token

end CssValues
