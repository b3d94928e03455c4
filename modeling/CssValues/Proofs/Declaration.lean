import CssValues.Declaration.Basic
import CssValues.Proofs.Component.Layout

/-!
# Declarations of simple values

A name, a colon and a value that simple tokens make up are one declaration with the whole of the
value (`DeclarationItem.ofComponents_simple`): there is no semicolon to end it, no mark of
importance to take off, and no block in curly brackets. Nothing without a colon is a declaration
(`DeclarationItem.isLiteral_of_mem_ofComponents`).
-/

namespace CssValues

namespace Component

variable {c : Component}

/-- A character that simple tokens do not have is no component that they make up. -/
theorem IsTop.isLiteral_eq_false (h : c.IsTop) {d : Char} (hd : isPlain d = false) :
    c.isLiteral d = false := by
  cases h with
  | block _ => rfl
  | function _ _ => rfl
  | leaf h =>
    cases h with
    | @literal e he =>
      refine decide_eq_false fun heq => ?_
      rw [List.head_eq_of_cons_eq heq, hd] at he
      cases he
    | _ => rfl

theorem IsTop.isCurly_eq_false (h : c.IsTop) :
    Declaration.ValueReading.isCurly c = false := by
  cases h <;> rfl

end Component

namespace Declaration

open Component

theorem Importance.step_value {c : Component} (h : c.IsTop) (before : List Component) :
    Importance.step before .value c = .value := by
  have hbang := h.isLiteral_eq_false (d := '!') (by decide)
  unfold Importance.step
  split
  · cases hbang
  · next heq => cases heq
  · rfl
  · rfl

/-- No component of a simple value changes how the value is read. -/
theorem foldl_step_of_isTop {components : List Component} (h : ∀ c ∈ components, c.IsTop)
    {r : ValueReading} (hstate : r.state = .value) (hbroken : r.broken = false) :
    (components.foldl ValueReading.step r).components = components.reverse ++ r.components
      ∧ (components.foldl ValueReading.step r).state = .value
      ∧ (components.foldl ValueReading.step r).broken = false := by
  induction components generalizing r with
  | nil => exact ⟨rfl, hstate, hbroken⟩
  | cons c rest ih =>
    obtain ⟨hc, hrest⟩ := List.forall_mem_cons.mp h
    have hstep : (r.step c).state = .value := by
      rw [ValueReading.step, hstate]
      exact Importance.step_value hc _
    have hwhole : (r.step c).broken = false := by
      simp [ValueReading.step, hbroken, hc.isCurly_eq_false]
    obtain ⟨hcomponents, hend, hnot⟩ := ih hrest hstep hwhole
    refine ⟨?_, hend, hnot⟩
    rw [List.foldl_cons, hcomponents]
    simp [ValueReading.step]

theorem readValue?_of_isTop {components : List Component} (h : ∀ c ∈ components, c.IsTop) :
    readValue? components = some components := by
  obtain ⟨hcomponents, hstate, hbroken⟩ := foldl_step_of_isTop h (r := .start) rfl rfl
  unfold readValue?
  simp only [hbroken, ValueReading.value, hstate, hcomponents]
  simp [ValueReading.start]

/-- A declaration has a colon. -/
theorem isLiteral_of_read {components : List Component} {d : Declaration}
    (h : read components = .declaration d) : ∃ c ∈ components, c.isLiteral ':' := by
  unfold read at h
  split at h
  · next name rest =>
    split at h
    · next colon after heq =>
      split at h
      · next hcolon =>
        have hmem : colon ∈ rest.dropWhile Component.isWhitespace := heq ▸ List.mem_cons_self
        exact ⟨colon, List.mem_cons_of_mem _ ((List.dropWhile_suffix _).mem hmem), hcolon⟩
      · cases h
    · cases h
  · cases h

end Declaration

namespace DeclarationItem

theorem skipRule_suffix (components : List Component) :
    skipRule components <:+ components := by
  induction components with
  | nil => exact List.suffix_rfl
  | cons c rest ih =>
    unfold skipRule
    split
    · exact List.suffix_cons c rest
    · exact ih.trans (List.suffix_cons c rest)

/-- So no text without a colon has a declaration. -/
theorem isLiteral_of_mem_ofComponents {components : List Component} {d : Declaration}
    (h : .declaration d ∈ ofComponents components) :
    ∃ c ∈ components, c.isLiteral ':' := by
  fun_induction ofComponents components with
  | case1 => cases h
  | case2 c rest _ ih => exact (ih h).imp fun e he => ⟨List.mem_cons_of_mem c he.1, he.2⟩
  | case3 rest name _ ih =>
    have hrest := (List.mem_cons.mp h).resolve_left nofun
    refine (ih hrest).imp fun e he => ⟨List.mem_cons_of_mem _ ?_, he.2⟩
    exact (skipRule_suffix rest).mem he.1
  | case4 c rest _ _ ih =>
    rcases List.mem_cons.mp h with h | h
    · refine (Declaration.isLiteral_of_read h.symm).imp fun e he => ⟨?_, he.2⟩
      exact (List.mem_cons.mp he.1).elim (· ▸ List.mem_cons_self) fun hmem =>
        List.mem_cons_of_mem c ((List.takeWhile_prefix _).mem hmem)
    · refine (ih h).imp fun e he => ⟨List.mem_cons_of_mem c ?_, he.2⟩
      exact (List.dropWhile_suffix _).mem (List.mem_of_mem_drop he.1)

/-- The items of a text that is read are those of its tokens, none of which is too long. -/
theorem ofText_eq_ok_iff {t : Text} {items : List DeclarationItem} :
    ofText t = .ok items
      ↔ (∀ u ∈ Token.scanAll (Token.normalize t), u.fault? = none) ∧ items =
        ofComponents (Component.ofTokens (Token.scanAll (Token.normalize t))) := by
  rw [ofText, Component.ofText, Token.ofText, ← List.findSome?_eq_none_iff]
  cases (Token.scanAll (Token.normalize t)).findSome? Token.fault? with
  | none => exact ⟨fun h => ⟨rfl, (Except.ok.inj h).symm⟩, fun h => congrArg _ h.2.symm⟩
  | some f => exact ⟨nofun, fun h => nomatch h.1⟩

end DeclarationItem

/-- A name, a colon and a value without semicolons make up one declaration. -/
theorem DeclarationItem.ofComponents_declaration (name : Text) {rest value : List Component}
    (hend : ∀ c ∈ rest, c.isLiteral ';' = false)
    (hvalue : Declaration.readValue? rest = some value) :
    ofComponents (.leaf (.ident name) :: .leaf (.literal [':']) :: rest)
      = [.declaration ⟨Text.asciiLower name, value⟩] := by
  have hend : ∀ c ∈ Component.leaf (.literal [':']) :: rest, (!c.isLiteral ';') = true := by
    refine List.forall_mem_cons.mpr ⟨rfl, fun c hc => ?_⟩
    rw [hend c hc]
    rfl
  have hcolon : Component.isWhitespace (.leaf (.literal [':'])) = false := rfl
  have hname : (Component.isWhitespace (.leaf (.ident name))
      || Component.isLiteral ';' (.leaf (.ident name))) = false := rfl
  rw [ofComponents, hname, if_neg Bool.false_ne_true, List.takeWhile_eq_self_iff.mpr hend,
    List.dropWhile_eq_nil_iff.mpr hend, List.drop_nil, ofComponents]
  · simp [Declaration.read, hcolon, Component.isLiteral, hvalue]
  · simp

/-- A name, a colon and a simple value make up one declaration. -/
theorem DeclarationItem.ofComponents_simple (name : Text) {value : List Component}
    (h : ∀ c ∈ value, c.IsTop) :
    ofComponents (.leaf (.ident name) :: .leaf (.literal [':']) :: value)
      = [.declaration ⟨Text.asciiLower name, value⟩] :=
  ofComponents_declaration name (fun c hc => (h c hc).isLiteral_eq_false (by decide))
    (Declaration.readValue?_of_isTop h)

end CssValues
