import CssValues.Proofs.Component.Parts
import CssValues.Proofs.Declaration
import CssValues.Proofs.Token.Closed

/-!
# Declarations in a row

A text whose tokens and brackets end before a semicolon is read by itself, and so is what stands
behind the semicolon: the items of both texts stand one after the other
(`DeclarationItem.ofScanned_append`).
-/

namespace CssValues

/-! ## Components -/

namespace Component

namespace Reading

/-- The second reading is the first one with more components read before all others. -/
inductive Over (bottom : List Component) : Reading → Reading → Prop where
  | outermost (current : List Component) : Over bottom ⟨current, []⟩ ⟨current ++ bottom, []⟩
  | inside {outer outer' : List Component} {around around' : List (Opener × List Component)}
      (h : Over bottom ⟨outer, around⟩ ⟨outer', around'⟩) (o : Opener) (current : List Component) :
      Over bottom ⟨current, (o, outer) :: around⟩ ⟨current, (o, outer') :: around'⟩

section

variable {bottom : List Component} {r r' : Reading}

theorem Over.push (h : Over bottom r r') (c : Component) : Over bottom (r.push c) (r'.push c) := by
  cases h with
  | outermost current => exact .outermost (c :: current)
  | inside h o current => exact .inside h o (c :: current)

theorem Over.close (h : Over bottom r r') (b : Bracket) : Over bottom (r.close b) (r'.close b) := by
  cases h with
  | outermost current => exact .outermost (.leaf (.closing b) :: current)
  | @inside outer outer' around around' h o current =>
    by_cases hcloses : o.closer = b
    · have hpush := h.push (o.close current.reverse)
      simpa [Reading.close, hcloses, Reading.push] using hpush
    · have hpush := (Over.inside h o current).push (.leaf (.closing b))
      simpa [Reading.close, hcloses, Reading.push] using hpush

/-- What was read before has no part in how a token is taken in. -/
theorem Over.step (h : Over bottom r r') (token : Token) :
    Over bottom (r.step token) (r'.step token) := by
  cases token with
  | opening b => exact .inside h _ []
  | function name => exact .inside h _ []
  | closing b => exact h.close b
  | _ => exact h.push _

theorem Over.foldl (h : Over bottom r r') (tokens : List Token) :
    Over bottom (tokens.foldl Reading.step r) (tokens.foldl Reading.step r') := by
  induction tokens generalizing r r' with
  | nil => exact h
  | cons token rest ih => exact ih (h.step token)

theorem Over.finish_eq (h : Over bottom r r') : r'.finish = bottom.reverse ++ r.finish := by
  obtain ⟨current, around⟩ := r
  induction around generalizing current r' with
  | nil =>
    cases h with
    | outermost => simp [finish]
  | cons frame around ih =>
    cases h with
    | inside h o =>
      have hfinish := ih _ (h.push (o.close current.reverse))
      exact hfinish

end

end Reading

/-- Tokens after which no bracket is open. -/
def IsBalanced (tokens : List Token) : Prop := (tokens.foldl Reading.step .start).around = []

instance (tokens : List Token) : Decidable (IsBalanced tokens) :=
  decidable_of_iff ((tokens.foldl Reading.step .start).around.isEmpty = true) List.isEmpty_iff

/-- Tokens behind balanced ones make up their components by themselves. -/
theorem IsBalanced.ofTokens_append {tokens : List Token} (h : IsBalanced tokens)
    (more : List Token) : ofTokens (tokens ++ more) = ofTokens tokens ++ ofTokens more := by
  unfold IsBalanced at h
  unfold ofTokens
  rw [List.foldl_append]
  generalize tokens.foldl Reading.step .start = r at h
  obtain ⟨current, around⟩ := r
  subst h
  have hover : Reading.Over current .start ⟨current, []⟩ := .outermost []
  exact (hover.foldl more).finish_eq

end Component

/-! ## Items -/

namespace DeclarationItem

theorem skipRule_append (components more : List Component) {c : Component}
    (hc : c.isLiteral ';' = true) :
    skipRule (components ++ c :: more) = skipRule components ++ c :: more
      ∨ skipRule components = [] ∧ skipRule (components ++ c :: more) = more := by
  induction components with
  | nil => exact .inr ⟨rfl, by simp [skipRule, hc]⟩
  | cons d rest ih =>
    by_cases hd : (d.isLiteral ';' || Declaration.ValueReading.isCurly d) = true
    · exact .inl (by simp [skipRule, hd])
    · simpa [skipRule, hd] using ih

section

variable {c : Component} (rest : List Component)

theorem ofComponents_skip (h : (c.isWhitespace || c.isLiteral ';') = true) :
    ofComponents (c :: rest) = ofComponents rest := by
  rw [ofComponents.eq_def]
  exact if_pos h

theorem ofComponents_rule (name : Text) :
    ofComponents (.leaf (.atKeyword name) :: rest) = .rule :: ofComponents (skipRule rest) := by
  rw [ofComponents.eq_def]
  rfl

theorem ofComponents_item (h : ¬(c.isWhitespace || c.isLiteral ';') = true)
    (hrule : ∀ name, c ≠ .leaf (.atKeyword name)) :
    ofComponents (c :: rest) = Declaration.read (c :: rest.takeWhile fun d => !d.isLiteral ';')
      :: ofComponents ((rest.dropWhile fun d => !d.isLiteral ';').drop 1) := by
  rw [ofComponents, if_neg h]
  exact hrule

end

/-- The items around a semicolon stand one after the other. -/
theorem ofComponents_append (components more : List Component) {c : Component}
    (hc : c.isLiteral ';' = true) :
    ofComponents (components ++ c :: more) = ofComponents components ++ ofComponents more := by
  have hmark : ofComponents (c :: more) = ofComponents more := ofComponents_skip more (by simp [hc])
  fun_induction ofComponents components with
  | case1 => exact hmark
  | case2 d rest hd ih => rw [List.cons_append, ofComponents_skip _ hd, ih]
  | case3 rest name hd ih =>
    rw [List.cons_append, ofComponents_rule, List.cons_append]
    rcases skipRule_append rest more hc with heq | ⟨hnil, hmore⟩
    · rw [heq, ih]
    · -- the rule goes on to the semicolon
      rw [hmore, hnil, ofComponents, List.nil_append]
  | case4 d rest hd hrule ih =>
    have hstop : ∀ e ∈ (c :: more).head?, (!e.isLiteral ';') = false := by
      rintro e ⟨⟩
      rw [hc]
      rfl
    rw [List.cons_append, ofComponents_item _ hd hrule, Text.takeWhile_append_end hstop,
      Text.dropWhile_append_end hstop, List.cons_append]
    cases hdrop : rest.dropWhile fun d => !d.isLiteral ';' with
    | nil => simp [ofComponents]
    | cons e tail =>
      rw [hdrop] at ih
      exact congrArg _ ih

/-- White space in front of tokens has no part in the items. -/
theorem ofComponents_whitespace (w : Text) (tokens : List Token) :
    ofComponents (Component.ofTokens (.whitespace w :: tokens))
      = ofComponents (Component.ofTokens tokens) := by
  have hbalanced : Component.IsBalanced [.whitespace w] := rfl
  have happend := hbalanced.ofTokens_append tokens
  rw [List.singleton_append] at happend
  rw [happend]
  exact ofComponents_skip _ rfl

theorem ofComponents_dropSpaces (t : Text) :
    ofComponents (Component.ofTokens (Token.scanAll (t.dropWhile Token.isSpace)))
      = ofComponents (Component.ofTokens (Token.scanAll t)) := by
  rcases Token.scanAll_eq_or t with heq | ⟨w, -, heq⟩
  · rw [heq]
  · rw [heq, ofComponents_whitespace]

end DeclarationItem

/-! ## Texts -/

/-- A text that a semicolon ends: no token takes the semicolon in, and no bracket is open there. -/
structure IsClosed (t : Text) : Prop where
  tokens : Token.EndsAtSemicolon (Token.normalize t)
  brackets : Component.IsBalanced (Token.scanAll (Token.normalize t))

instance (t : Text) : Decidable (IsClosed t) :=
  decidable_of_iff (Token.EndsAtSemicolon (Token.normalize t)
      ∧ Component.IsBalanced (Token.scanAll (Token.normalize t)))
    ⟨fun ⟨htokens, hbrackets⟩ => ⟨htokens, hbrackets⟩,
      fun ⟨htokens, hbrackets⟩ => ⟨htokens, hbrackets⟩⟩

namespace DeclarationItem

/-- A space in front of a text has no part in its items. -/
theorem ofText_space {t : Text} {items : List DeclarationItem} :
    ofText (' ' :: t) = .ok items ↔ ofText t = .ok items := by
  rw [ofText_eq_ok_iff, ofText_eq_ok_iff, Token.normalize_cons (by decide),
    ← Component.short_dropSpaces (' ' :: _), ← Component.short_dropSpaces (Token.normalize t),
    ← ofComponents_dropSpaces (' ' :: _), ← ofComponents_dropSpaces (Token.normalize t)]
  exact .rfl

/-- **Texts in a row.** The items of two texts with a semicolon between them are those of the texts
one after the other, if the semicolon ends the first. -/
theorem ofText_append {t : Text} (h : IsClosed t) {more : Text} {items items' : List DeclarationItem}
    (ht : ofText t = .ok items) (hmore : ofText more = .ok items') :
    ofText (t ++ ';' :: more) = .ok (items ++ items') := by
  obtain ⟨hshort, rfl⟩ := ofText_eq_ok_iff.mp ht
  obtain ⟨hshort', rfl⟩ := ofText_eq_ok_iff.mp hmore
  have hnormal : Token.normalize (t ++ ';' :: more)
      = Token.normalize t ++ ';' :: Token.normalize more := by
    rw [Token.normalize_append (.inr (by simp)), Token.normalize_cons (by decide)]
  rw [ofText_eq_ok_iff, hnormal, h.tokens.scanAll_append]
  refine ⟨List.forall_mem_append.mpr ⟨hshort, List.forall_mem_cons.mpr ⟨rfl, hshort'⟩⟩, ?_⟩
  have hsemicolon : Component.IsBalanced [.literal [';']] := rfl
  have hcomponents := hsemicolon.ofTokens_append (Token.scanAll (Token.normalize more))
  rw [List.singleton_append] at hcomponents
  rw [h.brackets.ofTokens_append, hcomponents]
  exact (ofComponents_append _ _ rfl).symm

/-- A string that is open at the end of a text takes the semicolon in. -/
example : ¬IsClosed "a: \"b".toList := by decide +kernel

end DeclarationItem

end CssValues
