import CssValues.Proofs.Component.Layout

/-!
# Nested components

Tokens whose brackets match make up components wherever they stand, and these are written like the
tokens in a row (`Component.Nests.cssAfter_eq`).
-/

namespace CssValues

namespace Token

/-- A token that opens or closes a list of components. -/
def isBracket : Token → Bool
  | .opening _ | .closing _ | .function _ => true
  | _ => false

/-- Whether the brackets of tokens match, behind some that are open, innermost first. -/
def bracketsMatch : List Bracket → List Token → Bool
  | around, [] => around.isEmpty
  | around, .opening b :: rest => bracketsMatch (b :: around) rest
  | around, .function _ :: rest => bracketsMatch (.round :: around) rest
  | [], .closing _ :: _ => false
  | b' :: around, .closing b :: rest => b' = b && bracketsMatch around rest
  | around, _ :: rest => bracketsMatch around rest

theorem bracketsMatch_cons {a : Token} (ha : a.isBracket = false) (around : List Bracket)
    (rest : List Token) : bracketsMatch around (a :: rest) = bracketsMatch around rest := by
  cases a <;> first | (cases around <;> rfl) | cases ha

end Token

namespace Component

/-- Components and the tokens that they are made of, every bracket with the one that closes it. -/
inductive Nests : List Token → List Component → Prop where
  | nil : Nests [] []
  | leaf {a : Token} {tokens : List Token} {components : List Component}
      (ha : a.isBracket = false) (h : Nests tokens components) :
      Nests (a :: tokens) (.leaf a :: components)
  | block {inside tokens : List Token} {content components : List Component} (b : Bracket)
      (hinside : Nests inside content) (h : Nests tokens components) :
      Nests (.opening b :: (inside ++ .closing b :: tokens)) (.block b content :: components)
  | function {inside tokens : List Token} {arguments components : List Component} (name : Text)
      (hinside : Nests inside arguments) (h : Nests tokens components) :
      Nests (.function name :: (inside ++ .closing .round :: tokens))
        (.function name arguments :: components)

namespace Nests

variable {tokens : List Token} {components : List Component}

/-- Such tokens make up their components wherever they stand. -/
theorem foldl_step (h : Nests tokens components) (r : Reading) :
    tokens.foldl Reading.step r = ⟨components.reverse ++ r.current, r.around⟩ := by
  induction h generalizing r with
  | nil => rfl
  | @leaf a tokens components ha h ih =>
    have hstep : r.step a = r.push (.leaf a) := by
      cases a <;> first | rfl | cases ha
    rw [List.foldl_cons, hstep, ih]
    simp [Reading.push]
  | block b hinside h ihInside ih =>
    rw [List.foldl_cons, List.foldl_append, ihInside, List.foldl_cons, ih]
    simp [Reading.step, Reading.enter, Reading.close, Opener.closer, Opener.close]
  | function name hinside h ihInside ih =>
    rw [List.foldl_cons, List.foldl_append, ihInside, List.foldl_cons, ih]
    simp [Reading.step, Reading.enter, Reading.close, Opener.closer, Opener.close]

theorem ofTokens_eq (h : Nests tokens components) : ofTokens tokens = components := by
  rw [ofTokens, h.foldl_step]
  simp [Reading.finish, Reading.start]

/-- Components in a row are made of tokens in a row. -/
theorem exists_append {before after : List Component} (h : Nests tokens (before ++ after)) :
    ∃ front back, tokens = front ++ back ∧ Nests front before ∧ Nests back after := by
  induction before generalizing tokens with
  | nil => exact ⟨[], tokens, rfl, .nil, h⟩
  | cons c before ih =>
    cases h with
    | leaf ha h =>
      obtain ⟨front, back, rfl, hfront, hback⟩ := ih h
      exact ⟨_ :: front, back, rfl, .leaf ha hfront, hback⟩
    | block b hinside h =>
      obtain ⟨front, back, rfl, hfront, hback⟩ := ih h
      exact ⟨_, back, by simp, .block b hinside hfront, hback⟩
    | function name hinside h =>
      obtain ⟨front, back, rfl, hfront, hback⟩ := ih h
      exact ⟨_, back, by simp, .function name hinside hfront, hback⟩

theorem exists_first {c : Component} (h : Nests tokens (c :: components)) :
    ∃ a rest, tokens = a :: rest ∧ (Component.leaf a).isWhitespace = c.isWhitespace := by
  cases h with
  | leaf ha h => exact ⟨_, _, rfl, rfl⟩
  | block b hinside h => exact ⟨_, _, rfl, rfl⟩
  | function name hinside h => exact ⟨_, _, rfl, rfl⟩

theorem exists_last {c : Component} (h : Nests tokens (components ++ [c])) :
    ∃ front a, tokens = front ++ [a] ∧ (Component.leaf a).isWhitespace = c.isWhitespace := by
  obtain ⟨front, back, rfl, -, hback⟩ := h.exists_append
  cases hback with
  | leaf ha h =>
    cases h
    exact ⟨front, _, rfl, rfl⟩
  | @block inside _ _ _ b hinside h =>
    cases h
    exact ⟨front ++ .opening b :: inside, .closing b, by simp, rfl⟩
  | @function inside _ _ _ name hinside h =>
    cases h
    exact ⟨front ++ .function name :: inside, .closing .round, by simp, rfl⟩

/-- Every single token among the components is one of the tokens. -/
theorem mem_of_leaf (h : Nests tokens components) {a : Token} (ha : .leaf a ∈ components) :
    a ∈ tokens := by
  obtain ⟨before, after, rfl⟩ := List.append_of_mem ha
  obtain ⟨front, back, rfl, -, hback⟩ := h.exists_append
  cases hback with
  | leaf ha h => exact List.mem_append_right _ List.mem_cons_self

/-! ## Writing -/

theorem kind_ne_backslash (h : Nests tokens components)
    (hslash : ∀ a ∈ tokens, a.kind ≠ Kind.char '\\') {c : Component} (hc : c ∈ components) :
    c.kind ≠ Kind.char '\\' := by
  cases c with
  | leaf a => exact hslash a (h.mem_of_leaf hc)
  | block b content => nofun
  | function name arguments => nofun

theorem lastEndsInString_cons {c : Component} (hc : c.endsInString = false)
    (h : lastEndsInString components = false) : lastEndsInString (c :: components) = false := by
  cases components with
  | nil => exact hc
  | cons d rest => exact h

theorem lastEndsInString_eq (h : Nests tokens components) (hend : .endInString ∉ tokens) :
    lastEndsInString components = false := by
  induction h with
  | nil => rfl
  | @leaf a tokens components ha h ih =>
    obtain ⟨hne, hmore⟩ := List.ne_and_not_mem_of_not_mem_cons hend
    refine lastEndsInString_cons ?_ (ih hmore)
    cases a <;> first | rfl | exact absurd rfl hne
  | block b hinside h ihInside ih =>
    exact lastEndsInString_cons rfl (ih fun hmem => hend (by simp [hmem]))
  | function name hinside h ihInside ih =>
    refine lastEndsInString_cons ?_ (ih fun hmem => hend (by simp [hmem]))
    exact ihInside fun hmem => hend (by simp [hmem])

/-- Components are written like their tokens in a row. -/
theorem cssAfter_eq (h : Nests tokens components) (hend : .endInString ∉ tokens)
    (hslash : ∀ a ∈ tokens, a.kind ≠ Kind.char '\\') (before : Option Kind) :
    cssAfter before components = cssAfter before (tokens.map .leaf) := by
  induction h generalizing before with
  | nil => rfl
  | leaf ha h ih =>
    obtain ⟨-, hmore⟩ := List.ne_and_not_mem_of_not_mem_cons hend
    rw [List.map_cons, cssAfter, cssAfter, ih hmore (List.forall_mem_cons.mp hslash).2]
  | @block inside tokens content components b hinside h ihInside ih =>
    obtain ⟨-, hmore⟩ := List.forall_mem_cons.mp hslash
    obtain ⟨hin, hrest⟩ := List.forall_mem_append.mp hmore
    have hcontent := ihInside (fun hmem => hend (by simp [hmem])) hin none
    have hafter := ih (fun hmem => hend (by simp [hmem])) (List.forall_mem_cons.mp hrest).2 none
    have hclosing := cssAfter_closing hin b (tokens.map .leaf)
    have hseparator : separator before (.block b content) = separator before (.leaf (.opening b)) :=
      rfl
    have hblock : cssAfter before (.block b content :: components)
        = separator before (.block b content)
          ++ (b.opening :: cssAfter none content ++ [b.closing]) ++ cssAfter none components := by
      rw [cssAfter, css]
      exact congrArg _ (cssAfter_of_isQuiet Kind.isQuiet_block components)
    have hopening (rest : List Component) : cssAfter before (.leaf (.opening b) :: rest)
        = separator before (.leaf (.opening b)) ++ [b.opening] ++ cssAfter none rest := by
      rw [cssAfter, css]
      exact congrArg (_ ++ [b.opening] ++ ·) (cssAfter_of_isQuiet Kind.isQuiet_block rest)
    rw [List.map_cons, List.map_append, List.map_cons, hblock, hopening, hclosing, hcontent, hafter,
      hseparator]
    simp
  | @function inside tokens arguments components name hinside h ihInside ih =>
    obtain ⟨-, hmore⟩ := List.forall_mem_cons.mp hslash
    obtain ⟨hin, hrest⟩ := List.forall_mem_append.mp hmore
    have hnone : .endInString ∉ inside := fun hmem => hend (by simp [hmem])
    have harguments := ihInside hnone hin none
    have hafter := ih (fun hmem => hend (by simp [hmem])) (List.forall_mem_cons.mp hrest).2 none
    have hclosing := cssAfter_closing hin .round (tokens.map .leaf)
    have hseparator : separator before (.function name arguments)
        = separator before (.leaf (.function name)) := rfl
    have hfunction : cssAfter before (.function name arguments :: components)
        = separator before (.function name arguments)
          ++ (Token.identCss name ++ '(' :: cssAfter none arguments ++ [')'])
          ++ cssAfter none components := by
      rw [cssAfter, css, hinside.lastEndsInString_eq hnone, if_neg Bool.false_ne_true]
      exact congrArg _ (cssAfter_of_isQuiet Kind.isQuiet_function components)
    have hopening (rest : List Component) : cssAfter before (.leaf (.function name) :: rest)
        = separator before (.leaf (.function name)) ++ (Token.identCss name ++ ['('])
          ++ cssAfter none rest := by
      rw [cssAfter, css]
      exact congrArg (_ ++ (Token.identCss name ++ ['(']) ++ ·)
        (cssAfter_of_isQuiet Kind.isQuiet_function rest)
    rw [List.map_cons, List.map_append, List.map_cons, hfunction, hopening, hclosing, harguments,
      hafter, hseparator]
    simp [Bracket.closing]

end Nests

/-! ## Matching brackets -/

/-- What follows the components of the innermost open list: nothing, or the bracket that closes it
and tokens whose brackets match further out. -/
inductive Follows : List Bracket → List Token → Prop where
  | outermost : Follows [] []
  | closing {outer : List Bracket} {rest : List Token} (b : Bracket)
      (h : Token.bracketsMatch outer rest = true) : Follows (b :: outer) (.closing b :: rest)

theorem exists_nests_front {around : List Bracket} {tokens : List Token}
    (h : Token.bracketsMatch around tokens = true) : ∃ front components rest,
      tokens = front ++ rest ∧ Nests front components ∧ Follows around rest := by
  induction hn : tokens.length using Nat.strong_induction_on generalizing tokens around with
  | _ n ih =>
    subst hn
    -- an open list, up to the bracket that closes it
    have hinside {b : Bracket} {tokens' : List Token} (hshorter : tokens'.length < tokens.length)
        (hmatch : Token.bracketsMatch (b :: around) tokens' = true) : ∃ inside content rest,
          tokens' = inside ++ .closing b :: rest ∧ Nests inside content
            ∧ Token.bracketsMatch around rest = true := by
      obtain ⟨inside, content, _, heq, hnests, hfollows⟩ := ih _ hshorter hmatch rfl
      cases hfollows with
      | closing b hrest => exact ⟨inside, content, _, heq, hnests, hrest⟩
    cases tokens with
    | nil =>
      rw [Token.bracketsMatch, List.isEmpty_iff] at h
      exact ⟨[], [], [], rfl, .nil, h ▸ .outermost⟩
    | cons a tokens =>
      cases ha : a.isBracket with
      | false =>
        rw [Token.bracketsMatch_cons ha] at h
        obtain ⟨front, components, rest, rfl, hnests, hfollows⟩ := ih _ (by simp) h rfl
        exact ⟨a :: front, _, rest, rfl, .leaf ha hnests, hfollows⟩
      | true =>
        cases a with
        | opening b =>
          rw [Token.bracketsMatch] at h
          obtain ⟨inside, content, after, rfl, hcontent, hafter⟩ := hinside (by simp) h
          obtain ⟨front, components, rest, rfl, hnests, hfollows⟩ :=
            ih _ (by simp; omega) hafter rfl
          exact ⟨_, _, rest, by simp, .block b hcontent hnests, hfollows⟩
        | function name =>
          rw [Token.bracketsMatch] at h
          obtain ⟨inside, content, after, rfl, hcontent, hafter⟩ := hinside (by simp) h
          obtain ⟨front, components, rest, rfl, hnests, hfollows⟩ :=
            ih _ (by simp; omega) hafter rfl
          exact ⟨_, _, rest, by simp, .function name hcontent hnests, hfollows⟩
        | closing b =>
          cases around with
          | nil => cases h
          | cons b' outer =>
            obtain ⟨heq, hrest⟩ := Bool.and_eq_true_iff.mp h
            obtain rfl := of_decide_eq_true heq
            exact ⟨[], [], _, rfl, .nil, .closing b' hrest⟩
        | _ => cases ha

/-- **Matching brackets.** Tokens whose brackets match make up nested components. -/
theorem exists_nests {tokens : List Token} (h : Token.bracketsMatch [] tokens = true) :
    ∃ components, Nests tokens components := by
  obtain ⟨front, components, rest, rfl, hnests, hfollows⟩ := exists_nests_front h
  cases hfollows with
  | outermost => exact ⟨components, by rwa [List.append_nil]⟩

end Component

end CssValues
