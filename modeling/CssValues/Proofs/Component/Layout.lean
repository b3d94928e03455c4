import CssValues.Proofs.Component.Css
import CssValues.Proofs.Respelling

/-!
# Components of spellings

A spelling with blanks around it has at most one pair of parentheses, so its tokens make up single
tokens and at most one component with content (`Component.exists_reads`). Writing the components
writes the tokens in a row.
-/

namespace CssValues

/-! ## Parentheses in texts -/

def isParen (c : Char) : Bool := c == '(' || c == ')'

/-- A class of characters without the parentheses. -/
theorem isParen_eq_false {p : Char → Bool} (hopening : p '(' = false) (hclosing : p ')' = false)
    {c : Char} (hc : p c = true) : isParen c = false := by
  cases hparen : isParen c with
  | false => rfl
  | true =>
    rcases (Bool.or_eq_true _ _).mp hparen with heq | heq
    · rw [eq_of_beq heq, hopening] at hc
      cases hc
    · rw [eq_of_beq heq, hclosing] at hc
      cases hc

theorem isParen_of_isPlain {c : Char} (h : isPlain c = true) : isParen c = false :=
  isParen_eq_false (by decide) (by decide) h

/-- A text of figures and blanks, with at most one pair of parentheses. -/
inductive IsLaidOut : Text → Prop where
  | plain {t : Text} (h : ∀ c ∈ t, isPlain c = true) : IsLaidOut t
  | enclosed {before inside after : Text} (hbefore : ∀ c ∈ before, isPlain c = true)
      (hinside : ∀ c ∈ inside, isPlain c = true) (hafter : ∀ c ∈ after, isPlain c = true) :
      IsLaidOut (before ++ '(' :: (inside ++ ')' :: after))

theorem isPlain_of_isBlank {c : Char} (h : Text.isBlank c = true) : isPlain c = true := by
  simp [isPlain, h]

theorem isPlain_of_isFigure {c : Char} (h : isFigure c = true) : isPlain c = true := by
  simp [isPlain, h]

namespace IsLaidOut

variable {t : Text}

theorem isTame (h : IsLaidOut t) : Token.IsTame t := by
  intro c hc
  cases h with
  | plain h => exact isTame_of_isPlain (h c hc)
  | enclosed hbefore hinside hafter =>
    rcases List.mem_append.mp hc with hc | hc
    · exact isTame_of_isPlain (hbefore c hc)
    rcases List.mem_cons.mp hc with rfl | hc
    · decide
    rcases List.mem_append.mp hc with hc | hc
    · exact isTame_of_isPlain (hinside c hc)
    rcases List.mem_cons.mp hc with rfl | hc
    · decide
    · exact isTame_of_isPlain (hafter c hc)

theorem of_spelled (h : Spelled t.trim) : IsLaidOut (Token.normalize t) := by
  obtain ⟨s, e, heq, hs, he⟩ := h.exists_normalize
  have hspelled := h.normalize_core.1
  rw [heq]
  generalize Token.normalize t.trim = core at hspelled
  cases hspelled with
  | figures _ hfigures =>
    refine .plain fun c hc => ?_
    rcases List.mem_append.mp hc with hc | hc
    · rcases List.mem_append.mp hc with hc | hc
      · exact isPlain_of_isBlank (hs c hc)
      · exact isPlain_of_isFigure (hfigures c hc)
    · exact isPlain_of_isBlank (he c hc)
  | @calculation body _ hbody =>
    have hshape : s ++ (CalcSource.opening ++ body ++ [')']) ++ e
        = (s ++ ['c', 'a', 'l', 'c']) ++ '(' :: (body ++ ')' :: e) := by
      simp [CalcSource.opening]
    rw [hshape]
    refine .enclosed (fun c hc => ?_) (fun c hc => ?_) fun c hc => isPlain_of_isBlank (he c hc)
    · rcases List.mem_append.mp hc with hc | hc
      · exact isPlain_of_isBlank (hs c hc)
      · have hname : ∀ d ∈ ['c', 'a', 'l', 'c'], isFigure d = true := by decide
        exact isPlain_of_isFigure (hname c hc)
    · exact (hbody c hc).elim isPlain_of_isFigure isPlain_of_isBlank

/-- Spaces at the end can be taken off. -/
theorem exists_append (h : IsLaidOut t) :
    ∃ s e, t = s ++ e ∧ IsLaidOut s ∧ (∀ c ∈ s.getLast?, Token.isSpace c = false)
      ∧ ∀ c ∈ e, Token.isSpace c = true := by
  cases h with
  | plain h =>
    obtain ⟨s, e, rfl, hs, he⟩ := Text.exists_trimEnd Token.isSpace t
    exact ⟨s, e, rfl, .plain fun c hc => h c (List.mem_append_left _ hc), hs, he⟩
  | @enclosed before inside after hbefore hinside hafter =>
    obtain ⟨s, e, rfl, hs, he⟩ := Text.exists_trimEnd Token.isSpace after
    refine ⟨before ++ '(' :: (inside ++ ')' :: s), e, by simp, .enclosed hbefore hinside
      fun c hc => hafter c (List.mem_append_left _ hc), fun c hc => ?_, he⟩
    cases hlast : s.getLast? with
    | none =>
      obtain rfl : ')' = c := by
        simpa [List.getLast?_append, List.getLast?_cons, hlast] using hc
      decide
    | some d =>
      obtain rfl : d = c := by
        simpa [List.getLast?_append, List.getLast?_cons, hlast] using hc
      exact hs d hlast

/-- So can spaces in front. -/
theorem dropSpaces (h : IsLaidOut t) :
    IsLaidOut (t.dropWhile Token.isSpace) := by
  cases h with
  | plain h => exact .plain fun c hc => h c ((List.dropWhile_suffix _).mem hc)
  | @enclosed before inside after hbefore hinside hafter =>
    rw [Text.dropWhile_append_end (by rintro c ⟨⟩; decide)]
    exact .enclosed (fun c hc => hbefore c ((List.dropWhile_suffix _).mem hc)) hinside hafter

end IsLaidOut

/-! ## Parentheses among tokens -/

namespace Token

/-- A token without parentheses. -/
def IsFlat (token : Token) : Prop := ∀ c ∈ token.source, isParen c = false

theorem isParen_of_isNameChar {c : Char} (h : isNameChar c = true) : isParen c = false :=
  isParen_eq_false (by decide) (by decide) h

/-- Only parentheses and functions have a parenthesis. -/
theorem IsSimple.isFlat {token : Token} (h : token.IsSimple) (hopening : token ≠ .opening .round)
    (hclosing : token ≠ .closing .round) (hfunction : ∀ name, token ≠ .function name) :
    token.IsFlat := by
  have hfigures {t : Text} (h : ∀ c ∈ t, isFigure c = true) : ∀ c ∈ t, isParen c = false :=
    fun c hc => isParen_of_isPlain (isPlain_of_isFigure (h c hc))
  intro c hc
  cases h with
  | whitespace h => exact isParen_eq_false (by decide) (by decide) (h c hc)
  | ident h => exact isParen_of_isNameChar (h.2 c hc)
  | function _ => exact absurd rfl (hfunction _)
  | number h => exact hfigures h c hc
  | percentage h =>
    rcases List.mem_append.mp hc with hc | hc
    · exact hfigures h c hc
    · exact List.mem_singleton.mp hc ▸ rfl
  | dimension h hname =>
    rcases List.mem_append.mp hc with hc | hc
    · exact hfigures h c hc
    · exact isParen_of_isNameChar (hname.2 c hc)
  | opening => exact absurd rfl hopening
  | closing => exact absurd rfl hclosing
  | literal h => exact List.mem_singleton.mp hc ▸ isParen_of_isPlain h

/-- A token that opens a component with content. -/
inductive Opens : Token → Prop where
  | parenthesis : Opens (.opening .round)
  | function {name : Text} (h : IsName name) : Opens (.function name)

theorem IsSimple.isFlat_or {token : Token} (h : token.IsSimple) :
    token.IsFlat ∨ token.Opens ∨ token = .closing .round := by
  by_cases hclosing : token = .closing .round
  · exact .inr (.inr hclosing)
  by_cases hopens : token.Opens
  · exact .inr (.inl hopens)
  refine .inl (h.isFlat ?_ hclosing ?_)
  · rintro rfl
    exact hopens .parenthesis
  · rintro name rfl
    cases h with
    | function h => exact hopens (.function h)

/-- A simple token has a parenthesis at its end only. -/
theorem IsSimple.source_paren {token : Token} (h : token.IsSimple) (hflat : ¬token.IsFlat) :
    ∃ name c, token.source = name ++ [c] ∧ isParen c = true ∧ (∀ d ∈ name, isParen d = false)
      ∧ (c = '(' → token.Opens) ∧ (c = ')' → token = .closing .round) := by
  rcases h.isFlat_or with hflat' | hopens | rfl
  · exact absurd hflat' hflat
  · cases hopens with
    | parenthesis => exact ⟨[], '(', rfl, rfl, nofun, fun _ => .parenthesis, nofun⟩
    | @function name hname =>
      exact ⟨name, '(', rfl, rfl, fun c hc => isParen_of_isNameChar (hname.2 c hc),
        fun _ => .function hname, nofun⟩
  · exact ⟨[], ')', rfl, rfl, nofun, nofun, fun _ => rfl⟩

/-- The first parenthesis of a text is a token that opens a component or the one that closes it. -/
theorem exists_paren {tokens : List Token} (hsimple : ∀ t ∈ tokens, t.IsSimple) {s e : Text}
    {p : Char} (hp : isParen p = true) (hs : ∀ c ∈ s, isParen c = false)
    (h : tokens.flatMap source = s ++ p :: e) :
    ∃ before token after, tokens = before ++ token :: after ∧ (∀ t ∈ before, t.IsFlat)
      ∧ (p = '(' → token.Opens) ∧ (p = ')' → token = .closing .round)
      ∧ after.flatMap source = e := by
  have hstop {s e : Text} {p : Char} (hp : isParen p = true) (hs : ∀ c ∈ s, isParen c = false) :
      (s ++ p :: e).dropWhile (!isParen ·) = p :: e :=
    Text.dropWhile_append_stop (by simpa using hs) (by simpa using hp)
  induction tokens generalizing s with
  | nil => simp at h
  | cons t rest ih =>
    obtain ⟨htoken, hrest⟩ := List.forall_mem_cons.mp hsimple
    have hdrop := hstop (e := e) hp hs
    rw [← h, List.flatMap_cons] at hdrop
    by_cases hflat : t.IsFlat
    · -- the parenthesis stands behind `t`, with what is left of `s` in front of it
      rw [List.dropWhile_append_of_pos fun c hc => by simp [hflat c hc]] at hdrop
      obtain ⟨before, token, after, rfl, hbefore, hopens, hcloses, hafter⟩ :=
        ih hrest (s := (rest.flatMap source).takeWhile (!isParen ·))
          (fun c hc => by simpa using List.mem_takeWhile_imp hc)
          (by rw [← hdrop, List.takeWhile_append_dropWhile])
      exact ⟨t :: before, token, after, rfl, List.forall_mem_cons.mpr ⟨hflat, hbefore⟩,
        hopens, hcloses, hafter⟩
    · obtain ⟨name, c, hsource, hc, hname, hopens, hcloses⟩ := htoken.source_paren hflat
      rw [hsource, List.append_assoc, List.singleton_append, hstop hc hname] at hdrop
      obtain ⟨rfl, htail⟩ := List.cons.inj hdrop
      exact ⟨[], t, rest, rfl, nofun, hopens, hcloses, htail⟩

end Token

/-! ## Components -/

namespace Component

/-- A component that simple tokens can make up. -/
inductive IsTop : Component → Prop where
  | leaf {t : Token} (h : t.IsSimple) : IsTop (.leaf t)
  | block (content : List Component) : IsTop (.block .round content)
  | function (name : Text) (arguments : List Component) : IsTop (.function name arguments)

/-- Tokens that make up components wherever they stand. -/
structure Reads (tokens : List Token) (components : List Component) : Prop where
  top : ∀ c ∈ components, c.IsTop
  step : ∀ r : Reading,
    tokens.foldl Reading.step r = ⟨components.reverse ++ r.current, r.around⟩

/-- The component that an opening token makes up with what it encloses. -/
def enclose (token : Token) (content : List Component) : Component :=
  match token with
  | .function name => .function name content
  | _ => .block .round content

theorem step_of_isFlat {t : Token} (hsimple : t.IsSimple) (hflat : t.IsFlat) (r : Reading) :
    r.step t = r.push (.leaf t) := by
  cases hsimple with
  | function _ => exact absurd (hflat '(' (List.mem_append_right _ (by decide))) (by decide)
  | opening => exact absurd (hflat '(' (by decide)) (by decide)
  | closing => exact absurd (hflat ')' (by decide)) (by decide)
  | _ => rfl

theorem foldl_step_of_isFlat {tokens : List Token} (hsimple : ∀ t ∈ tokens, t.IsSimple)
    (hflat : ∀ t ∈ tokens, t.IsFlat) (r : Reading) :
    tokens.foldl Reading.step r = ⟨(tokens.map .leaf).reverse ++ r.current, r.around⟩ := by
  induction tokens generalizing r with
  | nil => rfl
  | cons t rest ih =>
    obtain ⟨htoken, hrest⟩ := List.forall_mem_cons.mp hsimple
    obtain ⟨hone, hmore⟩ := List.forall_mem_cons.mp hflat
    rw [List.foldl_cons, step_of_isFlat htoken hone, ih hrest hmore]
    simp [Reading.push]

theorem foldl_step_enclose {token : Token} (h : token.Opens) {inside : List Token}
    (hsimple : ∀ t ∈ inside, t.IsSimple) (hflat : ∀ t ∈ inside, t.IsFlat) (r : Reading) :
    (token :: (inside ++ [.closing .round])).foldl Reading.step r
      = r.push (enclose token (inside.map .leaf)) := by
  rw [List.foldl_cons, List.foldl_append, foldl_step_of_isFlat hsimple hflat]
  cases h with
  | parenthesis => simp [Reading.step, Reading.enter, Reading.close, Opener.closer, Opener.close,
      Reading.push, enclose]
  | function _ => simp [Reading.step, Reading.enter, Reading.close, Opener.closer, Opener.close,
      Reading.push, enclose]

/-! ## Writing components -/

/-- Components are written one after the other; only the kind of the last one matters. -/
theorem exists_cssAfter_append (before : Option Kind) (components : List Component) :
    ∃ k, (k = before ∨ ∃ c ∈ components, k = some c.kind) ∧ ∀ more,
      cssAfter before (components ++ more) = cssAfter before components ++ cssAfter k more := by
  induction components generalizing before with
  | nil => exact ⟨before, .inl rfl, fun _ => rfl⟩
  | cons c rest ih =>
    obtain ⟨k, hk, hcss⟩ := ih (some c.kind)
    refine ⟨k, .inr ?_, fun more => ?_⟩
    · rcases hk with rfl | ⟨d, hd, rfl⟩
      · exact ⟨c, List.mem_cons_self, rfl⟩
      · exact ⟨d, List.mem_cons_of_mem _ hd, rfl⟩
    · rw [List.cons_append, cssAfter, cssAfter, hcss]
      simp only [List.append_assoc]

theorem Kind.clash_error (k : Kind) : k.clash .error = false := by
  simp [Kind.clash, Kind.clashes, Kind.char]

/-- No unclosed string is among simple tokens. -/
theorem lastEndsInString_leaves {tokens : List Token} (h : ∀ t ∈ tokens, t.IsSimple) :
    lastEndsInString (tokens.map .leaf) = false := by
  induction tokens with
  | nil => rfl
  | cons t rest ih =>
    obtain ⟨htoken, hrest⟩ := List.forall_mem_cons.mp h
    cases rest with
    | nil =>
      cases htoken <;> rfl
    | cons u rest => exact ih hrest

/-- A closing bracket is written as it is, and what follows as if nothing stood before. -/
theorem cssAfter_closing {tokens : List Token} (h : ∀ t ∈ tokens, t.kind ≠ Kind.char '\\')
    (b : Bracket) (more : List Component) :
    cssAfter none (tokens.map .leaf ++ .leaf (.closing b) :: more)
      = cssAfter none (tokens.map .leaf) ++ b.closing :: cssAfter none more := by
  obtain ⟨k, hk, hcss⟩ := exists_cssAfter_append none (tokens.map .leaf)
  have hseparator : separator k (.leaf (.closing b)) = [] := by
    rcases hk with rfl | ⟨c, hc, rfl⟩
    · rfl
    · obtain ⟨t, ht, rfl⟩ := List.mem_map.mp hc
      exact separator_eq_nil (Kind.clash_error _) (h t ht)
  rw [hcss, cssAfter, hseparator]
  exact congrArg (_ ++ b.closing :: ·) (cssAfter_of_isQuiet Kind.isQuiet_error more)

/-- What is enclosed is written like the tokens in a row. -/
theorem cssAfter_enclose {token : Token} (h : token.Opens) {inside : List Token}
    (hsimple : ∀ t ∈ inside, t.IsSimple) (before : Option Kind) (more : List Component) :
    cssAfter before (enclose token (inside.map .leaf) :: more)
      = cssAfter before (.leaf token :: (inside.map .leaf ++ .leaf (.closing .round) :: more)) := by
  have hcss : (enclose token (inside.map .leaf)).css
      = token.css ++ cssAfter none (inside.map .leaf) ++ [')'] := by
    cases h with
    | parenthesis => rfl
    | @function name _ =>
      have htoken : (Token.function name).css = Token.identCss name ++ ['('] := rfl
      rw [enclose, css, lastEndsInString_leaves hsimple, htoken]
      simp
  have hseparator : separator before (enclose token (inside.map .leaf))
      = separator before (.leaf token) := by
    cases h <;> rfl
  have hquiet : (Component.leaf token).kind.IsQuiet := by
    cases h with
    | parenthesis => exact Kind.isQuiet_block
    | function _ => exact Kind.isQuiet_function
  have hkind : (enclose token (inside.map .leaf)).kind = (Component.leaf token).kind := by
    cases h <;> rfl
  have hclosing := cssAfter_closing (fun t ht => (hsimple t ht).kind_ne_backslash) .round more
  rw [cssAfter, cssAfter, hkind, cssAfter_of_isQuiet hquiet, cssAfter_of_isQuiet hquiet,
    hclosing, hcss, hseparator, css]
  simp [Bracket.closing]

/-! ## Reading components -/

theorem Reads.leaves {tokens : List Token} (hsimple : ∀ t ∈ tokens, t.IsSimple)
    (hflat : ∀ t ∈ tokens, t.IsFlat) : Reads tokens (tokens.map .leaf) where
  top := by
    intro c hc
    obtain ⟨t, ht, rfl⟩ := List.mem_map.mp hc
    exact .leaf (hsimple t ht)
  step := foldl_step_of_isFlat hsimple hflat

theorem Reads.enclosed {token : Token} (h : token.Opens) {before inside after : List Token}
    (hsimple : ∀ t ∈ before ++ inside ++ after, t.IsSimple)
    (hflat : ∀ t ∈ before ++ inside ++ after, t.IsFlat) :
    Reads (before ++ token :: (inside ++ .closing .round :: after))
      (before.map .leaf ++ enclose token (inside.map .leaf) :: after.map .leaf) where
  top := by
    intro c hc
    rcases List.mem_append.mp hc with hc | hc
    · obtain ⟨t, ht, rfl⟩ := List.mem_map.mp hc
      exact .leaf (hsimple t (by simp [ht]))
    rcases List.mem_cons.mp hc with rfl | hc
    · cases h with
      | parenthesis => exact .block _
      | function _ => exact .function _ _
    · obtain ⟨t, ht, rfl⟩ := List.mem_map.mp hc
      exact .leaf (hsimple t (by simp [ht]))
  step r := by
    have hcut : before ++ token :: (inside ++ .closing .round :: after)
        = before ++ (token :: (inside ++ [.closing .round])) ++ after := by simp
    rw [hcut, List.foldl_append, List.foldl_append,
      foldl_step_of_isFlat (fun t ht => hsimple t (by simp [ht])) fun t ht => hflat t (by simp [ht]),
      foldl_step_enclose h (fun t ht => hsimple t (by simp [ht]))
        fun t ht => hflat t (by simp [ht]),
      foldl_step_of_isFlat (fun t ht => hsimple t (by simp [ht])) fun t ht => hflat t (by simp [ht])]
    simp [Reading.push]

theorem Reads.append {s t : List Token} {components more : List Component}
    (hs : Reads s components) (ht : Reads t more) : Reads (s ++ t) (components ++ more) where
  top := fun c hc => (List.mem_append.mp hc).elim (hs.top c) (ht.top c)
  step r := by
    rw [List.foldl_append, hs.step, ht.step]
    simp

theorem Reads.ofTokens_eq {tokens : List Token} {components : List Component}
    (h : Reads tokens components) : ofTokens tokens = components := by
  rw [ofTokens, h.step]
  simp [Reading.finish, Reading.start]

/-- The tokens of a spelling with blanks around it make up components that are written like the
tokens in a row. -/
theorem exists_reads {t : Text} (h : IsLaidOut t) :
    ∃ components, Reads (Token.scanAll t) components
      ∧ ∀ k, cssAfter k components = cssAfter k ((Token.scanAll t).map .leaf) := by
  obtain ⟨hsimple, hsource⟩ := Token.scanAll_simple h.isTame
  have hflat {tokens : List Token} {s : Text} (hs : ∀ c ∈ s, isPlain c = true)
      (heq : tokens.flatMap Token.source = s) : ∀ t ∈ tokens, t.IsFlat := fun t ht c hc =>
    isParen_of_isPlain (hs c (heq ▸ List.mem_flatMap.mpr ⟨t, ht, hc⟩))
  cases h with
  | plain h => exact ⟨_, .leaves hsimple (hflat h hsource), fun _ => rfl⟩
  | enclosed hbefore hinside hafter =>
    obtain ⟨before, token, rest, heq, hbefore, hopens, -, hrest⟩ :=
      Token.exists_paren hsimple rfl (fun c hc => isParen_of_isPlain (hbefore c hc)) hsource
    have hsimpleRest : ∀ t ∈ rest, t.IsSimple := fun t ht => hsimple t (by simp [heq, ht])
    obtain ⟨inside, close, after, rfl, hinside, -, hcloses, hafter'⟩ :=
      Token.exists_paren hsimpleRest rfl (fun c hc => isParen_of_isPlain (hinside c hc)) hrest
    rw [hcloses rfl] at heq
    have hafterFlat := hflat hafter hafter'
    rw [heq] at hsimple ⊢
    refine ⟨_, .enclosed (hopens rfl) (fun t ht => hsimple t ?_) (fun t ht => ?_), fun k => ?_⟩
    · simp only [List.mem_append] at ht
      rcases ht with (ht | ht) | ht <;> simp [ht]
    · simp only [List.mem_append] at ht
      rcases ht with (ht | ht) | ht
      · exact hbefore t ht
      · exact hinside t ht
      · exact hafterFlat t ht
    · obtain ⟨k', -, hcss⟩ := exists_cssAfter_append k (before.map .leaf)
      rw [hcss, cssAfter_enclose (hopens rfl) fun t ht => hsimple t (by simp [ht]), ← hcss]
      simp

end Component

end CssValues
