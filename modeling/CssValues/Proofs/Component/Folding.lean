import CssValues.Component.Parts
import CssValues.Proofs.Token.Folding

/-!
# Components in another case

A text in small letters makes up the same components, but for the case of the letters in them
(`Component.ofText_asciiLower`), and these are written with the same letters. So a shorthand in small
letters has the same parts, but for case (`shorthandParts_asciiLower`).
-/

namespace CssValues

open Text (asciiLower asciiLower_append asciiLower_asciiLower isTranscription_toLower)

/-! ## Writing tokens -/

namespace Token

/-- A character is written alike in both cases if letters are written as they are. -/
theorem asciiLower_charCss {g : Char → Text} (hg : ∀ c, Text.isLetter c = true → g c = [c])
    (c : Char) : asciiLower (g c.toLower) = asciiLower (g c) := by
  cases hc : Text.isLetter c with
  | true =>
    rw [hg c hc, hg _ ((Text.isLetter_toLower c).trans hc)]
    exact congrArg (fun d => [d]) (Text.toLower_toLower c)
  | false => rw [Text.toLower_eq_self hc]

theorem asciiLower_flatMapCss {g : Char → Text} (hg : ∀ c, Text.isLetter c = true → g c = [c])
    (t : Text) : asciiLower ((asciiLower t).flatMap g) = asciiLower (t.flatMap g) := by
  induction t with
  | nil => rfl
  | cons c t ih =>
    rw [Text.asciiLower_cons, List.flatMap_cons, List.flatMap_cons, asciiLower_append,
      asciiLower_append, ih, asciiLower_charCss hg]

section

variable {c : Char}

theorem isNameStart_of_isLetter (h : Text.isLetter c = true) : isNameStart c = true := by
  rw [isNameStart, h]
  rfl

theorem nameCharCss_of_isLetter (h : Text.isLetter c = true) : nameCharCss c = [c] :=
  if_pos (isNameChar_of_isNameStart (isNameStart_of_isLetter h))

theorem firstCharCss_of_isLetter (h : Text.isLetter c = true) : firstCharCss c = [c] :=
  if_pos (isNameStart_of_isLetter h)

theorem stringCharCss_of_isLetter (h : Text.isLetter c = true) : stringCharCss c = [c] :=
  Text.forall_isLetter (p := fun c => stringCharCss c = [c]) (by decide) h

theorem urlCharCss_of_isLetter (h : Text.isLetter c = true) : urlCharCss c = [c] :=
  Text.forall_isLetter (p := fun c => urlCharCss c = [c]) (by decide) h

end

theorem asciiLower_nameCss (name : Text) :
    asciiLower (nameCss (asciiLower name)) = asciiLower (nameCss name) :=
  asciiLower_flatMapCss (fun _ => nameCharCss_of_isLetter) name

theorem asciiLower_firstCss (c : Char) (name : Text) :
    asciiLower (firstCharCss c.toLower ++ nameCss (asciiLower name))
      = asciiLower (firstCharCss c ++ nameCss name) := by
  rw [asciiLower_append, asciiLower_append, asciiLower_nameCss,
    asciiLower_charCss fun _ => firstCharCss_of_isLetter]

theorem asciiLower_identCss (name : Text) :
    asciiLower (identCss (asciiLower name)) = asciiLower (identCss name) := by
  have hdash : Text.isLetter '-' = false := by decide
  cases name with
  | nil => rfl
  | cons c name =>
    by_cases hc : c = '-'
    · subst hc
      cases name with
      | nil => rfl
      | cons d name =>
        by_cases hd : d = '-'
        · subst hd
          exact congrArg (fun t => '-' :: '-' :: t) (asciiLower_nameCss name)
        · have hd' : d.toLower ≠ '-' := mt (Text.toLower_eq_iff hdash).mp hd
          have hplain {c : Char} (hc : c ≠ '-') (t : Text) :
              identCss ('-' :: c :: t) = '-' :: firstCharCss c ++ nameCss t := by
            rw [identCss]
            exact hc
          rw [hplain hd]
          refine (congrArg asciiLower (hplain hd' (asciiLower name))).trans ?_
          exact congrArg ('-' :: ·) (asciiLower_firstCss d name)
    · have hc' : c.toLower ≠ '-' := mt (Text.toLower_eq_iff hdash).mp hc
      have hself : identCss (c :: name) = firstCharCss c ++ nameCss name := by simp [identCss, hc]
      have hlower : identCss (c.toLower :: asciiLower name)
          = firstCharCss c.toLower ++ nameCss (asciiLower name) := by simp [identCss, hc']
      rw [Text.asciiLower_cons, hself, hlower, asciiLower_firstCss]

theorem asciiLower_unitCss (name : Text) :
    asciiLower (unitCss (asciiLower name)) = asciiLower (unitCss name) := by
  cases name with
  | nil => rfl
  | cons c name =>
    have hdash : ['-'].isPrefixOf (asciiLower name) = ['-'].isPrefixOf name :=
      isPrefixOf_asciiLower (by decide) name
    rw [Text.asciiLower_cons, unitCss, unitCss, isTranscription_toLower.isExponentMark,
      isEmpty_asciiLower, hdash]
    split
    · exact congrArg (['\\', '6', '5', ' '] ++ ·) (asciiLower_nameCss name)
    · exact asciiLower_identCss (c :: name)

/-- A token in lower case is written with the same letters. -/
theorem asciiLower_css (token : Token) : asciiLower token.folded.css = asciiLower token.css := by
  have hstring := asciiLower_flatMapCss (g := stringCharCss) fun _ => stringCharCss_of_isLetter
  have hurl := asciiLower_flatMapCss (g := urlCharCss) fun _ => urlCharCss_of_isLetter
  cases token with
  | ident name => exact asciiLower_identCss name
  | function name =>
    show asciiLower (identCss (asciiLower name) ++ ['(']) = asciiLower (identCss name ++ ['('])
    rw [asciiLower_append, asciiLower_append, asciiLower_identCss]
  | atKeyword name => exact congrArg ('@' :: ·) (asciiLower_identCss name)
  | hash name isIdentifier =>
    refine congrArg ('#' :: ·) ?_
    cases isIdentifier with
    | true => exact asciiLower_identCss name
    | false => exact asciiLower_nameCss name
  | number text => exact asciiLower_asciiLower text
  | percentage text =>
    show asciiLower (asciiLower text ++ ['%']) = asciiLower (text ++ ['%'])
    rw [asciiLower_append, asciiLower_append, asciiLower_asciiLower]
  | dimension text unitName =>
    show asciiLower (asciiLower text ++ unitCss (asciiLower unitName))
      = asciiLower (text ++ unitCss unitName)
    rw [asciiLower_append, asciiLower_append, asciiLower_asciiLower, asciiLower_unitCss]
  | string value closed =>
    show asciiLower ('"' :: (asciiLower value).flatMap stringCharCss ++ if closed then ['"'] else [])
      = asciiLower ('"' :: value.flatMap stringCharCss ++ if closed then ['"'] else [])
    rw [asciiLower_append, Text.asciiLower_cons, hstring, ← Text.asciiLower_cons, ← asciiLower_append]
  | url value closed =>
    show asciiLower
        (urlName ++ '(' :: (asciiLower value).flatMap urlCharCss ++ if closed then [')'] else [])
      = asciiLower (urlName ++ '(' :: value.flatMap urlCharCss ++ if closed then [')'] else [])
    simp only [asciiLower_append, Text.asciiLower_cons, hurl]
  | _ => rfl

end Token

namespace Component

/-! ## Components in lower case -/

mutual

/-- A component with its letters in lower case. -/
def folded : Component → Component
  | .leaf token => .leaf token.folded
  | .block b content => .block b (foldedList content)
  | .function name arguments => .function (asciiLower name) (foldedList arguments)

def foldedList : List Component → List Component
  | [] => []
  | c :: rest => c.folded :: foldedList rest

end

theorem foldedList_eq_map (components : List Component) :
    foldedList components = components.map folded := by
  induction components with
  | nil => rfl
  | cons c rest ih => exact congrArg (c.folded :: ·) ih

theorem kind_folded (c : Component) : c.folded.kind = c.kind := by
  cases c with
  | leaf token => cases token <;> rfl
  | block b content => rfl
  | function name arguments => rfl

theorem isWhitespace_folded (c : Component) : c.folded.isWhitespace = c.isWhitespace := by
  cases c with
  | leaf token => cases token <;> rfl
  | block b content => rfl
  | function name arguments => rfl

theorem startsNewline_folded (c : Component) : c.folded.startsNewline = c.startsNewline := by
  cases c with
  | leaf token => cases token <;> rfl
  | block b content => rfl
  | function name arguments => rfl

theorem separator_folded (k : Option Kind) (c : Component) : separator k c.folded = separator k c := by
  unfold separator
  rw [kind_folded, startsNewline_folded]

mutual

theorem endsInString_folded : ∀ c : Component, c.folded.endsInString = c.endsInString
  | .leaf token => by cases token <;> rfl
  | .block _ _ => rfl
  | .function _ arguments => lastEndsInString_folded arguments

theorem lastEndsInString_folded : ∀ components : List Component,
    lastEndsInString (foldedList components) = lastEndsInString components
  | [] => rfl
  | [c] => endsInString_folded c
  | _ :: c :: rest => lastEndsInString_folded (c :: rest)

end

mutual

/-- A component in lower case is written with the same letters. -/
theorem asciiLower_css : ∀ c : Component, asciiLower c.folded.css = asciiLower c.css
  | .leaf token => token.asciiLower_css
  | .block b content => by
    simp only [folded, css, Text.asciiLower_cons, asciiLower_append, asciiLower_cssAfter content]
  | .function name arguments => by
    simp only [folded, css, Text.asciiLower_cons, asciiLower_append, asciiLower_cssAfter arguments,
      Token.asciiLower_identCss, lastEndsInString_folded]

theorem asciiLower_cssAfter : ∀ (components : List Component) (k : Option Kind),
    asciiLower (cssAfter k (foldedList components)) = asciiLower (cssAfter k components)
  | [], _ => rfl
  | c :: rest, k => by
    simp only [foldedList, cssAfter, asciiLower_append, asciiLower_css c, asciiLower_cssAfter rest,
      separator_folded, kind_folded]

end

/-! ## Reading components -/

/-- What opened a list, in lower case. -/
def Opener.folded : Opener → Opener
  | .bracket b => .bracket b
  | .function name => .function (asciiLower name)

theorem Opener.closer_folded (o : Opener) : o.folded.closer = o.closer := by cases o <;> rfl

theorem Opener.close_folded (o : Opener) (content : List Component) :
    o.folded.close (content.map Component.folded) = (o.close content).folded := by
  cases o with
  | bracket b => rw [Opener.folded, close, close, Component.folded, foldedList_eq_map]
  | function name => rw [Opener.folded, close, close, Component.folded, foldedList_eq_map]

namespace Reading

/-- A list around the innermost one, in lower case. -/
def foldedFrame (frame : Opener × List Component) : Opener × List Component :=
  (frame.1.folded, frame.2.map Component.folded)

/-- What was read so far, in lower case. -/
def folded (r : Reading) : Reading := ⟨r.current.map Component.folded, r.around.map foldedFrame⟩

theorem close_folded (r : Reading) (b : Bracket) : r.folded.close b = (r.close b).folded := by
  obtain ⟨current, around⟩ := r
  cases around with
  | nil => rfl
  | cons frame around =>
    obtain ⟨o, before⟩ := frame
    simp only [folded, foldedFrame, List.map_cons, close, Opener.closer_folded]
    split
    · rw [← List.map_reverse, Opener.close_folded, List.map_cons]
    · rfl

/-- **Step.** Taking in a token in lower case. -/
theorem step_folded (r : Reading) (token : Token) :
    r.folded.step token.folded = (r.step token).folded := by
  cases token with
  | closing b => exact r.close_folded b
  | _ => rfl

theorem finish_folded (r : Reading) : r.folded.finish = r.finish.map Component.folded := by
  obtain ⟨current, around⟩ := r
  unfold finish folded
  dsimp only
  rw [List.map_reverse]
  refine congrArg List.reverse ?_
  induction around generalizing current with
  | nil => rfl
  | cons frame around ih =>
    have hclose :
        (foldedFrame frame).1.close (current.map Component.folded).reverse :: (foldedFrame frame).2
        = (frame.1.close current.reverse :: frame.2).map Component.folded := by
      rw [← List.map_reverse, List.map_cons]
      exact congrArg (· :: _) (Opener.close_folded frame.1 _)
    rw [List.map_cons, List.foldl_cons, List.foldl_cons, hclose, ih]

end Reading

/-- **Run.** Tokens in lower case make up the components in lower case. -/
theorem ofTokens_folded (tokens : List Token) :
    ofTokens (tokens.map Token.folded) = (ofTokens tokens).map folded := by
  have hrun : ∀ r : Reading, (tokens.map Token.folded).foldl Reading.step r.folded
      = (tokens.foldl Reading.step r).folded := by
    induction tokens with
    | nil => exact fun _ => rfl
    | cons token tokens ih =>
      intro r
      rw [List.map_cons, List.foldl_cons, List.foldl_cons, r.step_folded, ih]
  exact (congrArg Reading.finish (hrun .start)).trans (Reading.finish_folded _)

/-- The components of a text in lower case, or the same fault. -/
theorem ofText_asciiLower (t : Text) :
    (ofText (asciiLower t)).map (List.map folded) = (ofText t).map (List.map folded) := by
  have hmade (t : Text) : (ofText t).map (List.map folded)
      = ((Token.ofText t).map (List.map Token.folded)).map ofTokens := by
    unfold ofText
    cases Token.ofText t with
    | error f => rfl
    | ok tokens => exact congrArg Except.ok (ofTokens_folded tokens).symm
  rw [hmade, hmade, Token.ofText_asciiLower]

end Component

/-- **Parts.** The parts of a shorthand in lower case are its parts but for case, or it has the same
fault. -/
theorem shorthandParts_asciiLower (t : Text) :
    (shorthandParts (asciiLower t)).map (List.map asciiLower)
      = (shorthandParts t).map (List.map asciiLower) := by
  have hmade (t : Text) : (shorthandParts t).map (List.map asciiLower)
      = ((Component.ofText t).map (List.map Component.folded)).map fun components =>
        (components.filter fun c => !c.isWhitespace).map fun c =>
          asciiLower (Component.listCss [c]).trim := by
    unfold shorthandParts
    cases Component.ofText t with
    | error f => rfl
    | ok components =>
      have hpart (c : Component) :
          asciiLower (Component.listCss [c.folded]).trim = asciiLower (Component.listCss [c]).trim := by
        have htrim (t : Text) : asciiLower t.trim = (asciiLower t).trim :=
          (isTranscription_toLower.trim_map t).symm
        rw [htrim, htrim]
        exact congrArg Text.trim (Component.asciiLower_cssAfter [c] none)
      refine congrArg Except.ok ?_
      simp only [List.filter_map, List.map_map, Function.comp_def, Component.isWhitespace_folded, hpart]
  rw [hmade, hmade, Component.ofText_asciiLower]

end CssValues
