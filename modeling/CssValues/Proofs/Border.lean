import CssValues.Proofs.Resolver.Agreement
import CssValues.Proofs.Style.Getter
import Mathlib.Data.List.Perm.Basic

/-!
# Borders in any order

A part of a border shorthand is a width, a line style, a colour or none of them, whatever the parts
before it. So the last part of each kind counts, and with one part to a kind the order does not
matter (`Border.read_in_any_order`). A colour that fails is the only thing in the way.
-/

namespace CssValues

namespace Border

variable {c : Context} {b : Border} {part t u : Text} {parts ps qs : List Text}

/-! ## What a part is -/

/-- The width that a part is: a size in pixels. -/
def width? (c : Context) (part : Text) : Option Number :=
  match (Resolver.size c part).toOption with
  | some (.pixels n) => some n
  | _ => none

/-- The line style that a part is if it is no width. -/
def style? (c : Context) (part : Text) : Option Text :=
  if (width? c part).isNone && styles.contains (Text.lower part) then some (Text.lower part)
  else none

/-- The colour that a part is if it is neither width nor line style. -/
def color? (c : Context) (part : Text) : Option Color :=
  if (width? c part).isNone && (style? c part).isNone then (Color.read part).toOption else none

/-- The border with what a part is. -/
def withPart (c : Context) (b : Border) (part : Text) : Border :=
  ⟨(width? c part).getD b.width, (style? c part).getD b.style, (color? c part).getD b.color⟩

theorem width?_eq_some_iff {n : Number} :
    width? c part = some n ↔ (Resolver.size c part).toOption = some (.pixels n) := by
  unfold width?
  split
  · next m hsize => simp [hsize]
  · next hnot => exact iff_of_false nofun (hnot n)

theorem result_attempt_color (h : ¬Color.HasLongChannel part) :
    (Color.attempt part).result = .ok (Color.read part).toOption := by
  obtain ⟨o, ho⟩ := (Color.returns_attempt_iff part).mpr h
  unfold Color.attempt at ho ⊢
  cases hread : Color.read part with
  | ok color => rfl
  | error why =>
    rw [hread] at ho
    cases why with
    | fault f => cases ho
    | _ => rfl

/-- **Step.** A part is taken in for what it is, if it has no channel that is too long. -/
theorem result_step (h : ¬Color.HasLongChannel part) :
    (step c b part).result = .ok (withPart c b part) := by
  unfold step
  rw [Noted.result_bind, (Resolver.answers_size c part).result_attempt]
  dsimp only [Except.bind]
  split
  · next n hsize =>
    have hwidth := width?_eq_some_iff.mpr hsize
    simp [withPart, hwidth, style?, color?]
  · next hnot =>
    have hwidth : width? c part = none :=
      Option.eq_none_iff_forall_ne_some.mpr fun n hn => hnot n (width?_eq_some_iff.mp hn)
    split
    · next hstyle =>
      have hmem := List.contains_iff_mem.mp hstyle
      simp [withPart, hwidth, style?, hmem, color?]
    · next hstyle =>
      have hmem := mt List.contains_iff_mem.mpr hstyle
      rw [Noted.result_bind, result_attempt_color h]
      have hwith : withPart c b part
          = { b with color := (Color.read part).toOption.getD b.color } := by
        simp [withPart, hwidth, style?, hmem, color?]
      rw [hwith]
      cases (Color.read part).toOption <;> rfl

/-- The last part of each kind, or what was there. -/
def lastParts (c : Context) (b : Border) (parts : List Text) : Border :=
  ⟨(parts.filterMap (width? c)).getLastD b.width, (parts.filterMap (style? c)).getLastD b.style,
    (parts.filterMap (color? c)).getLastD b.color⟩

theorem getLastD_filterMap_cons {α β : Type} (f : α → Option β) (a : α) (as : List α) (d : β) :
    ((a :: as).filterMap f).getLastD d = (as.filterMap f).getLastD ((f a).getD d) := by
  rw [List.filterMap_cons]
  cases f a with
  | none => rfl
  | some b => exact List.getLastD_cons ..

/-- **Run.** -/
theorem result_foldlM (b : Border) (h : ∀ part ∈ parts, ¬Color.HasLongChannel part) :
    (parts.foldlM (step c) b).result = .ok (lastParts c b parts) := by
  induction parts generalizing b with
  | nil => rfl
  | cons part parts ih =>
    obtain ⟨hpart, hparts⟩ := List.forall_mem_cons.mp h
    rw [List.foldlM_cons, Noted.result_bind, result_step hpart]
    refine (ih _ hparts).trans ?_
    simp only [lastParts, getLastD_filterMap_cons, withPart]

/-- A border shorthand without a channel that is too long is read as the last part of each kind. -/
theorem result_read (hparts : shorthandParts t = .ok ps)
    (h : ∀ part ∈ ps, ¬Color.HasLongChannel part) :
    (read c t).result = .ok (lastParts c default ps) := by
  rw [read, Noted.result_bind, hparts]
  exact result_foldlM default h

theorem equals_width_lastParts (hb : b.width.equals b.width = true) :
    (lastParts c b parts).width.equals (lastParts c b parts).width = true := by
  have hlast : (lastParts c b parts).width ∈ b.width :: parts.filterMap (width? c) :=
    List.getLastD_mem_cons
  rcases List.mem_cons.mp hlast with heq | hmem
  · rw [heq, hb]
  · obtain ⟨part, -, hpart⟩ := List.mem_filterMap.mp hmem
    have hfinite := Resolver.answers_size c part
    rw [Resolver.eq_of_toOption (width?_eq_some_iff.mp hpart)] at hfinite
    exact Number.equals_self_of_isFinite hfinite

/-- A list of one element at most does not change with its order. -/
theorem filterMap_eq_of_perm {α β : Type} {f : α → Option β} {as bs : List α} (hperm : as.Perm bs)
    (h : (as.filterMap f).length ≤ 1) : as.filterMap f = bs.filterMap f := by
  have hfilter := hperm.filterMap f
  match hlist : as.filterMap f with
  | [] =>
    rw [hlist] at hfilter
    exact (List.nil_perm.mp hfilter).symm
  | [a] =>
    rw [hlist] at hfilter
    exact List.singleton_perm.mp hfilter
  | _ :: _ :: _ =>
    rw [hlist] at h
    simp at h

/-! ## A colour that fails -/

section

variable {digits : Text} (hname : Token.IsName digits)
  (hnormal : ∀ c ∈ digits, Token.isNormal c = true)

/-- The text of a colour with a row of digits for its red channel. -/
def redText (digits : Text) : Text := "rgb(".toList ++ (digits ++ ",0,0)".toList)

/-- The component of such a text. -/
def redComponent (digits : Text) : Component :=
  .function "rgb".toList [.leaf (.ident digits), .leaf (.literal [',']), .leaf (.number ['0']),
    .leaf (.literal [',']), .leaf (.number ['0'])]

include hname

theorem scanAll_redText : Token.scanAll (redText digits)
    = .function "rgb".toList :: .ident digits :: Token.scanAll ",0,0)".toList := by
  have hfunction : Token.scan 'r' ("gb".toList ++ '(' :: (digits ++ ",0,0)".toList))
      = Token.ofName "rgb".toList ('(' :: (digits ++ ",0,0)".toList)) :=
    Token.scan_name (by rintro d ⟨⟩; rfl) (by rintro d ⟨⟩; decide) ⟨rfl, by decide⟩
  cases digits with
  | nil => cases hname.1
  | cons c digits =>
    have hident : Token.scan c (digits ++ ",0,0)".toList)
        = Token.ofName (c :: digits) ",0,0)".toList :=
      Token.scan_name (by rintro d ⟨⟩; rfl) (by rintro d ⟨⟩; decide) hname
    show Token.scanAll ('r' :: ("gb".toList ++ '(' :: (c :: digits ++ ",0,0)".toList))) = _
    rw [Token.scanAll_cons, hfunction]
    show .function "rgb".toList :: Token.scanAll (c :: (digits ++ ",0,0)".toList)) = _
    rw [Token.scanAll_cons, hident]
    rfl

theorem css_redComponent : (redComponent digits).css = redText digits := by
  have hfirst : Component.separator (some .ident) (.leaf (.literal [','])) = [] := rfl
  have hnumber : Component.separator (some (.literal [','])) (.leaf (.number ['0'])) = [] := rfl
  have hcomma : Component.separator (some .number) (.leaf (.literal [','])) = [] := rfl
  have hcons (before : Option Component.Kind) (token : Token) (rest : List Component) :
      Component.cssAfter before (.leaf token :: rest)
        = Component.separator before (.leaf token) ++ token.css
          ++ Component.cssAfter (some (Component.leaf token).kind) rest := by
    rw [Component.cssAfter, Component.css]
  have harguments : Component.cssAfter none [.leaf (.ident digits), .leaf (.literal [',']),
      .leaf (.number ['0']), .leaf (.literal [',']), .leaf (.number ['0'])]
        = digits ++ ",0,0".toList := by
    rw [hcons, hcons, hcons, hcons, hcons]
    show [] ++ Token.identCss digits ++ (Component.separator (some .ident) _ ++ [',']
      ++ (Component.separator (some (.literal [','])) _ ++ ['0']
        ++ (Component.separator (some .number) _ ++ [',']
          ++ (Component.separator (some (.literal [','])) _ ++ ['0'] ++ [])))) = _
    rw [hfirst, hnumber, hcomma, Token.identCss_eq hname]
    rfl
  have hend : Component.lastEndsInString [.leaf (.ident digits), .leaf (.literal [',']),
      .leaf (.number ['0']), .leaf (.literal [',']), .leaf (.number ['0'])] = false := rfl
  rw [redComponent, Component.css, harguments, hend]
  show "rgb(".toList ++ (digits ++ ",0,0".toList) ++ [')'] = _
  rw [redText]
  simp only [List.append_assoc]
  rfl

include hnormal

/-- Digits that make a name stay in one part of a shorthand. -/
theorem shorthandParts_redText : shorthandParts (redText digits) = .ok [redText digits] := by
  have hnormalize : Token.normalize (redText digits) = redText digits := by
    refine Token.normalize_eq_self fun c hc => ?_
    have hfixed : ∀ c ∈ "rgb(".toList ++ ",0,0)".toList, Token.isNormal c = true := by decide
    rcases List.mem_append.mp hc with hc | hc
    · exact hfixed c (List.mem_append_left _ hc)
    · rcases List.mem_append.mp hc with hc | hc
      · exact hnormal c hc
      · exact hfixed c (List.mem_append_right _ hc)
  have hmark (c : Char) (rest : Text) (token : Token) (h : Token.scan c rest = ([token], rest)) :
      Token.scanAll (c :: rest) = token :: Token.scanAll rest := by
    rw [Token.scanAll_cons, h]
    rfl
  have htail : Token.scanAll ",0,0)".toList
      = [.literal [','], .number ['0'], .literal [','], .number ['0'], .closing .round] := by
    show Token.scanAll [',', '0', ',', '0', ')'] = _
    rw [hmark _ _ (.literal [',']) rfl, hmark _ _ (.number ['0']) rfl,
      hmark _ _ (.literal [',']) rfl, hmark _ _ (.number ['0']) rfl,
      hmark _ _ (.closing .round) rfl, Token.scanAll]
  have htrim : (redText digits).trim = redText digits := by
    refine Text.trimWhere_of_ends (by rintro c ⟨⟩; decide) fun c hc => ?_
    have hlast : (redText digits).getLast? = some ')' := by
      rw [redText, List.getLast?_append, List.getLast?_append]
      rfl
    rw [hlast] at hc
    cases hc
    decide
  rw [shorthandParts, Component.ofText, Token.ofText, hnormalize, scanAll_redText hname, htail]
  show Except.ok [(Component.listCss [redComponent digits]).trim] = _
  rw [listCss_singleton, css_redComponent hname, htrim]

end

/-! ## Main result -/

theorem returns_read_of_parts (hps : shorthandParts t = .ok ps) :
    (read c t).Returns ↔ ∀ part ∈ ps, ¬Color.HasLongChannel part := by
  obtain ⟨hshort, rfl⟩ := shorthandParts_eq_ok hps
  rw [returns_read_iff]
  exact and_iff_right hshort

/-- **Order.** A border shorthand is read if no part has a channel that is too long. Then the last
width, the last line style and the last colour among its parts count, each with its default. With one
part of a kind at most, any order of the parts gives an equal border. -/
theorem read_in_any_order (c : Context) (hps : shorthandParts t = .ok ps) :
    ((read c t).Returns ↔ ∀ part ∈ ps, ¬Color.HasLongChannel part)
    ∧ ((∀ part ∈ ps, ¬Color.HasLongChannel part) →
      (read c t).result = .ok (lastParts c default ps)
      ∧ ∀ u qs, shorthandParts u = .ok qs → ps.Perm qs → (ps.filterMap (width? c)).length ≤ 1 →
        (ps.filterMap (style? c)).length ≤ 1 → (ps.filterMap (color? c)).length ≤ 1 →
        ∃ b, (read c u).result = .ok b ∧ (lastParts c default ps).equals b = true) := by
  refine ⟨returns_read_of_parts hps, fun h => ⟨result_read hps h, ?_⟩⟩
  intro u qs hqs hperm hwidth hstyle hcolor
  have hsame : lastParts c default ps = lastParts c default qs := by
    rw [lastParts, filterMap_eq_of_perm hperm hwidth, filterMap_eq_of_perm hperm hstyle,
      filterMap_eq_of_perm hperm hcolor]
    rfl
  refine ⟨_, result_read hqs fun part hpart => h part (hperm.mem_iff.mpr hpart), ?_⟩
  rw [← hsame, equals, equals_width_lastParts (b := default) rfl]
  simp

/-- A width, a colour and a line style. -/
theorem read_in_any_order_mixed :
    ∃ b, (read .default "dashed red 5".toList).result = .ok b
      ∧ (lastParts .default default ["5".toList, "red".toList, "dashed".toList]).equals b
        = true := by
  have hshort : ∀ part ∈ ["5".toList, "red".toList, "dashed".toList],
      ¬Color.HasLongChannel part := by
    have hok : ∀ part ∈ ["5".toList, "red".toList, "dashed".toList],
        (Color.attempt part).result.isOk = true := by decide
    intro part hpart
    exact (Color.returns_attempt_iff part).mp (exists_of_isOk (hok part hpart))
  have hparts : shorthandParts "5 red dashed".toList
      = .ok ["5".toList, "red".toList, "dashed".toList] := by decide +kernel
  obtain ⟨hwidth, hstyle, hcolor⟩ : (["5".toList, "red".toList, "dashed".toList].filterMap
        (width? .default)).length ≤ 1
      ∧ (["5".toList, "red".toList, "dashed".toList].filterMap (style? .default)).length ≤ 1
      ∧ (["5".toList, "red".toList, "dashed".toList].filterMap (color? .default)).length ≤ 1 := by
    decide +kernel
  exact ((read_in_any_order .default hparts).2 hshort).2 _
    ["dashed".toList, "red".toList, "5".toList] (by decide +kernel) (by decide) hwidth hstyle hcolor

/-- Not every order of parts is read: a channel of 4301 digits that make a name fails in all. -/
theorem read_in_any_order_long :
    ¬∀ (c : Context) (t u : Text) (ps qs : List Text), shorthandParts t = .ok ps →
      shorthandParts u = .ok qs → ps.Perm qs → (ps.filterMap (width? c)).length ≤ 1 →
      (ps.filterMap (style? c)).length ≤ 1 → (ps.filterMap (color? c)).length ≤ 1 →
        ∃ b b', (read c t).result = .ok b ∧ (read c u).result = .ok b' ∧ b.equals b' = true := by
  intro h
  let digits : Text := List.replicate 4301 '\u0661'
  have hdigit : ∀ c ∈ digits, c = '\u0661' := fun c hc => List.eq_of_mem_replicate hc
  have hname : Token.IsName digits :=
    ⟨rfl, fun c hc => hdigit c hc ▸ by decide⟩
  have hparts := shorthandParts_redText hname fun c hc => hdigit c hc ▸ by decide
  have hlength : digits.length = 4301 := List.length_replicate
  have hlong : Color.HasLongChannel (redText digits) :=
    ⟨digits, ['0'], ['0'], Color.splitRgb?_digits (fun c hc => hdigit c hc ▸ rfl)
      (List.ne_nil_of_length_pos (by omega)), digits, List.mem_cons_self, by rw [hlength]; decide⟩
  obtain ⟨b, -, hb, -⟩ := h .default _ _ _ _ hparts hparts (.refl _) (List.length_filterMap_le _ _)
    (List.length_filterMap_le _ _) (List.length_filterMap_le _ _)
  exact (returns_read_of_parts hparts).mp ⟨b, hb⟩ _ (List.mem_singleton_self _) hlong

end Border

end CssValues
