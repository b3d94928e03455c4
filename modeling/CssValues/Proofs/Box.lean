import CssValues.Proofs.Component.Parts
import CssValues.Resolver
import Mathlib.Data.List.Forall2

/-!
# Box shorthands of values in a row

A shorthand that lists values with spaces between them is cut into parts by the tokens of style text.
`Resolver.box_join` says what box comes of it: that of the listed values if each of them is one
component whose tokens are written as they were read, and else that of a longer list of parts.
-/

namespace CssValues

open Component (solid Lists)
open Token (KeepsText scanAll normalize)

/-! ## The parts of one value -/

/-- The parts that a text is cut into. -/
def partTexts (t : Text) : List Text :=
  (solid (Component.ofTokens (scanAll (normalize t)))).map fun c => (Component.listCss [c]).trim

/-- A text that stays in one part, which is the text. -/
structure IsWhole (t : Text) : Prop where
  keeps : KeepsText (scanAll (normalize t))
  single : (solid (Component.ofTokens (scanAll (normalize t)))).length = 1

instance (t : Text) : Decidable (IsWhole t) :=
  decidable_of_iff (KeepsText (scanAll (normalize t))
      ∧ (solid (Component.ofTokens (scanAll (normalize t)))).length = 1)
    ⟨fun ⟨hkeeps, hsingle⟩ => ⟨hkeeps, hsingle⟩, fun ⟨hkeeps, hsingle⟩ => ⟨hkeeps, hsingle⟩⟩

/-- No number of a text is too long. -/
def IsShort (t : Text) : Prop := ∀ u ∈ scanAll (normalize t), u.fault? = none

theorem shorthandParts_of_isShort {t : Text} (h : IsShort t) :
    shorthandParts t = .ok (partTexts t) := by
  rw [shorthandParts, Component.ofText, Token.ofText, List.findSome?_eq_none_iff.mpr h]
  rfl

theorem shorthandParts_eq_ok {t : Text} {parts : List Text} (h : shorthandParts t = .ok parts) :
    IsShort t ∧ parts = partTexts t := by
  have hshort : IsShort t := by
    cases hfind : (scanAll (normalize t)).findSome? Token.fault? with
    | none => exact List.findSome?_eq_none_iff.mp hfind
    | some f =>
      rw [shorthandParts, Component.ofText, Token.ofText, hfind] at h
      cases h
  rw [shorthandParts_of_isShort hshort] at h
  cases h
  exact ⟨hshort, rfl⟩

section

variable {t : Text}

theorem listCss_singleton (c : Component) : Component.listCss [c] = c.css :=
  List.append_nil _

/-- The only part of a text is all of it, as its tokens are written. -/
theorem partTexts_of_single (hlaid : IsLaidOut (normalize t))
    (h : (solid (Component.ofTokens (scanAll (normalize t)))).length = 1) :
    partTexts t
      = [(Component.cssAfter none ((scanAll (normalize t)).map .leaf)).trim] := by
  obtain ⟨components, hreads, hcss⟩ := Component.exists_reads hlaid
  rw [partTexts]
  rw [hreads.ofTokens_eq] at h ⊢
  obtain ⟨c, hc⟩ := List.length_eq_one_iff.mp h
  obtain ⟨before, after, rfl, hbefore, -, hafter⟩ := List.filter_eq_cons_iff.mp hc
  have hwhite (d : Component) (hd : ¬(!d.isWhitespace) = true) : d.isWhitespace = true := by
    simpa using hd
  obtain ⟨s, e, heq, hs, he⟩ := Component.exists_cssAfter_single hreads.top
    (fun d hd => hwhite d (hbefore d hd))
    fun d hd => hwhite d (List.filter_eq_nil_iff.mp hafter d hd)
  have htrim := Text.trimWhere_append (t := c.css)
    (fun d hd => Token.isBlank_of_isSpace (hs d hd)) fun d hd => Token.isBlank_of_isSpace (he d hd)
  rw [hc, List.map_singleton, listCss_singleton, ← hcss, heq]
  exact congrArg (fun u => [u]) htrim.symm

/-- A whole text is its own part. -/
theorem partTexts_of_isWhole (hlaid : IsLaidOut (normalize t)) (h : IsWhole t) :
    partTexts t = [(normalize t).trim] := by
  obtain ⟨hsimple, hsource⟩ := Token.scanAll_simple hlaid.isTame
  rw [partTexts_of_single hlaid h.single, h.keeps.css_eq hsimple, hsource]

/-- A text that is not blank has a part. -/
theorem partTexts_ne_nil (hlaid : IsLaidOut (normalize t)) (hne : (normalize t).trim ≠ []) :
    partTexts t ≠ [] := by
  obtain ⟨hsimple, hsource⟩ := Token.scanAll_simple hlaid.isTame
  obtain ⟨components, hreads, hcss⟩ := Component.exists_reads hlaid
  have hquiet := Component.Kind.isQuiet_whitespace
  intro hnil
  rw [partTexts, List.map_eq_nil_iff, hreads.ofTokens_eq] at hnil
  have hwhite : ∀ c ∈ components, c.IsSpaces := fun c hc =>
    (hreads.top c hc).isSpaces (by simpa using List.filter_eq_nil_iff.mp hnil c hc)
  have hspaces := Component.isSpace_of_mem_cssAfter hwhite
    (fun heq => hquiet.ne_backslash (Option.some.inj heq))
  rw [hcss] at hspaces
  by_cases hkeeps : (∀ u ∈ scanAll (normalize t), u.hasExponentUnit = false)
      ∧ (.whitespace :: (scanAll (normalize t)).map Token.kind).IsChain
        fun a b => Component.Kind.clash a b = false
  · obtain ⟨c, hc, hblank⟩ := Text.exists_of_trim_ne_nil hne
    rw [Token.cssAfter_eq_source hsimple hquiet.ne_backslash hkeeps.1 hkeeps.2, hsource] at hspaces
    rw [Token.isBlank_of_isSpace (hspaces c hc)] at hblank
    cases hblank
  · rcases Token.slash_mem_cssAfter hkeeps with hmem | hmem
    · exact absurd (hspaces _ hmem) (by decide)
    · exact absurd (hspaces _ hmem) (by decide)

/-- A text that is not whole has more parts, or one that is written with a slash or a backslash. -/
theorem partTexts_of_not_isWhole (hlaid : IsLaidOut (normalize t))
    (hne : (normalize t).trim ≠ []) (hshort : IsShort t) (h : ¬IsWhole t) :
    2 ≤ (partTexts t).length ∨ ∃ p ∈ partTexts t, p.trim = p ∧ ('/' ∈ p ∨ '\\' ∈ p) := by
  by_cases hsingle : (solid (Component.ofTokens (scanAll (normalize t)))).length = 1
  · right
    rw [partTexts_of_single hlaid hsingle]
    refine ⟨_, List.mem_singleton_self _, Text.trimWhere_trimWhere, ?_⟩
    refine (Token.slash_mem_css hshort fun hkeeps => h ⟨hkeeps, hsingle⟩).imp ?_ ?_
    · exact fun hmem => Text.mem_trimWhere hmem (by decide)
    · exact fun hmem => Text.mem_trimWhere hmem (by decide)
  · left
    have hlen : (partTexts t).length
        = (solid (Component.ofTokens (scanAll (normalize t)))).length := List.length_map ..
    have hpos := List.length_pos_iff.mpr (partTexts_ne_nil hlaid hne)
    omega

end

/-! ## The parts of values in a row -/

theorem normalize_join (t w : Text) :
    normalize (t ++ ' ' :: w) = normalize t ++ ' ' :: normalize w := by
  rw [Token.normalize_append (.inr (by simp)), Token.normalize_cons (by decide)]

theorem dropSpaces_ne_nil {t : Text} (h : t.trim ≠ []) : t.dropWhile Token.isSpace ≠ [] := by
  intro hnil
  obtain ⟨c, hc, hblank⟩ := Text.exists_of_trim_ne_nil h
  rw [Token.isBlank_of_isSpace (List.dropWhile_eq_nil_iff.mp hnil c hc)] at hblank
  cases hblank

/-- The components of one value. -/
theorem lists_normalize {t : Text} (hlaid : IsLaidOut (normalize t)) :
    Lists (normalize t) (solid (Component.ofTokens (scanAll (normalize t)))) := by
  obtain ⟨components, hreads, -⟩ := Component.exists_reads hlaid.dropSpaces
  have hlists : Lists (normalize t) (solid components) := ⟨components, hreads, rfl⟩
  rw [hlists.solid_ofTokens]
  exact hlists

/-- The components of values with spaces between them are those of the values. -/
theorem lists_join {ts : List Text} (hne : ts ≠ []) (hspelled : ∀ t ∈ ts, Spelled t.trim) :
    Lists (normalize (Text.join [' '] ts))
      (ts.flatMap fun t => solid (Component.ofTokens (scanAll (normalize t)))) := by
  induction ts with
  | nil => exact absurd rfl hne
  | cons t rest ih =>
    obtain ⟨ht, hrest⟩ := List.forall_mem_cons.mp hspelled
    have hlaid := IsLaidOut.of_spelled ht
    have hlists := lists_normalize hlaid
    cases rest with
    | nil => simpa [Text.join] using hlists
    | cons u rest =>
      have hmore := ih (List.cons_ne_nil u rest) hrest
      have hdrop := dropSpaces_ne_nil (ht.respelled_normalize.ne_nil ht)
      have hjoin := hlists.join hlaid hdrop hmore
      rw [← normalize_join] at hjoin
      rw [List.flatMap_cons, Text.join, List.append_assoc, List.singleton_append]
      exact hjoin

/-- The parts of values with spaces between them are those of the values. -/
theorem partTexts_join {ts : List Text} (hne : ts ≠ []) (hspelled : ∀ t ∈ ts, Spelled t.trim) :
    partTexts (Text.join [' '] ts) = ts.flatMap partTexts := by
  rw [partTexts, (lists_join hne hspelled).solid_ofTokens, List.map_flatMap]
  rfl

/-- A number of values in a row is too long if one of the values has such a number. -/
theorem isShort_join {ts : List Text} (hne : ts ≠ []) (hspelled : ∀ t ∈ ts, Spelled t.trim) :
    IsShort (Text.join [' '] ts) ↔ ∀ t ∈ ts, IsShort t := by
  induction ts with
  | nil => exact absurd rfl hne
  | cons t rest ih =>
    obtain ⟨ht, hrest⟩ := List.forall_mem_cons.mp hspelled
    cases rest with
    | nil => simp [Text.join]
    | cons u rest =>
      rw [Text.join, List.append_assoc, List.singleton_append, List.forall_mem_cons,
        ← ih (List.cons_ne_nil u rest) hrest, IsShort, normalize_join,
        Component.short_join (IsLaidOut.of_spelled ht)]
      rfl

/-! ## Edges -/

namespace BoxEdges

theorem exists_expand? {edges : List Number} (hne : edges ≠ []) (hlen : edges.length ≤ 4) :
    ∃ b, expand? edges = some b := by
  match edges with
  | [] => exact absurd rfl hne
  | [_] => exact ⟨_, rfl⟩
  | [_, _] => exact ⟨_, rfl⟩
  | [_, _, _] => exact ⟨_, rfl⟩
  | [_, _, _, _] => exact ⟨_, rfl⟩
  | _ :: _ :: _ :: _ :: _ :: rest =>
    simp only [List.length_cons] at hlen
    omega

theorem length_of_expand? {edges : List Number} {b : BoxEdges} (h : expand? edges = some b) :
    edges.length ≠ 0 ∧ edges.length ≤ 4 := by
  match edges with
  | [] => cases h
  | [_] => exact ⟨nofun, by simp⟩
  | [_, _] => exact ⟨nofun, by simp⟩
  | [_, _, _] => exact ⟨nofun, by simp⟩
  | [_, _, _, _] => exact ⟨nofun, by simp⟩
  | _ :: _ :: _ :: _ :: _ :: _ => cases h

end BoxEdges

/-! ## The number of a part -/

namespace Resolver

variable {c : Context} {t : Text} {n : Number}

/-- The number that one value of a shorthand stands for: its pixels, or the number of a
percentage. -/
def StandsFor (c : Context) (t : Text) (n : Number) : Prop :=
  pixels c t = .ok n ∨ ∃ p, Percentage.read t = .ok p ∧ n = p.value

theorem StandsFor.spelled (h : StandsFor c t n) : Spelled t.trim := by
  rcases h with h | ⟨p, h, -⟩
  · exact spelled_of_pixels h
  · exact Percentage.spelled_of_read h

theorem StandsFor.forall_spelled {ts : List Text} {xs : List Number}
    (h : List.Forall₂ (StandsFor c) ts xs) : ∀ t ∈ ts, Spelled t.trim := by
  induction h with
  | nil => nofun
  | cons hx _ ih => exact List.forall_mem_cons.mpr ⟨hx.spelled, ih⟩

/-- As a part, a value that stands for a number resolves to it. -/
theorem StandsFor.partPixels_eq (h : StandsFor c t n) :
    partPixels c (normalize t).trim = .ok n := by
  have hnormal := h.spelled.respelled_normalize
  have htrim : Respelled (normalize t) (normalize t).trim := .same Text.trim_trim.symm
  unfold partPixels
  rcases h with h | ⟨p, h, rfl⟩
  · have hpixels := pixels_of_respelled hnormal h
    rw [not_percent_of_pixels hpixels, if_neg (by decide)]
    exact pixels_of_respelled htrim hpixels
  · obtain ⟨hread, hpercent⟩ := Percentage.read_of_respelled hnormal h
    rw [hpercent, if_pos rfl, (Percentage.read_of_respelled htrim hread).1]

/-- A part that resolves is a spelling. -/
theorem spelled_of_partPixels (h : partPixels c t = .ok n) : Spelled t.trim := by
  unfold partPixels at h
  split at h
  · split at h
    · cases h
    · next p hp => exact Percentage.spelled_of_read hp
  · exact spelled_of_pixels h

theorem edge_eq_ok_iff {part : Text} {x : Number} :
    edge c t part = .ok x ↔ ∃ n, partPixels c part = .ok n ∧ x = Number.max 0 n := by
  constructor
  · intro h
    unfold edge at h
    split at h
    · next n hn =>
      cases h
      exact ⟨n, hn, rfl⟩
    · cases h
    · cases h
  · rintro ⟨n, hn, rfl⟩
    rw [edge, hn]

/-- Texts resolve one after the other. -/
theorem mapM_eq_ok_iff {α β : Type} {f : α → Except Refusal β} {as : List α} {bs : List β} :
    as.mapM f = .ok bs ↔ List.Forall₂ (fun a b => f a = .ok b) as bs := by
  induction as generalizing bs with
  | nil =>
    constructor
    · intro h
      cases h
      exact .nil
    · rintro ⟨⟩
      rfl
  | cons a as ih =>
    rw [List.mapM_cons]
    constructor
    · intro h
      cases ha : f a with
      | error why => rw [ha] at h; cases h
      | ok b =>
        cases has : as.mapM f with
        | error why => rw [ha, has] at h; cases h
        | ok rest =>
          rw [ha, has] at h
          cases h
          exact .cons ha (ih.mp has)
    · rintro (_ | ⟨ha, has⟩)
      rw [ha, ih.mpr has]
      rfl

theorem exists_of_mem_mapM {α β : Type} {f : α → Except Refusal β} {as : List α} {bs : List β}
    (h : as.mapM f = .ok bs) {a : α} (ha : a ∈ as) : ∃ b, f a = .ok b := by
  have hall := mapM_eq_ok_iff.mp h
  clear h
  induction hall with
  | nil => cases ha
  | cons hb _ ih =>
    rcases List.mem_cons.mp ha with rfl | ha
    · exact ⟨_, hb⟩
    · exact ih ha

/-! ## The box of values in a row -/

/-- What a box is made of. -/
theorem exists_of_box {b : BoxEdges} (h : box c t = .ok b) :
    ∃ edges, IsShort t ∧ (partTexts t).mapM (edge c t) = .ok edges
      ∧ BoxEdges.expand? edges = some b := by
  unfold box at h
  split at h
  · cases h
  split at h
  · cases h
  next parts hparts =>
  obtain ⟨hshort, rfl⟩ := shorthandParts_eq_ok hparts
  split at h
  · cases h
  split at h
  · cases h
  next edges hedges =>
  split at h
  · next b' hb =>
    cases h
    exact ⟨edges, hshort, hedges, hb⟩
  · cases h

/-- A box of parts that all resolve. -/
theorem box_of_parts {edges : List Number} {b : BoxEdges} (hblank : Text.isBlankText t = false)
    (hshort : IsShort t) (hedges : (partTexts t).mapM (edge c t) = .ok edges)
    (hb : BoxEdges.expand? edges = some b) : box c t = .ok b := by
  have hlen := (mapM_eq_ok_iff.mp hedges).length_eq
  have hcount : ¬((partTexts t).length = 0 ∨ 4 < (partTexts t).length) := by
    have hfour := BoxEdges.length_of_expand? hb
    omega
  unfold box
  rw [hblank, if_neg (by decide), shorthandParts_of_isShort hshort]
  simp only [if_neg hcount, hedges, hb]

theorem isBlankText_join {ts : List Text} (hne : ts ≠ []) (hspelled : ∀ t ∈ ts, Spelled t.trim) :
    Text.isBlankText (Text.join [' '] ts) = false := by
  obtain ⟨t, rest, rfl⟩ := List.exists_cons_of_ne_nil hne
  obtain ⟨d, hd, hblank⟩ := Text.exists_of_trim_ne_nil (hspelled t List.mem_cons_self).ne_nil
  rw [Text.isBlankText, List.all_eq_false]
  exact ⟨d, Text.mem_join List.mem_cons_self hd, by simp [hblank]⟩

/-- Parts that are more than the values they come from. -/
theorem length_lt_flatMap {α β : Type} {f : α → List β} {as : List α} (h : ∀ a ∈ as, f a ≠ [])
    (hmore : ∃ a ∈ as, 2 ≤ (f a).length) : as.length < (as.flatMap f).length := by
  have hle (as : List α) (h : ∀ a ∈ as, f a ≠ []) : as.length ≤ (as.flatMap f).length := by
    induction as with
    | nil => simp
    | cons a as ih =>
      obtain ⟨ha, has⟩ := List.forall_mem_cons.mp h
      have hpos := List.length_pos_iff.mpr ha
      have hrest := ih has
      rw [List.flatMap_cons, List.length_append, List.length_cons]
      omega
  obtain ⟨a, ha, htwo⟩ := hmore
  obtain ⟨before, after, rfl⟩ := List.append_of_mem ha
  have hbefore := hle before fun b hb => h b (by simp [hb])
  have hafter := hle after fun b hb => h b (by simp [hb])
  simp only [List.flatMap_append, List.flatMap_cons, List.length_append, List.length_cons]
  omega

/-- The box of values in a row is the box of the edges that their parts come to. -/
theorem box_join_eq_ok_iff {ts : List Text} (hne : ts ≠ []) (hspelled : ∀ t ∈ ts, Spelled t.trim)
    {b : BoxEdges} : box c (Text.join [' '] ts) = .ok b ↔ (∀ t ∈ ts, IsShort t)
      ∧ ∃ edges, (ts.flatMap partTexts).mapM (edge c (Text.join [' '] ts)) = .ok edges
        ∧ BoxEdges.expand? edges = some b := by
  rw [← partTexts_join hne hspelled, ← isShort_join hne hspelled]
  constructor
  · intro h
    obtain ⟨edges, hshort, hedges, hexpand⟩ := exists_of_box h
    exact ⟨hshort, edges, hedges, hexpand⟩
  · rintro ⟨hshort, edges, hedges, hexpand⟩
    exact box_of_parts (isBlankText_join hne hspelled) hshort hedges hexpand

/-- A whole value is its own part, up to its line breaks. -/
theorem flatMap_partTexts_of_isWhole {ts : List Text} (hspelled : ∀ t ∈ ts, Spelled t.trim)
    (hwhole : ∀ t ∈ ts, IsWhole t) :
    ts.flatMap partTexts = ts.map fun t => (normalize t).trim := by
  rw [List.map_eq_flatMap]
  exact List.flatMap_congr fun t ht =>
    partTexts_of_isWhole (.of_spelled (hspelled t ht)) (hwhole t ht)

/-- If all parts come to edges and a value is not whole, there are more edges than values. -/
theorem length_lt_of_not_isWhole {ts : List Text} (hspelled : ∀ t ∈ ts, Spelled t.trim)
    (hshort : ∀ t ∈ ts, IsShort t) {t : Text} (ht : t ∈ ts) (hnot : ¬IsWhole t) {s : Text}
    {edges : List Number} (hedges : (ts.flatMap partTexts).mapM (edge c s) = .ok edges) :
    ts.length < edges.length := by
  have hlaid (u : Text) (hu : u ∈ ts) : IsLaidOut (normalize u) := .of_spelled (hspelled u hu)
  have hnonempty (u : Text) (hu : u ∈ ts) : (normalize u).trim ≠ [] :=
    (hspelled u hu).respelled_normalize.ne_nil (hspelled u hu)
  rw [← (mapM_eq_ok_iff.mp hedges).length_eq]
  refine length_lt_flatMap (fun u hu => partTexts_ne_nil (hlaid u hu) (hnonempty u hu)) ⟨t, ht, ?_⟩
  rcases partTexts_of_not_isWhole (hlaid t ht) (hnonempty t ht) (hshort t ht) hnot with
    htwo | ⟨p, hp, htrim, hslash⟩
  · exact htwo
  · -- a part with a slash does not resolve, so it would come to no edge
    have hmem : p ∈ ts.flatMap partTexts := List.mem_flatMap.mpr ⟨t, ht, hp⟩
    obtain ⟨x, hx⟩ := exists_of_mem_mapM hedges hmem
    obtain ⟨n, hn, -⟩ := edge_eq_ok_iff.mp hx
    have hplain := (spelled_of_partPixels hn).slash_not_mem
    rw [htrim] at hplain
    exact absurd hslash (not_or.mpr hplain)

/-- **Shorthands.** One to four values with spaces between them, each of which stands for a number,
give the box of these numbers, none below zero, if each value is whole. If one is not, the box is
that of the edges which the parts of the values come to, and these are more than the values. -/
theorem box_join {c : Context} {ts : List Text} {xs : List Number} (hne : ts ≠ [])
    (hlen : ts.length ≤ 4) (hvalues : List.Forall₂ (StandsFor c) ts xs) :
    ((∀ t ∈ ts, IsWhole t) → ∃ b, box c (Text.join [' '] ts) = .ok b
      ∧ BoxEdges.expand? (xs.map (Number.max 0)) = some b)
    ∧ ((∃ t ∈ ts, ¬IsWhole t) → ∀ b, box c (Text.join [' '] ts) = .ok b ↔
      (∀ t ∈ ts, IsShort t) ∧ ∃ edges, ts.length < edges.length
        ∧ (ts.flatMap partTexts).mapM (edge c (Text.join [' '] ts)) = .ok edges
        ∧ BoxEdges.expand? edges = some b) := by
  have hspelled := StandsFor.forall_spelled hvalues
  constructor
  · intro hwhole
    have hedges : (ts.flatMap partTexts).mapM (edge c (Text.join [' '] ts))
        = .ok (xs.map (Number.max 0)) := by
      rw [flatMap_partTexts_of_isWhole hspelled hwhole, mapM_eq_ok_iff, List.forall₂_map_left_iff,
        List.forall₂_map_right_iff]
      exact hvalues.imp fun t x h => edge_eq_ok_iff.mpr ⟨x, h.partPixels_eq, rfl⟩
    have hcount : (xs.map (Number.max 0)).length = ts.length := by
      rw [List.length_map, hvalues.length_eq]
    obtain ⟨b, hb⟩ : ∃ b, BoxEdges.expand? (xs.map (Number.max 0)) = some b :=
      BoxEdges.exists_expand?
        (List.length_pos_iff.mp (hcount ▸ List.length_pos_iff.mpr hne)) (hcount ▸ hlen)
    refine ⟨b, (box_join_eq_ok_iff hne hspelled).mpr ⟨?_, _, hedges, hb⟩, hb⟩
    exact fun t ht => (hwhole t ht).keeps.short
  · rintro ⟨t, ht, hnot⟩ b
    rw [box_join_eq_ok_iff hne hspelled]
    constructor
    · rintro ⟨hshort, edges, hedges, hb⟩
      exact ⟨hshort, edges, length_lt_of_not_isWhole hspelled hshort ht hnot hedges, hedges, hb⟩
    · rintro ⟨hshort, edges, -, hedges, hb⟩
      exact ⟨hshort, edges, hedges, hb⟩

/-- A calculation with spaces around its operator, and a percentage, give the edges. -/
theorem box_join_spaced :
    ∃ n p b, pixels .default "calc(1px + 2px)".toList = .ok n
      ∧ Percentage.read "10%".toList = .ok p
      ∧ box .default "calc(1px + 2px) 10%".toList = .ok b
      ∧ BoxEdges.expand? [Number.max 0 n, Number.max 0 p.value] = some b := by
  have hpixels : (pixels .default "calc(1px + 2px)".toList).toOption.isSome = true := by
    decide +kernel
  have hpercentage : (Percentage.read "10%".toList).toOption.isSome = true := by decide +kernel
  cases hn : pixels .default "calc(1px + 2px)".toList with
  | error why =>
    rw [hn] at hpixels
    cases hpixels
  | ok n =>
    cases hp : Percentage.read "10%".toList with
    | error why =>
      rw [hp] at hpercentage
      cases hpercentage
    | ok p =>
      have hvalues : List.Forall₂ (StandsFor .default)
          ["calc(1px + 2px)".toList, "10%".toList] [n, p.value] :=
        .cons (.inl hn) (.cons (.inr ⟨p, hp, rfl⟩) .nil)
      obtain ⟨b, hb, hexpand⟩ := (box_join (by decide) (by decide) hvalues).1 (by decide +kernel)
      exact ⟨n, p, b, rfl, rfl, hb, hexpand⟩

/-- Not every list of values is read as such, even if no number in it is too long: a calculation without
spaces is no part. -/
theorem box_join_unspaced :
    ¬∀ (c : Context) (ts : List Text) (xs : List Number), ts ≠ [] → ts.length ≤ 4 →
      (∀ t ∈ ts, t.length ≤ maxDigits) → List.Forall₂ (StandsFor c) ts xs →
      ∃ b, box c (Text.join [' '] ts) = .ok b
        ∧ BoxEdges.expand? (xs.map (Number.max 0)) = some b := by
  intro h
  have hpixels : (pixels .default "calc(1px+2px)".toList).toOption.isSome = true := by
    decide +kernel
  have hnone : (box .default "calc(1px+2px)".toList).toOption.isNone = true := by
    decide +kernel
  cases hn : pixels .default "calc(1px+2px)".toList with
  | error why =>
    rw [hn] at hpixels
    cases hpixels
  | ok n =>
    obtain ⟨b, hb, -⟩ := h .default ["calc(1px+2px)".toList] [n] (by decide) (by decide) (by decide)
      (.cons (.inl hn) .nil)
    have hbox : box .default "calc(1px+2px)".toList = .ok b := hb
    rw [hbox] at hnone
    cases hnone

end Resolver

end CssValues
