import CssValues.Proofs.Quantity.Reading
import CssValues.Proofs.Resolver.Length
import CssValues.Proofs.Style.Edges

/-!
# Shorthands and longhands

The four parts of a box shorthand and the same texts as longhands give the same edges, but for bare
percentages: a shorthand takes their number as pixels, a longhand does not resolve
(`Style.shorthand_longhands`).
-/

namespace CssValues

/-! ## Texts in a row -/

namespace Text

/-- A row of texts ends as the last of them does. -/
theorem getLast?_join {ts : List Text} (h : ∀ t ∈ ts, t ≠ []) :
    (join [' '] ts).getLast? = ts.getLast?.bind List.getLast? := by
  induction ts with
  | nil => rfl
  | cons t rest ih =>
    cases rest with
    | nil => rfl
    | cons u rest =>
      obtain ⟨last, hlast⟩ : ∃ last, (u :: rest).getLast? = some last :=
        ⟨_, List.getLast?_eq_some_getLast (List.cons_ne_nil u rest)⟩
      have hmem : last ∈ u :: rest := List.mem_of_getLast? hlast
      obtain ⟨c, hc⟩ : ∃ c, last.getLast? = some c :=
        ⟨_, List.getLast?_eq_some_getLast (h last (List.mem_cons_of_mem _ hmem))⟩
      rw [join, List.getLast?_append, ih fun t ht => h t (List.mem_cons_of_mem _ ht), hlast,
        Option.bind_some, hc, Option.some_or, List.getLast?_cons_cons, hlast, Option.bind_some, hc]

/-- A row of trimmed texts is trimmed. -/
theorem trim_join {ts : List Text} (h : ∀ t ∈ ts, t ≠ [] ∧ t.trim = t) :
    (join [' '] ts).trim = join [' '] ts := by
  refine trimWhere_of_ends (fun c hc => ?_) fun c hc => ?_
  · have hfirst : ∀ t ∈ ts, ∀ rest, c ∈ (t ++ rest).head? → isBlank c = false := by
      intro t ht rest hc
      obtain ⟨hne, htrim⟩ := h t ht
      rw [List.head?_append_of_ne_nil _ hne, ← htrim] at hc
      exact head?_trimWhere c hc
    match ts with
    | [] => cases hc
    | [t] => exact hfirst t List.mem_cons_self [] (by rwa [List.append_nil])
    | t :: u :: rest =>
      rw [join, List.append_assoc] at hc
      exact hfirst t List.mem_cons_self _ hc
  · rw [getLast?_join fun t ht => (h t ht).1] at hc
    obtain ⟨t, ht, hc⟩ := Option.bind_eq_some_iff.mp hc
    rw [← (h t (List.mem_of_getLast? ht)).2] at hc
    exact getLast?_trimWhere c hc

end Text

/-! ## Boxes -/

theorem BoxEdges.equals_iff {a b : BoxEdges} :
    a.equals b = true ↔ ∀ side, (a.get side).equals (b.get side) = true := by
  rw [equals, List.all_eq_true]
  exact ⟨fun h side => h side side.mem_all, fun h side _ => h side⟩

/-! ## Parts -/

namespace Style

/-- The shorthand of four parts, clockwise from the top. -/
def clockwise (parts : Side → Text) : Text := Text.join [' '] (Side.all.map parts)

/-- The same parts as the properties of the sides. -/
def longhands (name : Text) (parts : Side → Text) : Entries Text :=
  Side.all.map fun side => (sideName name side, parts side)

/-- Whether a part is a percentage and no calculation. -/
def isBarePercentage (part : Text) : Bool := ['%'].isSuffixOf part

section

variable {c : Context} {parts : Side → Text} {b : BoxEdges}
  (hparts : shorthandParts (clockwise parts) = .ok (Side.all.map parts))
  (hb : Resolver.box c (clockwise parts) = .ok b)

include hparts hb

/-- Every part gives an edge. -/
theorem edge_of_box (side : Side) :
    Resolver.edge c (clockwise parts) (parts side) = .ok (b.get side) := by
  obtain ⟨edges, -, hedges, hexpand⟩ := Resolver.exists_of_box hb
  rw [← (shorthandParts_eq_ok hparts).2, Resolver.mapM_eq_ok_iff] at hedges
  obtain _ | ⟨htop, _ | ⟨hright, _ | ⟨hbottom, _ | ⟨hleft, _ | _⟩⟩⟩⟩ := hedges
  cases hexpand
  cases side <;> assumption

theorem part_ne_nil_and_trim (side : Side) : parts side ≠ [] ∧ (parts side).trim = parts side := by
  obtain ⟨n, hn, -⟩ := Resolver.edge_eq_ok_iff.mp (edge_of_box hparts hb side)
  have hmem : parts side ∈ partTexts (clockwise parts) :=
    (shorthandParts_eq_ok hparts).2 ▸ List.mem_map_of_mem side.mem_all
  obtain ⟨component, -, heq⟩ := List.mem_map.mp hmem
  have htrim : (parts side).trim = parts side := by rw [← heq, Text.trim_trim]
  exact ⟨htrim ▸ (Resolver.spelled_of_partPixels hn).ne_nil, htrim⟩

/-- As a longhand, a part resolves to the edge that it gives, or not at all if it is a bare
percentage. -/
theorem pixels_of_box (side : Side) : ((Resolver.pixels c (parts side)).toOption).map (Number.max 0)
    = if isBarePercentage (parts side) then none else some (b.get side) := by
  obtain ⟨n, hn, hedge⟩ := Resolver.edge_eq_ok_iff.mp (edge_of_box hparts hb side)
  unfold Resolver.partPixels at hn
  unfold isBarePercentage
  split at hn
  · next hpercent =>
    rw [if_pos hpercent]
    split at hn
    · cases hn
    · next p hp =>
      obtain ⟨s, q, x, hwritten, -⟩ := Percentage.read_eq_ok_iff.mp hp
      rw [Resolver.toOption_pixels_of_percentage hwritten.isValid_eq_false hp]
      rfl
  · next hpercent =>
    rw [if_neg hpercent, hn, hedge]
    rfl

end

/-! ## The two styles -/

section

variable {g : Getter} (hg : g = .padding ∨ g = .margin) {c : Context} {parts : Side → Text}
  {b : BoxEdges} (hparts : shorthandParts (clockwise parts) = .ok (Side.all.map parts))
  (hb : Resolver.box c (clockwise parts) = .ok b)

include hg hparts hb

/-- The properties of the sides are tidy, so that a style keeps them as they are. -/
theorem isTidy_longhands : IsTidy (longhands g.name parts) where
  nodup := by
    have hkeys : (longhands g.name parts).keys = Side.all.map (sideName g.name) := by
      rw [longhands, Entries.keys, List.map_map]
      rfl
    rw [hkeys]
    exact List.Nodup.map (fun _ _ => sideName_injective) (by decide)
  name key hkey := by
    obtain ⟨_, hp, rfl⟩ := List.mem_map.mp hkey
    obtain ⟨side, -, rfl⟩ := List.mem_map.mp hp
    have hnames : ∀ name ∈ ["padding".toList, "margin".toList], ∀ side ∈ Side.all,
        (sideName name side).trim = sideName name side := by decide
    have hname : g.name ∈ ["padding".toList, "margin".toList] := by
      rcases hg with rfl | rfl <;> decide
    refine ⟨?_, hnames _ hname side side.mem_all, (lower_boxNames hg).2 side⟩
    simp [sideName]
  value p hp := by
    obtain ⟨side, -, rfl⟩ := List.mem_map.mp hp
    exact part_ne_nil_and_trim hparts hb side

/-- The property of the shorthand is tidy as well. -/
theorem isTidy_clockwise : IsTidy [(g.name, clockwise parts)] := by
  have htrim : (clockwise parts).trim = clockwise parts := by
    refine Text.trim_join fun t ht => ?_
    obtain ⟨side, -, rfl⟩ := List.mem_map.mp ht
    exact part_ne_nil_and_trim hparts hb side
  have hne : clockwise parts ≠ [] := by
    intro hnil
    rw [hnil] at hb
    cases hb
  have hname : g.name ≠ [] ∧ g.name.trim = g.name := by
    rcases hg with rfl | rfl <;> decide
  exact isTidy_nil.put ⟨hname.1, hname.2, (lower_boxNames hg).1⟩ ⟨hne, htrim⟩

/-- The longhands give the edges of the parts that are no bare percentages. -/
theorem result_get_longhands :
    (g.get (ofEntries ((longhands g.name parts).mapValues some)) c).result
      = .ok ((overridden none fun side =>
          if isBarePercentage (parts side) then none else some (b.get side)).map .box) := by
  have htidy := isTidy_longhands hg hparts hb
  have hside (side : Side) :
      (longhands g.name parts).get? (sideName g.name side) = some (parts side) :=
    Entries.get?_of_mem htidy.nodup (List.mem_map_of_mem side.mem_all)
  have hname : (longhands g.name parts).get? g.name = none := by
    rw [Entries.get?_eq_none_iff]
    intro hmem
    obtain ⟨_, hp, heq⟩ := List.mem_map.mp hmem
    obtain ⟨side, -, rfl⟩ := List.mem_map.mp hp
    exact sideName_ne g.name side heq
  rw [result_get_of_isTidy hg htidy (by simp [hname]), hname]
  simp only [hside, Option.bind_some, Option.bind_none, pixels_of_box hparts hb]

/-- The shorthand gives its box. -/
theorem result_get_clockwise :
    (g.get (ofEntries [(g.name, some (clockwise parts))]) c).result = .ok (some (.box b)) := by
  have htidy : IsTidy [(g.name, clockwise parts)] := isTidy_clockwise hg hparts hb
  have hside (side : Side) :
      Entries.get? (α := Text) (sideName g.name side) [(g.name, clockwise parts)] = none := by
    rw [Entries.get?, if_neg (sideName_ne g.name side).symm, Entries.get?_nil]
  have hname :
      Entries.get? (α := Text) g.name [(g.name, clockwise parts)] = some (clockwise parts) := by
    rw [Entries.get?, if_pos rfl]
  refine (result_get_of_isTidy hg htidy ?_).trans ?_
  · rintro value hvalue
    rw [hname] at hvalue
    cases hvalue
    exact (shorthandParts_eq_ok hparts).1
  · rw [hname, Option.bind_some, hb]
    simp [overridden, hside, Except.toOption]

/-- The longhands give an equal box just if not all parts are bare percentages and those that are
come to zero. -/
theorem exists_equals_iff :
    (∃ b', (g.get (ofEntries ((longhands g.name parts).mapValues some)) c).result
        = .ok (some (.box b')) ∧ b.equals b' = true)
      ↔ (∃ side, isBarePercentage (parts side) = false)
        ∧ ∀ side, isBarePercentage (parts side) = true → (b.get side).equals 0 = true := by
  rw [result_get_longhands hg hparts hb]
  by_cases hall : ∀ side, isBarePercentage (parts side) = true
  · rw [overridden_of_forall (by simp [hall])]
    refine iff_of_false (by rintro ⟨b', ⟨⟩, -⟩) fun h => ?_
    obtain ⟨side, hside⟩ := h.1
    rw [hall] at hside
    cases hside
  · have hsome : ∃ side, isBarePercentage (parts side) = false := by simpa using hall
    rw [overridden_of_not_forall (by simpa using hall), and_iff_right hsome]
    simp only [Option.map_some, Except.ok.injEq, Option.some.injEq, Resolved.box.injEq,
      exists_eq_left', BoxEdges.equals_iff, BoxEdges.get_replace, Option.getD_none,
      BoxEdges.get_zero]
    refine forall_congr' fun side => ?_
    cases isBarePercentage (parts side) with
    | true => simp
    | false =>
      obtain ⟨n, hn, hedge⟩ := Resolver.exists_of_box_get hb side
      simp [hedge, Number.equals_self_of_isFinite (Number.isFinite_max_zero hn)]

/-- **A shorthand and its longhands.** The longhands give nothing if all parts are bare percentages,
and else the box of the shorthand with zero for these. So both are the same just if some part is no
bare percentage and those that are come to zero. -/
theorem shorthand_longhands :
    (g.get (ofEntries [(g.name, some (clockwise parts))]) c).result = .ok (some (.box b))
    ∧ (g.get (ofEntries ((longhands g.name parts).mapValues some)) c).result
      = .ok ((overridden none fun side =>
          if isBarePercentage (parts side) then none else some (b.get side)).map .box)
    ∧ ((∃ b', (g.get (ofEntries ((longhands g.name parts).mapValues some)) c).result
          = .ok (some (.box b')) ∧ b.equals b' = true)
      ↔ (∃ side, isBarePercentage (parts side) = false)
        ∧ ∀ side, isBarePercentage (parts side) = true → (b.get side).equals 0 = true) :=
  ⟨result_get_clockwise hg hparts hb, result_get_longhands hg hparts hb,
    exists_equals_iff hg hparts hb⟩

end

/-- One part and three times zero. -/
def withTop (top : Text) : Side → Text
  | .top => top
  | _ => ['0']

/-- A shorthand with a percentage. Its edge is zero for one of zero and not for one of ten. -/
theorem exists_box_withTop : ∀ p ∈ [("0%".toList, true), ("10%".toList, false)],
    shorthandParts (clockwise (withTop p.1)) = .ok (Side.all.map (withTop p.1))
      ∧ ∃ b, Resolver.box .default (clockwise (withTop p.1)) = .ok b
        ∧ (b.get .top).equals 0 = p.2 := by
  have hall : ∀ p ∈ [("0%".toList, true), ("10%".toList, false)],
      shorthandParts (clockwise (withTop p.1)) = .ok (Side.all.map (withTop p.1))
        ∧ ((Resolver.box .default (clockwise (withTop p.1))).toOption.any fun b =>
          (b.get .top).equals 0 == p.2) = true := by
    decide +kernel
  intro p hp
  obtain ⟨hparts, hbox⟩ := hall p hp
  obtain ⟨b, hb, htop⟩ := (Option.any_eq_true _ _).mp hbox
  exact ⟨hparts, b, Resolver.eq_of_toOption hb, eq_of_beq htop⟩

/-- A percentage of zero is the same in both. -/
theorem shorthand_longhands_zero :
    ∃ b b', (Getter.margin.get (ofEntries [(Getter.margin.name,
          some (clockwise (withTop "0%".toList)))]) .default).result = .ok (some (.box b))
      ∧ (Getter.margin.get (ofEntries ((longhands Getter.margin.name
          (withTop "0%".toList)).mapValues some)) .default).result = .ok (some (.box b'))
      ∧ b.equals b' = true := by
  obtain ⟨hparts, b, hb, htop⟩ := exists_box_withTop ("0%".toList, true) List.mem_cons_self
  obtain ⟨hshorthand, -, hsame⟩ := shorthand_longhands (g := .margin) (.inr rfl) hparts hb
  obtain ⟨b', hlonghands, hequal⟩ := hsame.mpr ⟨⟨.right, by decide⟩, fun side hside => by
    cases side with
    | top => exact htop
    | right | bottom | left => exact absurd hside (by decide)⟩
  exact ⟨b, b', hshorthand, hlonghands, hequal⟩

/-- A shorthand and its longhands are not always the same: in a shorthand, `10%` counts as ten
pixels. -/
theorem shorthand_longhands_percentage :
    ¬∀ (g : Getter) (c : Context) (parts : Side → Text) (b : BoxEdges),
      g = .padding ∨ g = .margin → shorthandParts (clockwise parts) = .ok (Side.all.map parts) →
      Resolver.box c (clockwise parts) = .ok b →
        ∃ b₁ b₂, (g.get (ofEntries [(g.name, some (clockwise parts))]) c).result
            = .ok (some (.box b₁))
          ∧ (g.get (ofEntries ((longhands g.name parts).mapValues some)) c).result
            = .ok (some (.box b₂))
          ∧ b₁.equals b₂ = true := by
  intro h
  have hg : Getter.padding = .padding ∨ Getter.padding = .margin := .inl rfl
  obtain ⟨hparts, b, hb, htop⟩ :=
    exists_box_withTop ("10%".toList, false) (List.mem_cons_of_mem _ List.mem_cons_self)
  obtain ⟨b₁, b₂, h₁, h₂, hequal⟩ := h .padding .default _ b hg hparts hb
  rw [result_get_clockwise hg hparts hb] at h₁
  cases h₁
  have hzero := ((exists_equals_iff hg hparts hb).mp ⟨b₂, h₂, hequal⟩).2 .top (by decide)
  rw [htop] at hzero
  cases hzero

end Style

end CssValues
