import CssValues.Proofs.Resolver.Agreement
import CssValues.Proofs.Style.Getter
import CssValues.Proofs.Style.Naming

/-!
# Paddings and margins

A box has its edges from the properties of its sides, its longhands, and where these do not resolve
from its shorthand. So a longhand has no part in the edges of the other sides (`Style.edges_get`).
-/

namespace CssValues

/-! ## Edges -/

theorem Side.mem_all (side : Side) : side ∈ Side.all := by cases side <;> decide

namespace BoxEdges

@[simp] theorem get_replace (b : BoxEdges) (edges : Side → Option Number) (side : Side) :
    (b.replace edges).get side = (edges side).getD (b.get side) := by
  cases side <;> rfl

@[simp] theorem get_zero (side : Side) : zero.get side = 0 := by cases side <;> rfl

/-- Every edge is one of those that the shorthand lists. -/
theorem get_mem_of_expand? {edges : List Number} {b : BoxEdges} (h : expand? edges = some b)
    (side : Side) : b.get side ∈ edges := by
  unfold expand? at h
  split at h <;> cases h <;> cases side <;> simp [get]

end BoxEdges

namespace Resolver

variable {c : Context} {t : Text}

theorem isFinite_of_pixels {n : Number} (h : pixels c t = .ok n) : n.isFinite = .ok true := by
  have hanswers := answers_pixels c t
  rw [h] at hanswers
  exact hanswers

theorem isFinite_of_partPixels {n : Number} (h : partPixels c t = .ok n) :
    n.isFinite = .ok true := by
  unfold partPixels at h
  split at h
  · split at h
    · cases h
    · next p hp =>
      cases h
      exact isFinite_of_read_percentage hp
  · exact isFinite_of_pixels h

theorem exists_of_mem_result {α β : Type} {f : α → Except Refusal β} {as : List α} {bs : List β}
    (h : as.mapM f = .ok bs) {b : β} (hb : b ∈ bs) : ∃ a ∈ as, f a = .ok b := by
  have hall := mapM_eq_ok_iff.mp h
  clear h
  induction hall with
  | nil => cases hb
  | cons ha _ ih =>
    rcases List.mem_cons.mp hb with rfl | hb
    · exact ⟨_, List.mem_cons_self, ha⟩
    · obtain ⟨a, hmem, ha⟩ := ih hb
      exact ⟨a, List.mem_cons_of_mem _ hmem, ha⟩

/-- The edges of a shorthand are finite and at least zero. -/
theorem exists_of_box_get {b : BoxEdges} (h : box c t = .ok b) (side : Side) :
    ∃ n, n.isFinite = .ok true ∧ b.get side = Number.max 0 n := by
  obtain ⟨edges, -, hedges, hb⟩ := exists_of_box h
  obtain ⟨part, -, hpart⟩ : ∃ part ∈ partTexts t, edge c t part = .ok (b.get side) :=
    exists_of_mem_result hedges (BoxEdges.get_mem_of_expand? hb side)
  obtain ⟨n, hn, hedge⟩ := edge_eq_ok_iff.mp hpart
  exact ⟨n, isFinite_of_partPixels hn, hedge⟩

end Resolver

namespace Style

variable {s t : Style} {c : Context} {name : Text}

/-! ## The properties of a box -/

/-- The box that the property for all sides resolves to. -/
def shorthand? (s : Style) (c : Context) (name : Text) : Option BoxEdges :=
  (s.get? name).bind fun value => (Resolver.box c value).toOption

/-- The pixels that the property of one side resolves to. -/
def longhand? (s : Style) (c : Context) (name : Text) (side : Side) : Option Number :=
  (s.get? (sideName name side)).bind fun value => (Resolver.pixels c value).toOption

/-- The edge of one side: that of its longhand, at least zero, else that of the shorthand, else
zero. -/
def boxEdge (s : Style) (c : Context) (name : Text) (side : Side) : Number :=
  match s.longhand? c name side, s.shorthand? c name with
  | some n, _ => Number.max 0 n
  | none, some b => b.get side
  | none, none => 0

theorem result_getEdge (s : Style) (c : Context) (name : Text) (side : Side) :
    (s.getEdge c name side).result = .ok ((s.longhand? c name side).map (Number.max 0)) := by
  unfold getEdge longhand?
  cases s.get? (sideName name side) with
  | none => rfl
  | some value =>
    dsimp only
    rw [Noted.result_bind, (Resolver.answers_pixels c value).result_attempt]
    rfl

/-- The shorthand with the edges that longhands give. -/
def overridden (shorthand : Option BoxEdges) (edges : Side → Option Number) : Option BoxEdges :=
  if Side.all.all fun side => (edges side).isNone then shorthand
  else some ((shorthand.getD .zero).replace edges)

section

variable {shorthand : Option BoxEdges} {edges : Side → Option Number}

theorem overridden_of_forall (h : ∀ side, edges side = none) :
    overridden shorthand edges = shorthand := by
  rw [overridden, if_pos]
  simp [h]

theorem overridden_of_not_forall (h : ¬∀ side, edges side = none) :
    overridden shorthand edges = some ((shorthand.getD .zero).replace edges) := by
  rw [overridden, if_neg]
  intro hall
  exact h fun side => Option.isNone_iff_eq_none.mp (List.all_eq_true.mp hall side side.mem_all)

end

theorem result_overridden (shorthand : Option BoxEdges) (edges : Side → Option Number) :
    Noted.result (if (edges .top).isNone && (edges .right).isNone && (edges .bottom).isNone
        && (edges .left).isNone then pure shorthand
      else pure (some ((shorthand.getD .zero).replace fun
        | .top => edges .top
        | .right => edges .right
        | .bottom => edges .bottom
        | .left => edges .left))) = .ok (overridden shorthand edges) := by
  have hall : (Side.all.all fun side => (edges side).isNone) = ((edges .top).isNone
      && (edges .right).isNone && (edges .bottom).isNone && (edges .left).isNone) := by
    simp [Side.all, Bool.and_assoc]
  rw [overridden, hall]
  split
  · rfl
  · refine congrArg (fun e => Except.ok (some ((shorthand.getD .zero).replace e))) (funext ?_)
    rintro (_ | _ | _ | _) <;> rfl

/-- A box that is read is the shorthand with its longhands, which never fail. -/
theorem eq_of_getBox {o : Option BoxEdges} (h : (s.getBox c name).result = .ok o) :
    o = overridden (s.shorthand? c name) fun side =>
      (s.longhand? c name side).map (Number.max 0) := by
  have hjoin (shorthand : Option BoxEdges) := result_overridden shorthand fun side =>
    (s.longhand? c name side).map (Number.max 0)
  unfold getBox at h
  unfold shorthand?
  cases hget : s.get? name with
  | none =>
    rw [hget] at h
    simp only [Noted.result_bind, result_getEdge, Except.bind, Noted.result_pure] at h
    exact (Except.ok.inj ((hjoin none).symm.trans h)).symm
  | some value =>
    rw [hget] at h
    simp only [Noted.result_bind, result_getEdge, Except.bind] at h
    cases hshorthand : (Resolver.attempt (Resolver.box c value)).result with
    | error f =>
      rw [hshorthand] at h
      cases h
    | ok shorthand =>
      rw [hshorthand] at h
      rw [Option.bind_some, Resolver.toOption_of_attempt hshorthand]
      exact (Except.ok.inj ((hjoin shorthand).symm.trans h)).symm

/-- A box is nothing where neither the shorthand nor a longhand resolves, and else has an edge for
each side. -/
theorem getBox_spec {o : Option BoxEdges} (h : (s.getBox c name).result = .ok o) :
    (o = none ↔ s.shorthand? c name = none ∧ ∀ side, s.longhand? c name side = none)
    ∧ ∀ b, o = some b → ∀ side, b.get side = s.boxEdge c name side := by
  rw [eq_of_getBox h]
  by_cases hnone : ∀ side, s.longhand? c name side = none
  · rw [overridden_of_forall (by simp [hnone])]
    refine ⟨(and_iff_left hnone).symm, fun b hb side => ?_⟩
    simp [boxEdge, hnone, hb]
  · rw [overridden_of_not_forall (by simpa using hnone)]
    refine ⟨iff_of_false (Option.some_ne_none _) fun h => hnone h.2, ?_⟩
    rintro _ ⟨⟩ side
    cases hlonghand : s.longhand? c name side <;> cases hshorthand : s.shorthand? c name <;>
      simp [boxEdge, hlonghand, hshorthand]

/-- The edges of a box are finite and at least zero. -/
theorem boxEdge_bounds (s : Style) (c : Context) (name : Text) (side : Side) :
    (s.boxEdge c name side).isFinite = .ok true
      ∧ Number.le 0 (s.boxEdge c name side) = true := by
  obtain ⟨n, hn, hedge⟩ : ∃ n, n.isFinite = .ok true ∧ s.boxEdge c name side = Number.max 0 n := by
    cases hlonghand : s.longhand? c name side with
    | some n =>
      obtain ⟨value, -, hvalue⟩ := Option.bind_eq_some_iff.mp hlonghand
      exact ⟨n, Resolver.isFinite_of_pixels (Resolver.eq_of_toOption hvalue),
        by rw [boxEdge, hlonghand]⟩
    | none =>
      cases hshorthand : s.shorthand? c name with
      | some b =>
        obtain ⟨value, -, hvalue⟩ := Option.bind_eq_some_iff.mp hshorthand
        obtain ⟨n, hn, hedge⟩ :=
          Resolver.exists_of_box_get (Resolver.eq_of_toOption hvalue) side
        exact ⟨n, hn, by rw [boxEdge, hlonghand, hshorthand, ← hedge]⟩
      | none =>
        exact ⟨0, rfl, by rw [boxEdge, hlonghand, hshorthand]; rfl⟩
  rw [hedge]
  exact ⟨Number.isFinite_max_zero hn, Number.le_max_zero n⟩

/-! ## Names of sides -/

theorem sideName_ne (name : Text) (side : Side) : sideName name side ≠ name := by
  intro heq
  have := congrArg List.length heq
  simp [sideName] at this

theorem sideName_injective {side other : Side} (h : sideName name other = sideName name side) :
    other = side := by
  have hname : ∀ a ∈ Side.all, ∀ b ∈ Side.all, a.name = b.name → a = b := by decide
  exact hname _ other.mem_all _ side.mem_all (List.cons.inj (List.append_cancel_left h)).2

/-! ## Changing one property -/

section

variable (h : IsTidy s.properties) {n key : Text} (hkey : key ≠ propertyName n)

include h hkey

theorem get?_erase_of_ne_propertyName {m : Text} (hm : propertyName m = propertyName n) :
    (s.properties.erase m).get? key = s.properties.get? key := by
  by_cases hmem : m ∈ s.properties.keys
  · rw [Entries.get?_erase_of_ne]
    rw [h.eq_propertyName hmem, hm]
    exact hkey
  · rw [Entries.erase_of_notMem hmem]

/-- Setting a property keeps the others. -/
theorem get?_set_of_ne (v : Option Text) :
    (s.set n v).properties.get? key = s.properties.get? key := by
  cases hpresent : isPresent v with
  | false =>
    rw [properties_set_blank h hpresent]
    exact get?_erase_of_ne_propertyName h hkey rfl
  | true =>
    cases v with
    | none => cases hpresent
    | some value =>
      rw [properties_set_present h (by simpa [isPresent] using hpresent)]
      split
      · rfl
      · exact Entries.get?_put_of_ne hkey _ _

theorem get?_remove_of_ne : (s.remove n).properties.get? key = s.properties.get? key := by
  rw [properties_remove h]
  exact get?_erase_of_ne_propertyName h hkey (propertyName_lower n)

theorem get?_merge_single_of_ne (v : Option Text) :
    (s.merge [(n, v)]).properties.get? key = s.properties.get? key := by
  rw [merge_single]
  rw [← propertyName_lower] at hkey
  exact get?_set_of_ne h hkey v

end

/-- A side that is changed has no part in the edges of the others. -/
theorem boxEdge_congr {side other : Side} (hother : other ≠ side)
    (hname : Text.lower name = name)
    (hsides : ∀ side, Text.lower (sideName name side) = sideName name side)
    (hsame : ∀ key, key ≠ sideName name side → t.properties.get? key = s.properties.get? key) :
    t.boxEdge c name other = s.boxEdge c name other := by
  have hshorthand : t.shorthand? c name = s.shorthand? c name := by
    rw [shorthand?, shorthand?, get?, get?, hname, hsame _ (sideName_ne name side).symm]
  have hlonghand : t.longhand? c name other = s.longhand? c name other := by
    rw [longhand?, longhand?, get?, get?, hsides, hsame _ fun heq => hother (sideName_injective heq)]
  rw [boxEdge, boxEdge, hshorthand, hlonghand]

/-! ## Main result -/

section

variable {g : Getter} (hg : g = .padding ∨ g = .margin)

include hg

/-- The names that a box is read from are in lower case. -/
theorem lower_boxNames : Text.lower g.name = g.name
    ∧ ∀ side, Text.lower (sideName g.name side) = sideName g.name side := by
  rcases hg with rfl | rfl <;>
    refine ⟨Text.lower_eq_self (by decide) (by decide), fun side => ?_⟩ <;>
    exact Text.lower_eq_self (by cases side <;> decide) (by cases side <;> decide)

theorem result_get_box (s : Style) (c : Context) :
    (g.get s c).result = (s.getBox c g.name).result.bind fun o => .ok (o.map .box) := by
  rcases hg with rfl | rfl
  · exact Noted.result_bind _ _
  · exact Noted.result_bind _ _

theorem exists_of_get_box {o : Option Resolved} (h : (g.get s c).result = .ok o) :
    ∃ o', (s.getBox c g.name).result = .ok o' ∧ o = o'.map .box := by
  rw [result_get_box hg] at h
  cases hbox : (s.getBox c g.name).result with
  | error f =>
    rw [hbox] at h
    cases h
  | ok o' =>
    rw [hbox] at h
    cases h
    exact ⟨o', rfl, rfl⟩

/-- What tidy properties resolve to if no number of the shorthand is too long. -/
theorem result_get_of_isTidy {properties : Entries Text} (htidy : IsTidy properties)
    (hshort : ∀ value ∈ properties.get? g.name, IsShort value) :
    (g.get (ofEntries (properties.mapValues some)) c).result = .ok ((overridden
      ((properties.get? g.name).bind fun value => (Resolver.box c value).toOption)
      fun side => ((properties.get? (sideName g.name side)).bind fun value =>
        (Resolver.pixels c value).toOption).map (Number.max 0)).map .box) := by
  obtain ⟨hname, hsides⟩ := lower_boxNames hg
  have hget (key : Text) (hkey : Text.lower key = key) :
      (ofEntries (properties.mapValues some)).get? key = properties.get? key := by
    rw [get?, hkey, ofEntries, normalize_of_isTidy htidy]
  obtain ⟨o, ho⟩ := ((ofEntries (properties.mapValues some)).returns_getBox_iff c g.name).mpr
    fun value hvalue => .inr (hshort value (hget _ hname ▸ hvalue))
  rw [result_get_box hg, ho, eq_of_getBox ho]
  simp only [shorthand?, longhand?, hget _ hname, hget _ (hsides _)]
  rfl

/-- A box that is read has an edge for each side. -/
theorem get_of_result_box {b : BoxEdges} (h : (g.get s c).result = .ok (some (.box b)))
    (side : Side) : b.get side = s.boxEdge c g.name side := by
  obtain ⟨o, hbox, ho⟩ := exists_of_get_box hg h
  obtain ⟨b', rfl, hb⟩ := Option.map_eq_some_iff.mp ho.symm
  cases hb
  exact (getBox_spec hbox).2 b rfl side

/-- **Paddings and margins.** There is none where neither the shorthand nor a longhand resolves.
Else every edge is that of its longhand, at least zero, or that of the shorthand, or zero. It is
finite and not negative, and stays as it is when the property of another side is set, merged or
removed. -/
theorem edges_get (start : Entries (Option Text)) (c : Context) {o : Option Resolved}
    (h : (g.get (ofEntries start) c).result = .ok o) :
    (o = none ↔ (ofEntries start).shorthand? c g.name = none
      ∧ ∀ side, (ofEntries start).longhand? c g.name side = none)
    ∧ (∀ r, o = some r → ∃ b, r = .box b ∧ ∀ side,
      b.get side = (ofEntries start).boxEdge c g.name side
      ∧ (b.get side).isFinite = .ok true ∧ Number.le 0 (b.get side) = true)
    ∧ ∀ (side : Side) (n : Text) (v : Option Text) (t : Style),
      propertyName n = sideName g.name side →
      t = (ofEntries start).set n v ∨ t = (ofEntries start).merge [(n, v)]
        ∨ t = (ofEntries start).remove n →
      ∀ b b', o = some (.box b) → (g.get t c).result = .ok (some (.box b')) →
        ∀ other, other ≠ side → b'.get other = b.get other := by
  have htidy : IsTidy (ofEntries start).properties := isTidy_normalize start
  obtain ⟨hname, hsides⟩ := lower_boxNames hg
  refine ⟨?_, ?_, fun side n v t hn ht b b' hb hb' other hother => ?_⟩
  · obtain ⟨o', hbox, rfl⟩ := exists_of_get_box hg h
    rw [Option.map_eq_none_iff]
    exact (getBox_spec hbox).1
  · rintro r rfl
    obtain ⟨o', hbox, ho⟩ := exists_of_get_box hg h
    obtain ⟨b, rfl, rfl⟩ := Option.map_eq_some_iff.mp ho.symm
    refine ⟨b, rfl, fun side => ?_⟩
    rw [(getBox_spec hbox).2 b rfl side]
    exact ⟨rfl, boxEdge_bounds _ c g.name side⟩
  · subst hb
    rw [get_of_result_box hg hb', get_of_result_box hg h]
    refine boxEdge_congr hother hname hsides fun key hkey => ?_
    rw [← hn] at hkey
    rcases ht with rfl | rfl | rfl
    · exact get?_set_of_ne htidy hkey v
    · exact get?_merge_single_of_ne htidy hkey v
    · exact get?_remove_of_ne htidy hkey

end

/-- A longhand below zero counts as zero, and one that does not resolve leaves the edge of the
shorthand. Dropping the first keeps the other edges. -/
theorem edges_get_longhands :
    ∃ s b, s = ofEntries [("padding".toList, some "10px".toList),
        ("padding-left".toList, some "-2rem".toList), ("padding-top".toList, some "auto".toList)]
      ∧ (Getter.padding.get s .default).result = .ok (some (.box b))
      ∧ (b.get .left).equals 0 = true ∧ (b.get .top).equals 10 = true
      ∧ (b.get .top).isFinite = .ok true
      ∧ ∀ b', (Getter.padding.get (s.remove "Padding-Left".toList) .default).result
          = .ok (some (.box b')) → b'.get .top = b.get .top := by
  let properties : Entries Text := [("padding".toList, "10px".toList),
    ("padding-left".toList, "-2rem".toList), ("padding-top".toList, "auto".toList)]
  have htidy : IsTidy properties := by
    refine ⟨by decide, fun key hkey => ?_, by decide⟩
    have hkeys : ∀ key ∈ properties.keys, key ≠ [] ∧ key.trim = key
        ∧ (∀ c ∈ key, c.toNat < 0x80) ∧ Text.asciiLower key = key := by decide
    obtain ⟨hne, htrim, hascii, hlower⟩ := hkeys key hkey
    exact ⟨hne, htrim, Text.lower_eq_self hascii hlower⟩
  obtain ⟨_, hparts⟩ := exists_of_isOk (r := shorthandParts "10px".toList) (by decide +kernel)
  obtain ⟨o, hread, ho⟩ : ∃ o : Option BoxEdges,
      (Getter.padding.get (ofEntries (properties.mapValues some)) .default).result
        = .ok (o.map .box)
      ∧ (o.any fun b => (b.get .left).equals 0 && (b.get .top).equals 10) = true :=
    ⟨_, result_get_of_isTidy (.inl rfl) htidy (by
      rintro _ ⟨⟩
      exact (shorthandParts_eq_ok hparts).1), by decide +kernel⟩
  obtain ⟨b, rfl, hb⟩ := (Option.any_eq_true _ _).mp ho
  obtain ⟨hleft, htop⟩ := Bool.and_eq_true_iff.mp hb
  obtain ⟨-, hedges, hframe⟩ := edges_get (g := .padding) (.inl rfl) _ .default hread
  obtain ⟨_, hbox, hbounds⟩ := hedges _ rfl
  cases hbox
  have hname : propertyName "Padding-Left".toList = sideName Getter.padding.name .left :=
    (Text.lower_ascii (by decide)).trans (by decide)
  exact ⟨_, b, rfl, hread, hleft, htop, (hbounds .top).2.1, fun b' hb' =>
    hframe .left _ none _ hname (.inr (.inr rfl)) b b' rfl hb' .top nofun⟩

end Style

end CssValues
