import CssValues.Journal.Basic
import Mathlib.Data.List.Nodup
import Mathlib.Data.List.Sort

/-!
# The loggers above a logger

A name has its beginnings up to a dot above it (`Journal.IsAbove`). The lineage of a logger goes up
through loggers of such names, and takes each of them once. It takes all that have been made, unless
the name has two dots in a row (`Journal.HasSpacedDots.mem_lineage_iff`). What a record is written to is
put together from what it reaches of each logger in the lineage (`Journal.emit_eq`): the console and the
log files gain a line for each handler that writes there (`Journal.emit_eq_written`).
-/

namespace CssValues

namespace Journal

variable {j : Journal} {name m n : Text} {p : Nat} {r : Record}

/-! ## Names up to a dot -/

/-- A beginning of a name up to a dot, with something in it. -/
def IsAbove (n name : Text) : Prop := n ≠ [] ∧ (n ++ ['.']).IsPrefix name

/-- A name without two dots in a row. -/
def HasSpacedDots (name : Text) : Prop := ¬['.', '.'].IsInfix name

theorem IsAbove.trans (hm : IsAbove m n) (hn : IsAbove n name) : IsAbove m name :=
  ⟨hm.1, hm.2.trans ((List.prefix_append n ['.']).trans hn.2)⟩

theorem IsAbove.length_lt (h : IsAbove n name) : n.length < name.length := by
  have hle := h.2.length_le
  simp only [List.length_append, List.length_singleton] at hle
  omega

theorem mem_dotPlaces : p ∈ dotPlaces name ↔ 0 < p ∧ name[p]? = some '.' := by
  simp only [dotPlaces, List.mem_reverse, List.mem_filter, List.mem_range, decide_eq_true_eq]
  constructor
  · intro h
    exact h.2
  · intro h
    exact ⟨(List.getElem?_eq_some_iff.mp h.2).1, h⟩

theorem pairwise_dotPlaces (name : Text) : (dotPlaces name).Pairwise (· > ·) := by
  unfold dotPlaces
  rw [List.pairwise_reverse]
  exact List.Pairwise.filter _ List.pairwise_lt_range

theorem isAbove_take (h : p ∈ dotPlaces name) : IsAbove (name.take p) name := by
  obtain ⟨hp, hdot⟩ := mem_dotPlaces.mp h
  have hlt := (List.getElem?_eq_some_iff.mp hdot).1
  constructor
  · intro hnil
    rcases List.take_eq_nil_iff.mp hnil with hzero | hempty
    · omega
    · rw [hempty] at hlt
      cases hlt
  · have htake : name.take (p + 1) = name.take p ++ ['.'] := by
      rw [List.take_add_one, hdot]
      rfl
    rw [← htake]
    exact List.take_prefix _ _

/-- The place of the dot is the length of what stands in front of it. -/
theorem IsAbove.mem_dotPlaces (h : IsAbove n name) :
    n.length ∈ dotPlaces name ∧ name.take n.length = n := by
  obtain ⟨hne, rest, rfl⟩ := h
  rw [Journal.mem_dotPlaces]
  refine ⟨⟨List.length_pos_of_ne_nil hne, ?_⟩, ?_⟩
  · simp
  · simp

theorem spacedPlaces_sublist (above : Nat) (places : List Nat) :
    (spacedPlaces above places).Sublist places := by
  induction places generalizing above with
  | nil => exact List.Sublist.slnil
  | cons p rest ih =>
    unfold spacedPlaces
    split
    · exact (ih above).cons p
    · exact (ih p).cons_cons p

theorem isAbove_of_mem_shorterNames (h : n ∈ shorterNames name) : IsAbove n name := by
  obtain ⟨p, hp, rfl⟩ := List.mem_map.mp h
  exact isAbove_take ((spacedPlaces_sublist 0 _).subset hp)

/-- Places that are not next to each other are all taken. -/
theorem spacedPlaces_eq_self {above : Nat} {places : List Nat}
    (h : ∀ p ∈ places, p + 1 ∉ above :: places) : spacedPlaces above places = places := by
  induction places generalizing above with
  | nil => rfl
  | cons p rest ih =>
    have hp : ¬p + 1 = above := fun heq => h p List.mem_cons_self (heq ▸ List.mem_cons_self)
    rw [spacedPlaces, if_neg hp, ih]
    intro q hq hmem
    exact h q (List.mem_cons_of_mem p hq) (List.mem_cons_of_mem above hmem)

theorem HasSpacedDots.shorterNames_eq (h : HasSpacedDots name) :
    shorterNames name = (dotPlaces name).map name.take := by
  rw [shorterNames, spacedPlaces_eq_self]
  intro p hp hmem
  rcases List.mem_cons.mp hmem with hzero | hnext
  · omega
  · -- there are two dots in a row
    obtain ⟨-, hdot⟩ := mem_dotPlaces.mp hp
    obtain ⟨-, hdot'⟩ := mem_dotPlaces.mp hnext
    apply h
    refine ⟨name.take p, name.drop (p + 1 + 1), ?_⟩
    have htake : name.take (p + 1 + 1) = name.take p ++ ['.', '.'] := by
      rw [List.take_add_one, List.take_add_one, hdot, hdot', List.append_assoc]
      rfl
    rw [← htake, List.take_append_drop]

theorem HasSpacedDots.take (h : HasSpacedDots name) (p : Nat) : HasSpacedDots (name.take p) :=
  fun hdots => h (hdots.trans (List.take_prefix p name).isInfix)

theorem mem_dotPlaces_take {q : Nat} : q ∈ dotPlaces (name.take p) ↔ q < p ∧ q ∈ dotPlaces name := by
  rw [mem_dotPlaces, mem_dotPlaces, List.getElem?_take]
  by_cases hq : q < p <;> simp [hq]

/-- The dots in front of a dot come behind it in the list. -/
theorem dotPlaces_take {before after : List Nat} (h : dotPlaces name = before ++ p :: after) :
    dotPlaces (name.take p) = after := by
  have hsorted := pairwise_dotPlaces name
  rw [h, List.pairwise_append, List.pairwise_cons] at hsorted
  obtain ⟨-, ⟨hafter, hsortedAfter⟩, hbefore⟩ := hsorted
  refine List.Perm.eq_of_pairwise' (pairwise_dotPlaces _) hsortedAfter ?_
  rw [List.perm_ext_iff_of_nodup (pairwise_dotPlaces _).nodup hsortedAfter.nodup]
  intro q
  rw [mem_dotPlaces_take, h, List.mem_append, List.mem_cons]
  constructor
  · rintro ⟨hq, hmem | rfl | hmem⟩
    · exact absurd (hbefore q hmem p List.mem_cons_self) (by omega)
    · omega
    · exact hmem
  · intro hmem
    exact ⟨hafter q hmem, .inr (.inr hmem)⟩

/-- Beginnings of a beginning are beginnings. -/
theorem map_take_dotPlaces (name : Text) (p : Nat) :
    (dotPlaces (name.take p)).map (name.take p).take = (dotPlaces (name.take p)).map name.take := by
  apply List.map_congr_left
  intro q hq
  rw [mem_dotPlaces_take] at hq
  rw [List.take_take, Nat.min_eq_left hq.1.le]

/-! ## The lineage -/

/-- There is a logger of this name. -/
def IsMade (j : Journal) (name : Text) : Prop := (j.loggers.get? name).isSome = true

theorem isMade_of_ne_fresh (h : j.logger name ≠ .fresh) : j.IsMade name := by
  unfold IsMade
  unfold logger at h
  cases hget : j.loggers.get? name with
  | some l => rfl
  | none =>
    rw [hget] at h
    exact absurd rfl h

theorem exists_lineage_eq (j : Journal) (name : Text) : ∃ above, j.lineage name = name :: above := by
  unfold lineage
  cases name.length with
  | zero => exact ⟨[], rfl⟩
  | succ fuel =>
    unfold lineageUpTo
    split
    · exact ⟨_, rfl⟩
    · exact ⟨[], rfl⟩

theorem isAbove_of_above? (h : j.above? name = some n) : IsAbove n name :=
  isAbove_of_mem_shorterNames (List.mem_of_find?_eq_some h)

theorem of_mem_lineageUpTo {fuel : Nat} (h : n ∈ j.lineageUpTo fuel name) :
    n = name ∨ IsAbove n name := by
  induction fuel generalizing name with
  | zero => exact .inl (List.mem_singleton.mp h)
  | succ fuel ih =>
    unfold lineageUpTo at h
    split at h
    · next m hm =>
      have habove := isAbove_of_above? hm
      rcases List.mem_cons.mp h with rfl | hmem
      · exact .inl rfl
      · rcases ih hmem with rfl | hn
        · exact .inr habove
        · exact .inr (hn.trans habove)
    · exact .inl (List.mem_singleton.mp h)

theorem pairwise_lineageUpTo (j : Journal) (fuel : Nat) (name : Text) :
    (j.lineageUpTo fuel name).Pairwise fun m n => IsAbove n m := by
  induction fuel generalizing name with
  | zero => exact List.pairwise_singleton _ _
  | succ fuel ih =>
    unfold lineageUpTo
    split
    · next m hm =>
      have habove := isAbove_of_above? hm
      refine List.pairwise_cons.mpr ⟨?_, ih m⟩
      intro n hn
      rcases of_mem_lineageUpTo hn with rfl | hn
      · exact habove
      · exact hn.trans habove
    · exact List.pairwise_singleton _ _

/-- No logger comes up twice. -/
theorem nodup_lineage (j : Journal) (name : Text) : (j.lineage name).Nodup := by
  refine (pairwise_lineageUpTo j name.length name).imp ?_
  rintro m n habove rfl
  exact absurd habove.length_lt (Nat.lt_irrefl _)

/-- Without two dots in a row no logger is passed over. -/
theorem HasSpacedDots.lineageUpTo_eq (hspaced : HasSpacedDots name) {fuel : Nat}
    (hfuel : (dotPlaces name).length ≤ fuel) :
    j.lineageUpTo fuel name
      = name :: ((dotPlaces name).map name.take).filter fun n => (j.loggers.get? n).isSome := by
  induction fuel generalizing name with
  | zero =>
    rw [List.length_eq_zero_iff.mp (Nat.le_zero.mp hfuel)]
    rfl
  | succ fuel ih =>
    unfold lineageUpTo above?
    rw [hspaced.shorterNames_eq]
    split
    · next m hm =>
      rw [List.find?_map, Option.map_eq_some_iff] at hm
      obtain ⟨p, hp, rfl⟩ := hm
      obtain ⟨hmade, before, after, hplaces, hbefore⟩ := List.find?_eq_some_iff_append.mp hp
      rw [Function.comp_apply] at hmade
      have hafter : dotPlaces (name.take p) = after := dotPlaces_take hplaces
      have hlength : (dotPlaces (name.take p)).length ≤ fuel := by
        rw [hplaces, List.length_append, List.length_cons] at hfuel
        rw [hafter]
        omega
      have hnone : (before.map name.take).filter (fun n => (j.loggers.get? n).isSome) = [] := by
        rw [List.filter_eq_nil_iff]
        intro n hn
        obtain ⟨q, hq, rfl⟩ := List.mem_map.mp hn
        simpa using hbefore q hq
      rw [ih (hspaced.take p) hlength, map_take_dotPlaces, hafter, hplaces, List.map_append,
        List.filter_append, hnone, List.nil_append, List.map_cons, List.filter_cons, if_pos hmade]
    · next hm =>
      rw [List.find?_eq_none] at hm
      rw [List.filter_eq_nil_iff.mpr hm]

/-- **Lineage.** A logger has all loggers above it that have been made. -/
theorem HasSpacedDots.mem_lineage_iff (hspaced : HasSpacedDots name) :
    n ∈ j.lineage name ↔ n = name ∨ IsAbove n name ∧ j.IsMade n := by
  have hfuel : (dotPlaces name).length ≤ name.length := by
    rw [dotPlaces, List.length_reverse]
    exact (List.length_filter_le _ _).trans_eq List.length_range
  rw [lineage, hspaced.lineageUpTo_eq hfuel, List.mem_cons, List.mem_filter, List.mem_map]
  constructor
  · rintro (rfl | ⟨⟨p, hp, rfl⟩, hmade⟩)
    · exact .inl rfl
    · exact .inr ⟨isAbove_take hp, hmade⟩
  · rintro (rfl | ⟨habove, hmade⟩)
    · exact .inl rfl
    · exact .inr ⟨⟨_, habove.mem_dotPlaces⟩, hmade⟩

/-! ## What a record reaches -/

/-- The handlers of a logger that a record reaches: those whose level it has, if it has the level that
its own logger asks for. -/
def delivered (j : Journal) (r : Record) (name : Text) : List Handler :=
  if r.rank < j.effectiveRank r.logger then []
  else (j.logger name).handlers.filter fun h => h.rank ≤ r.rank

/-- The handlers that a record reaches, those of its own logger first. -/
def reached (j : Journal) (r : Record) : List Handler :=
  (j.lineage r.logger).flatMap (j.delivered r)

/-- A handler whose level a record does not have writes nothing. -/
theorem foldl_handle_filter (handlers : List Handler) (j : Journal) :
    (handlers.filter fun h => h.rank ≤ r.rank).foldl (handle r) j = handlers.foldl (handle r) j := by
  induction handlers generalizing j with
  | nil => rfl
  | cons h rest ih =>
    by_cases hrank : h.rank ≤ r.rank
    · rw [List.filter_cons_of_pos (by simpa using hrank), List.foldl_cons, List.foldl_cons, ih]
    · have hsame : handle r j h = j := if_pos (Nat.lt_of_not_le hrank)
      rw [List.filter_cons_of_neg (by simpa using hrank), List.foldl_cons, hsame, ih]

/-- A record is written to what it reaches of its logger and of those above. -/
theorem emit_eq (j : Journal) (r : Record) : j.emit r = (j.reached r).foldl (handle r) j := by
  unfold emit reached delivered
  split
  · rw [List.flatMap_eq_nil_iff.mpr fun _ _ => rfl, List.foldl_nil]
  · rw [← List.filter_flatMap, foldl_handle_filter, handlersFor]

/-! ## What is written -/

/-- A record as it comes out on the console. -/
def consoleLine (r : Record) (colored : Bool) : Text := Template.console.formatWith colored r ++ ['\n']

/-- A record as it is added to a log file. -/
def fileLine (r : Record) : Text := Template.file.format r ++ ['\n']

/-- What a handler that takes a record puts on the console. -/
def shown (r : Record) (h : Handler) : Text :=
  match h.sink with
  | .console colored => consoleLine r colored
  | .file _ | .null => []

/-- The log file that a handler writes to. -/
def logFile? (h : Handler) : Option Text :=
  match h.sink with
  | .file path => some path
  | .console _ | .null => none

theorem rank_le_of_mem_reached {h : Handler} (hh : h ∈ j.reached r) : h.rank ≤ r.rank := by
  obtain ⟨n, -, hn⟩ := List.mem_flatMap.mp hh
  unfold delivered at hn
  split at hn
  · cases hn
  · exact of_decide_eq_true (List.mem_filter.mp hn).2

/-- **Step.** A handler that takes a record adds to the console what it shows, and to its log file. -/
theorem handle_of_le {h : Handler} (hrank : h.rank ≤ r.rank) (j : Journal) :
    handle r j h =
      { j with
        console := j.console ++ shown r h
        directory :=
          (logFile? h).elim j.directory fun path => j.directory.append path (fileLine r) } := by
  rw [handle, if_neg (Nat.not_lt.mpr hrank)]
  unfold shown logFile?
  cases h.sink with
  | console colored => simp only [consoleLine, List.append_assoc, Option.elim_none]
  | file path => simp only [List.append_nil, Option.elim_some, fileLine]
  | null => simp only [List.append_nil, Option.elim_none]

/-- **Run.** Several handlers add to both one after the other. -/
theorem foldl_handle_of_le {handlers : List Handler} (h : ∀ h ∈ handlers, h.rank ≤ r.rank)
    (j : Journal) :
    handlers.foldl (handle r) j =
      { j with
        console := j.console ++ handlers.flatMap (shown r)
        directory := (handlers.filterMap logFile?).foldl (·.append · (fileLine r)) j.directory } := by
  induction handlers generalizing j with
  | nil => simp
  | cons head rest ih =>
    rw [List.foldl_cons, ih fun h' hh' => h h' (List.mem_cons_of_mem _ hh'),
      handle_of_le (h head List.mem_cons_self), List.flatMap_cons, List.append_assoc]
    cases hfile : logFile? head with
    | none => rw [List.filterMap_cons_none hfile, Option.elim_none]
    | some path => rw [List.filterMap_cons_some hfile, List.foldl_cons, Option.elim_some]

/-- **Writing.** A record adds a line to the console for each console handler that it reaches, and one to
the log file of each file handler. -/
theorem emit_eq_written (j : Journal) (r : Record) :
    j.emit r =
      { j with
        console := j.console ++ (j.reached r).flatMap (shown r)
        directory :=
          ((j.reached r).filterMap logFile?).foldl (·.append · (fileLine r)) j.directory } := by
  rw [emit_eq]
  exact foldl_handle_of_le (fun _ => rank_le_of_mem_reached) j

/-- A logger that has a level of its own goes by it. -/
theorem effectiveRank_of_pos (h : 0 < (j.logger name).rank) :
    j.effectiveRank name = (j.logger name).rank := by
  obtain ⟨above, habove⟩ := exists_lineage_eq j name
  unfold effectiveRank
  rw [habove, List.map_cons, List.find?_cons_of_pos (by simpa using h.ne'), Option.getD_some]

end Journal

end CssValues
