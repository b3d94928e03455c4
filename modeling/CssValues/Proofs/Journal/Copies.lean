import CssValues.Proofs.Journal.Runs
import Mathlib.Data.Finset.Card

/-!
# Copies of a record on the console

Every logger that has been set up writes to the console by itself, and a record goes to the loggers above
its own as well. So a record comes out on the console once for each setup in force on the way up whose
console level it has (`Journal.console_emit_of_succeeds`): often more than once.
-/

namespace CssValues

namespace Journal

variable {start j : Journal} {actions : List Action} {names : List Text} {name n : Text} {r : Record}
  {s : Setup}

/-! ## What a logger shows -/

theorem shown_of_isNull {h : Handler} (hnull : h.isNull = true) (r : Record) : shown r h = [] := by
  rw [shown, of_decide_eq_true hnull]

/-- Of the handlers that a setup asks for the console handler shows a record, if the record has its
level. The log file does not come into it. -/
theorem shown_handlers (r : Record) (s : Setup) :
    (s.handlers.filter fun h => h.rank ≤ r.rank).flatMap (shown r)
      = if s.consoleHandler.rank ≤ r.rank then consoleLine r s.colored else [] := by
  have hfile : (s.fileHandler?.toList.filter fun h => h.rank ≤ r.rank).flatMap (shown r) = [] := by
    rw [List.flatMap_eq_nil_iff]
    intro h hh
    have hmem := (List.mem_filter.mp hh).1
    unfold Setup.fileHandler? at hmem
    split at hmem
    · cases List.mem_singleton.mp hmem
      rfl
    · cases hmem
  rw [Setup.handlers, List.filter_cons]
  split
  · next hrank =>
    rw [List.flatMap_cons, hfile, List.append_nil, if_pos (of_decide_eq_true hrank)]
    rfl
  · next hrank => rw [hfile, if_neg (by simpa using hrank)]

/-! ## The setups that show a record -/

/-- The setup that is in force for a logger, if it shows the record on the console. -/
def taker? (actions : List Action) (r : Record) (n : Text) : Option Setup :=
  (setupInForce? actions n).filter fun s => s.consoleHandler.rank ≤ r.rank

/-- The setups in force for these loggers that show a record on the console. -/
def takers (actions : List Action) (r : Record) (names : List Text) : List Setup :=
  names.filterMap (taker? actions r)

theorem IsSetBy.shown_eq (hstart : start.IsFresh) (hj : start.IsSetBy j actions) (names : List Text) :
    (names.flatMap fun n => (j.logger n).handlers.filter fun h => h.rank ≤ r.rank).flatMap (shown r)
      = ((takers actions r names).map fun s => consoleLine r s.colored).flatten := by
  induction names with
  | nil => rfl
  | cons n rest ih =>
    -- the handlers of the start show nothing
    have hnull : ((start.logger n).handlers.filter fun h => h.rank ≤ r.rank).flatMap (shown r) = [] := by
      rw [List.flatMap_eq_nil_iff]
      intro h hh
      exact shown_of_isNull ((hstart n).1 h (List.mem_filter.mp hh).1) r
    rw [List.flatMap_cons, List.flatMap_append, ih, hj n]
    unfold takers taker?
    rw [List.filterMap_cons]
    cases hsetup : setupInForce? actions n with
    | none =>
      rw [Option.elim_none, hnull]
      rfl
    | some s =>
      rw [Option.elim_some, Setup.logger, List.filter_append, List.flatMap_append, hnull,
        shown_handlers, Option.filter_some]
      by_cases hrank : s.consoleHandler.rank ≤ r.rank
      · simp [hrank]
      · simp [hrank]

/-- The level that a logger goes by is that of the nearest one that has been set up. -/
theorem IsSetBy.effectiveRank_eq (hstart : start.IsFresh) (hj : start.IsSetBy j actions)
    (name : Text) :
    j.effectiveRank name
      = ((j.lineage name).findSome? (setupInForce? actions)).elim rootRank fun s => s.rank := by
  unfold effectiveRank
  induction j.lineage name with
  | nil => rfl
  | cons n rest ih =>
    rw [List.map_cons, List.findSome?_cons, hj n]
    cases hsetup : setupInForce? actions n with
    | none =>
      rw [Option.elim_none, (hstart n).2]
      exact ih
    | some s =>
      have hfirst := decide_eq_true s.rank_pos.ne'
      exact congrArg (Option.getD · rootRank) (List.find?_cons_of_pos hfirst)

theorem IsSetBy.isMade (hj : start.IsSetBy j actions) (hsetup : setupInForce? actions n = some s) :
    j.IsMade n := by
  apply isMade_of_ne_fresh
  rw [hj n, hsetup, Option.elim_some]
  intro hfresh
  have hset := s.isSetUp_logger (start.logger n)
  rw [hfresh] at hset
  cases hset

/-- Of different loggers at most one setup shows the record just if no two of them do. -/
theorem length_takers_le_one_iff (hnodup : names.Nodup) :
    (takers actions r names).length ≤ 1
      ↔ ∀ m ∈ names, ∀ n ∈ names,
        (taker? actions r m).isSome → (taker? actions r n).isSome → m = n := by
  rw [takers, List.length_filterMap_eq_countP, List.countP_eq_length_filter,
    ← List.toFinset_card_of_nodup (hnodup.filter _), Finset.card_le_one]
  simp only [List.mem_toFinset, List.mem_filter]
  constructor
  · intro h m hm n hn hm' hn'
    exact h m ⟨hm, hm'⟩ n ⟨hn, hn'⟩
  · intro h m hm n hn
    exact h m hm.1 n hn.1 hm.2 hn.2

/-- **Copies.** In a run in which every setup succeeds, a record that is given to a logger comes out on
the console once for each setup in force, of the logger or of one above it, whose console level it has;
and not at all if it does not have the level of the nearest logger that has been set up. At most one
setup takes it just if no two of these loggers do. -/
theorem console_emit_of_succeeds (hj : j.IsFresh) (h : j.Succeeds actions) (r : Record) :
    let later := (j.perform actions).withLogger r.logger
    let lineage := later.lineage r.logger
    (later.emit r).console = later.console
        ++ (if r.rank < later.effectiveRank r.logger then []
          else ((takers actions r lineage).map fun s => consoleLine r s.colored).flatten)
    ∧ later.effectiveRank r.logger
      = (lineage.findSome? (setupInForce? actions)).elim rootRank (fun s => s.rank)
    ∧ ((takers actions r lineage).length ≤ 1
      ↔ ∀ m ∈ lineage, ∀ n ∈ lineage,
        (taker? actions r m).isSome → (taker? actions r n).isSome → m = n)
    ∧ lineage.Nodup
    ∧ r.logger ∈ lineage
    ∧ (∀ n ∈ lineage, n = r.logger ∨ IsAbove n r.logger)
    ∧ (HasSpacedDots r.logger → ∀ n s, setupInForce? actions n = some s →
      (n ∈ lineage ↔ n = r.logger ∨ IsAbove n r.logger)) := by
  intro later lineage
  have hset : j.IsSetBy later actions := fun name =>
    (logger_withLogger _ _ name).trans (isSetBy_perform hj h name)
  have hnodup : lineage.Nodup := nodup_lineage later r.logger
  have hself : r.logger ∈ lineage := by
    obtain ⟨above, habove⟩ := exists_lineage_eq later r.logger
    simp only [lineage, habove, List.mem_cons_self]
  refine ⟨?_, hset.effectiveRank_eq hj r.logger, length_takers_le_one_iff hnodup, hnodup, hself,
    fun n => of_mem_lineageUpTo, fun hspaced n s hsetup => ?_⟩
  · rw [emit_eq_written]
    refine congrArg (later.console ++ ·) ?_
    unfold reached delivered
    split
    · rw [List.flatMap_eq_nil_iff.mpr fun _ _ => rfl, List.flatMap_nil]
    · exact hset.shown_eq hj lineage
  · rw [hspaced.mem_lineage_iff, and_iff_left (hset.isMade hsetup)]

/-- Of two setups on the way up, one takes the record. -/
theorem console_emit_once :
    let strict : Setup := ⟨.null, .text Level.error.name, .null, true⟩
    let actions : List Action := [.setup openLog [] strict, .setup openLog "css".toList .default]
    let name := loggerName "css.length".toList
    let r : Record := ⟨name, Level.info.name, Level.info.rank, "hello".toList, none, [], 0⟩
    let later := (empty.perform actions).withLogger name
    empty.Succeeds actions
      ∧ (takers actions r (later.lineage name)).length ≤ 1
      ∧ (later.emit r).console = consoleLine r true := by
  intro strict actions name r later
  have hsucceeds : empty.Succeeds actions :=
    ⟨succeeds_of_no_file rfl _ [], succeeds_of_no_file rfl _ _, trivial⟩
  obtain ⟨hconsole, -⟩ := console_emit_of_succeeds isFresh_empty hsucceeds r
  have htakers : takers actions r (later.lineage name) = [.default] := by rfl
  refine ⟨hsucceeds, by rw [htakers]; rfl, hconsole.trans ?_⟩
  rw [htakers]
  rfl

/-- With the logger above all components and that of one component set up alike, a message of the
component comes out twice. -/
theorem console_log_twice :
    let css := "css".toList
    let actions : List Action := [.setup openLog [] .default, .setup openLog css .default]
    let later := empty.perform actions
    let line := "<%H:%M:%S> [\x1b[32mINFO\x1b[0m] canvas_converter.css: hello\n".toList
    empty.Succeeds actions
      ∧ later.console = []
      ∧ (later.log css .info "hello".toList none).console = line ++ line :=
  ⟨⟨succeeds_of_no_file rfl _ [], succeeds_of_no_file rfl _ _, trivial⟩, by rfl, by rfl⟩

end Journal

end CssValues
