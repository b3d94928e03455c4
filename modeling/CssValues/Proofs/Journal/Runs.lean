import CssValues.Proofs.Journal.Lineage
import CssValues.Proofs.Journal.Setup

/-!
# Loggers after a run

In a run in which every setup succeeds, a logger is what the first setup since its last reset asked
for, and fresh if there was none. Later setups do not change it, and no setup or reset changes the
logger of another component. A record that is given to a logger reaches just those of its handlers
whose level it has (`Journal.first_setup_in_force`).
-/

namespace CssValues

/-! ## Levels -/

theorem Level.rank_pos (level : Level) : 0 < level.rank := by
  cases level <;> decide

theorem Level.ofName?_eq_some_iff {t : Text} {level : Level} :
    ofName? t = some level ↔ t = level.name := by
  constructor
  · intro h
    have hname := List.find?_some h
    exact (of_decide_eq_true hname).symm
  · rintro rfl
    cases level <;> decide

namespace Journal

/-- The level that a value names, or `fallback` if it names none. -/
def levelNamed (fallback : Level) : Value → Level
  | .text t => (Level.ofName? t).getD fallback
  | _ => fallback

theorem levelNamed_name (fallback level : Level) : levelNamed fallback (.text level.name) = level := by
  rw [levelNamed, Level.ofName?_eq_some_iff.mpr rfl, Option.getD_some]

theorem levelNamed_of_unknown {fallback : Level} {v : Value}
    (h : ∀ level : Level, v ≠ .text level.name) : levelNamed fallback v = fallback := by
  cases v with
  | text t =>
    have hnone : Level.ofName? t = none := by
      rw [Option.eq_none_iff_forall_ne_some]
      intro level hlevel
      exact h level (by rw [Level.ofName?_eq_some_iff.mp hlevel])
    rw [levelNamed, hnone, Option.getD_none]
  | _ => rfl

theorem rankOf_eq_ok {fallback : Level} {v : Value} {n : Nat} (h : rankOf fallback v = .ok n) :
    n = (levelNamed fallback v).rank := by
  cases v with
  | array items => cases h
  | mapping entries => cases h
  | _ =>
    cases h
    rfl

/-! ## What a setup asks for -/

namespace Setup

variable (s : Setup)

def consoleHandler : Handler := ⟨.console s.colored, (levelNamed .info s.consoleLevel).rank⟩

/-- The handler of the log file, if one is given. -/
def fileHandler? : Option Handler :=
  match s.file with
  | .text (c :: path) => some ⟨.file (c :: path), (levelNamed .debug s.fileLevel).rank⟩
  | _ => none

/-- The handlers that a setup asks for. -/
def handlers : List Handler := s.consoleHandler :: s.fileHandler?.toList

/-- The lowest of their levels. -/
def rank : Nat := s.fileHandler?.elim s.consoleHandler.rank fun h => min s.consoleHandler.rank h.rank

/-- A logger with the handlers that a setup asks for after its own, and their level. -/
def logger (l : Logger) : Logger := ⟨s.rank, l.handlers ++ s.handlers⟩

theorem min?_ranks : (s.handlers.map Handler.rank).min? = some s.rank := by
  unfold handlers rank
  cases s.fileHandler? with
  | none => rfl
  | some h => rfl

theorem rank_of_mem_fileHandler? {h : Handler} (hh : h ∈ s.fileHandler?) :
    h.rank = (levelNamed .debug s.fileLevel).rank := by
  unfold fileHandler? at hh
  split at hh
  · cases hh
    rfl
  · cases hh

theorem rank_pos_of_mem {h : Handler} (hh : h ∈ s.handlers) : 0 < h.rank := by
  rcases List.mem_cons.mp hh with rfl | hfile
  · exact Level.rank_pos _
  · rw [s.rank_of_mem_fileHandler? (Option.mem_toList.mp hfile)]
    exact Level.rank_pos _

theorem rank_pos : 0 < s.rank := by
  have hmem := List.min?_mem (min?_ranks s)
  obtain ⟨h, hh, hrank⟩ := List.mem_map.mp hmem
  rw [← hrank]
  exact s.rank_pos_of_mem hh

theorem rank_le {h : Handler} (hh : h ∈ s.handlers) : s.rank ≤ h.rank :=
  (List.min?_eq_some_iff.mp (min?_ranks s)).2 _ (List.mem_map_of_mem hh)

/-- A setup asks for handlers that write. -/
theorem isNull_of_mem {h : Handler} (hh : h ∈ s.handlers) : h.isNull = false := by
  rcases List.mem_cons.mp hh with rfl | hfile
  · rfl
  · unfold fileHandler? at hfile
    split at hfile
    · cases List.mem_singleton.mp hfile
      rfl
    · cases hfile

theorem isSetUp_logger (l : Logger) : (s.logger l).isSetUp = true := by
  refine List.any_eq_true.mpr ⟨s.consoleHandler, ?_, rfl⟩
  exact List.mem_append_right _ List.mem_cons_self

variable {s : Setup} {consoleRank fileRank : Nat} {fileRank? : Option Nat}

theorem ranks_eq_ok (h : s.ranks = .ok (consoleRank, fileRank?)) :
    consoleRank = s.consoleHandler.rank
      ∧ (s.file.isTruthy = false ∧ fileRank? = none
        ∨ s.file.isTruthy = true ∧ fileRank? = some (levelNamed .debug s.fileLevel).rank) := by
  unfold ranks at h
  cases hconsole : rankOf .info s.consoleLevel with
  | error e =>
    rw [hconsole] at h
    cases h
  | ok n =>
    have hn := rankOf_eq_ok hconsole
    rw [hconsole] at h
    cases hfile : s.file.isTruthy with
    | false =>
      rw [hfile] at h
      cases h
      exact ⟨hn, .inl ⟨rfl, rfl⟩⟩
    | true =>
      rw [hfile] at h
      cases hlevel : rankOf .debug s.fileLevel with
      | error e =>
        rw [hlevel] at h
        cases h
      | ok m =>
        rw [hlevel] at h
        cases h
        exact ⟨hn, .inr ⟨rfl, by rw [rankOf_eq_ok hlevel]⟩⟩

theorem logger_of_no_file (h : s.ranks = .ok (consoleRank, none)) (l : Logger) :
    s.consoleOnly l consoleRank consoleRank = s.logger l := by
  obtain ⟨rfl, ⟨hfile, -⟩ | ⟨-, hnone⟩⟩ := ranks_eq_ok h
  · have hhandler : s.fileHandler? = none := by
      unfold fileHandler?
      split
      · next hpath =>
        rw [hpath] at hfile
        cases hfile
      · rfl
    rw [logger, handlers, rank, hhandler]
    rfl
  · cases hnone

theorem logger_of_file {path : Text} (h : s.ranks = .ok (consoleRank, some fileRank))
    (hpath : s.file = .text path) (l : Logger) :
    s.complete l consoleRank fileRank path = s.logger l := by
  obtain ⟨rfl, ⟨-, hnone⟩ | ⟨hfile, hrank⟩⟩ := ranks_eq_ok h
  · cases hnone
  · cases hrank
    rw [hpath] at hfile
    cases path with
    | nil => cases hfile
    | cons c path =>
      have hhandler : s.fileHandler?
          = some ⟨.file (c :: path), (levelNamed .debug s.fileLevel).rank⟩ := by
        rw [fileHandler?, hpath]
      rw [logger, handlers, rank, hhandler]
      rfl

end Setup

/-! ## Runs in which every setup succeeds -/

variable {j : Journal} {name component : Text} {actions : List Action}

namespace Action

/-- It takes the handlers of this logger away. -/
def resets (name : Text) : Action → Bool
  | .reset component => loggerName component = name
  | .setup .. | .log .. => false

/-- What it asks for if it sets this logger up. -/
def setupFor? (name : Text) : Action → Option Setup
  | .setup _ component s => if loggerName component = name then some s else none
  | .log .. | .reset _ => none

/-- It does not fail, and the log file that it opens is the one that it was given. -/
def Succeeds (j : Journal) : Action → Prop
  | .setup opening component s =>
    (j.setupWith opening component s).2 = .ok ()
      ∧ ∀ path, (opening j.directory s.file).2 = .ok path → s.file = .text path
  | .log .. | .reset _ => True

end Action

/-- Every action of a run succeeds. -/
def Succeeds (j : Journal) : List Action → Prop
  | [] => True
  | a :: rest => a.Succeeds j ∧ Succeeds (a.run j) rest

/-- No logger has been set up: there are no handlers but such as write nothing, and no levels. -/
def IsFresh (j : Journal) : Prop :=
  ∀ name, (∀ h ∈ (j.logger name).handlers, h.isNull = true) ∧ (j.logger name).rank = 0

theorem isFresh_empty : empty.IsFresh := by
  intro name
  unfold logger
  cases hget : empty.loggers.get? name with
  | none => exact ⟨List.forall_mem_nil _, rfl⟩
  | some l =>
    obtain ⟨component, -, heq⟩ := List.mem_map.mp (Entries.mem_of_get? hget)
    cases heq
    cases component with
    | nil => exact ⟨List.forall_mem_singleton.mpr rfl, rfl⟩
    | cons c rest => exact ⟨List.forall_mem_nil _, rfl⟩

section

variable {l : Logger}

theorem not_isSetUp_of_isNull (hl : ∀ h ∈ l.handlers, h.isNull = true) : l.isSetUp = false := by
  simpa [Logger.isSetUp] using hl

theorem bared_of_isNull (hl : ∀ h ∈ l.handlers, h.isNull = true) (hrank : l.rank = 0) :
    l.bared = l := by
  rw [Logger.bared, List.filter_eq_self.mpr hl, ← hrank]

/-- What a setup adds to a logger is what a reset takes away. -/
theorem bared_logger (hl : ∀ h ∈ l.handlers, h.isNull = true) (hrank : l.rank = 0) (s : Setup) :
    (s.logger l).bared = l := by
  have hnone : s.handlers.filter Handler.isNull = [] :=
    List.filter_eq_nil_iff.mpr fun h hh => by simp [s.isNull_of_mem hh]
  rw [Setup.logger, Logger.bared, List.filter_append, hnone, List.append_nil]
  exact bared_of_isNull hl hrank

end

/-- The setup that is in force for a logger: the first one since its last reset. -/
def setupInForce? (actions : List Action) (name : Text) : Option Setup :=
  (actions.reverse.takeWhile fun a => !a.resets name).reverse.findSome? (·.setupFor? name)

/-- Loggers are what the setups in force made of those at the start. -/
def IsSetBy (start j : Journal) (actions : List Action) : Prop :=
  ∀ name, j.logger name
    = (setupInForce? actions name).elim (start.logger name) (·.logger (start.logger name))

theorem setupInForce?_append (actions : List Action) (a : Action) (name : Text) :
    setupInForce? (actions ++ [a]) name
      = if a.resets name then none else (setupInForce? actions name).or (a.setupFor? name) := by
  unfold setupInForce?
  rw [List.reverse_append, List.reverse_singleton, List.singleton_append, List.takeWhile_cons]
  cases a.resets name with
  | true => rfl
  | false =>
    simp only [Bool.not_false, if_true, List.reverse_cons, List.findSome?_append,
      List.findSome?_singleton, Bool.false_eq_true, if_false]

theorem perform_append (j : Journal) (actions : List Action) (a : Action) :
    j.perform (actions ++ [a]) = a.run (j.perform actions) := by
  simp [perform]

theorem succeeds_append {a : Action} :
    j.Succeeds (actions ++ [a]) ↔ j.Succeeds actions ∧ a.Succeeds (j.perform actions) := by
  induction actions generalizing j with
  | nil => simp [Succeeds, perform]
  | cons b rest ih => simp [Succeeds, perform, ih, and_assoc]

/-- The log file that is opened is the one that was given. -/
theorem eq_text_of_openLog {d : Directory} {v : Value} {path : Text}
    (h : (openLog d v).2 = .ok path) : v = .text path := by
  cases v with
  | text t =>
    unfold openLog at h
    dsimp only at h
    split at h
    · cases h
    · split at h
      · cases h
      · cases h
        rfl
  | _ => cases h

/-- Without a log file only a level can be refused. -/
theorem succeeds_of_no_file {s : Setup} {consoleRank : Nat} (hranks : s.ranks = .ok (consoleRank, none))
    (j : Journal) (component : Text) : (Action.setup openLog component s).Succeeds j := by
  refine ⟨?_, fun path => eq_text_of_openLog⟩
  cases hset : (j.logger (loggerName component)).isSetUp with
  | false => exact (comes_of_no_file hset hranks openLog).result_eq
  | true => exact (comes_of_isSetUp hset openLog s).result_eq

/-- A setup that succeeds gives a logger that has not been set up what it asks for. -/
theorem logger_setupWith {opening : Opening} {s : Setup}
    (hbare : (j.logger (loggerName component)).isSetUp = false)
    (h : (Action.setup opening component s).Succeeds j) :
    (j.setupWith opening component s).1.logger (loggerName component)
      = s.logger (j.logger (loggerName component)) := by
  obtain ⟨hok, hpath⟩ := h
  cases hranks : s.ranks with
  | error e =>
    rw [(comes_of_refused hbare hranks opening).result_eq] at hok
    cases hok
  | ok ranks =>
    obtain ⟨consoleRank, _ | fileRank⟩ := ranks
    · rw [(comes_of_no_file hbare hranks opening).logger_eq]
      exact Setup.logger_of_no_file hranks _
    · cases hopen : (opening j.directory s.file).2 with
      | error e =>
        rw [(comes_of_unopened hbare hranks hopen).result_eq] at hok
        cases hok
      | ok path =>
        rw [(comes_of_opened hbare hranks hopen).logger_eq]
        exact Setup.logger_of_file hranks (hpath path hopen) _

variable {start : Journal}

/-- **Step.** An action takes a logger from the setup in force before to the one in force after. -/
theorem logger_run {a : Action} {current : Option Setup} (hstart : start.IsFresh) (h : a.Succeeds j)
    (hcurrent : j.logger name = current.elim (start.logger name) (·.logger (start.logger name))) :
    (a.run j).logger name
      = (if a.resets name then none else current.or (a.setupFor? name)).elim (start.logger name)
        (·.logger (start.logger name)) := by
  obtain ⟨hnull, hrank⟩ := hstart name
  cases a with
  | log =>
    rw [Action.resets, if_neg Bool.false_ne_true, Action.setupFor?, Option.or_none, ← hcurrent]
    exact logger_log ..
  | reset component =>
    by_cases hname : loggerName component = name
    · subst hname
      rw [Action.resets, if_pos (decide_eq_true rfl), Option.elim_none]
      refine (logger_setLogger_self j _ _).trans ?_
      rw [hcurrent]
      cases current with
      | none => exact bared_of_isNull hnull hrank
      | some s => exact bared_logger hnull hrank s
    · rw [Action.resets, if_neg (by simpa using hname), Action.setupFor?, Option.or_none, ← hcurrent]
      exact logger_setLogger_of_ne (Ne.symm hname) j _
  | setup opening component s =>
    rw [Action.resets, if_neg Bool.false_ne_true, Action.setupFor?]
    by_cases hname : loggerName component = name
    · subst hname
      rw [if_pos rfl]
      cases current with
      | none =>
        rw [Option.elim_none] at hcurrent
        have hbare : (j.logger (loggerName component)).isSetUp = false := by
          rw [hcurrent]
          exact not_isSetUp_of_isNull hnull
        exact (logger_setupWith hbare h).trans (congrArg s.logger hcurrent)
      | some t =>
        -- the logger is set up already
        have hset : (j.logger (loggerName component)).isSetUp = true := by
          rw [hcurrent]
          exact t.isSetUp_logger _
        exact (comes_of_isSetUp hset opening s).logger_eq.trans hcurrent
    · rw [if_neg hname, Option.or_none, ← hcurrent]
      exact logger_setupWith_of_ne (Ne.symm hname) opening j s

/-- **Run.** After a run every logger is what the setup in force made of it. -/
theorem isSetBy_perform (hj : j.IsFresh) (h : j.Succeeds actions) :
    j.IsSetBy (j.perform actions) actions := by
  induction actions using List.reverseRecOn with
  | nil => exact fun _ => rfl
  | append_singleton actions a ih =>
    obtain ⟨hbefore, ha⟩ := succeeds_append.mp h
    intro name
    rw [perform_append, setupInForce?_append]
    exact logger_run hj ha (ih hbefore name)

/-- Of a logger that has been set up a record reaches the handlers whose level it has. -/
theorem delivered_of_logger {s : Setup} {l : Logger} {r : Record}
    (h : j.logger r.logger = s.logger l) {f : Handler} (hf : f ∈ s.handlers) :
    f ∈ j.delivered r r.logger ↔ f.rank ≤ r.rank := by
  have hpos : 0 < (j.logger r.logger).rank := h ▸ s.rank_pos
  have hmem : f ∈ (s.logger l).handlers := List.mem_append_right _ hf
  unfold delivered
  rw [effectiveRank_of_pos hpos, h]
  split
  · next hless =>
    -- the level of the logger is the lowest one
    have hle : (s.logger l).rank ≤ f.rank := s.rank_le hf
    exact iff_of_false List.not_mem_nil (by omega)
  · rw [List.mem_filter, and_iff_right hmem, decide_eq_true_eq]

/-- **The first setup counts.** After a run in which every setup succeeds, a logger is what it was at
the start, with handlers at most that write nothing, if it has not been set up since its last reset.
Otherwise it has just the handlers that the first setup since then asked for in addition, and the lowest
of their levels. A record that is given to it reaches a handler just if it has the level of the handler,
be there a setup of other loggers or not. For each handler that it reaches it comes out on the console,
or in the log file. Any value that is not the name of a level stands for the usual one. No action
changes the logger of a component that it is not about. -/
theorem first_setup_in_force (hj : j.IsFresh) (h : j.Succeeds actions) :
    let later := j.perform actions
    (∀ name, match setupInForce? actions name with
      | none => later.logger name = j.logger name
      | some s =>
        (later.logger name).handlers
          = (j.logger name).handlers ++ s.consoleHandler :: s.fileHandler?.toList
        ∧ ((s.consoleHandler :: s.fileHandler?.toList).map Handler.rank).min?
          = some (later.logger name).rank
        ∧ ∀ r : Record, r.logger = name →
          (s.consoleHandler ∈ later.delivered r name
            ↔ (levelNamed .info s.consoleLevel).rank ≤ r.rank)
          ∧ ∀ f ∈ s.fileHandler?, f ∈ later.delivered r name
            ↔ (levelNamed .debug s.fileLevel).rank ≤ r.rank)
    ∧ (∀ r : Record, later.reached r = (later.lineage r.logger).flatMap (later.delivered r)
      ∧ later.emit r = (later.reached r).foldl (handle r) later
      ∧ later.emit r =
        { later with
          console := later.console ++ (later.reached r).flatMap (shown r)
          directory := ((later.reached r).filterMap logFile?).foldl (·.append · (fileLine r))
            later.directory })
    ∧ (∀ (fallback level : Level), levelNamed fallback (.text level.name) = level)
    ∧ (∀ (fallback : Level) (v : Value), (∀ level : Level, v ≠ .text level.name) →
      levelNamed fallback v = fallback)
    ∧ ∀ (before : Journal) (a : Action) (component : Text), a.target? ≠ some component →
      (a.run before).logger (loggerName component) = before.logger (loggerName component) := by
  intro later
  refine ⟨fun name => ?_, fun r => ⟨rfl, emit_eq later r, emit_eq_written later r⟩, levelNamed_name,
    fun fallback v => levelNamed_of_unknown,
    fun before a component ha => logger_run_of_target? ha before⟩
  have hlogger := isSetBy_perform hj h name
  split
  · next hnone =>
    rw [hnone] at hlogger
    exact hlogger
  · next s hs =>
    rw [hs] at hlogger
    have hlogger : later.logger name = s.logger (j.logger name) := hlogger
    refine ⟨by rw [hlogger]; rfl, by rw [hlogger]; exact s.min?_ranks, ?_⟩
    rintro r rfl
    refine ⟨delivered_of_logger hlogger List.mem_cons_self, fun f hf => ?_⟩
    rw [← s.rank_of_mem_fileHandler? hf]
    exact delivered_of_logger hlogger (List.mem_cons_of_mem _ (Option.mem_toList.mpr hf))

/-- A setup with a log file that a later one does not change; and one of another component, before and
after a reset, the second time with a level that there is not. -/
theorem first_setup_in_force_twice :
    let first : Setup := ⟨.text "a.log".toList, .text Level.warning.name, .null, true⟩
    let ignored : Setup := ⟨.null, .text Level.debug.name, .null, true⟩
    let strict : Setup := ⟨.null, .text Level.error.name, .null, true⟩
    let unknown : Setup := ⟨.null, .text "LOUD".toList, .null, true⟩
    let css := "css".toList
    let actions : List Action := [.setup openLog [] first, .setup openLog css strict,
      .setup openLog [] ignored, .reset css, .setup openLog css unknown]
    let later := empty.perform actions
    empty.Succeeds actions
      ∧ (later.logger rootName).handlers = [.null, ⟨.console true, Level.warning.rank⟩,
        ⟨.file "a.log".toList, Level.debug.rank⟩]
      ∧ (later.logger (loggerName css)).handlers = [⟨.console true, Level.info.rank⟩]
      ∧ ∀ r : Record, r.logger = loggerName css →
        (⟨.console true, Level.info.rank⟩ ∈ later.delivered r (loggerName css)
          ↔ Level.info.rank ≤ r.rank) := by
  intro first ignored strict unknown css actions later
  have hsucceeds : empty.Succeeds actions :=
    ⟨⟨by rfl, fun _ => eq_text_of_openLog⟩, succeeds_of_no_file rfl _ css, succeeds_of_no_file rfl _ [],
      trivial, succeeds_of_no_file rfl _ css, trivial⟩
  obtain ⟨hloggers, -⟩ := first_setup_in_force isFresh_empty hsucceeds
  have hroot := hloggers rootName
  have hcss := hloggers (loggerName css)
  have hrootSetup : setupInForce? actions rootName = some first := by rfl
  have hcssSetup : setupInForce? actions (loggerName css) = some unknown := by rfl
  simp only [hrootSetup] at hroot
  simp only [hcssSetup] at hcss
  refine ⟨hsucceeds, hroot.1, hcss.1, fun r hr => (hcss.2.2 r hr).1⟩

end Journal

end CssValues
