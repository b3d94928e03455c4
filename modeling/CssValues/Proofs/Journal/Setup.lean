import CssValues.Proofs.Entries
import CssValues.Proofs.Journal.Lineage

/-!
# Setting up loggers

A setup is of a logger that has no handlers but such as write nothing. It reads its levels first; if one
is refused, the logger stays as it was. By the time the log file is opened the logger has its level and
its console handler, so that a file that cannot be opened leaves a logger that counts as set up: whatever
is done then, short of a reset, it gets no file handler (`Journal.setup_kept_or_stuck`).
-/

namespace CssValues

namespace Journal

variable {j : Journal} {name component other : Text} {l : Logger}

/-! ## Loggers by name -/

theorem logger_setLogger_self (j : Journal) (name : Text) (l : Logger) :
    (j.setLogger name l).logger name = l := by
  rw [logger, setLogger, Entries.get?_put_self, Option.getD_some]

theorem logger_setLogger_of_ne (hne : other ≠ name) (j : Journal) (l : Logger) :
    (j.setLogger name l).logger other = j.logger other := by
  rw [logger, setLogger, Entries.get?_put_of_ne hne, logger]

/-- Making a logger does not change what it is. -/
theorem logger_withLogger (j : Journal) (name other : Text) :
    (j.withLogger name).logger other = j.logger other := by
  by_cases h : other = name
  · rw [h]
    exact logger_setLogger_self j name (j.logger name)
  · exact logger_setLogger_of_ne h j (j.logger name)

/-- Different components have different loggers. -/
theorem loggerName_inj {c d : Text} : loggerName c = loggerName d ↔ c = d := by
  refine ⟨fun h => ?_, congrArg loggerName⟩
  cases c with
  | nil =>
    cases d with
    | nil => rfl
    | cons x xs =>
      have hlength := congrArg List.length h
      simp only [loggerName, List.isEmpty_nil, List.isEmpty_cons, if_true, List.length_append,
        List.length_cons, Bool.false_eq_true, if_false] at hlength
      omega
  | cons x xs =>
    cases d with
    | nil =>
      have hlength := congrArg List.length h
      simp only [loggerName, List.isEmpty_nil, List.isEmpty_cons, if_true, List.length_append,
        List.length_cons, Bool.false_eq_true, if_false] at hlength
      omega
    | cons y ys =>
      have hcons : rootName ++ '.' :: x :: xs = rootName ++ '.' :: y :: ys := h
      exact (List.cons.inj (List.append_cancel_left hcons)).2

/-! ## What a setup does -/

/-- The ranks that a setup asks for: that of the console handler, and that of the file handler if there
is a log file. -/
def Setup.ranks (s : Setup) : Except Error (Nat × Option Nat) := do
  let consoleRank ← rankOf .info s.consoleLevel
  if s.file.isTruthy then
    let fileRank ← rankOf .debug s.fileLevel
    return (consoleRank, some fileRank)
  else return (consoleRank, none)

/-- A logger with just a console handler added to it. -/
def Setup.consoleOnly (s : Setup) (l : Logger) (rank consoleRank : Nat) : Logger :=
  ⟨rank, l.handlers ++ [⟨.console s.colored, consoleRank⟩]⟩

/-- A logger with a console handler and a file handler added to it. -/
def Setup.complete (s : Setup) (l : Logger) (consoleRank fileRank : Nat) (path : Text) : Logger :=
  ⟨min consoleRank fileRank, l.handlers ++ [⟨.console s.colored, consoleRank⟩, ⟨.file path, fileRank⟩]⟩

theorem Setup.isSetUp_consoleOnly (s : Setup) (l : Logger) (rank consoleRank : Nat) :
    (s.consoleOnly l rank consoleRank).isSetUp = true := by
  simp [consoleOnly, Logger.isSetUp, Handler.isNull]

variable {opening : Opening} {s : Setup} {e : Error} {consoleRank fileRank : Nat} {path : Text}

theorem setupWith_of_isSetUp (h : (j.logger (loggerName component)).isSetUp = true)
    (opening : Opening) (s : Setup) :
    j.setupWith opening component s = (j.withLogger (loggerName component), .ok ()) := by
  rw [setupWith, logger_withLogger, if_pos h]

/-- A setup of a logger that has not been set up: the ranks come first, then the logger is changed. -/
theorem setupWith_of_not (h : (j.logger (loggerName component)).isSetUp = false)
    (opening : Opening) (s : Setup) :
    j.setupWith opening component s =
      match s.ranks with
      | .error e => (j.withLogger (loggerName component), .error e)
      | .ok (consoleRank, fileRank) =>
        install opening (j.withLogger (loggerName component)) (loggerName component) s consoleRank
          fileRank := by
  rw [setupWith, logger_withLogger, h, if_neg Bool.false_ne_true, Setup.ranks]
  cases rankOf .info s.consoleLevel with
  | error e => rfl
  | ok consoleRank =>
    cases hfile : s.file.isTruthy with
    | false => rfl
    | true => cases rankOf .debug s.fileLevel <;> rfl

/-- With a log file the console handler is there before the file is opened. -/
theorem install_some (opening : Opening) (j : Journal) (name : Text) (s : Setup)
    (consoleRank fileRank : Nat) :
    install opening j name s consoleRank (some fileRank) =
      let half := j.setLogger name (s.consoleOnly (j.logger name) (min consoleRank fileRank) consoleRank)
      match opening j.directory s.file with
      | (directory, .error e) => ({ half with directory }, .error e)
      | (directory, .ok path) =>
        (({ half with directory } : Journal).setLogger name
          (s.complete (j.logger name) consoleRank fileRank path), .ok ()) := rfl

/-- What comes of a setup: the logger that is set up, the directory and the result. The other loggers
stay as they are. -/
structure Comes (j : Journal) (component : Text) (outcome : Journal × Except Error Unit) (l : Logger)
    (result : Except Error Unit) : Prop where
  logger_eq : outcome.1.logger (loggerName component) = l
  result_eq : outcome.2 = result
  others : ∀ other, other ≠ loggerName component → outcome.1.logger other = j.logger other

theorem comes_of_isSetUp (h : (j.logger (loggerName component)).isSetUp = true)
    (opening : Opening) (s : Setup) :
    Comes j component (j.setupWith opening component s) (j.logger (loggerName component))
      (.ok ()) := by
  rw [setupWith_of_isSetUp h]
  exact ⟨logger_withLogger j _ _, rfl, fun other _ => logger_withLogger j _ other⟩

theorem comes_of_refused (h : (j.logger (loggerName component)).isSetUp = false)
    (hranks : s.ranks = .error e) (opening : Opening) :
    Comes j component (j.setupWith opening component s) (j.logger (loggerName component))
      (.error e) := by
  rw [setupWith_of_not h, hranks]
  exact ⟨logger_withLogger j _ _, rfl, fun other _ => logger_withLogger j _ other⟩

theorem comes_of_no_file (h : (j.logger (loggerName component)).isSetUp = false)
    (hranks : s.ranks = .ok (consoleRank, none)) (opening : Opening) :
    Comes j component (j.setupWith opening component s)
      (s.consoleOnly (j.logger (loggerName component)) consoleRank consoleRank) (.ok ()) := by
  rw [setupWith_of_not h, hranks]
  simp only [install, logger_withLogger]
  refine ⟨logger_setLogger_self _ _ _, rfl, fun other hne => ?_⟩
  exact (logger_setLogger_of_ne hne _ _).trans (logger_withLogger j _ other)

theorem comes_of_opened (h : (j.logger (loggerName component)).isSetUp = false)
    (hranks : s.ranks = .ok (consoleRank, some fileRank))
    (hopen : (opening j.directory s.file).2 = .ok path) :
    Comes j component (j.setupWith opening component s)
      (s.complete (j.logger (loggerName component)) consoleRank fileRank path) (.ok ()) := by
  have hdirectory : opening (j.withLogger (loggerName component)).directory s.file
      = ((opening j.directory s.file).1, .ok path) := Prod.ext rfl hopen
  rw [setupWith_of_not h, hranks]
  dsimp only
  rw [install_some, logger_withLogger, hdirectory]
  refine ⟨logger_setLogger_self _ _ _, rfl, fun other hne => ?_⟩
  exact (logger_setLogger_of_ne hne _ _).trans
    ((logger_setLogger_of_ne hne _ _).trans (logger_withLogger j _ other))

theorem comes_of_unopened (h : (j.logger (loggerName component)).isSetUp = false)
    (hranks : s.ranks = .ok (consoleRank, some fileRank))
    (hopen : (opening j.directory s.file).2 = .error e) :
    Comes j component (j.setupWith opening component s)
      (s.consoleOnly (j.logger (loggerName component)) (min consoleRank fileRank) consoleRank)
      (.error e) := by
  have hdirectory : opening (j.withLogger (loggerName component)).directory s.file
      = ((opening j.directory s.file).1, .error e) := Prod.ext rfl hopen
  rw [setupWith_of_not h, hranks]
  dsimp only
  rw [install_some, logger_withLogger, hdirectory]
  refine ⟨logger_setLogger_self _ _ _, rfl, fun other hne => ?_⟩
  exact (logger_setLogger_of_ne hne _ _).trans (logger_withLogger j _ other)

/-- A setup changes no other logger. -/
theorem logger_setupWith_of_ne (hne : other ≠ loggerName component) (opening : Opening) (j : Journal)
    (s : Setup) : (j.setupWith opening component s).1.logger other = j.logger other := by
  cases h : (j.logger (loggerName component)).isSetUp with
  | true => exact (comes_of_isSetUp h opening s).others other hne
  | false =>
    cases hranks : s.ranks with
    | error e => exact (comes_of_refused h hranks opening).others other hne
    | ok ranks =>
      obtain ⟨consoleRank, _ | fileRank⟩ := ranks
      · exact (comes_of_no_file h hranks opening).others other hne
      · cases hopen : (opening j.directory s.file).2 with
        | error e => exact (comes_of_unopened h hranks hopen).others other hne
        | ok path => exact (comes_of_opened h hranks hopen).others other hne

/-- A setup fails for one of two reasons. -/
theorem setupWith_eq_error_iff :
    (j.setupWith opening component s).2 = .error e ↔
      (j.logger (loggerName component)).isSetUp = false ∧ (s.ranks = .error e
        ∨ ∃ consoleRank fileRank, s.ranks = .ok (consoleRank, some fileRank)
          ∧ (opening j.directory s.file).2 = .error e) := by
  cases h : (j.logger (loggerName component)).isSetUp with
  | true =>
    rw [(comes_of_isSetUp h opening s).result_eq]
    simp
  | false =>
    rw [and_iff_right rfl]
    cases hranks : s.ranks with
    | error why =>
      rw [(comes_of_refused h hranks opening).result_eq]
      simp
    | ok ranks =>
      obtain ⟨consoleRank, _ | fileRank⟩ := ranks
      · rw [(comes_of_no_file h hranks opening).result_eq]
        simp
      · cases hopen : (opening j.directory s.file).2 with
        | error why =>
          rw [(comes_of_unopened h hranks hopen).result_eq]
          simp
        | ok path =>
          rw [(comes_of_opened h hranks hopen).result_eq]
          simp

/-! ## What happens to a journal -/

/-- Something that happens to a journal. -/
inductive Action where
  | setup (opening : Opening) (component : Text) (s : Setup)
  | log (component : Text) (level : Level) (message : Text) (incident : Option Incident)
  | reset (component : Text)

namespace Action

/-- The journal afterwards. -/
def run : Action → Journal → Journal
  | .setup opening component s, j => (j.setupWith opening component s).1
  | .log component level message incident, j => j.log component level message incident
  | .reset component, j => j.reset component

/-- The component whose logger it may change. -/
def target? : Action → Option Text
  | .setup _ component _ | .reset component => some component
  | .log .. => none

/-- The component whose handlers it takes away. -/
def reset? : Action → Option Text
  | .reset component => some component
  | _ => none

end Action

/-- The journal after several actions. -/
def perform (j : Journal) (actions : List Action) : Journal := actions.foldl (fun j a => a.run j) j

/-- Writing a record changes no logger. -/
theorem loggers_emit (j : Journal) (r : Record) : (j.emit r).loggers = j.loggers := by
  rw [emit_eq_written]

theorem logger_log (j : Journal) (component : Text) (level : Level) (message : Text)
    (incident : Option Incident) (name : Text) :
    (j.log component level message incident).logger name = j.logger name := by
  rw [log, logger, loggers_emit, ← logger, logger_withLogger]

/-- **Step.** An action leaves the loggers of other components alone. -/
theorem logger_run_of_target? {a : Action} (h : a.target? ≠ some component) (j : Journal) :
    (a.run j).logger (loggerName component) = j.logger (loggerName component) := by
  cases a with
  | setup opening c s =>
    refine logger_setupWith_of_ne (fun heq => h ?_) opening j s
    rw [Action.target?, loggerName_inj.mp heq]
  | log => exact logger_log ..
  | reset c =>
    refine logger_setLogger_of_ne (fun heq => h ?_) j _
    rw [Action.target?, loggerName_inj.mp heq]

/-- **Step.** Only a reset changes a logger that has been set up. -/
theorem logger_run_of_reset? {a : Action} (h : a.reset? ≠ some component)
    (hset : (j.logger (loggerName component)).isSetUp = true) :
    (a.run j).logger (loggerName component) = j.logger (loggerName component) := by
  cases a with
  | setup opening c s =>
    by_cases heq : component = c
    · subst heq
      exact (comes_of_isSetUp hset opening s).logger_eq
    · exact logger_setupWith_of_ne (mt loggerName_inj.mp heq) opening j s
  | log => exact logger_log ..
  | reset c =>
    refine logger_setLogger_of_ne (fun heq => h ?_) j _
    rw [Action.reset?, loggerName_inj.mp heq]

/-- **Run.** What every action of a run keeps of a logger, the run keeps. -/
theorem logger_perform {actions : List Action}
    (hstep : ∀ a ∈ actions, ∀ j : Journal, j.logger name = l → (a.run j).logger name = l)
    (hl : j.logger name = l) : (j.perform actions).logger name = l := by
  induction actions generalizing j with
  | nil => exact hl
  | cons a rest ih =>
    refine ih (fun b hb => hstep b (List.mem_cons_of_mem a hb)) ?_
    exact hstep a List.mem_cons_self j hl

/-- **Kept or stuck.** A setup fails only on a logger that has not been set up, if a level is refused or
if the log file cannot be opened, and it changes no other logger. If a level is refused, the logger
stays as it was, and a later setup installs both its handlers. If it is the log file, the logger has
gained a level and a console handler, and it keeps just these until it is reset: every later setup
succeeds without doing anything. -/
theorem setup_kept_or_stuck (opening : Opening) (j : Journal) (component : Text) (s : Setup) :
    (∀ e, (j.setupWith opening component s).2 = .error e ↔
      (j.logger (loggerName component)).isSetUp = false ∧ (s.ranks = .error e
        ∨ ∃ consoleRank fileRank, s.ranks = .ok (consoleRank, some fileRank)
          ∧ (opening j.directory s.file).2 = .error e))
    ∧ (∀ name, name ≠ loggerName component →
      (j.setupWith opening component s).1.logger name = j.logger name)
    ∧ (∀ e, (j.setupWith opening component s).2 = .error e →
      ((j.setupWith opening component s).1.logger (loggerName component)
        = j.logger (loggerName component) ↔ s.ranks = .error e))
    ∧ (∀ e, (j.logger (loggerName component)).isSetUp = false → s.ranks = .error e →
      ∀ actions : List Action, (∀ a ∈ actions, a.target? ≠ some component) →
      ∀ (again : Opening) (t : Setup) consoleRank fileRank path,
      t.ranks = .ok (consoleRank, some fileRank) →
      let later := (j.setupWith opening component s).1.perform actions
      (again later.directory t.file).2 = .ok path →
      (later.setupWith again component t).2 = .ok ()
      ∧ (later.setupWith again component t).1.logger (loggerName component)
        = t.complete (j.logger (loggerName component)) consoleRank fileRank path)
    ∧ (∀ e consoleRank fileRank, (j.logger (loggerName component)).isSetUp = false →
      s.ranks = .ok (consoleRank, some fileRank) → (opening j.directory s.file).2 = .error e →
      ∀ actions : List Action, (∀ a ∈ actions, a.reset? ≠ some component) →
      let later := (j.setupWith opening component s).1.perform actions
      later.logger (loggerName component)
        = s.consoleOnly (j.logger (loggerName component)) (min consoleRank fileRank) consoleRank
      ∧ ∀ (again : Opening) (t : Setup),
        later.setupWith again component t = (later.withLogger (loggerName component), .ok ())) := by
  refine ⟨fun e => setupWith_eq_error_iff, fun name hne => logger_setupWith_of_ne hne opening j s,
    fun e herror => ?_, fun e hbare hranks actions hactions again t consoleRank fileRank path ht => ?_,
    fun e consoleRank fileRank hbare hranks hopen actions hactions => ?_⟩
  · obtain ⟨hbare, hranks | ⟨consoleRank, fileRank, hranks, hopen⟩⟩ :=
      setupWith_eq_error_iff.mp herror
    · exact iff_of_true (comes_of_refused hbare hranks opening).logger_eq hranks
    · -- the console handler is there, and was not
      refine iff_of_false (fun heq => ?_) (by rw [hranks]; exact nofun)
      rw [(comes_of_unopened hbare hranks hopen).logger_eq] at heq
      rw [← heq, s.isSetUp_consoleOnly] at hbare
      cases hbare
  · intro later hopen
    have hkept : later.logger (loggerName component) = j.logger (loggerName component) :=
      logger_perform (fun a ha j' hj' => (logger_run_of_target? (hactions a ha) j').trans hj')
        (comes_of_refused hbare hranks opening).logger_eq
    have hcomes := comes_of_opened (hkept ▸ hbare) ht hopen
    exact ⟨hcomes.result_eq, hcomes.logger_eq.trans (by rw [hkept])⟩
  · intro later
    have hhalf : later.logger (loggerName component)
        = s.consoleOnly (j.logger (loggerName component)) (min consoleRank fileRank) consoleRank := by
      refine logger_perform (fun a ha j' hj' => ?_) (comes_of_unopened hbare hranks hopen).logger_eq
      rw [logger_run_of_reset? (hactions a ha) (hj' ▸ s.isSetUp_consoleOnly ..), hj']
    exact ⟨hhalf, setupWith_of_isSetUp (hhalf ▸ s.isSetUp_consoleOnly ..)⟩

/-- A list in place of the level of the log file, and good settings after a record; then a folder that
cannot be made, and good settings. -/
theorem setup_kept_or_stuck_twice :
    let list : Setup := ⟨.text "a.log".toList, .null, .array [], true⟩
    let good : Setup := ⟨.text "a.log".toList, .null, .null, true⟩
    let broken : Opening := fun d _ => (d, .error .nullInPath)
    let opened : Opening := fun d _ => (d, .ok "a.log".toList)
    let record := [Action.log [] .info "hello".toList none]
    ((((empty.setupWith opened [] list).1.perform record).setupWith opened [] good).1.logger rootName
        = good.complete (empty.logger rootName) Level.info.rank Level.debug.rank "a.log".toList)
      ∧ (((empty.setupWith broken [] good).1.perform record).setupWith opened [] good).1.logger rootName
        = good.consoleOnly (empty.logger rootName) Level.debug.rank Level.info.rank := by
  intro list good broken opened record
  obtain ⟨-, -, -, hkept, -⟩ := setup_kept_or_stuck opened empty [] list
  obtain ⟨-, -, -, -, hstuck⟩ := setup_kept_or_stuck broken empty [] good
  have hrecord : ∀ a ∈ record, a.target? ≠ some [] ∧ a.reset? ≠ some [] := by
    intro a ha
    obtain rfl := List.mem_singleton.mp ha
    exact ⟨nofun, nofun⟩
  refine ⟨(hkept _ rfl rfl record (fun a ha => (hrecord a ha).1) opened good _ _ _ rfl rfl).2, ?_⟩
  obtain ⟨hhalf, hagain⟩ := hstuck _ Level.info.rank Level.debug.rank rfl rfl rfl record
    (fun a ha => (hrecord a ha).2)
  rw [hagain opened good]
  exact (logger_withLogger _ _ _).trans hhalf

/-- A number in place of the log file is refused, and the logger has a level and a handler after that;
with the path of a file in its place there is no file handler. -/
theorem setup_half_made :
    let s := Settings.default.set "logging.file".toList (.number 5)
    let t := s.set "logging.file".toList (.text "a.log".toList)
    let first := empty.setup [] (.ofSettings s)
    let second := first.1.setup [] (.ofSettings t)
    first.2 = .error (.notPath "int".toList)
      ∧ empty.logger rootName = ⟨0, [.null]⟩
      ∧ first.1.logger rootName = ⟨Level.debug.rank, [.null, ⟨.console true, Level.info.rank⟩]⟩
      ∧ second.2 = .ok ()
      ∧ second.1.logger rootName = first.1.logger rootName
      ∧ (empty.setup [] (.ofSettings t)).1.logger rootName
        = ⟨Level.debug.rank, [.null, ⟨.console true, Level.info.rank⟩,
            ⟨.file "a.log".toList, Level.debug.rank⟩]⟩ := by
  intro s t first second
  have hs : Setup.ofSettings s
      = ⟨.number 5, .text Level.info.name, .text Level.debug.name, true⟩ := by rfl
  have ht : Setup.ofSettings t
      = ⟨.text "a.log".toList, .text Level.info.name, .text Level.debug.name, true⟩ := by rfl
  simp only [second, first, hs, ht]
  exact ⟨by rfl, by rfl, by rfl, by rfl, by rfl, by rfl⟩

end Journal

end CssValues
