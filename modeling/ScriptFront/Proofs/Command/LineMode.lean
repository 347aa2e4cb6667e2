import ScriptFront.Command.Run
import ScriptFront.Proofs.Recovery.Source
import ScriptFront.Proofs.Session.History

/-! # Lines and files

A line that is given at the prompt is treated as a file that holds only this line, whatever came
before it. If nothing is reported of any line, all lines together are treated as the file that
they make up.
-/

namespace ScriptFront

/-! ### Sinks that take everything -/

namespace Sink

variable {sink : Sink}

theorem write_of_unbounded (h : sink.capacity = none) (b : Bytes) :
    sink.write b = (none, { sink with written := sink.written ++ b }) := by
  simp [write, accepts, h]

theorem writeLines_of_unbounded (h : sink.capacity = none) (parts : List Bytes) :
    sink.writeLines parts = (none, { sink with written := sink.written ++ Bytes.lines parts }) := by
  induction parts generalizing sink with
  | nil => simp [writeLines, Bytes.lines]
  | cons part parts ih =>
    let next : Sink := { sink with written := sink.written ++ (part ++ [Bytes.newline]) }
    have hrest : next.writeLines parts = _ := ih h
    simp [writeLines, write_of_unbounded h, hrest, next, Bytes.lines]

end Sink

/-- The text that a format has for a program. -/
def Format.programText : Format → List Stmt → Bytes
  | .sexpr, stmts => Bytes.lines (stmts.map Stmt.render)
  | .yaml, stmts => Yaml.document (stmts.map Stmt.outline)

theorem Format.writeProgram_of_unbounded {sink : Sink} (h : sink.capacity = none) (format : Format)
    (stmts : List Stmt) :
    format.writeProgram stmts sink =
      (none, { sink with written := sink.written ++ format.programText stmts }) := by
  cases format with
  | sexpr => exact Sink.writeLines_of_unbounded h _
  | yaml => simp [writeProgram, writeDocument, Sink.write_of_unbounded h, programText]

/-! ### Files -/

namespace Command

variable {s : Settings} {files : Files} {path source : Bytes}

/-- What the program does with a file, when all that it writes is taken. -/
def parseFile (s : Settings) (files : Files) (path : Bytes) : Ending × Written :=
  withFile path (parseSource s) { sink := {}, files }

theorem parseFile_eq (h : files.read path = .ok source) :
    parseFile s files path =
      (ending none ((Diagnostic.summary? (readProgram source).diagnostics).map
          (text "parse" ++ text ":\n" ++ ·)),
        { sink := { written := s.format.programText (readProgram source).stmts }
          errors := (readProgram source).diagnostics.flatMap s.echo.line
          files }) := by
  simp [parseFile, withFile, h, parseSource, Session.run_eq, Settings.session,
    Format.writeProgram_of_unbounded]

end Command

/-! ### Lines -/

namespace Repl

variable {format : Format} {s : State} {prompt line : Bytes}

/-- What a line leaves of a state: its sink still takes everything, and what the line gives by
itself was added to the output, after the prompt, and to the errors. -/
structure Follows (format : Format) (prompt line : Bytes) (s next : State) : Prop where
  capacity : next.sink.capacity = none
  written : next.sink.written =
    s.sink.written ++ (prompt ++ format.programText (readProgram line).stmts)
  echo : next.session.log.echo = s.session.log.echo
  echoed : next.session.log.written =
    s.session.log.written ++ (readProgram line).diagnostics.flatMap s.session.log.echo.line

theorem step_follows (h : s.sink.capacity = none) :
    ∃ next, step format (showPrompt prompt s) line = (none, next) ∧
      Follows format prompt line s next := by
  have hprompt : s.sink.write prompt = _ := Sink.write_of_unbounded h prompt
  let shown : Sink := { s.sink with written := s.sink.written ++ prompt }
  have hshown : shown.capacity = none := h
  have hwrite (stmts : List Stmt) : format.writeProgram stmts shown = _ :=
    Format.writeProgram_of_unbounded hshown format stmts
  simp only [step, showPrompt, hprompt, Session.run_eq, hwrite, shown]
  refine ⟨_, rfl, h, List.append_assoc _ _ _, ?_, ?_⟩
  · simp [Session.reset, Log.reset]
  · simp [Session.reset, Log.reset]

theorem run_written (h : s.sink.capacity = none) (lines : List Bytes) :
    let after := run format prompt s lines
    after.1 = none ∧
      after.2.sink.written = s.sink.written ++
        (lines.flatMap (fun line => prompt ++ format.programText (readProgram line).stmts) ++
          prompt) ∧
      after.2.session.log.written = s.session.log.written ++ lines.flatMap fun line =>
        (readProgram line).diagnostics.flatMap s.session.log.echo.line := by
  induction lines generalizing s with
  | nil => simp [run, showPrompt, Sink.write_of_unbounded h]
  | cons line lines ih =>
    obtain ⟨next, hstep, hnext⟩ : ∃ next, step format (showPrompt prompt s) line = (none, next) ∧
        Follows format prompt line s next := step_follows h
    obtain ⟨herror, hwritten, hechoed⟩ := ih hnext.capacity
    simp only [run, hstep]
    refine ⟨herror, ?_, ?_⟩
    · rw [hwritten, hnext.written]
      simp
    · rw [hechoed, hnext.echo, hnext.echoed]
      simp

end Repl

namespace Command

/-- Lines of which nothing is reported have the text of the file that they make up. -/
theorem flatMap_programText {lines : List Bytes}
    (h : ∀ line ∈ lines, (readProgram line).diagnostics = []) :
    lines.flatMap (fun line => Format.sexpr.programText (readProgram line).stmts) =
      Format.sexpr.programText (readProgram (Bytes.join [Bytes.newline] lines)).stmts := by
  simp only [Format.programText, Bytes.lines, (readProgram_join h).2, List.flatMap_assoc]

/-- Reading lines and reading files agree. Whatever errors the lines before it had, each line adds
to the output and to the errors what a file does that holds just this line. If nothing is reported
of any line, all of them give, statement by statement, what the file does that they make up, and
nothing is reported of this file. -/
theorem run_lines_eq_parseFile (s : Settings) (prompt : Bytes) (history lines : List Bytes)
    {files : Bytes → Files} {path : Bytes}
    (hfiles : ∀ source, (files source).read path = .ok source) :
    let file source := parseFile s (files source) path
    let read prompt := Repl.run s.format prompt ⟨s.session, {}, history⟩ lines
    ((read prompt).1 = none ∧
      (read prompt).2.sink.written =
        lines.flatMap (fun line => prompt ++ (file line).2.sink.written) ++ prompt ∧
      (read prompt).2.session.log.written = lines.flatMap fun line => (file line).2.errors) ∧
    (s.format = .sexpr → (∀ line ∈ lines, (readProgram line).diagnostics = []) →
      let whole := Bytes.join [Bytes.newline] lines
      (read []).2.sink.written = (file whole).2.sink.written ∧
        (readProgram whole).diagnostics = [] ∧
        (file whole).1 = none ∧ (file whole).2.errors = []) := by
  intro file read
  have hfile (source : Bytes) : file source = _ := parseFile_eq (hfiles source)
  have hread (prompt : Bytes) : (read prompt).1 = none ∧ (read prompt).2.sink.written =
        lines.flatMap (fun line => prompt ++ s.format.programText (readProgram line).stmts) ++
          prompt ∧
      (read prompt).2.session.log.written =
        lines.flatMap fun line => (readProgram line).diagnostics.flatMap s.echo.line :=
    Repl.run_written rfl lines
  constructor
  · simpa only [hfile] using hread prompt
  · intro hformat hclean whole
    have hwhole : (readProgram whole).diagnostics = [] := (readProgram_join hclean).1
    refine ⟨?_, hwhole, ?_, ?_⟩
    · rw [(hread []).2.1, hfile, hformat]
      simpa using flatMap_programText hclean
    · simp [hfile, hwhole, Diagnostic.summary?, ending]
    · simp [hfile, hwhole]

/-- A comment that ends within a character, an empty line and lines that an `else` could follow are
read as the file that they make up. -/
theorem run_lines_eq_parseFile_comment :
    let s : Settings := { config := {}, format := .sexpr, echo := .plain }
    let files (source : Bytes) : Files := { entries := [([text "a"], .file source)] }
    let lines := [text "// \"" ++ [0xC3], [], text "if (a) print \"\";", text "b = 1;"]
    let whole := parseFile s (files (Bytes.join [Bytes.newline] lines)) (text "/a")
    (∀ source, (files source).read (text "/a") = .ok source) ∧
      (∀ line ∈ lines, (readProgram line).diagnostics = []) ∧
      (Repl.run .sexpr [] ⟨s.session, {}, []⟩ lines).2.sink.written = whole.2.sink.written ∧
      whole.1 = none ∧ whole.2.errors = [] := by
  intro s files lines whole
  have hfiles (source : Bytes) : (files source).read (text "/a") = .ok source := rfl
  have hclean : ∀ line ∈ lines, (readProgram line).diagnostics = [] := by decide
  obtain ⟨-, hlines⟩ := run_lines_eq_parseFile s [] [] lines hfiles
  obtain ⟨hwritten, -, hending, herrors⟩ := hlines rfl hclean
  exact ⟨hfiles, hclean, hwritten, hending, herrors⟩

end Command

end ScriptFront
