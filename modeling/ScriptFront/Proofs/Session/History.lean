import Mathlib.Data.List.DropRight
import ScriptFront.Session

/-! # Histories of a session

Whatever a session was asked for before, it answers a request as a fresh one does. What it has
from its past is only in its log: the diagnostics since the last reset, and the text of all that
were ever reported.
-/

namespace ScriptFront

namespace Log

@[simp]
theorem reportAll_diagnostics (log : Log) (ds : List Diagnostic) :
    (log.reportAll ds).diagnostics = log.diagnostics ++ ds := by
  induction ds generalizing log with
  | nil => simp [reportAll]
  | cons d ds ih =>
    have h : (log.reportAll (d :: ds)).diagnostics = ((log.report d).reportAll ds).diagnostics := rfl
    rw [h, ih]
    simp [report]

@[simp]
theorem reportAll_echo (log : Log) (ds : List Diagnostic) :
    (log.reportAll ds).echo = log.echo := by
  induction ds generalizing log with
  | nil => rfl
  | cons d ds ih => exact ih (log.report d)

@[simp]
theorem reportAll_written (log : Log) (ds : List Diagnostic) :
    (log.reportAll ds).written = log.written ++ ds.flatMap log.echo.line := by
  induction ds generalizing log with
  | nil => simp [reportAll]
  | cons d ds ih =>
    have h : (log.reportAll (d :: ds)).written = ((log.report d).reportAll ds).written := rfl
    rw [h, ih]
    simp [report]

theorem hadError_iff (log : Log) : log.hadError = true ↔ log.diagnostics ≠ [] := by
  simp [hadError]

end Log

namespace Session

inductive Request where
  | scan (source : Bytes)
  | run (source : Bytes)
  | reset
  deriving DecidableEq

inductive Response where
  | tokens (ts : List Token) (error : Option Bytes)
  | statements (stmts : List Stmt) (error : Option Bytes)
  | nothing

def handle (s : Session) : Request → Response × Session
  | .scan source =>
    let (ts, error, s) := s.scan source
    (.tokens ts error, s)
  | .run source =>
    let (stmts, error, s) := s.run source
    (.statements stmts error, s)
  | .reset => (.nothing, s.reset)

def handleAll (s : Session) : List Request → List Response × Session
  | [] => ([], s)
  | request :: requests =>
    let (response, s) := s.handle request
    let (responses, s) := s.handleAll requests
    (response :: responses, s)

def fresh (echo : Echo) : Session := ⟨{ echo }⟩

/-- The diagnostics of a request by itself. -/
def Request.diagnostics (request : Request) : List Diagnostic :=
  ((fresh .silent).handle request).2.log.diagnostics

/-- What has happened since the last reset. -/
def sinceReset (requests : List Request) : List Request := requests.rtakeWhile (· != .reset)

/-! ### One request -/

/-- The error of a request is about its own diagnostics, however many came before them. -/
theorem errorSince_reportAll (heading : String) (log : Log) (ds : List Diagnostic) :
    errorSince heading log.diagnostics.length (log.reportAll ds) =
      (Diagnostic.summary? ds).map (text heading ++ text ":\n" ++ ·) := by
  have h : (log.reportAll ds).diagnostics.drop log.diagnostics.length = ds := by
    rw [Log.reportAll_diagnostics, List.drop_left]
  rw [errorSince, h]

theorem scan_eq (s : Session) (source : Bytes) :
    s.scan source =
      ((ScriptFront.scan source).tokens,
        (Diagnostic.summary? (ScriptFront.scan source).diagnostics).map
          (text "lex" ++ text ":\n" ++ ·),
        ⟨s.log.reportAll (ScriptFront.scan source).diagnostics⟩) := by
  rw [scan, errorSince_reportAll]

theorem run_eq (s : Session) (source : Bytes) :
    s.run source =
      ((readProgram source).stmts,
        (Diagnostic.summary? (readProgram source).diagnostics).map
          (text "parse" ++ text ":\n" ++ ·),
        ⟨s.log.reportAll (readProgram source).diagnostics⟩) := by
  rw [run, errorSince_reportAll]

@[simp]
theorem diagnostics_scan (source : Bytes) :
    (Request.scan source).diagnostics = (ScriptFront.scan source).diagnostics := by
  simp [Request.diagnostics, handle, scan_eq, fresh]

@[simp]
theorem diagnostics_run (source : Bytes) :
    (Request.run source).diagnostics = (readProgram source).diagnostics := by
  simp [Request.diagnostics, handle, run_eq, fresh]

@[simp]
theorem diagnostics_reset : Request.reset.diagnostics = [] := by
  simp [Request.diagnostics, handle, reset, Log.reset]

/-- The response to a request does not depend on the session. -/
theorem response_eq (s s' : Session) (request : Request) :
    (s.handle request).1 = (s'.handle request).1 := by
  cases request with
  | scan source => simp only [handle, scan_eq]
  | run source => simp only [handle, run_eq]
  | reset => rfl

theorem handle_diagnostics (s : Session) (request : Request) :
    (s.handle request).2.log.diagnostics =
      if request = .reset then [] else s.log.diagnostics ++ request.diagnostics := by
  cases request with
  | scan source => simp [handle, scan_eq]
  | run source => simp [handle, run_eq]
  | reset => simp [handle, reset, Log.reset]

/-- Nothing that was written is taken back. -/
theorem handle_written (s : Session) (request : Request) :
    (s.handle request).2.log.written =
      s.log.written ++ request.diagnostics.flatMap s.log.echo.line := by
  cases request with
  | scan source => simp [handle, scan_eq]
  | run source => simp [handle, run_eq]
  | reset => simp [handle, reset, Log.reset]

theorem handle_echo (s : Session) (request : Request) :
    (s.handle request).2.log.echo = s.log.echo := by
  cases request with
  | scan source => simp [handle, scan_eq]
  | run source => simp [handle, run_eq]
  | reset => rfl

/-! ### Many requests -/

theorem handleAll_cons (s : Session) (request : Request) (requests : List Request) :
    s.handleAll (request :: requests) =
      ((s.handle request).1 :: ((s.handle request).2.handleAll requests).1,
        ((s.handle request).2.handleAll requests).2) := rfl

theorem handleAll_concat (s : Session) (requests : List Request) (request : Request) :
    s.handleAll (requests ++ [request]) =
      ((s.handleAll requests).1 ++ [((s.handleAll requests).2.handle request).1],
        ((s.handleAll requests).2.handle request).2) := by
  induction requests generalizing s with
  | nil => rfl
  | cons first requests ih =>
    rw [List.cons_append, handleAll_cons, ih, handleAll_cons, List.cons_append]

theorem handleAll_responses (s s' : Session) (requests : List Request) :
    (s.handleAll requests).1 = requests.map fun request => (s'.handle request).1 := by
  induction requests generalizing s with
  | nil => rfl
  | cons request requests ih =>
    rw [handleAll_cons, ih, response_eq s s' request, List.map_cons]

theorem handleAll_written (s : Session) (requests : List Request) :
    (s.handleAll requests).2.log.written =
      s.log.written ++ (requests.flatMap Request.diagnostics).flatMap s.log.echo.line := by
  induction requests generalizing s with
  | nil => simp [handleAll]
  | cons request requests ih =>
    rw [handleAll_cons, ih, handle_echo, handle_written]
    simp

/-- The log of a session that began with an empty one. The induction takes requests off at the
end, where a reset decides. -/
theorem handleAll_diagnostics (echo : Echo) (requests : List Request) :
    ((fresh echo).handleAll requests).2.log.diagnostics =
      (sinceReset requests).flatMap Request.diagnostics := by
  induction requests using List.reverseRecOn with
  | nil => simp [handleAll, fresh, sinceReset]
  | append_singleton requests request ih =>
    rw [handleAll_concat, handle_diagnostics, ih]
    by_cases hr : request = .reset
    · rw [if_pos hr, sinceReset, List.rtakeWhile_concat_neg _ _ _ (by simp [hr]), List.flatMap_nil]
    · rw [if_neg hr, sinceReset, sinceReset, List.rtakeWhile_concat_pos _ _ _ (by simp [hr]),
        List.flatMap_append, List.flatMap_singleton]

/-- Scanning comes first, and all else that running a source reports is the parser's. -/
theorem run_after_scan (s : Session) (source : Bytes) :
    ∃ ts scanError runError, (s.handle (.scan source)).1 = .tokens ts scanError ∧
      (s.handle (.run source)).1 = .statements (Cursor.ofTokens ts).parse.result runError ∧
      (Request.run source).diagnostics =
        (Request.scan source).diagnostics ++ (Cursor.ofTokens ts).parse.diagnostics := by
  refine ⟨(ScriptFront.scan source).tokens, _, _, rfl, rfl, ?_⟩
  rw [diagnostics_run, diagnostics_scan]
  rfl

/-- A session has no memory but its log. Each response is that of a fresh session. The log holds
the diagnostics of the requests since the last reset, and of running a source those of scanning
it come first. What was written are all diagnostics ever reported, each on a line. -/
theorem handleAll_eq_fresh (echo echo' : Echo) (requests : List Request) :
    let history := (fresh echo).handleAll requests
    history.1 = requests.map (fun request => ((fresh echo').handle request).1) ∧
      history.2.log.diagnostics = (sinceReset requests).flatMap Request.diagnostics ∧
      (history.2.log.hadError = true ↔ history.2.log.diagnostics ≠ []) ∧
      (∀ source, ∃ ts scanError runError,
        ((fresh echo').handle (.scan source)).1 = .tokens ts scanError ∧
          ((fresh echo').handle (.run source)).1 =
            .statements (Cursor.ofTokens ts).parse.result runError ∧
          (Request.run source).diagnostics =
            (Request.scan source).diagnostics ++ (Cursor.ofTokens ts).parse.diagnostics) ∧
      ((fresh .plain).handleAll requests).2.log.written =
        (requests.flatMap Request.diagnostics).flatMap
          fun d => text "Error: " ++ d.render ++ [Bytes.newline] := by
  intro history
  refine ⟨handleAll_responses _ _ requests, handleAll_diagnostics echo requests,
    Log.hadError_iff _, run_after_scan (fresh echo'), ?_⟩
  rw [handleAll_written]
  rfl

end Session

end ScriptFront
