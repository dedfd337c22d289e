import SimplexMethod.Decimal.Text
import SimplexMethod.Solution

/-!
# SimplexMethod.Report

**Tables, solutions and events in words**, for programs over floating-point numbers.

A row of numbers is written with single blanks in between; the rows of a table are separated by
semicolons, and square brackets stand around a table as around a single row. Zero has no sign in a
row of numbers. A solution is its objective value, its values and its reduced costs on a line each
when it is optimal, otherwise a single word. An event is one or more lines of a log, the boundaries
of phases at a coarser level than the rest; the objective value in a line is written as it is, with
the sign of a zero.
-/

namespace SimplexMethod

/-! ### Rows and tables -/

/-- Numbers with single blanks in between. -/
def rowText (xs : List Float) : String := " ".intercalate (xs.map fun x => numberText (x + 0))

/-- Numbers as a row in brackets. -/
def vectorText (xs : List Float) : String := "[" ++ rowText xs ++ "]"

/-- A table in brackets. -/
def Tableau.text (t : Tableau Float) : String :=
  "[" ++ ";".intercalate (t.toRows.map rowText) ++ "]"

/-! ### Words -/

/-- The number word of a phase. -/
def Phase.word : Phase → String
  | .one => "One"
  | .two => "Two"

/-- The word for the way in which a phase ended. -/
def Outcome.word : Outcome → String
  | .optimal => "Optimal"
  | .unbounded => "Unbounded"
  | .exhausted => "MaxIterationsExceeded"

/-- The word for the way in which a solve ended. -/
def Status.word : Status → String
  | .optimal => "Optimal"
  | .infeasible => "Infeasible"
  | .unbounded => "Unbounded"
  | .exhausted => "MaxIterationsExceeded"

/-! ### Solutions -/

/-- The text of a number or an end of the line. -/
def Extended.text : Extended Float → String
  | .negInfinity => "-inf"
  | .number x => numberText x
  | .infinity => "inf"

/-- The report of a solution. -/
def Solution.text (s : Solution Float) : String :=
  match s.status with
  | .optimal =>
    "optimal value = " ++ s.objectiveValue.text ++ "\n" ++ vectorText s.values ++ "\n" ++
      vectorText s.reducedCosts
  | status => status.word

/-! ### Log lines -/

/-- How much detail a line of the log is. -/
inductive Level where
  /-- The course of a solve. -/
  | debug
  /-- Every step and every table. -/
  | trace
  deriving DecidableEq, Repr

/-- The name of a level. -/
def Level.word : Level → String
  | .debug => "DEBUG"
  | .trace => "TRACE"

/-- A line of the log. -/
structure LogLine where
  level : Level
  text : String
  deriving DecidableEq, Repr

namespace Event

/-- The reduced costs and the equations of a state. -/
def stateLines (s : State Float) : List LogLine :=
  [⟨.trace, "sigma: " ++ vectorText s.reducedCosts⟩, ⟨.trace, "tableau: " ++ s.tableau.text⟩]

/-- The lines of an event. -/
def logLines : Event Float → List LogLine
  | .prepared tableau hasArtificials =>
    let need := if hasArtificials then "required" else "skipped"
    [⟨.debug, s!"standardized {tableau.rows}x{tableau.cols} tableau, phase one {need}"⟩,
      ⟨.trace, "tableau: " ++ tableau.text⟩]
  | .phaseStart phase state => ⟨.debug, s!"phase {phase.word} start"⟩ :: stateLines state
  | .exchange phase entering row state =>
    let value := numberText state.objectiveValue
    let head := s!"phase {phase.word} iteration {state.iterations}: "
    let move := s!"column {entering} enters at row {row}, objective = {value}"
    ⟨.trace, head ++ move⟩ :: stateLines state
  | .phaseEnd phase outcome objectiveValue =>
    let value := numberText objectiveValue
    [⟨.debug, s!"phase {phase.word} finished: {outcome.word}, objective = {value}"⟩]

end Event

end SimplexMethod
