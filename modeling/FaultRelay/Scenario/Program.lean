import FaultRelay.Scenario.Run
import FaultRelay.Scenario.Weight

/-! Whole programs and their answers. -/
namespace FaultRelay.Scenario

structure Surroundings where
  tracing : Bool
  /-- For a process without settings, its environment variable. -/
  fresh : Option (Option (List UInt8))

structure Program where
  body : List Line
  probing : Bool
  surroundings : Surroundings

/-- Runs a block whose stored callbacks may call each other `depth` deep. A guard that is kept was
made by an execution of its own, so the weight of the program is depth enough. -/
def runDeep (budget : Nat) : Nat → List Line → Step Flow
  | 0 => runBlock budget fun _ => return .ok .null
  | depth + 1 => runBlock budget (runDeep budget depth)

namespace Surroundings

def process (surroundings : Surroundings) : Process :=
  match surroundings.fresh with
  | none => ⟨0, some .default, none⟩
  | some environment => ⟨0, none, environment⟩

def start (surroundings : Surroundings) (probing : Bool) : World application Journal :=
  ⟨surroundings.process, .fresh application, .start surroundings.tracing probing⟩

end Surroundings

def writeResult : Except (Thrown application) Flow → Datum
  | .ok flow => writeFlow flow
  | .error object => .record [("unwound", writeThrown object)]

def logField (journal : Journal) : List (String × Datum) :=
  if journal.entries.isEmpty then [] else [("log", .list journal.entries.reverse)]

/-- The fields beside the log, or in their place the thrown object that nothing caught. -/
def answerOf (ended : Except (Exit application) (List (String × Datum))) (journal : Journal) :
    Datum :=
  let logged (fields : List (String × Datum)) : Datum :=
    .record ((fields ++ logField journal).mergeSort fun a b => decide (a.1 ≤ b.1))
  match ended with
  | .ok fields => logged fields
  | .error (.unwinding object) => logged [("unwound", writeThrown object)]
  | .error .aborted => .record [("aborted", .bool true)]

def answerWith (start : World application Journal) (act : Step (List (String × Datum))) : Datum :=
  let (ended, world) := act start
  answerOf ended world.host

namespace Program

def steps (program : Program) : Step (List (String × Datum)) := do
  let budget := blockWeight program.body
  let ended ← (runDeep budget budget program.body).attempt
  dropLeftovers (runDeep budget budget) budget
  quietly dropParcels
  let state ← quietly writeState
  quietly closeMade
  return [("end", state), ("result", writeResult ended)]

def answer (program : Program) : Datum :=
  answerWith (program.surroundings.start program.probing) program.steps

end Program

end FaultRelay.Scenario
