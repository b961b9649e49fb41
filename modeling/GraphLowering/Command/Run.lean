import GraphLowering.Command.Sample
import GraphLowering.Graph.Dump
import GraphLowering.Lowering.Replace

/-!
# Running the command line

`Command.run` builds the sample graph of a request, lowers its node and gives the dump of the
lowered graph. It only says what is to be written; `Outcome.finish` is the result once it is known
whether the file of the dump could be written.
-/

namespace GraphLowering.Command

/-- What comes of a command line, before anything is written. -/
inductive Outcome where
  /-- The arguments are not accepted. -/
  | rejected
  | version
  | help
  /-- The computation ended in a fault. -/
  | fault
  /-- A text for the standard error, and why there is no dump, the outermost reason first. -/
  | failed (stderr : String) (causes : List String)
  /-- A text for the standard error, the dump, and the file it goes to, if not the standard output. -/
  | dumped (stderr : String) (dump : String) (file : Option String)
deriving DecidableEq

structure Result where
  exitCode : Nat
  stdout : String
  stderr : String
  causes : List String
deriving DecidableEq

def lowerSample (args : GlobalArguments) (s : Sample) : Outcome :=
  let echo := if args.emitInput then s.graph.dump ++ "\n" else ""
  let options : Options := ⟨args.denyGrouped, ¬ args.skipVerification⟩
  if ¬ s.graph.printable then .fault
  else
    match Edit.lowerNode s.node options ⟨s.graph, []⟩ with
    | .error (.rejected e) _ => .failed echo ["lowering failed", e.message]
    | .error (.fault _) _ => .fault
    | .ok lowered session =>
      if ¬ session.graph.printable then .fault
      else
        let warnings := String.join (lowered.diagnostics.map fun d => d.text ++ "\n")
        .dumped (echo ++ warnings) session.graph.dump args.output

/-- Builds the graph of a description, lowers its node and dumps the graph. -/
def execute (args : Arguments) : Outcome :=
  match sample args.node with
  | .error (.refused complaint) => .failed "" ["invalid node description", complaint.message]
  | .error (.fault _) => .fault
  | .ok s => lowerSample args.globals s

def run (args : List String) : Outcome :=
  match request? args with
  | none => .rejected
  | some .version => .version
  | some .help => .help
  | some (.lower args) => execute args

def versionText : String := "tflc-cli 0.1.0\n"

def helpText : String :=
  "Usage: [OPTIONS] <conv|deconv|batch-norm> [OPTIONS]\n"

namespace Outcome

/-- The result, given why the file of the dump could not be written, if so. -/
def finish (outcome : Outcome) (writeError : Option String) : Result :=
  match outcome with
  | rejected => ⟨2, "", "", []⟩
  | version => ⟨0, versionText, "", []⟩
  | help => ⟨0, helpText, "", []⟩
  | fault => ⟨101, "", "", []⟩
  | failed stderr causes => ⟨1, "", stderr, causes⟩
  | dumped stderr dump none => ⟨0, dump, stderr, []⟩
  | dumped stderr _ (some file) =>
    match writeError with
    | none => ⟨0, "", stderr, []⟩
    | some cause => ⟨1, "", stderr, ["failed to write " ++ file, cause]⟩

end Outcome

end GraphLowering.Command
