import EthosU.InferenceRunner.InterpreterRunner
import EthosU.InferenceRunner.WaitLoop

/-!
# The inference runner from its command line on

`main` of `utils/inference_runner/inference_runner.cpp`.

* `lex` reads the command line, as that of the interpreter runner does.  It knows other options, and
  converts numbers in the same way.
* `Variables` are what the options are stored in (`Variables.set`): those that are needed until all
  inferences have been submitted, and those that are needed while it waits for them.
* `run` is the `try` block: everything is submitted and waited for, and then the destructors run.
* `main` returns 1 if the driver library has thrown an exception.
-/

set_option autoImplicit false

namespace EthosU

open Wp

namespace InferenceRunner

open InterpreterRunner (stoi stoll toUnsigned)

/-! ## Options -/

/-- The options, with what the command line says for them. -/
inductive Item
  | network (file : String)
  | index (networkIndex : Int)
  | ifm (file : String)
  | ofm (file : String)
  | dev (device : String)
  | lbl (file : String)
  | timeout (nanos : Int)
  | pmu (counter event : Int)
  | cycles
  | print
  deriving DecidableEq, Repr

/-- The variables of `main`. -/
structure Variables where
  options : Options
  waiting : Waiting

/-- What they are before the first option.  `opens` are the output files that can be opened. -/
def Variables.start (opens : String → Bool) : Variables where
  options := { networkArg := "", ifmArg := [] }
  waiting := { ofmArg := "", opens := opens }

/-- What an option does to the variables.  An event is an `unsigned` that becomes a `uint8_t`. -/
def Variables.set (v : Variables) : Item → Variables
  | .network file => { v with options.networkArg := file }
  | .index networkIndex => { v with options.networkIndex := .ofInt networkIndex }
  | .ifm file => { v with options.ifmArg := v.options.ifmArg ++ [file] }
  | .ofm file => { v with waiting.ofmArg := file }
  | .dev device => { v with options.devArg := device }
  | .lbl file => { v with options.lblArg := file }
  | .timeout nanos => { v with waiting.timeout := .ofInt nanos }
  | .pmu counter event =>
    { v with
      options.enabledCounters :=
        v.options.enabledCounters.set (toUnsigned counter).toNat (toUnsigned event).toUInt8 }
  | .cycles => { v with options.enableCycleCounter := true }
  | .print => { v with waiting.print := true }

/-- The options of a command line, or how the program ends when it can not make sense of it. -/
def lex : List String → Except Exception (List Item)
  | [] => .ok []
  | arg :: rest =>
    if arg = "-h" ∨ arg = "--help" then .error (.exit 1)
    else if arg = "--network" ∨ arg = "-n" then
      match rest with
      | [] => .error (.exit 1)
      | value :: rest => do return .network value :: (← lex rest)
    else if arg = "--index" then
      match rest with
      | [] => .error (.exit 1)
      | value :: rest => do
        let networkIndex ← stoi value
        return .index networkIndex :: (← lex rest)
    else if arg = "--ifm" ∨ arg = "-i" then
      match rest with
      | [] => .error (.exit 1)
      | value :: rest => do return .ifm value :: (← lex rest)
    else if arg = "--ofm" ∨ arg = "-o" then
      match rest with
      | [] => .error (.exit 1)
      | value :: rest => do return .ofm value :: (← lex rest)
    else if arg = "--dev" ∨ arg = "-d" then
      match rest with
      | [] => .error (.exit 1)
      | value :: rest => do return .dev value :: (← lex rest)
    else if arg = "--lbl" ∨ arg = "-l" then
      match rest with
      | [] => .error (.exit 1)
      | value :: rest => do return .lbl value :: (← lex rest)
    else if arg = "--timeout" ∨ arg = "-t" then
      match rest with
      | [] => .error (.exit 1)
      | value :: rest => do
        let timeout ← stoll value
        return .timeout timeout :: (← lex rest)
    else if arg = "--pmu" ∨ arg = "-P" then
      match rest with
      | [] => .error (.exit 1)
      | counter :: rest => do
        let pmu ← stoi counter
        match rest with
        | [] => .error (.exit 1)
        | value :: rest =>
          let event ← stoi value
          -- a negative counter is a large one
          if (toUnsigned pmu).toNat ≥ ethosuPmuEventMax then .error (.exit 1)
          else return .pmu pmu event :: (← lex rest)
    else if arg = "--cycles" ∨ arg = "-C" then do return .cycles :: (← lex rest)
    else if arg = "-p" then do return .print :: (← lex rest)
    else .error (.exit 1)

/-! ## The program -/

/-- The variables a command line amounts to, if `main` goes on with them. -/
def accept (opens : String → Bool) (argv : List String) : Except Exception Variables := do
  let items ← lex argv
  let v := items.foldl Variables.set (Variables.start opens)
  if v.options.networkArg.isEmpty then .error (.exit 1)
  else if v.options.ifmArg.isEmpty then .error (.exit 1)
  else if v.waiting.ofmArg.isEmpty then .error (.exit 1)
  else return v

variable (env : Env)

/-- The destructors at the end of the `try` block. -/
def destroyAll (device : Device) (network : Shared Network) (inferences : List (Shared Inference)) :
    M Unit :=
  destroyBoth (inferences.forM (Inference.release env))
    (destroyBoth (Inference.releaseNetwork env network) (device.destroy env))

/-- The `try` block, and the labels file that is read before it. -/
def run (v : Variables) : M Unit := do
  let (device, network, inferences) ← submit env v.options
  unwinding (destroyAll env device network inferences)
    (waitLoop env v.options v.waiting network.obj inferences 0)
  destroyAll env device network inferences

/-- The program, in a directory in which `opens` are the output files that can be opened.

Nothing catches a nested exception.  C++ leaves it open whether the objects are destroyed before the
program terminates then, and here they are; otherwise the run ends where the exception is thrown. -/
def main (opens : String → Bool) (argv : List String) : M Int32 :=
  match accept opens argv with
  | .error e => throw e
  | .ok v =>
    tryCatch (do run env v; return 0) fun e ↦
      match e with
      | .error _ => return 1
      | e => throw e

end InferenceRunner

end EthosU
