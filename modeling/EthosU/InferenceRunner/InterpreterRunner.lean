import EthosU.DriverLibrary.Interpreter
import EthosU.InferenceRunner.PrePostProcessing

/-!
# The interpreter runner

`utils/inference_runner/interpreter_runner.cpp`: an `Interpreter` is constructed from what the
command line says, its first input is filled from a file, and it is invoked once.

* `lex` reads the command line.  `main` reads it in a loop over `argv`, in which an option takes
  what follows it, converts it and stores it in a variable; here the options that were read and what
  they do to the variables (`Options.set`) are kept apart.
* `stoi` and `stoll` are those of the standard library.  What they throw is thrown outside of the
  `try` block of `main`.
* `main` is modelled up to the return of `Invoke`; what follows looks at the output tensors and
  prints, which is `InterpreterRunner.postProcess`.
-/

set_option autoImplicit false

namespace EthosU

open Wp

namespace InterpreterRunner

/-! ## Numbers -/

/-- `isspace`. -/
def isSpace (c : Char) : Bool := c = ' ' || ('\t' ≤ c && c ≤ '\r')

/-- The value of a sequence of decimal digits. -/
def ofDigits (digits : List Char) : Nat :=
  digits.foldl (fun n c ↦ 10 * n + (c.toNat - '0'.toNat)) 0

/-- The digits a text starts with. -/
def leadingDigits (cs : List Char) : List Char := cs.takeWhile Char.isDigit

/-- `strtol`, in base ten and without a limit: white space, a sign and digits, and nothing if there
are no digits.  What follows the digits does not matter. -/
def strtol (s : String) : Option Int :=
  let unsigned := fun cs ↦
    if leadingDigits cs = [] then none else some (ofDigits (leadingDigits cs) : Int)
  match s.toList.dropWhile isSpace with
  | '-' :: cs => (unsigned cs).map (- ·)
  | '+' :: cs => unsigned cs
  | cs => unsigned cs

/-- `std::invalid_argument` and `std::out_of_range`, which nobody catches. -/
def checkedInt (lower upper : Int) (s : String) : Except Exception Int :=
  match strtol s with
  | none => .error .terminate
  | some n => if lower ≤ n ∧ n ≤ upper then .ok n else .error .terminate

def stoi (s : String) : Except Exception Int := checkedInt (-2 ^ 31) (2 ^ 31 - 1) s

def stoll (s : String) : Except Exception Int := checkedInt (-2 ^ 63) (2 ^ 63 - 1) s

/-! ## Options -/

/-- The options, with what the command line says for them. -/
inductive Item
  | network (file : String)
  | ifm (file : String)
  | lbl (file : String)
  | dev (device : String)
  | timeout (nanos : Int)
  | arena (sizeOfMB : Int)
  | pmu (counter event : Int)
  | cycles
  | print
  deriving DecidableEq, Repr

/-- The variables of `main`. -/
structure Options where
  networkArg : String := ""
  ifmArg : List String := []
  enabledCounters : List UInt8 := List.replicate ethosuPmuEventMax 0
  devArg : String := "/dev/ethosu0"
  lblArg : String := "labels.txt"
  timeout : Int64 := 60000000000
  print : Bool := false
  enableCycleCounter : Bool := false
  arenaSizeOfMB : Int64 := 16

/-- An `int` that becomes an `unsigned`. -/
def toUnsigned (n : Int) : UInt32 := (Int32.ofInt n).toUInt32

/-- What an option does to the variables.  An event is an `unsigned` that becomes a `uint8_t`. -/
def Options.set (o : Options) : Item → Options
  | .network file => { o with networkArg := file }
  | .ifm file => { o with ifmArg := o.ifmArg ++ [file] }
  | .lbl file => { o with lblArg := file }
  | .dev device => { o with devArg := device }
  | .timeout nanos => { o with timeout := .ofInt nanos }
  | .arena sizeOfMB => { o with arenaSizeOfMB := .ofInt sizeOfMB }
  | .pmu counter event =>
    { o with
      enabledCounters :=
        o.enabledCounters.set (toUnsigned counter).toNat (toUnsigned event).toUInt8 }
  | .cycles => { o with enableCycleCounter := true }
  | .print => { o with print := true }

/-- The options of a command line, or how the program ends when it can not make sense of it. -/
def lex : List String → Except Exception (List Item)
  | [] => .ok []
  | arg :: rest =>
    if arg = "-h" ∨ arg = "--help" then .error (.exit 1)
    else if arg = "--network" ∨ arg = "-n" then
      match rest with
      | [] => .error (.exit 1)
      | value :: rest => do return .network value :: (← lex rest)
    else if arg = "--ifm" ∨ arg = "-i" then
      match rest with
      | [] => .error (.exit 1)
      | value :: rest => do return .ifm value :: (← lex rest)
    else if arg = "--lbl" ∨ arg = "-l" then
      match rest with
      | [] => .error (.exit 1)
      | value :: rest => do return .lbl value :: (← lex rest)
    else if arg = "--dev" ∨ arg = "-d" then
      match rest with
      | [] => .error (.exit 1)
      | value :: rest => do return .dev value :: (← lex rest)
    else if arg = "--timeout" ∨ arg = "-t" then
      match rest with
      | [] => .error (.exit 1)
      | value :: rest => do
        let timeout ← stoll value
        return .timeout timeout :: (← lex rest)
    else if arg = "--arena" ∨ arg = "-a" then
      match rest with
      | [] => .error (.exit 1)
      | value :: rest => do
        let arenaSizeOfMB ← stoll value
        return .arena arenaSizeOfMB :: (← lex rest)
    else if arg = "--pmu" ∨ arg = "-P" then
      match rest with
      | [] => .error (.exit 1)
      | counter :: rest => do
        let pmu ← stoi counter
        match rest with
        | [] => .error (.exit 1)
        | value :: rest =>
          let event ← stoi value
          -- a negative counter is a large one
          if (toUnsigned pmu).toNat ≥ ethosuPmuEventMax then .error (.exit 1)
          else return .pmu pmu event :: (← lex rest)
    else if arg = "--cycles" ∨ arg = "-C" then do return .cycles :: (← lex rest)
    else if arg = "-p" then do return .print :: (← lex rest)
    else .error (.exit 1)

/-! ## The program -/

variable (env : Env)

/-- What is done with the interpreter, up to the return of `Invoke`.  The result of
`getInputFromFile` is dropped, and `Invoke` is called without an argument. -/
def use (o : Options) : Method Unit := do
  Interpreter.setPmuCycleCounters o.enabledCounters o.enableCycleCounter
  match ← Interpreter.getInputInfo with
  | [] => throw .crash
  | inputInfo :: _ =>
    match ElementType.ofTensorType inputInfo.type with
    | some t =>
      let data ← Interpreter.typedInputBuffer env 0
      let _ ← onProc (getInputFromFile env t (o.ifmArg.headD "") data inputInfo.shape)
    | none => throw (.exit 1)
  Interpreter.invoke env Interpreter.defaultTimeoutNanos

/-- The `try` block.  The interpreter belongs to a `std::unique_ptr`. -/
def run (o : Options) : M Unit := do
  let interpreter ← Interpreter.new env o.networkArg o.devArg o.arenaSizeOfMB
  let used ← onObject interpreter
    (unwinding (do onProc ((← get).this.destroy env)) (use env o))
  noexcept (used.2.destroy env)

/-- The options a command line amounts to, if `main` gets as far as the `try` block with them. -/
def accept (argv : List String) : Except Exception Options := do
  let items ← lex argv
  let o := items.foldl Options.set {}
  if o.networkArg.isEmpty then .error (.exit 1)
  else if o.ifmArg.isEmpty then .error (.exit 1)
  else if !(env.files o.lblArg).opens then .error (.exit 1)
  else return o

/-- The program.  Nested exceptions leave it as they leave that of the inference runner. -/
def main (argv : List String) : M Int32 :=
  match accept env argv with
  | .error e => throw e
  | .ok o =>
    tryCatch (do run env o; return 0) fun e ↦
      match e with
      | .error _ => return 1
      | e => throw e

end InterpreterRunner

end EthosU
