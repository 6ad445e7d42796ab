import BytecodeMachine.CommandLine.Launch
import BytecodeMachine.CommandLine.TypedLine

/-!
# The program

Reads the image, runs or steps the machine, and prints.  What is read and what is
printed is decided elsewhere; this module only talks to the system.
-/

namespace BytecodeMachine.CommandLine

/-- The instructions after which a run is given up. -/
def patience : Nat := 0x4000000000000000

/-- What the system says about a file that cannot be read. -/
def ReadFailure.ofError : IO.Error → ReadFailure
  | .noFileOrDirectory _ _ _ => .notFound
  | .permissionDenied _ _ _ => .permissionDenied
  | .inappropriateType _ code _ =>
      if code.toNat = ReadFailure.isDirectory.code then .isDirectory else .notDirectory
  | .invalidArgument _ _ _ => .nameTooLong
  | e => .other (toString e)

/-- The bytes of a file. -/
def readImage (path : String) : IO (Except ReadFailure (List UInt8)) := do
  try
    let contents ← IO.FS.readBinFile path
    return .ok contents.toList
  catch e => return .error (.ofError e)

/-- The terminal shows colours: on demand, or unless it is told not to. -/
def wantsColour : IO Bool := do
  if (← IO.getEnv "FORCE_COLOR").isSome then return true
  if (← IO.getEnv "NO_COLOR").isSome then return false
  (← IO.getStdout).isTty

/-- Print an output and return its exit code. -/
def Output.print (o : Output) : IO UInt32 := do
  IO.print o.stdout
  IO.eprint o.stderr
  return UInt32.ofNat o.exit

/-- Prompt, read a command and carry it out, until the stepper ends. -/
partial def interact (coloured : Bool) (m : Machine) : IO (Option Machine) := do
  let some shown := Stepper.prompt? coloured m | return some m
  IO.print shown
  (← IO.getStdout).flush
  let line ← (← IO.getStdin).getLine
  if line.isEmpty then return some m
  let some reply := Stepper.reply? TypedLine.edit patience m line | return none
  IO.print reply.output
  if reply.goesOn then interact coloured reply.machine else return some reply.machine

/-- Run or step a machine and print how it ends. -/
def start (o : Options) (m : Machine) : IO UInt32 := do
  let stopped ←
    if o.step then
      IO.print Stepper.greeting
      interact (← wantsColour) m
    else pure (m.run patience)
  match stopped with
  | some m => (Output.ofMachine o "" m).print
  | none => return 1

/-- Carry out a command line. -/
def launch (args : List String) : IO UInt32 := do
  match Options.parse args with
  | .error e => (Output.ofError (.usage e)).print
  | .ok o =>
      if o.help then ({ stdout := usage } : Output).print
      else
        match ← readImage (o.image.getD "") with
        | .error e => (Output.ofError (.unreadable e)).print
        | .ok bytes =>
            match Launch.ofImage o bytes with
            | .fail e => (Output.ofError e).print
            | .print text => ({ stdout := text } : Output).print
            | .start o m => start o m

end BytecodeMachine.CommandLine

/-- The program. -/
def main (args : List String) : IO UInt32 := BytecodeMachine.CommandLine.launch args
