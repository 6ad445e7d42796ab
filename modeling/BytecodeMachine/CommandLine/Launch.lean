import BytecodeMachine.CommandLine.Options
import BytecodeMachine.CommandLine.ReadFailure
import BytecodeMachine.CommandLine.Stepper
import BytecodeMachine.Host.Elements
import BytecodeMachine.Text.Quoted

/-!
# Launching a program

From the arguments and the bytes of the image to what is printed and the exit
code.  Reading the file is left to the caller, and so is talking to the terminal
while a program is stepped.
-/

namespace BytecodeMachine.CommandLine

/-- Why a program was not started. -/
inductive LaunchError where
  | usage (e : UsageError)
  | unreadable (e : ReadFailure)
  | image (e : ImageError)
  | listing (e : ListingError)
  | machine (e : MachineError)
  deriving DecidableEq, Repr

/-- Named fields between braces. -/
def record (name : String) (fields : List (String × String)) : String :=
  name ++ " \x7b " ++
    String.intercalate ", " (fields.map fun (label, value) => label ++ ": " ++ value) ++ " \x7d"

/-- An error in the form in which the program prints it on its way out. -/
def LaunchError.describe : LaunchError → String
  | usage e => record "Custom" [("kind", "Other"), ("error", Text.quoted e.message)]
  | unreadable e =>
      "Io(" ++
        record "Os"
          [ ("code", Text.decimal e.code), ("kind", e.kind),
            ("message", Text.quoted e.message) ] ++ ")"
  | image (.tooShort length) => "TooShort(" ++ Text.decimal length ++ ")"
  | image (.badMagic found) => "BadMagic(" ++ Text.decimal found.toNat ++ ")"
  | listing (.outOfRange offset) => "OutOfRange(" ++ Text.decimal offset ++ ")"
  | listing (.truncated offset opcode) =>
      record "Truncated" [("offset", Text.decimal offset), ("opcode", opcode.title)]
  | machine (.entryOutOfRange entry length) =>
      record "EntryOutOfRange" [("entry", Text.decimal entry), ("len", Text.decimal length)]
  | machine (.stackAllocation size) => record "StackAllocation" [("size", Text.decimal size)]

/-- What a launch leads to. -/
inductive Launch where
  /-- Everything there is to print. -/
  | print (text : String)
  /-- A machine ready to run. -/
  | start (o : Options) (m : Machine)
  | fail (e : LaunchError)

/-- What the program prints and returns. -/
structure Output where
  exit : Nat := 0
  stdout : String := ""
  stderr : String := ""
  deriving DecidableEq, Repr

/-- The output of a failed launch. -/
def Output.ofError (e : LaunchError) : Output :=
  { exit := 1, stderr := "Error: " ++ e.describe ++ "\n" }

/-- A machine for the image's code, entered where the options say. -/
def ready (o : Options) (code : List UInt8) : Except MachineError Machine :=
  match Machine.load code o.stackSize with
  | .error e => .error e
  | .ok m => (m.register ElementModule.module).enter o.entry

/-- What to do with the bytes of an image. -/
def Launch.ofImage (o : Options) (bytes : List UInt8) : Launch :=
  match Image.ofBytes bytes with
  | .error e => .fail (.image e)
  | .ok image =>
      if o.disasm then
        match Listing.render image.code with
        | .error e => .fail (.listing e)
        | .ok text => .print text
      else
        match ready o image.code with
        | .error e => .fail (.machine e)
        | .ok m => .start o m

/-- The output after a machine has stopped, behind what was `shown` before. -/
def Output.ofMachine (o : Options) (shown : String) (m : Machine) : Output :=
  let snapshot := Snapshot.of m.state.toCore
  { exit := if m.status.isFault then 1 else 0
    stdout := shown ++ if o.json then snapshot.pretty ++ "\n" else snapshot.table
    stderr := (m.faultReport?.map (· ++ "\n")).getD "" }

/-- The whole program with its surroundings given: how files are read, how input
lines are edited, what the input holds, and whether output is coloured.  Nothing if
it runs out of fuel. -/
def main? (fuel : Nat) (read : String → Except ReadFailure (List UInt8))
    (edit : String → String) (input : List String) (coloured : Bool) (args : List String) :
    Option Output :=
  match Options.parse args with
  | .error e => some (.ofError (.usage e))
  | .ok o =>
      if o.help then some { stdout := usage }
      else
        match read (o.image.getD "") with
        | .error e => some (.ofError (.unreadable e))
        | .ok bytes =>
            match Launch.ofImage o bytes with
            | .fail e => some (.ofError e)
            | .print text => some { stdout := text }
            | .start o m =>
                if o.step then
                  (Stepper.session? edit fuel coloured m input).map fun (m, shown) =>
                    .ofMachine o (Stepper.greeting ++ shown) m
                else (m.run fuel).map fun m => .ofMachine o "" m

end BytecodeMachine.CommandLine
