import BytecodeMachine.Label
import BytecodeMachine.Report
import BytecodeMachine.Text.Blank

/-!
# Interactive stepping

Before each prompt the stepper shows the line at the cursor.  A command steps,
runs on, shows the registers or quits.  The blanks around a command do not belong
to it.  The end of the input quits too.

How an input line is edited while it is typed, with backspaces for instance, is
left open: the stepper is given a function from what was typed to what the line
then is.
-/

namespace BytecodeMachine.CommandLine

namespace Stepper

/-- What is shown at the start. -/
def greeting : String := "commands: <enter> step, c continue, r registers, q quit\n"

/-- What is shown before a command is read; nothing once the machine has
stopped. -/
def prompt? (coloured : Bool) (m : Machine) : Option String :=
  if m.status.isTerminal then none
  else
    let line :=
      match m.currentLine with
      | .ok line => Label.category coloured .step ++ " " ++ line.render ++ "\n"
      | .error _ => ""
    some (line ++ "mc64k> ")

/-- What follows a command. -/
structure Reply where
  machine : Machine
  output : String := ""
  /-- The stepper goes on. -/
  goesOn : Bool

/-- Carry out a command; nothing if the program runs out of fuel. -/
def reply? (edit : String → String) (fuel : Nat) (m : Machine) (line : String) : Option Reply :=
  let command := Text.trim (edit line)
  if command = "" ∨ command = "s" then
    (m.step fuel).map fun m => { machine := m, goesOn := true }
  else if command = "c" then (m.run fuel).map fun m => { machine := m, goesOn := false }
  else if command = "r" then
    some { machine := m, output := (Snapshot.of m.state.toCore).table, goesOn := true }
  else if command = "q" then some { machine := m, goesOn := false }
  else some { machine := m, output := "unknown command '" ++ command ++ "'\n", goesOn := true }

/-- Step through the given input lines, and return the machine and what was
shown. -/
def session? (edit : String → String) (fuel : Nat) (coloured : Bool) (m : Machine) :
    List String → Option (Machine × String)
  | [] => some (m, (prompt? coloured m).getD "")
  | line :: rest =>
      match prompt? coloured m with
      | none => some (m, "")
      | some shown =>
          match reply? edit fuel m line with
          | none => none
          | some r =>
              if r.goesOn then
                (session? edit fuel coloured r.machine rest).map fun (m, more) =>
                  (m, shown ++ r.output ++ more)
              else some (r.machine, shown ++ r.output)

end Stepper

end BytecodeMachine.CommandLine
