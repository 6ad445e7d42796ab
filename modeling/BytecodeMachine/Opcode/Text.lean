import BytecodeMachine.Opcode.Basic

/-!
# Names of opcodes

A mnemonic is a stem, for conversions the letter of the type read, and for typed
operations a dot and the letter of the type written.  Errors use a capitalised
name made of the same parts.
-/

namespace BytecodeMachine.Opcode

/-- The parts of an opcode's name. -/
structure Spelling where
  stem : String
  /-- The letter of the type read, where it is part of the name. -/
  source : String := ""
  /-- The letter of the type written, if the opcode is typed. -/
  target : Option String := none

/-- The other precision. -/
def otherPrecision : Precision → Precision
  | .single => .double
  | .double => .single

/-- The parts of each name. -/
def spelling : Opcode → Spelling
  | stop => { stem := "stop" }
  | host => { stem := "host" }
  | bra => { stem := "bra" }
  | bsr => { stem := "bsr" }
  | jmp => { stem := "jmp" }
  | jsr => { stem := "jsr" }
  | rts => { stem := "rts" }
  | bmc => { stem := "bmc" }
  | bdc => { stem := "bdc" }
  | dbnz => { stem := "dbnz" }
  | smc => { stem := "smc" }
  | sdc => { stem := "sdc" }
  | move w => { stem := "move", target := some w.letter }
  | fmove p => { stem := "fmove", target := some p.letter }
  | clr w => { stem := "clr", target := some w.letter }
  | exg => { stem := "exg" }
  | fexg => { stem := "fexg" }
  | savem => { stem := "savem" }
  | loadm => { stem := "loadm" }
  | link => { stem := "link" }
  | unlk => { stem := "unlk" }
  | lea => { stem := "lea" }
  | pea => { stem := "pea" }
  | ext e => { stem := "ext", source := e.source.letter, target := some e.target.letter }
  | realOfInteger w p => { stem := "fmove", source := w.letter, target := some p.letter }
  | integerOfReal p w => { stem := "fmove", source := p.letter, target := some w.letter }
  | convert p =>
      { stem := "fmove", source := p.letter, target := some (otherPrecision p).letter }
  | integerBinary op w => { stem := op.stem, target := some w.letter }
  | integerUnary op w => { stem := op.stem, target := some w.letter }
  | shift op w => { stem := op.stem, target := some w.letter }
  | realBinary op p => { stem := op.stem, target := some p.letter }
  | realUnary op p => { stem := op.stem, target := some p.letter }

/-- The name used in listings and reports. -/
def mnemonic (op : Opcode) : String :=
  let s := op.spelling
  match s.target with
  | some letter => s.stem ++ s.source ++ "." ++ letter
  | none => s.stem

/-- The capitalised name used in errors. -/
def title (op : Opcode) : String :=
  let s := op.spelling
  s.stem.capitalize ++ s.source.toUpper ++ (s.target.getD "").toUpper

/-- The opcode with a mnemonic. -/
def ofMnemonic? (text : String) : Option Opcode :=
  all.find? (fun op => op.mnemonic == text)

end BytecodeMachine.Opcode
