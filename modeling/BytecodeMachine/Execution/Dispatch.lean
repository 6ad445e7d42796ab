import BytecodeMachine.Execution.Transport
import BytecodeMachine.Opcode.Text

/-!
# Executing an opcode

Moves, extensions, conversions and all operations on integers and reals share one
form: resolve destination and source, compute a value from both, and store it at
the destination.  They differ in widths and in the value alone.
-/

namespace BytecodeMachine.Exec

/-- Store a value computed from destination and source at the destination.
Nothing to store is a division by zero. -/
def compute (destination source : Width) (value : UInt64 → UInt64 → Option UInt64) :
    Exec Flow := do
  let target ← resolveDestination destination.bytes
  let l ← resolveSource source.bytes
  let s ← get
  match value (s.read target destination) (s.read l source) with
  | none => throw .zeroDivide
  | some result =>
      modify fun s => s.write target destination result
      return .next

/-- Store a value computed from the source alone. -/
def transform (destination source : Width) (value : UInt64 → UInt64) : Exec Flow :=
  compute destination source fun _ x => some (value x)

/-- Execute the instruction whose opcode has just been fetched. -/
def perform (table : HostTable) : Opcode → Exec Flow
  | .stop => stop
  | .host => host table
  | .bra => bra
  | .bsr => bsr
  | .jmp => jmp
  | .jsr => jsr
  | .rts => rts
  | .bmc => bmc
  | .bdc => bdc
  | .dbnz => dbnz
  | .smc => smc
  | .sdc => sdc
  | .move w => transform w w id
  | .fmove p => transform p.width p.width id
  | .clr w => clr w
  | .exg => exchange .general
  | .fexg => exchange .float
  | .savem => savem
  | .loadm => loadm
  | .link => link
  | .unlk => unlk
  | .lea => lea
  | .pea => pea
  | .ext e => transform e.target e.source fun x => (e.source.signExtend x).toUInt64
  | .realOfInteger w p => transform p.width w fun x => Floating.ofInt64 p (w.signExtend x)
  | .integerOfReal p w =>
      transform w p.width fun x => (Floating.toInteger w (Floating.toFloat p x)).toUInt64
  | .convert p =>
      let q := Opcode.otherPrecision p
      transform q.width p.width fun x => Floating.ofFloat q (Floating.toFloat p x)
  | .integerBinary op w => compute w w (op.eval? w)
  | .integerUnary op w => transform w w op.eval
  | .shift op w => compute w .byte fun a n => some (op.eval w a n)
  | .realBinary op p => compute p.width p.width fun a b => some (op.eval p a b)
  | .realUnary op p => transform p.width p.width (op.eval p)

/-- Fetch an opcode and execute its instruction. -/
def instruction (table : HostTable) : Exec Flow := do
  let byte ← fetchOpcode
  match Opcode.ofByte? byte with
  | some op => perform table op
  | none => throw (.invalidOpcode byte)

end BytecodeMachine.Exec
