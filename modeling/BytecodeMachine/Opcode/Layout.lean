import BytecodeMachine.Condition
import BytecodeMachine.Opcode.Basic
import BytecodeMachine.Registers

/-!
# Operand layouts

What follows each opcode byte.  A layout is a list of fields; the size of an
operand is fixed by the opcode, or given by the condition byte or the register
mask that stands before it.
-/

namespace BytecodeMachine

/-- The operands of an instruction. -/
inductive Layout where
  | bare
  | hostModule
  | branch
  /-- One operand used for its address. -/
  | target
  /-- Condition, operand, branch. -/
  | testAndBranch
  /-- Condition, two operands, branch. -/
  | compareAndBranch
  /-- Counter operand, branch. -/
  | counter
  /-- Condition, destination, operand. -/
  | testAndSet
  /-- Condition, destination, two operands. -/
  | compareAndSet
  | unary (size : Nat)
  | binary (destination source : Nat)
  | registerPair (bank : Bank)
  /-- Register mask, operand of the block's size. -/
  | block
  /-- Frame register, displacement. -/
  | frame
  | frameRegister
  deriving DecidableEq, Repr, Inhabited

/-- A field after the opcode byte. -/
inductive FieldKind where
  | hostModule
  /-- A branch displacement. -/
  | branch
  | condition (arity : Arity)
  /-- An operand of a fixed size. -/
  | operand (size : Nat)
  /-- An operand of the size that an earlier field gives. -/
  | sizedOperand
  | registerPair (bank : Bank)
  | mask
  | frameRegister
  | displacement
  deriving DecidableEq, Repr, Inhabited

/-- The fields of a layout, in the order of the bytes. -/
def Layout.fields : Layout → List FieldKind
  | bare => []
  | hostModule => [.hostModule]
  | branch => [.branch]
  | target => [.operand 8]
  | testAndBranch => [.condition .monadic, .sizedOperand, .branch]
  | compareAndBranch => [.condition .dyadic, .sizedOperand, .sizedOperand, .branch]
  | counter => [.operand 4, .branch]
  | testAndSet => [.condition .monadic, .operand 1, .sizedOperand]
  | compareAndSet => [.condition .dyadic, .operand 1, .sizedOperand, .sizedOperand]
  | unary size => [.operand size]
  | binary destination source => [.operand destination, .operand source]
  | registerPair bank => [.registerPair bank]
  | block => [.mask, .sizedOperand]
  | frame => [.frameRegister, .displacement]
  | frameRegister => [.frameRegister]

namespace Opcode

/-- The layout of each opcode. -/
def layout : Opcode → Layout
  | stop | rts => .bare
  | host => .hostModule
  | bra | bsr => .branch
  | jmp | jsr | pea => .target
  | bmc => .testAndBranch
  | bdc => .compareAndBranch
  | dbnz => .counter
  | smc => .testAndSet
  | sdc => .compareAndSet
  | move w => .binary w.bytes w.bytes
  | fmove p => .binary p.bytes p.bytes
  | clr w => .unary w.bytes
  | exg => .registerPair .general
  | fexg => .registerPair .float
  | savem | loadm => .block
  | link => .frame
  | unlk => .frameRegister
  | lea => .binary 8 8
  | ext e => .binary e.target.bytes e.source.bytes
  | realOfInteger w p => .binary p.bytes w.bytes
  | integerOfReal p w => .binary w.bytes p.bytes
  | convert .single => .binary 8 4
  | convert .double => .binary 4 8
  | integerBinary _ w | integerUnary _ w => .binary w.bytes w.bytes
  | shift _ w => .binary w.bytes 1
  | realBinary _ p | realUnary _ p => .binary p.bytes p.bytes

end Opcode

end BytecodeMachine
