import BytecodeMachine.Elements.Layout
import BytecodeMachine.Memory.Basic
import BytecodeMachine.Region

/-!
# Element buffers in memory

A store is the memory together with the heap's bookkeeping: where the next buffer
goes and which buffers are live.  A buffer's header holds a token, the number of
slots and the slot size; a set bit of the bitmap marks a free slot.  The header is
ordinary memory, so every operation reads it anew.  A handle is valid while its
address is live and its token is intact.

Operations that can change the store answer with the store that they leave, also
where they fail.
-/

namespace BytecodeMachine

/-- The bookkeeping of element buffers. -/
structure Heap where
  /-- The first address that no buffer has used. -/
  next : Nat := AddressSpace.heapBase.toNat
  /-- The addresses of the buffers that are not freed. -/
  live : List UInt64 := []
  /-- What tokens are mixed with. -/
  salt : UInt64 := 0x9e3779b97f4a7c15
  deriving DecidableEq, Repr

instance : Inhabited Heap := ⟨{}⟩

/-- Memory and heap. -/
structure Store where
  memory : Memory := .zero
  heap : Heap := {}
  deriving Inhabited

namespace Elements

/-- Why an operation on a buffer fails. -/
inductive BufferError where
  | invalidBuffer
  | bufferFull
  | invalidSlot
  | slotNotAllocated
  deriving DecidableEq, Repr

/-- The wording of a buffer error. -/
def BufferError.message : BufferError → String
  | invalidBuffer => "invalid element buffer"
  | bufferFull => "element buffer is full"
  | invalidSlot => "address is not a slot of this buffer"
  | slotNotAllocated => "slot is already free"

/-- What an operation comes to, with the store that it leaves. -/
abbrev Answer (α : Type) := EStateM.Result BufferError Store α

/-- The token of a live buffer. -/
def token (h : Heap) (buffer : UInt64) : UInt64 := buffer ^^^ h.salt

/-- The address of the bitmap word of a number. -/
def bitmapWord (buffer : UInt64) (word : Nat) : UInt64 :=
  buffer + 16 + UInt64.ofNat (8 * word)

/-- The word with one set bit. -/
def bitMask (bit : Nat) : UInt64 := (1 : UInt64) <<< UInt64.ofNat bit

/-- The set bits of a word, in ascending order. -/
def setBits (bits : UInt64) : List Nat := (List.range 64).filter bits.toNat.testBit

/-- The first of `count` bitmap words from `word` on that has a set bit, with the
lowest set bit. -/
def firstFree? (m : Memory) (buffer : UInt64) (word : Nat) : Nat → Option (Nat × Nat)
  | 0 => none
  | count + 1 =>
      match setBits (m.read (bitmapWord buffer word) .quad) with
      | [] => firstFree? m buffer (word + 1) count
      | bit :: _ => some (word, bit)

/-- The greatest size that an allocation can have. -/
def largestAllocation : Nat := 0x7ffffffffffffff8

end Elements

namespace Store

open Elements

/-- Make a buffer with all slots free; nothing if the heap has no room for it. -/
def allocate? (s : Store) (count size : UInt16) : Option (UInt64 × Store) :=
  let layout := BufferLayout.request count size
  let start := roundUp 16 s.heap.next
  let stop := start + layout.totalSize
  if AddressSpace.heapEnd.toNat < stop then none
  else
    let buffer := UInt64.ofNat start
    let memory := s.memory.fill buffer layout.totalSize 0
    let memory := memory.write buffer .quad (token s.heap buffer)
    let memory := memory.write (buffer + 8) .long (UInt64.ofNat layout.count)
    let memory := memory.write (buffer + 12) .long (UInt64.ofNat layout.slotSize)
    let memory := memory.fill (buffer + 16) (8 * layout.bitmapWords) 0xff
    some (buffer, { memory, heap := { s.heap with next := stop, live := buffer :: s.heap.live } })

/-- The layout in a buffer's header, if the handle is valid. -/
def layout (s : Store) (buffer : UInt64) : Except BufferError BufferLayout :=
  if s.heap.live.contains buffer && s.memory.read buffer .quad == token s.heap buffer then
    .ok
      { count := (s.memory.read (buffer + 8) .long).toNat
        slotSize := (s.memory.read (buffer + 12) .long).toNat }
  else .error .invalidBuffer

/-- Take the lowest free slot. -/
def allocateSlot (s : Store) (buffer : UInt64) : Answer UInt64 :=
  match s.layout buffer with
  | .error e => .error e s
  | .ok layout =>
      match firstFree? s.memory buffer 0 layout.bitmapWords with
      | none => .error .bufferFull s
      | some (word, bit) =>
          let cell := bitmapWord buffer word
          let bits := s.memory.read cell .quad
          let taken := { s with memory := s.memory.write cell .quad (bits &&& ~~~(bitMask bit)) }
          let offset := layout.headerSize + (64 * word + bit) * layout.slotSize
          let slot := buffer + UInt64.ofNat offset
          -- The slot is already taken when its address turns out to be null.
          if slot = 0 then .error .invalidSlot taken else .ok slot taken

/-- Give a slot back. -/
def freeSlot (s : Store) (buffer slot : UInt64) : Answer Unit :=
  match s.layout buffer with
  | .error e => .error e s
  | .ok layout =>
      let storage := buffer + UInt64.ofNat layout.headerSize
      let offset := (slot - storage).toNat
      if slot < storage ∨ layout.storageSize ≤ offset ∨ offset % layout.slotSize ≠ 0 then
        .error .invalidSlot s
      else
        let index := offset / layout.slotSize
        let cell := bitmapWord buffer (index / 64)
        let bits := s.memory.read cell .quad
        let mask := bitMask (index % 64)
        if bits &&& mask ≠ 0 then .error .slotNotAllocated s
        else .ok () { s with memory := s.memory.write cell .quad (bits ||| mask) }

/-- The number of free slots. -/
def freeSlots (s : Store) (buffer : UInt64) : Except BufferError Nat :=
  (s.layout buffer).map fun layout =>
    (List.range layout.bitmapWords).foldr
      (fun word total =>
        (setBits (s.memory.read (bitmapWord buffer word) .quad)).length + total) 0

/-- Release a buffer: its token is cleared and its address is no longer live. -/
def free (s : Store) (buffer : UInt64) : Answer Unit :=
  match s.layout buffer with
  | .error e => .error e s
  | .ok layout =>
      if largestAllocation < layout.totalSize then .error .invalidBuffer s
      else
        .ok ()
          { memory := s.memory.write buffer .quad 0
            heap := { s.heap with live := s.heap.live.erase buffer } }

end Store

end BytecodeMachine
