/-!
# Host interface

The numbers and names by which programs call the host: modules, their functions,
the registers that carry arguments and the error codes that come back.
-/

namespace BytecodeMachine.Interface

/-- A module of the host. -/
structure ModuleEntry where
  id : UInt8
  name : String
  deriving DecidableEq, Repr

/-- A function of a module.  `takes` and `gives` say which registers carry its
arguments and results. -/
structure FunctionEntry where
  module : UInt8
  index : UInt16
  name : String
  takes : List String
  gives : List String
  deriving DecidableEq, Repr

/-- The version of the interface. -/
def version : Nat := 1

/-- The module of element buffers. -/
def elementModule : UInt8 := 2

/-- The modules, in the order of their numbers. -/
def modules : List ModuleEntry :=
  [ { id := 0, name := "exec" },
    { id := 1, name := "io" },
    { id := elementModule, name := "mem" },
    { id := 3, name := "math" },
    { id := 4, name := "display" },
    { id := 5, name := "audio" } ]

/-- The functions, in the order of their module and number. -/
def functions : List FunctionEntry :=
  [ { module := elementModule, index := 0, name := "mem::element_buffer_alloc",
      takes := ["r1.w count", "r2.w size"], gives := ["r8 buffer", "r0 error"] },
    { module := elementModule, index := 1, name := "mem::element_buffer_free",
      takes := ["r8 buffer"], gives := ["r8 zero", "r0 error"] },
    { module := elementModule, index := 2, name := "mem::element_alloc_slot",
      takes := ["r8 buffer"], gives := ["r9 slot", "r0 error"] },
    { module := elementModule, index := 3, name := "mem::element_free_slot",
      takes := ["r8 buffer", "r9 slot"], gives := ["r9 zero", "r0 error"] },
    { module := elementModule, index := 4, name := "mem::element_buffer_info",
      takes := ["r8 buffer"], gives := ["r1 count", "r2 slot size", "r0 error"] } ]

/-- The module of a number. -/
def moduleById? (id : UInt8) : Option ModuleEntry := modules.find? (fun m => m.id == id)

/-- The module of a name. -/
def moduleByName? (name : String) : Option ModuleEntry :=
  modules.find? (fun m => m.name == name)

/-- The function of a module and number. -/
def functionByIndex? (module : UInt8) (index : UInt16) : Option FunctionEntry :=
  functions.find? (fun f => f.module == module && f.index == index)

/-- The function of a full name. -/
def functionByName? (name : String) : Option FunctionEntry :=
  functions.find? (fun f => f.name == name)

/-- What a host function reports in register 0. -/
inductive ErrorCode where
  | none
  | nullPointer
  | badSize
  | outOfMemory
  | invalidHandle
  | bufferFull
  | invalidSlot
  deriving DecidableEq, Repr

namespace ErrorCode

/-- Every code, in the order of their numbers. -/
def all : List ErrorCode :=
  [none, nullPointer, badSize, outOfMemory, invalidHandle, bufferFull, invalidSlot]

/-- The number of a code. -/
def number : ErrorCode → UInt64
  | none => 0
  | nullPointer => 1
  | badSize => 2
  | outOfMemory => 3
  | invalidHandle => 4
  | bufferFull => 5
  | invalidSlot => 6

/-- The name of a code in the manifest. -/
def name : ErrorCode → String
  | none => "none"
  | nullPointer => "null_ptr"
  | badSize => "bad_size"
  | outOfMemory => "out_of_memory"
  | invalidHandle => "invalid_handle"
  | bufferFull => "buffer_full"
  | invalidSlot => "invalid_slot"

end ErrorCode

end BytecodeMachine.Interface
