import BytecodeMachine.Interface.Table
import BytecodeMachine.Text.Json

/-!
# Interface manifest

The host interface as a JSON document, for tools that build programs.  Its
layout is fixed: two blanks for each level, short values on one line.
-/

namespace BytecodeMachine.Interface

open Text.Json (quote member object list inline)

/-- A list of texts on one line. -/
def inlineTexts (texts : List String) : String := inline "[" ", " "]" (texts.map quote)

/-- An object on one line. -/
def inlineObject (members : List String) : String := inline "\x7b " ", " " \x7d" members

/-- A function on one line. -/
def FunctionEntry.json (f : FunctionEntry) : String :=
  inlineObject
    [ member "index" (Text.decimal f.index.toNat),
      member "name" (quote f.name),
      member "in" (inlineTexts f.takes),
      member "out" (inlineTexts f.gives) ]

/-- A module: on one line if it has no functions. -/
def ModuleEntry.json (m : ModuleEntry) : String :=
  let id := member "id" (Text.decimal m.id.toNat)
  let name := member "name" (quote m.name)
  match functions.filter (fun f => f.module == m.id) with
  | [] => inlineObject [id, name, member "functions" "[]"]
  | own => object 3 [id, name, member "functions" (list 4 (own.map (·.json)))]

/-- The registers by their roles. -/
def registerRoles : List String :=
  [ member "function" (quote "r0"),
    member "int" (inlineTexts ["r0", "r1", "r2"]),
    member "float" (inlineTexts ["fp0"]),
    member "pointer" (inlineTexts ["r8", "r9"]),
    member "stack" (quote "r15") ]

/-- The error codes by their names. -/
def errorNumbers : List String :=
  ErrorCode.all.map fun e => member e.name (Text.decimal e.number.toNat)

/-- The whole document. -/
def manifest : String :=
  object 1
    [ member "abi_version" (Text.decimal version),
      member "registers" (object 2 registerRoles),
      member "errors" (object 2 errorNumbers),
      member "modules" (list 2 (modules.map (·.json))) ] ++ "\n"

end BytecodeMachine.Interface
