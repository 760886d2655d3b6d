import SdkMigration.Program.Grammar.Basic

/-!
# Media types

What a file holds is told by the extension of its name: the characters after
the last dot of the last part of its path.
-/

namespace SdkMigration

/-- What a file holds. -/
inductive MediaType where
  | javaScript
  | jsx
  | mjs
  | cjs
  | typeScript
  | mts
  | cts
  | dts
  | dmts
  | dcts
  | tsx
  | css
  | json
  | wasm
  | sourceMap
  | unknown
deriving DecidableEq, Repr

namespace MediaType

/-- The name of a media type in messages. -/
def name : MediaType → String
  | .javaScript => "JavaScript"
  | .jsx => "JSX"
  | .mjs => "Mjs"
  | .cjs => "Cjs"
  | .typeScript => "TypeScript"
  | .mts => "Mts"
  | .cts => "Cts"
  | .dts => "Dts"
  | .dmts => "Dmts"
  | .dcts => "Dcts"
  | .tsx => "TSX"
  | .css => "Css"
  | .json => "Json"
  | .wasm => "Wasm"
  | .sourceMap => "SourceMap"
  | .unknown => "Unknown"

/-- The dialect of a program of this type, if it is one. -/
def dialect? : MediaType → Option Dialect
  | .javaScript | .mjs => some ⟨false, false, true⟩
  | .jsx => some ⟨false, true, true⟩
  | .cjs => some ⟨false, false, false⟩
  | .typeScript | .mts | .cts | .dts | .dmts | .dcts => some ⟨true, false, true⟩
  | .tsx => some ⟨true, true, true⟩
  | .css | .json | .wasm | .sourceMap | .unknown => none

/-- Whether a file of this type is migrated as part of a project. -/
def isMigratable : MediaType → Bool
  | .javaScript | .jsx | .mjs | .cjs | .typeScript | .mts | .cts | .tsx => true
  | _ => false

/-- Splits a name at its last dot: the part before it, with the dot, and the
part after it. -/
def splitExtension? (name : Text) : Option (Text × Text) :=
  let extension := (name.reverse.takeWhile (· != '.')).reverse
  let stem := name.take (name.length - extension.length)
  if stem.isEmpty then none else some (stem, extension)

/-- Whether a name holds `.d.`. -/
def marksDeclarations : Text → Bool
  | [] => false
  | c :: rest => ['.', 'd', '.'].isPrefixOf (c :: rest) || marksDeclarations rest

/-- The media type of a file by the last part of its path. -/
def ofFileName (name : Text) : MediaType :=
  match splitExtension? name with
  | none => .unknown
  | some (stem, extension) =>
    let declares := marksDeclarations stem
    match String.ofList (extension.map Char.toLower) with
    | "js" => .javaScript
    | "jsx" => .jsx
    | "mjs" => .mjs
    | "cjs" => .cjs
    | "ts" => if declares then .dts else .typeScript
    | "mts" => if declares then .dmts else .mts
    | "cts" => if declares then .dcts else .cts
    | "tsx" => .tsx
    | "css" => .css
    | "json" => .json
    | "wasm" => .wasm
    | "map" => .sourceMap
    | _ => .unknown

end MediaType

end SdkMigration
