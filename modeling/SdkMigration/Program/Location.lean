import SdkMigration.Program.MediaType
import SdkMigration.Text.Parts

/-!
# Locations

The location of a file is a URL.  It is brought into its normal form: the
scheme and the host in lower case, single and double dots in the path
resolved, and characters that cannot stand in a URL written as percent
escapes.  The last segment of the path is the name of the file.
-/

namespace SdkMigration

/-- The location of a file in normal form. -/
structure Location where
  /-- The scheme with its colon and slashes, and the host. -/
  origin : Text
  /-- The segments of the path. -/
  segments : List Text
  /-- The query and the fragment with their marks. -/
  suffix : Text
deriving DecidableEq, Repr

namespace Location

/-- The location as it is shown. -/
def shown (location : Location) : String :=
  String.ofList (location.origin ++ (location.segments.flatMap ('/' :: ·)) ++ location.suffix)

/-- The name of the file. -/
def fileName (location : Location) : Text := location.segments.getLast?.getD []

/-! ## Escapes -/

/-- An upper-case hexadecimal digit. -/
def hexUpper (n : Nat) : Char := (hexChar n).toUpper

/-- A character as percent escapes of its UTF-8 form. -/
def percentEncoded (c : Char) : Text :=
  (String.singleton c).toUTF8.toList.flatMap fun byte =>
    ['%', hexUpper (byte.toNat / 16), hexUpper (byte.toNat % 16)]

/-- Writes the characters of a text that must not stand in a part of a URL,
`reserved` being those of that part, as escapes. -/
def escape (reserved : String) (text : Text) : Text :=
  text.flatMap fun c =>
    if c.toNat ≤ 0x20 ∨ 0x7F ≤ c.toNat ∨ reserved.toList.contains c then percentEncoded c
    else [c]

/-- The characters escaped in a path. -/
def pathReserved : String := String.ofList ['"', '#', '<', '>', '?', Char.ofNat 0x60, '\x7b', '\x7d']

/-- The characters escaped in a query. -/
def queryReserved : String := "\"#<>'"

/-- The characters escaped in a fragment. -/
def fragmentReserved : String := String.ofList ['"', '<', '>', Char.ofNat 0x60]

/-! ## Normal form -/

/-- Whether a segment is a single dot, written plainly or as an escape. -/
def isDot (segment : Text) : Bool :=
  segment == ['.'] || (String.ofList segment).toLower == "%2e"

/-- Whether a segment is two dots, written plainly or as escapes. -/
def isDoubleDot (segment : Text) : Bool :=
  ["..", ".%2e", "%2e.", "%2e%2e"].contains (String.ofList segment).toLower

/-- Resolves the dots among segments, `known` holding those before in reverse
order.  Dots at the end leave an empty segment. -/
def resolveFrom (known : List Text) : List Text → List Text
  | [] => known.reverse
  | segment :: rest =>
    if isDoubleDot segment then
      resolveFrom (if rest.isEmpty then [] :: known.tail else known.tail) rest
    else if isDot segment then
      resolveFrom (if rest.isEmpty then [] :: known else known) rest
    else resolveFrom (segment :: known) rest

/-- Splits a text before the first of a character. -/
def splitBefore (mark : Char) (text : Text) : Text × Text :=
  (text.takeWhile (· != mark), text.dropWhile (· != mark))

/-- The suffix behind a mark with its escapes, the mark being kept. -/
def escapedSuffix (reserved : String) : Text → Text
  | [] => []
  | mark :: rest => mark :: escape reserved rest

/-- The location that a URL names. -/
def ofUrl (url : String) : Location :=
  let (body, fragment) := splitBefore '#' (Text.trim url.toList)
  let (body, query) := splitBefore '?' body
  let (scheme, rest) := splitBefore ':' body
  let rest := rest.drop 1
  let (host, path) :=
    match rest with
    | '/' :: '/' :: after => splitBefore '/' after
    | _ => ([], rest)
  let segments := Text.parts '/' (path.drop 1)
  { origin := scheme.map Char.toLower ++ [':', '/', '/'] ++ host.map Char.toLower
    segments := (resolveFrom [] segments).map (escape pathReserved)
    suffix := escapedSuffix queryReserved query ++ escapedSuffix fragmentReserved fragment }

end Location

/-- What the file at a location holds. -/
def MediaType.ofLocation (location : Location) : MediaType := .ofFileName location.fileName

end SdkMigration
