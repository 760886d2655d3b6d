import SdkMigration.Text.NameChars
import SdkMigration.Text.Blank
import SdkMigration.Text.Hex

/-!
# Tokens

A token is read from the characters in front of the reader, on demand and by
the longest match.  Four kinds of token depend on what the grammar expects
there: a regular expression where a slash was read, the rest of a template
after a closing brace, and the text and the names between the tags of a
markup element.  For these the grammar asks again from where the token
was read, so every token keeps the characters it was read from (`here`) with
their position (`origin`) next to the ones that follow it (`rest`).

Every scanner recurses on the characters it consumes.
-/

namespace SdkMigration

/-- What a token is. -/
inductive TokenKind where
  | endOfText
  /-- An identifier or keyword; `escaped` when it was written with an escape. -/
  | word (name : String) (escaped : Bool)
  | privateName (name : String)
  | mark (text : String)
  | string (value : String)
  | number
  | pattern
  /-- A piece of a template up to a substitution, or up to its end when
  `closed`; its escapes all have a value when `valid`. -/
  | template (closed valid : Bool)
  | markupText
  | invalid
deriving DecidableEq

/-- A token with its place in the text. -/
structure Token where
  kind : TokenKind
  start : Nat
  stop : Nat
  /-- Whether a line end stands between the token and the one before it. -/
  newlineBefore : Bool
  /-- The position that the token was read from.  It lies behind `start` when a
  comment in the style of markup comes first. -/
  origin : Nat
  /-- The characters from that position on. -/
  here : List Char
  /-- The characters after the token. -/
  rest : List Char

namespace Token

/-! ## Character classes -/

/-- The characters that end a line of a program. -/
def isLineEnd (c : Char) : Bool :=
  c == '\n' || c == '\r' || c.toNat == 0x2028 || c.toNat == 0x2029

/-- The characters that only separate tokens, line ends among them. -/
def isSeparator (c : Char) : Bool := isBlank c || c.toNat == 0xFEFF

/-- Whether the character is an octal digit. -/
def isOctal (c : Char) : Bool := decide (0x30 ≤ c.toNat) && decide (c.toNat ≤ 0x37)

/-! ## Blanks and comments -/

/-- Where the reader is between two tokens. -/
inductive GapMode where
  | blank
  | lineComment
  | blockComment

/-- What lies between two tokens. -/
structure Gap where
  position : Nat
  newline : Bool
  rest : List Char
  /-- False when a block comment is not closed. -/
  closed : Bool
  /-- Where a comment in the style of markup started.  The next token counts
  from there. -/
  markupComment : Option Nat

/-- Passes over blanks and comments.  The first `passed` characters belong to
a mark that was recognized already. -/
def skipGap (mode : GapMode) (passed position : Nat) (newline : Bool)
    (markupComment : Option Nat) : List Char → Gap
  | [] => ⟨position, newline, [], mode matches .blank | .lineComment, markupComment⟩
  | c :: rest =>
    let next := position + 1
    match passed with
    | passed + 1 => skipGap mode passed next newline markupComment rest
    | 0 =>
      match mode with
      | .lineComment =>
        if isLineEnd c then skipGap .blank 0 next true markupComment rest
        else skipGap .lineComment 0 next newline markupComment rest
      | .blockComment =>
        if c == '*' && rest.head? == some '/' then skipGap .blank 1 next newline markupComment rest
        else skipGap .blockComment 0 next (newline || isLineEnd c) markupComment rest
      | .blank =>
        if isLineEnd c then skipGap .blank 0 next true markupComment rest
        else if isSeparator c then skipGap .blank 0 next newline markupComment rest
        else if ['/', '/'].isPrefixOf (c :: rest) then
          skipGap .lineComment 1 next newline markupComment rest
        else if ['/', '*'].isPrefixOf (c :: rest) then
          skipGap .blockComment 1 next newline markupComment rest
        else if ['<', '!', '-', '-'].isPrefixOf (c :: rest) ||
            (newline && ['-', '-', '>'].isPrefixOf (c :: rest)) then
          skipGap .lineComment 0 next newline (markupComment <|> some position) rest
        else ⟨position, newline, c :: rest, true, markupComment⟩

/-! ## Words -/

/-- A word that was read, with the number of characters it took. -/
structure Word where
  name : List Char
  count : Nat
  escaped : Bool
  rest : List Char
  valid : Bool

/-- Reads the characters of a word.  `known` holds those already read, in
reverse, and `braced` the value so far of an escape with braces. -/
def scanWord (braced : Option Nat) (known : List Char) (count : Nat) (escaped : Bool) :
    List Char → Word
  | [] => ⟨known.reverse, count, escaped, [], braced.isNone⟩
  | c :: rest =>
    let failed : Word := ⟨known.reverse, count, escaped, c :: rest, false⟩
    match braced with
    | some value =>
      if c == '\x7d' then scanWord none (Char.ofNat value :: known) (count + 1) true rest
      else match hexDigit? c with
        | some digit => scanWord (some (value * 16 + digit)) known (count + 1) true rest
        | none => failed
    | none =>
      if c == '\\' then
        match rest with
        | 'u' :: '\x7b' :: after => scanWord (some 0) known (count + 3) true after
        | 'u' :: p :: q :: r :: s :: after =>
          match hexFour? p q r s with
          | some value => scanWord none (Char.ofNat value :: known) (count + 6) true after
          | none => failed
        | _ => failed
      else if NameChars.canContinue c then scanWord none (c :: known) (count + 1) escaped rest
      else ⟨known.reverse, count, escaped, c :: rest, true⟩

/-- Whether the characters read for a word spell a name. -/
def Word.isName (word : Word) : Bool :=
  word.valid && match word.name with
    | [] => false
    | first :: others => NameChars.canStart first && others.all NameChars.canContinue

/-! ## Numbers -/

/-- Splits off the characters that satisfy `good`, with their number. -/
def spanCount (good : Char → Bool) (count : Nat) : List Char → Nat × List Char
  | [] => (count, [])
  | c :: rest => if good c then spanCount good (count + 1) rest else (count, c :: rest)

/-- Splits off digits and the low lines that separate them.  There has to be
at least one digit. -/
def spanDigits (good : Char → Bool) (count : Nat) (rest : List Char) :
    Option (Nat × List Char) :=
  let part (c : Char) : Bool := good c || c == '_'
  if (rest.takeWhile part).any good then some (spanCount part count rest) else none

/-- The digits of the base that a letter behind a zero stands for. -/
def baseDigits? (letter : Char) : Option (Char → Bool) :=
  if letter == 'x' || letter == 'X' then some fun c => (hexDigit? c).isSome
  else if letter == 'o' || letter == 'O' then some isOctal
  else if letter == 'b' || letter == 'B' then some fun c => c == '0' || c == '1'
  else none

/-- Splits off the letter that marks a large integer. -/
def spanSuffix (found : Nat × List Char) : Nat × List Char :=
  match found.2 with
  | 'n' :: after => (found.1 + 1, after)
  | _ => found

/-- Splits off an exponent, if there is one. -/
def spanExponent (count : Nat) (rest : List Char) : Option (Nat × List Char) :=
  match rest with
  | e :: after =>
    if e == 'e' || e == 'E' then
      match after with
      | sign :: digits =>
        if sign == '+' || sign == '-' then spanDigits NameChars.isAsciiDigit (count + 2) digits
        else spanDigits NameChars.isAsciiDigit (count + 1) after
      | [] => none
    else some (count, rest)
  | [] => some (count, rest)

/-- The digits of a decimal number and of its fraction. -/
def isNumberDigit (c : Char) : Bool := NameChars.isAsciiDigit c || c == '_'

/-- Whether digits behind a leading zero make an octal number, which has no
fraction and no exponent. -/
def isOldOctal (digits : List Char) : Bool :=
  digits.head? == some '0' && decide (1 < digits.length) &&
    !digits.any fun c => c == '8' || c == '9'

/-- Splits off a decimal number. -/
def scanDecimal (chars : List Char) : Option (Nat × List Char) :=
  let digits := chars.takeWhile isNumberDigit
  let (count, rest) := spanCount isNumberDigit 0 chars
  let whole := !digits.isEmpty && (digits.head? != some '0' || count == 1)
  if isOldOctal digits then some (count, rest)
  else
    match rest with
    | 'n' :: after => if whole then some (count + 1, after) else spanExponent count rest
    | '.' :: after =>
      let (count, rest) := spanCount isNumberDigit (count + 1) after
      spanExponent count rest
    | _ => spanExponent count rest

/-- Splits off a number: how many characters it has and what follows, unless
it is malformed. -/
def scanNumber (chars : List Char) : Option (Nat × List Char) :=
  match chars with
  | '0' :: letter :: after =>
    match baseDigits? letter with
    | some good => (spanDigits good 2 after).map spanSuffix
    | none => scanDecimal chars
  | _ => scanDecimal chars

/-! ## Strings, templates and regular expressions -/

/-- A string literal while it is read. -/
structure Quoted where
  /-- The characters of the value, in reverse. -/
  value : List Char := []
  /-- The first half of a surrogate pair, waiting for the second. -/
  half : Option Nat := none
  /-- The value so far of an escape with braces. -/
  braced : Option Nat := none

/-- The escape of a code unit that is half of a pair, as it was written. -/
def escapedUnit (unit : Nat) : List Char :=
  '\\' :: 'u' :: (Nat.toDigits 16 unit).map Char.toUpper

/-- The value with a waiting half settled on its own. -/
def Quoted.settle (quoted : Quoted) : Quoted :=
  match quoted.half with
  | none => quoted
  | some unit => { quoted with half := none, value := (escapedUnit unit).reverse ++ quoted.value }

/-- Adds a character to the value. -/
def Quoted.push (quoted : Quoted) (c : Char) : Quoted :=
  let settled := quoted.settle
  { settled with value := c :: settled.value }

/-- Adds a code unit to the value, joining the two halves of a pair. -/
def Quoted.pushUnit (quoted : Quoted) (unit : Nat) : Quoted :=
  if isFirstHalf unit then { quoted.settle with half := some unit }
  else if isSecondHalf unit then
    match quoted.half with
    | some first => { quoted with half := none, value := pairedChar first unit :: quoted.value }
    | none => { quoted with value := (escapedUnit unit).reverse ++ quoted.value }
  else quoted.push (Char.ofNat unit)

/-- The character that a one-letter escape stands for. -/
def simpleEscape (c : Char) : Char :=
  if c == 'n' then '\n'
  else if c == 't' then '\t'
  else if c == 'r' then '\r'
  else if c == 'b' then Char.ofNat 8
  else if c == 'v' then Char.ofNat 11
  else if c == 'f' then Char.ofNat 12
  else c

/-- The number that an octal digit stands for. -/
def octalValue (c : Char) : Nat := c.toNat - 0x30

/-- What an escape in a string stands for, and how many characters after the
backslash it takes. -/
inductive Escape where
  | char (c : Char) (length : Nat)
  | unit (value : Nat) (length : Nat)
  /-- An escape with braces, whose digits follow. -/
  | braces
  /-- A line end that continues the literal on the next line. -/
  | nothing (length : Nat)
  | wrong

/-- The escape written by the characters after a backslash. -/
def Escape.read : List Char → Escape
  | 'u' :: '\x7b' :: '\x7d' :: _ => .wrong
  | 'u' :: '\x7b' :: _ => .braces
  | 'u' :: p :: q :: r :: s :: _ =>
    match hexFour? p q r s with
    | some value => .unit value 5
    | none => .wrong
  | 'x' :: p :: q :: _ =>
    match hexDigit? p, hexDigit? q with
    | some high, some low => .char (Char.ofNat (high * 16 + low)) 3
    | _, _ => .wrong
  | '\r' :: '\n' :: _ => .nothing 2
  | e :: rest =>
    if e == 'u' || e == 'x' then .wrong
    else if isLineEnd e then .nothing 1
    else if isOctal e then
      let digits := (rest.takeWhile isOctal).take (if octalValue e ≤ 3 then 2 else 1)
      .char (Char.ofNat (digits.foldl (fun value d => value * 8 + octalValue d) (octalValue e)))
        (digits.length + 1)
    else .char (simpleEscape e) 1
  | [] => .wrong

/-- Reads a string literal up to its closing quote: the value, the number of
characters taken with the closing quote, and what follows.  The first
`passed` characters belong to an escape that was read already. -/
def scanString (quote : Char) (quoted : Quoted) (passed count : Nat) :
    List Char → Option (List Char × Nat × List Char)
  | [] => none
  | c :: rest =>
    match passed, quoted.braced with
    | passed + 1, _ => scanString quote quoted passed (count + 1) rest
    | 0, some value =>
      if c == '\x7d' then
        if value < 0x110000 then
          scanString quote ({ quoted with braced := none }.pushUnit value) 0 (count + 1) rest
        else none
      else match hexDigit? c with
        | some digit =>
          scanString quote { quoted with braced := some (value * 16 + digit) } 0 (count + 1) rest
        | none => none
    | 0, none =>
      if c == quote then some (quoted.settle.value.reverse, count + 1, rest)
      else if c == '\n' || c == '\r' then none
      else if c == '\\' then
        match Escape.read rest with
        | .char e length => scanString quote (quoted.push e) length (count + 1) rest
        | .unit value length => scanString quote (quoted.pushUnit value) length (count + 1) rest
        | .braces => scanString quote { quoted with braced := some 0 } 2 (count + 1) rest
        | .nothing length => scanString quote quoted length (count + 1) rest
        | .wrong => none
      else scanString quote (quoted.push c) 0 (count + 1) rest

/-- The character that opens and closes a template. -/
def backquote : Char := Char.ofNat 0x60

/-- Whether the characters after a backslash make an escape that a template
can give a value.  Octal escapes have none, but for the one that writes the
character zero. -/
def hasTemplateValue (chars : List Char) : Bool :=
  match Escape.read chars with
  | .wrong => false
  | .braces =>
    let digits := (chars.drop 2).takeWhile fun c => (hexDigit? c).isSome
    let value := digits.foldl (fun value d => value * 16 + (hexDigit? d).getD 0) 0
    (chars.drop (2 + digits.length)).head? == some '\x7d' && decide (value < 0x110000)
  | _ =>
    match chars with
    | c :: rest => !isOctal c || (c == '0' && !rest.head?.any isOctal)
    | [] => false

/-- A piece of a template. -/
structure TemplatePiece where
  /-- Whether the template ends with it. -/
  closed : Bool
  /-- Whether all its escapes have a value. -/
  valid : Bool
  /-- The number of characters taken. -/
  count : Nat
  rest : List Char

/-- The token of the piece. -/
def TemplatePiece.kind (piece : TemplatePiece) : TokenKind := .template piece.closed piece.valid

/-- Reads a piece of a template. -/
def scanTemplate (valid : Bool) (count : Nat) : List Char → Option TemplatePiece
  | [] => none
  | '$' :: '\x7b' :: rest => some ⟨false, valid, count + 2, rest⟩
  | '\\' :: e :: rest =>
    scanTemplate (valid && hasTemplateValue (e :: rest)) (count + 2) rest
  | c :: rest =>
    if c == backquote then some ⟨true, valid, count + 1, rest⟩
    else scanTemplate valid (count + 1) rest

/-- Reads the body of a regular expression and the slash that closes it. -/
def scanPattern (inClass : Bool) (count : Nat) : List Char → Option (Nat × List Char)
  | [] => none
  | c :: rest =>
    if isLineEnd c then none
    else if c == '\\' then
      match rest with
      | [] => none
      | e :: after => if isLineEnd e then none else scanPattern inClass (count + 2) after
    else if c == '[' then scanPattern true (count + 1) rest
    else if c == ']' then scanPattern false (count + 1) rest
    else if c == '/' && !inClass then some (count + 1, rest)
    else scanPattern inClass (count + 1) rest

/-! ## Marks -/

/-- The marks that start with a character, longer ones first. -/
def marksFrom (c : Char) : List String :=
  if c == '(' then ["("] else if c == ')' then [")"]
  else if c == '.' then ["...", "."] else if c == ',' then [","] else if c == ';' then [";"]
  else if c == '=' then ["===", "==", "=>", "="]
  else if c == '\x7b' then ["\x7b"] else if c == '\x7d' then ["\x7d"]
  else if c == ':' then [":"] else if c == '<' then ["<<=", "<<", "<=", "<"]
  else if c == '>' then [">>>=", ">>>", ">>=", ">>", ">=", ">"]
  else if c == '[' then ["["] else if c == ']' then ["]"]
  else if c == '/' then ["/=", "/"]
  else if c == '?' then ["??=", "??", "?.", "?"]
  else if c == '&' then ["&&=", "&&", "&=", "&"] else if c == '|' then ["||=", "||", "|=", "|"]
  else if c == '!' then ["!==", "!=", "!"]
  else if c == '+' then ["++", "+=", "+"] else if c == '-' then ["--", "-=", "-"]
  else if c == '*' then ["**=", "**", "*=", "*"]
  else if c == '%' then ["%=", "%"] else if c == '^' then ["^=", "^"]
  else if c == '~' then ["~"] else if c == '@' then ["@"]
  else []

/-- The longest mark at the head of the characters.  A question mark and a
dot before a digit are two marks. -/
def mark? (chars : List Char) : Option String :=
  match chars with
  | [] => none
  | c :: _ =>
    match chars with
    | '?' :: '.' :: digit :: _ =>
      if NameChars.isAsciiDigit digit then some "?" else some "?."
    | _ => (marksFrom c).find? (fun mark => mark.toList.isPrefixOf chars)

/-! ## Reading a token -/

/-- Reads the token at the head of the characters, no blank being left before
it. -/
def read (start : Nat) (newline : Bool) (position : Nat) (chars : List Char) : Token :=
  let make (kind : TokenKind) (count : Nat) (rest : List Char) : Token :=
    ⟨kind, start, position + count, newline, position, chars, rest⟩
  match chars with
  | [] => make .endOfText 0 []
  | c :: rest =>
    let invalid := make .invalid 1 rest
    if NameChars.canStart c || c == '\\' then
      let word := scanWord none [] 0 false chars
      if word.isName then
        make (.word (String.ofList word.name) word.escaped) word.count word.rest
      else invalid
    else if NameChars.isAsciiDigit c || (c == '.' && (rest.head?.any NameChars.isAsciiDigit)) then
      let joins (d : Char) : Bool :=
        NameChars.canStart d || NameChars.isAsciiDigit d || d == '\\'
      match scanNumber chars with
      | some (count, after) =>
        if after.head?.any joins then invalid else make .number count after
      | none => invalid
    else if c == '"' || c == '\'' then
      match scanString c {} 0 1 rest with
      | some (value, count, after) => make (.string (String.ofList value)) count after
      | none => invalid
    else if c == backquote then
      match scanTemplate true 1 rest with
      | some piece => make piece.kind piece.count piece.rest
      | none => invalid
    else if c == '#' then
      let word := scanWord none [] 1 false rest
      if word.isName then make (.privateName (String.ofList word.name)) word.count word.rest
      else invalid
    else
      match mark? chars with
      | some mark => make (.mark mark) mark.length (chars.drop mark.length)
      | none => invalid

/-- Reads the next token after blanks and comments. -/
def scan (position : Nat) (chars : List Char) : Token :=
  let gap := skipGap .blank 0 position (position == 0) none chars
  let start := gap.markupComment.getD gap.position
  if gap.closed then read start gap.newline gap.position gap.rest
  else ⟨.invalid, start, gap.position, gap.newline, gap.position, gap.rest, gap.rest⟩

/-- Reads a regular expression from where a slash was read. -/
def rescanPattern (token : Token) : Token :=
  match token.here with
  | _ :: rest =>
    match scanPattern false 1 rest with
    | some (count, after) =>
      let (count, after) := spanCount NameChars.canContinue count after
      ⟨.pattern, token.start, token.origin + count, token.newlineBefore, token.origin, token.here,
        after⟩
    | none => { token with kind := .invalid }
  | [] => { token with kind := .invalid }

/-- Reads the next piece of a template from its closing brace. -/
def rescanTemplate (token : Token) : Token :=
  match scanTemplate true 1 (token.here.drop 1) with
  | some piece =>
    ⟨piece.kind, token.start, token.origin + piece.count, token.newlineBefore, token.origin,
      token.here, piece.rest⟩
  | none => { token with kind := .invalid }

/-- Keeps the first character of a mark and leaves the others unread. -/
def firstOfMark (token : Token) : Token :=
  match token.here with
  | c :: rest => ⟨.mark (String.singleton c), token.start, token.origin + 1, token.newlineBefore,
      token.origin, token.here, rest⟩
  | [] => token

/-- Reads what stands between the tags of a markup element: text, or the mark
that ends it. -/
def scanMarkup (position : Nat) (chars : List Char) : Token :=
  match chars with
  | [] => ⟨.endOfText, position, position, false, position, [], []⟩
  | c :: rest =>
    if c == '<' || c == '\x7b' then
      ⟨.mark (String.singleton c), position, position + 1, false, position, chars, rest⟩
    else
      let (count, after) := spanCount (fun d => d != '<' && d != '\x7b') 0 chars
      ⟨.markupText, position, position + count, false, position, chars, after⟩

/-- The characters of a name of a markup element. -/
def isMarkupNameChar (c : Char) : Bool := NameChars.canContinue c || c == '-'

/-- Extends a word to a name of a markup element, which may hold hyphens.  A
word that starts with an escape stays as it is. -/
def rescanMarkupName (token : Token) : Token :=
  match token.kind with
  | .word _ _ =>
    let (count, after) := spanCount isMarkupNameChar 0 token.here
    if count == 0 then token
    else
      ⟨.word (String.ofList (token.here.take count)) false, token.start, token.origin + count,
        token.newlineBefore, token.origin, token.here, after⟩
  | _ => token

/-- Reads the value of a markup attribute, where a quoted text has no
escapes and may hold line ends. -/
def scanMarkupValue (position : Nat) (chars : List Char) : Token :=
  let token := scan position chars
  match token.here with
  | quote :: rest =>
    if quote == '"' || quote == '\'' then
      let (count, after) := spanCount (· != quote) 1 rest
      match after with
      | _ :: further =>
        ⟨.string (String.ofList (rest.take (count - 1))), token.start, token.origin + count + 1,
          token.newlineBefore, token.origin, token.here, further⟩
      | [] => { token with kind := .invalid }
    else token
  | [] => token

end Token

end SdkMigration
