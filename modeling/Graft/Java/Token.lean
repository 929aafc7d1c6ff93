import Graft.Java.Syntax

/-!
# Tokens

Java source cut into words, literals and signs. Blanks and comments are no
tokens, but a token remembers the documentation comment directly before it: a
block comment that opens with two stars, with nothing but blanks and line
comments in between.
-/

namespace Graft.Java

/-- The kinds of tokens. -/
inductive TokenKind where
  /-- A name or a keyword. -/
  | word
  /-- An integer literal. -/
  | integer
  /-- A floating-point literal. -/
  | floating
  | string
  | character
  /-- An operator, a bracket or another sign. -/
  | sign
  deriving DecidableEq, Repr, Inhabited

/-- A token with its position, the number of its line and the documentation
comment before it. -/
structure Token where
  kind : TokenKind
  text : Text
  start : Nat
  line : Nat
  doc : Option Span
  deriving DecidableEq, Repr, Inhabited

namespace Token

/-- The position behind the token. -/
def stop (t : Token) : Nat := t.start + t.text.length

/-- Whether the token is a given sign. -/
def isSign (t : Token) (sign : Text) : Bool := t.kind == .sign && t.text == sign

/-- Whether the token is a given word. -/
def isWord (t : Token) (word : Text) : Bool := t.kind == .word && t.text == word

end Token

/-- The span from the start of one token to the end of another. -/
def Span.between (first last : Token) : Span := ⟨first.start, last.stop, first.line⟩

/-! ## The length of a lexeme -/

/-- The length of the rest of a block comment, up to and including the sign
that closes it. -/
def blockCommentLength : Text → Nat
  | '*' :: '/' :: _ => 2
  | _ :: rest => blockCommentLength rest + 1
  | [] => 0

/-- The length of the rest of a literal, up to and including the quote
that closes it. -/
def literalLength (quote : Char) : (escaped : Bool) → Text → Nat
  | _, [] => 0
  | true, _ :: rest => literalLength quote false rest + 1
  | false, c :: rest =>
    if c == quote then 1 else literalLength quote (c == '\\') rest + 1

/-- The length of the rest of a text block, up to and including the three quotes
that close it. -/
def textBlockLength : (escaped : Bool) → Text → Nat
  | false, '"' :: '"' :: '"' :: _ => 3
  | false, c :: rest => textBlockLength (c == '\\') rest + 1
  | true, _ :: rest => textBlockLength false rest + 1
  | _, [] => 0

/-- Whether a number with these first characters is written in base 2 or 16. -/
def hasBaseMark : Text → Bool
  | '0' :: c :: _ => c == 'x' || c == 'X' || c == 'b' || c == 'B'
  | _ => false

/-- The length of the rest of a number. `based` numbers have no
decimal exponent; `atSign` says that a sign may follow because an
exponent mark came last. -/
def numberLength (based : Bool) : (atSign : Bool) → Text → Nat
  | _, [] => 0
  | atSign, c :: rest =>
    if c.isAlphanum || c == '_' || c == '.' then
      let marksExponent :=
        c == 'p' || c == 'P' || (!based && (c == 'e' || c == 'E'))
      numberLength based marksExponent rest + 1
    else if atSign && (c == '+' || c == '-') then numberLength based false rest + 1
    else 0

/-- Whether a number is an integer literal: digits with underscores, or digits
of another base behind its mark, and a suffix for long numbers. -/
def isIntegerText (t : Text) : Bool :=
  let body := match t.reverse with
    | 'l' :: rest => rest.reverse
    | 'L' :: rest => rest.reverse
    | _ => t
  match body with
  | '0' :: c :: rest =>
    if c == 'x' || c == 'X' then
      rest.all fun c => c.isDigit || ('a' ≤ c && c ≤ 'f') || ('A' ≤ c && c ≤ 'F') || c == '_'
    else if c == 'b' || c == 'B' then rest.all fun c => c == '0' || c == '1' || c == '_'
    else if c == 'o' || c == 'O' then rest.all fun c => c.isDigit || c == '_'
    else (c :: rest).all fun c => c.isDigit || c == '_'
  | _ => body.all fun c => c.isDigit || c == '_'

/-- The signs that are longer than one character. -/
def longSigns : List Text :=
  List.map String.toList ["...", "::", "->", "++", "--", "==", "<=", "!=", "@interface"]

/-- What stands at the front of a text. -/
inductive LexemeKind where
  | blank
  | lineComment
  | blockComment
  | token (kind : TokenKind)
  deriving DecidableEq, Repr

/-- The kind and the length of the lexeme at the front of a text
that is not empty. -/
def lexeme : Text → LexemeKind × Nat
  | [] => (.blank, 0)
  | c :: rest =>
    if Char.isBlank c then (.blank, 1)
    else match c, rest with
      | '/', '/' :: more => (.lineComment, (more.takeWhile (· != '\n')).length + 2)
      | '/', '*' :: more => (.blockComment, blockCommentLength more + 2)
      | '"', '"' :: '"' :: more => (.token .string, textBlockLength false more + 3)
      | '"', _ => (.token .string, literalLength '"' false rest + 1)
      | '\'', _ => (.token .character, literalLength '\'' false rest + 1)
      | _, _ =>
        let startsNumber := c.isDigit || (c == '.' && (rest.head?.any Char.isDigit))
        if startsNumber then
          let length := numberLength (hasBaseMark (c :: rest)) false rest + 1
          let kind := if isIntegerText ((c :: rest).take length) then .integer else .floating
          (.token kind, length)
        else if Char.startsWord c then
          let word := c :: rest.takeWhile Char.continuesWord
          if word = "non" && ("-sealed".toList).isPrefixOf (rest.drop 2) then (.token .word, 10)
          else (.token .word, word.length)
        else
          match longSigns.find? (·.isPrefixOf (c :: rest)) with
          | some sign => (.token .sign, sign.length)
          | none => (.token .sign, 1)

/-- Reads tokens. The first number bounds the lexemes that are read; position,
line number and documentation comment belong to the place reached. -/
def tokensFrom : Nat → (position line : Nat) → (doc : Option Span) → Text → List Token
  | 0, _, _, _, _ => []
  | _, _, _, _, [] => []
  | n + 1, position, line, doc, t =>
    let (kind, length) := lexeme t
    let text := t.take length
    let rest := t.drop length
    let position' := position + length
    let line' := line + text.count '\n'
    match kind with
    | .blank => tokensFrom n position' line' doc rest
    | .lineComment => tokensFrom n position' line' doc rest
    | .blockComment =>
      let doc' := if ("/**".toList).isPrefixOf text then some ⟨position, position', line⟩ else none
      tokensFrom n position' line' doc' rest
    | .token kind =>
      { kind, text, start := position, line, doc } :: tokensFrom n position' line' none rest

/-- The tokens of a source text. A byte order mark at its front is skipped. -/
def tokens (source : Text) : List Token :=
  match source with
  | '\ufeff' :: rest => tokensFrom rest.length 1 1 none rest
  | _ => tokensFrom source.length 0 1 none source

end Graft.Java
