set_option autoImplicit false

/-!
# Tokens

A token is a kind, the text it was written with, the value of a literal, and the line it ends on.
The text need not fit the kind: whoever hands tokens to the parser may make them by other means than
reading a source, and the parser goes by the kind alone.
-/

namespace ClassScript

/-! ## Kinds -/

/-- The kinds of tokens: punctuation, operators, literals, keywords, and the end of the source. -/
inductive TokenKind where
  | leftParen
  | rightParen
  | leftBrace
  | rightBrace
  | comma
  | dot
  | minus
  | plus
  | semicolon
  | slash
  | star
  | bang
  | bangEqual
  | equal
  | equalEqual
  | greater
  | greaterEqual
  | less
  | lessEqual
  | identifier
  | string
  | number
  | kwAnd
  | kwClass
  | kwElse
  | kwFalse
  | kwFun
  | kwFor
  | kwIf
  | kwNil
  | kwOr
  | kwPrint
  | kwReturn
  | kwSuper
  | kwThis
  | kwTrue
  | kwVar
  | kwWhile
  | endOfSource
  deriving DecidableEq, Repr, Inhabited

namespace TokenKind

/-- Every kind, in the order of the declaration. -/
def all : List TokenKind :=
  [leftParen, rightParen, leftBrace, rightBrace, comma, dot, minus, plus, semicolon, slash, star,
   bang, bangEqual, equal, equalEqual, greater, greaterEqual, less, lessEqual, identifier, string,
   number, kwAnd, kwClass, kwElse, kwFalse, kwFun, kwFor, kwIf, kwNil, kwOr, kwPrint, kwReturn,
   kwSuper, kwThis, kwTrue, kwVar, kwWhile, endOfSource]

/-- The name under which a kind appears in token listings. -/
def name : TokenKind → String
  | leftParen => "LEFT_PAREN"
  | rightParen => "RIGHT_PAREN"
  | leftBrace => "LEFT_BRACE"
  | rightBrace => "RIGHT_BRACE"
  | comma => "COMMA"
  | dot => "DOT"
  | minus => "MINUS"
  | plus => "PLUS"
  | semicolon => "SEMICOLON"
  | slash => "SLASH"
  | star => "STAR"
  | bang => "BANG"
  | bangEqual => "BANG_EQUAL"
  | equal => "EQUAL"
  | equalEqual => "EQUAL_EQUAL"
  | greater => "GREATER"
  | greaterEqual => "GREATER_EQUAL"
  | less => "LESS"
  | lessEqual => "LESS_EQUAL"
  | identifier => "IDENTIFIER"
  | string => "STRING"
  | number => "NUMBER"
  | kwAnd => "AND"
  | kwClass => "CLASS"
  | kwElse => "ELSE"
  | kwFalse => "FALSE"
  | kwFun => "FUN"
  | kwFor => "FOR"
  | kwIf => "IF"
  | kwNil => "NIL"
  | kwOr => "OR"
  | kwPrint => "PRINT"
  | kwReturn => "RETURN"
  | kwSuper => "SUPER"
  | kwThis => "THIS"
  | kwTrue => "TRUE"
  | kwVar => "VAR"
  | kwWhile => "WHILE"
  | endOfSource => "EOF"

/-- The kind with a given name. -/
def ofName? (s : String) : Option TokenKind :=
  all.find? fun k => k.name == s

/-- Every kind is listed. -/
theorem mem_all (k : TokenKind) : k ∈ all := by
  cases k <;> decide

/-- A kind is found under its own name, so no two kinds share one. -/
theorem ofName?_name (k : TokenKind) : ofName? k.name = some k := by
  cases k <;> decide +kernel

end TokenKind

/-- The sixteen reserved words. -/
def keywords : List (String × TokenKind) :=
  [("and", .kwAnd), ("class", .kwClass), ("else", .kwElse), ("false", .kwFalse), ("fun", .kwFun),
   ("for", .kwFor), ("if", .kwIf), ("nil", .kwNil), ("or", .kwOr), ("print", .kwPrint),
   ("return", .kwReturn), ("super", .kwSuper), ("this", .kwThis), ("true", .kwTrue),
   ("var", .kwVar), ("while", .kwWhile)]

/-- The kind of a word: its keyword if it is reserved, else a name. -/
def wordKind (word : String) : TokenKind :=
  (keywords.lookup word).getD .identifier

/-! ## Tokens -/

/-- The value of a literal that stands in the source. -/
inductive Literal where
  | text (s : String)
  | number (x : Float)
  deriving DecidableEq, Inhabited

/-- A token of the source. -/
structure Token where
  kind : TokenKind
  lexeme : String
  literal : Option Literal
  /-- The line on which the token ends, counted from one. -/
  line : Nat
  deriving DecidableEq, Inhabited

/-- The token that closes a source whose last line is `line`. -/
def Token.closing (line : Nat) : Token where
  kind := .endOfSource
  lexeme := ""
  literal := none
  line := line

end ClassScript
