import ScriptHost.Text.Span

/-!
Tokens of the script language and the spellings of those that have only one.
-/

namespace ScriptHost

/-- The reserved words. -/
inductive Keyword
  | var
  | function
  | return
  | if
  | else
  | while
  | true
  | false
  | null
  | undefined
  | this
  | typeOf
  deriving DecidableEq, Repr

namespace Keyword

/-- All reserved words. -/
def all : List Keyword :=
  [.var, .function, .return, .if, .else, .while, .true, .false, .null, .undefined, .this, .typeOf]

/-- How a reserved word is written. -/
def spelling : Keyword → String
  | .var => "var"
  | .function => "function"
  | .return => "return"
  | .if => "if"
  | .else => "else"
  | .while => "while"
  | .true => "true"
  | .false => "false"
  | .null => "null"
  | .undefined => "undefined"
  | .this => "this"
  | .typeOf => "typeof"

/-- The reserved word written this way, if there is one. -/
def ofSpelling? (word : String) : Option Keyword :=
  all.find? (·.spelling == word)

theorem mem_all (k : Keyword) : k ∈ all := by
  cases k <;> decide

theorem spelling_of_ofSpelling? {word : String} {k : Keyword} (h : ofSpelling? word = some k) :
    k.spelling = word := by
  simpa using List.find?_some h

theorem ofSpelling?_spelling (k : Keyword) : ofSpelling? k.spelling = some k := by
  cases k <;> decide

end Keyword

/-- The kinds of tokens. -/
inductive TokenKind
  | identifier
  | number
  | string
  | keyword (word : Keyword)
  | leftParen
  | rightParen
  | leftBrace
  | rightBrace
  | comma
  | dot
  | colon
  | semicolon
  | assign
  | plus
  | minus
  | star
  | slash
  | percent
  | doubleAmpersand
  | doublePipe
  | bang
  | bangEqual
  | bangEqualEqual
  | equalEqual
  | equalEqualEqual
  | less
  | lessEqual
  | greater
  | greaterEqual
  | endOfText
  deriving DecidableEq, Repr

/-- A token with its place. The lexeme of a string literal is the text it denotes, of any other
token the source text itself. -/
structure Token where
  kind : TokenKind
  lexeme : String
  span : Span
  deriving DecidableEq, Repr

/-- The punctuators, each before those that are a beginning of it. -/
def punctuators : List (List Char × TokenKind) :=
  [(['=', '=', '='], .equalEqualEqual), (['!', '=', '='], .bangEqualEqual),
   (['=', '='], .equalEqual), (['!', '='], .bangEqual), (['<', '='], .lessEqual),
   (['>', '='], .greaterEqual), (['&', '&'], .doubleAmpersand), (['|', '|'], .doublePipe),
   (['('], .leftParen), ([')'], .rightParen), (['{'], .leftBrace), (['}'], .rightBrace),
   ([','], .comma), (['.'], .dot), ([':'], .colon), ([';'], .semicolon), (['='], .assign),
   (['+'], .plus), (['-'], .minus), (['*'], .star), (['/'], .slash), (['%'], .percent),
   (['!'], .bang), (['<'], .less), (['>'], .greater)]

/-- The longest punctuator that the text begins with. -/
def punctuator? (text : List Char) : Option (List Char × TokenKind) :=
  punctuators.find? (·.1.isPrefixOf text)

theorem spelling_ne_nil_of_punctuator? {text spelling : List Char} {kind : TokenKind}
    (h : punctuator? text = some (spelling, kind)) : spelling ≠ [] := by
  have hmem := List.mem_of_find?_eq_some h
  have hall : ∀ p ∈ punctuators, p.1 ≠ [] := by decide
  exact hall _ hmem

theorem append_drop_of_punctuator? {text spelling : List Char} {kind : TokenKind}
    (h : punctuator? text = some (spelling, kind)) :
    spelling ++ text.drop spelling.length = text := by
  have hpre : spelling.isPrefixOf text = true := by simpa using List.find?_some h
  obtain ⟨rest, rfl⟩ := List.isPrefixOf_iff_prefix.1 hpre
  simp

end ScriptHost
