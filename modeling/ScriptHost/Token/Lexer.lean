import ScriptHost.Text.Alphanumeric
import ScriptHost.Text.Blank
import ScriptHost.Text.Buffer
import ScriptHost.Text.Diagnostic
import ScriptHost.Token.Basic

/-!
From text to tokens. Blank characters and comments separate tokens; scanning stops at the end of
the text or at its first terminator. The content of a string literal is assembled in a text buffer
of the caller, which afterwards holds the content of the last literal begun, complete or not.
-/

namespace ScriptHost

/-- What is being skipped: nothing yet, a line comment, or a block comment and where it began. -/
inductive Gap
  | blank
  | lineComment
  | blockComment (start : Nat)

/-- Skips blanks and comments from offset `offset` on, up to a token or the end of the text. -/
def skipGap : Gap → List Char → Nat → Except Diagnostic (List Char × Nat)
  | .blank, [], offset => .ok ([], offset)
  | .blank, '/' :: '/' :: cs, offset => skipGap .lineComment cs (offset + 2)
  | .blank, '/' :: '*' :: cs, offset => skipGap (.blockComment offset) cs (offset + 2)
  | .blank, c :: cs, offset =>
    if isBlank c then skipGap .blank cs (offset + c.utf8Size) else .ok (c :: cs, offset)
  | .lineComment, [], offset => .ok ([], offset)
  | .lineComment, c :: cs, offset =>
    if c = '\n' then skipGap .blank cs (offset + c.utf8Size)
    else if c = terminator then .ok (c :: cs, offset)
    else skipGap .lineComment cs (offset + c.utf8Size)
  | .blockComment start, [], offset =>
    .error ((Diagnostic.ofMessage .lexer "unterminated block comment").locate ⟨start, offset⟩)
  | .blockComment _, '*' :: '/' :: cs, offset => skipGap .blank cs (offset + 2)
  | .blockComment start, c :: cs, offset =>
    if c = terminator then
      .error ((Diagnostic.ofMessage .lexer "unterminated block comment").locate
        ⟨start, offset + c.utf8Size⟩)
    else skipGap (.blockComment start) cs (offset + c.utf8Size)

theorem length_le_of_skipGap {gap : Gap} {text rest : List Char} {offset stop : Nat}
    (h : skipGap gap text offset = .ok (rest, stop)) : rest.length ≤ text.length := by
  fun_induction skipGap gap text offset <;> simp_all <;> omega

/-- Whether a name may begin with this character. -/
def isNameStart (c : Char) : Bool := c.isAlpha || c == '_' || c == '$'

/-- Whether a name may go on with this character. -/
def isNamePart (c : Char) : Bool := isAlphanumeric c || c == '_' || c == '$'

/-- The part of a number after its first digit, and what follows: digits, at most one point, and
any number of exponent marks, each with a sign or without. -/
def numberTail (pointSeen : Bool) : List Char → List Char × List Char
  | [] => ([], [])
  | c :: cs =>
    if c.isDigit then
      let (tail, rest) := numberTail pointSeen cs
      (c :: tail, rest)
    else if c = '.' ∧ pointSeen = false then
      let (tail, rest) := numberTail true cs
      (c :: tail, rest)
    else if c = 'e' ∨ c = 'E' then
      match cs with
      | '+' :: cs =>
        let (tail, rest) := numberTail pointSeen cs
        (c :: '+' :: tail, rest)
      | '-' :: cs =>
        let (tail, rest) := numberTail pointSeen cs
        (c :: '-' :: tail, rest)
      | cs =>
        let (tail, rest) := numberTail pointSeen cs
        (c :: tail, rest)
    else ([], c :: cs)

theorem numberTail_append (pointSeen : Bool) (text : List Char) :
    (numberTail pointSeen text).1 ++ (numberTail pointSeen text).2 = text := by
  fun_induction numberTail pointSeen text <;> simp_all

/-- What a backslash and this character stand for in a string literal. -/
def unescape : Char → Char
  | 'n' => '\n'
  | 'r' => '\r'
  | 't' => '\t'
  | '0' => '\x00'
  | c => c

/-- A string literal after its opening quote: the content read, the bytes taken, what follows, and
whether the closing quote was found. -/
structure StringBody where
  content : List Char
  width : Nat
  rest : List Char
  closed : Bool

namespace StringBody

/-- The body with one more character at its front, written in `width` bytes. -/
def cons (c : Char) (width : Nat) (body : StringBody) : StringBody :=
  { body with content := c :: body.content, width := width + body.width }

/-- Reads up to the closing quote, a line end, a terminator or the end of the text. -/
def scan (quote : Char) : List Char → StringBody
  | [] => ⟨[], 0, [], false⟩
  | ['\\'] => ⟨[], 1, [], false⟩
  | '\\' :: c :: cs =>
    if c = terminator then ⟨[], 2, cs, false⟩
    else (scan quote cs).cons (unescape c) (1 + c.utf8Size)
  | c :: cs =>
    if c = terminator ∨ c = '\n' then ⟨[], c.utf8Size, cs, false⟩
    else if c = quote then ⟨[], c.utf8Size, cs, true⟩
    else (scan quote cs).cons c c.utf8Size

theorem length_rest_scan_le (quote : Char) (text : List Char) :
    (scan quote text).rest.length ≤ text.length := by
  fun_induction scan quote text <;> simp_all [cons] <;> omega

end StringBody

/-- A token scanned at the front of a text: its kind, its lexeme, the bytes it takes and what
follows it. -/
structure Scanned where
  kind : TokenKind
  lexeme : List Char
  width : Nat
  rest : List Char

/-- A token whose lexeme is its source text. -/
def Scanned.verbatim (kind : TokenKind) (text rest : List Char) : Scanned :=
  ⟨kind, text, byteLength text, rest⟩

/-- The kind of a word: reserved, or a name. -/
def wordKind (word : List Char) : TokenKind :=
  match Keyword.ofSpelling? (String.ofList word) with
  | some k => .keyword k
  | none => .identifier

/-- Scans a token other than a string literal that begins with `c`. -/
def scanPlain? (c : Char) (cs : List Char) : Option Scanned :=
  if isNameStart c then
    let word := c :: cs.takeWhile isNamePart
    some (.verbatim (wordKind word) word (cs.dropWhile isNamePart))
  else if c.isDigit then
    let (tail, rest) := numberTail false cs
    some (.verbatim .number (c :: tail) rest)
  else
    (punctuator? (c :: cs)).map fun (spelling, kind) =>
      .verbatim kind spelling ((c :: cs).drop spelling.length)

theorem length_rest_lt_of_scanPlain? {c : Char} {cs : List Char} {s : Scanned}
    (h : scanPlain? c cs = some s) : s.rest.length < (c :: cs).length := by
  unfold scanPlain? at h
  split at h
  · cases h
    have := (cs.dropWhile_suffix isNamePart).length_le
    simp only [Scanned.verbatim, List.length_cons]
    omega
  · split at h
    · cases h
      have := congrArg List.length (numberTail_append false cs)
      simp only [List.length_append] at this
      simp only [Scanned.verbatim, List.length_cons]
      omega
    · obtain ⟨⟨spelling, kind⟩, hp, rfl⟩ := Option.map_eq_some_iff.1 h
      have := List.length_pos_iff.2 (spelling_ne_nil_of_punctuator? hp)
      simp only [Scanned.verbatim, List.length_drop, List.length_cons]
      omega

/-- Scans the token that begins with `c` at `offset`; a string literal leaves its content in the
buffer, also when it is not closed. -/
def scanToken (c : Char) (cs : List Char) (offset : Nat) (scratch : TextBuffer) :
    Except Diagnostic Scanned × TextBuffer :=
  if c = '"' ∨ c = '\'' then
    let body := StringBody.scan c cs
    let width := c.utf8Size + body.width
    let scratch := scratch.assign (String.ofList body.content)
    if body.closed then (.ok ⟨.string, body.content, width, body.rest⟩, scratch)
    else
      let refusal := Diagnostic.ofMessage .lexer "unterminated string literal"
      (.error (refusal.locate ⟨offset, offset + width⟩), scratch)
  else
    match scanPlain? c cs with
    | some s => (.ok s, scratch)
    | none =>
      let message := "unexpected character `" ++ String.singleton c ++ "`"
      let refusal := Diagnostic.ofMessage .lexer message
      (.error (refusal.locate ⟨offset, offset + c.utf8Size⟩), scratch)

theorem length_rest_lt_of_scanToken {c : Char} {cs : List Char} {offset : Nat}
    {scratch left : TextBuffer} {s : Scanned}
    (h : scanToken c cs offset scratch = (.ok s, left)) :
    s.rest.length < (c :: cs).length := by
  unfold scanToken at h
  split at h
  · simp only [] at h
    split at h
    · cases h
      have := StringBody.length_rest_scan_le c cs
      simp only [List.length_cons]
      omega
    · cases h
  · split at h
    · rename_i hs
      cases h
      exact length_rest_lt_of_scanPlain? hs
    · cases h

/-- The tokens from `offset` on, with the buffer as the last string literal left it. -/
def scanFrom (text : List Char) (offset : Nat) (scratch : TextBuffer) :
    Except Diagnostic (List Token) × TextBuffer :=
  match _gap : skipGap .blank text offset with
  | .error d => (.error d, scratch)
  | .ok ([], start) => (.ok [⟨.endOfText, "", ⟨start, start⟩⟩], scratch)
  | .ok (c :: cs, start) =>
    if c = terminator then
      (.ok [⟨.endOfText, "", ⟨start + c.utf8Size, start + c.utf8Size⟩⟩], scratch)
    else
      match _scan : scanToken c cs start scratch with
      | (.error d, scratch) => (.error d, scratch)
      | (.ok s, scratch) =>
        let token : Token := ⟨s.kind, String.ofList s.lexeme, ⟨start, start + s.width⟩⟩
        let (tokens, scratch) := scanFrom s.rest (start + s.width) scratch
        (tokens.map (token :: ·), scratch)
termination_by text.length
decreasing_by
  have := length_le_of_skipGap _gap
  have := length_rest_lt_of_scanToken _scan
  omega

/-- All tokens of a source text, the last of them marking its end. -/
def tokenize (source : String) (scratch : TextBuffer) :
    Except Diagnostic (List Token) × TextBuffer :=
  scanFrom source.toList 0 scratch

end ScriptHost
