import ScriptHost.Token.Lexer

/-!
Texts for given tokens. Some kinds of tokens are written as words of their own; words with blanks
between them are scanned to tokens of just these kinds.
-/

namespace ScriptHost

/-- Kinds of tokens, each with the characters of a word for it. -/
def words : List (TokenKind × Char × List Char) :=
  [(.keyword .var, 'v', ['a', 'r']), (.identifier, 'x', []), (.assign, '=', []),
   (.semicolon, ';', []), (.leftBrace, '{', []), (.colon, ':', []), (.rightBrace, '}', []),
   (.dot, '.', []), (.doublePipe, '|', ['|']), (.doubleAmpersand, '&', ['&']),
   (.equalEqual, '=', ['=']), (.lessEqual, '<', ['=']), (.plus, '+', []), (.star, '*', [])]

/-- The kinds of tokens that there are words for. -/
def vocabulary : List TokenKind := words.map Prod.fst

/-- Before a blank the word is scanned to a token of this kind. -/
structure Spells (kind : TokenKind) (first : Char) (others : List Char) : Prop where
  begins : first ≠ terminator
  skipped : ∀ (after : List Char) (start : Nat),
    skipGap .blank (first :: others ++ ' ' :: after) start =
      .ok (first :: others ++ ' ' :: after, start)
  scanned : ∀ (after : List Char) (start : Nat) (scratch : TextBuffer),
    scanToken first (others ++ ' ' :: after) start scratch =
      (.ok (.verbatim kind (first :: others) (' ' :: after)), scratch)

theorem spells_of_mem_words : ∀ word ∈ words, Spells word.1 word.2.1 word.2.2 := by
  simp only [words, List.forall_mem_cons]
  refine ⟨?_, ?_, ?_, ?_, ?_, ?_, ?_, ?_, ?_, ?_, ?_, ?_, ?_, ?_, List.forall_mem_nil _⟩
  all_goals exact ⟨by decide, fun _ _ => rfl, fun _ _ _ => rfl⟩

/-- Any kinds that there are words for are the kinds of the tokens of some text. -/
theorem exists_text_of_subset {kinds : List TokenKind} (h : kinds ⊆ vocabulary) :
    ∃ text : List Char, ∀ (gap : List Char) (offset start : Nat) (scratch : TextBuffer),
      skipGap .blank gap offset = skipGap .blank text start →
        ∃ tokens : List Token, (scanFrom gap offset scratch).1 = .ok tokens ∧
          tokens.map Token.kind = kinds ++ [.endOfText] := by
  induction kinds with
  | nil =>
      refine ⟨[], ?_⟩
      intro gap offset start scratch hgap
      rw [scanFrom, hgap]
      exact ⟨_, rfl, rfl⟩
  | cons kind kinds ih =>
      obtain ⟨hkind, hkinds⟩ := List.cons_subset.mp h
      obtain ⟨text, hscan⟩ := ih hkinds
      obtain ⟨⟨_, first, others⟩, hword, rfl⟩ := List.mem_map.mp hkind
      have hspells := spells_of_mem_words _ hword
      refine ⟨first :: others ++ ' ' :: text, ?_⟩
      intro gap offset start scratch hgap
      rw [scanFrom, hgap, hspells.skipped, List.cons_append]
      dsimp only
      rw [if_neg hspells.begins, hspells.scanned]
      dsimp only [Scanned.verbatim]
      obtain ⟨tokens, htokens, hwords⟩ :=
        hscan (' ' :: text) (start + byteLength (first :: others)) _ scratch rfl
      rw [htokens]
      exact ⟨_, rfl, congrArg _ hwords⟩

end ScriptHost
