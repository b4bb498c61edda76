import ScriptHost.Proofs.Program.Terminated

/-!
Every string has a literal. It is written between quotes, with a backslash before the quote and the
backslash and with letters for the newline and the terminator, and that text is scanned to one token
that denotes the string. So the literals in a text can all be written in this one way.
-/

namespace ScriptHost

/-- How a character is written between these quotes. -/
def escapeChar (quote c : Char) : List Char :=
  if c = quote ∨ c = '\\' then ['\\', c]
  else if c = '\n' then ['\\', 'n']
  else if c = terminator then ['\\', '0']
  else [c]

/-- The literal that denotes a string, between these quotes. -/
def literalOf (quote : Char) (text : String) : String :=
  String.ofList (quote :: text.toList.flatMap (escapeChar quote) ++ [quote])

variable {quote c : Char} {content written piece lexeme : List Char}

theorem toList_literalOf (quote : Char) (text : String) :
    (literalOf quote text).toList =
      quote :: text.toList.flatMap (escapeChar quote) ++ [quote] :=
  String.toList_ofList

theorem Escaped.escapeChar (hquote : quote = '"' ∨ quote = '\'') (c : Char)
    (h : Escaped quote content written) :
    Escaped quote (c :: content) (ScriptHost.escapeChar quote c ++ written) := by
  unfold ScriptHost.escapeChar
  split
  · rename_i hmarked
    have hself : unescape c = c ∧ c ≠ terminator := by
      rcases hmarked with rfl | rfl
      · rcases hquote with rfl | rfl <;> decide
      · decide
    have hescaped := h.escape hself.2
    rwa [hself.1] at hescaped
  · rename_i hplain
    obtain ⟨hsame, hbackslash⟩ := not_or.mp hplain
    split
    · rename_i hline
      subst hline
      exact h.escape (c := 'n') (by decide)
    · rename_i hline
      split
      · rename_i hend
        subst hend
        exact h.escape (c := '0') (by decide)
      · rename_i hend
        exact h.plain hbackslash hsame hline hend

/-- Character by character, what is written for a string is written with escapes for it. -/
theorem escaped_flatMap (hquote : quote = '"' ∨ quote = '\'') (content : List Char) :
    Escaped quote content (content.flatMap (escapeChar quote)) := by
  induction content with
  | nil => exact .nil
  | cons c cs ih =>
      rw [List.flatMap_cons]
      exact ih.escapeChar hquote c

/-- The literal of a string is scanned to one token that denotes it. -/
theorem tokenize_literalOf (hquote : quote = '"' ∨ quote = '\'') (text : String)
    (scratch : TextBuffer) :
    (tokenize (literalOf quote text) scratch).1 =
      .ok [⟨.string, text, ⟨0, byteLength (literalOf quote text).toList⟩⟩,
        .ofEnd (byteLength (literalOf quote text).toList)] := by
  have halone := scansAlone_string hquote (escaped_flatMap hquote text.toList)
  have htokens := halone.tokenize_eq scratch
  rw [String.ofList_toList] at htokens
  rw [toList_literalOf]
  exact htokens

/-- A piece that is scanned to a string token is written with escapes between quotes. -/
theorem exists_escaped_of_scansAlone (h : ScansAlone piece .string lexeme) :
    ∃ quote written, (quote = '"' ∨ quote = '\'') ∧ piece = quote :: written ++ [quote] ∧
      Escaped quote lexeme written := by
  obtain @⟨quote, cs, _, _, -, -, hscan⟩ := h
  have htoken := hscan 0 .empty
  unfold scanToken at htoken
  split at htoken
  · rename_i hquote
    dsimp only at htoken
    split at htoken
    · rename_i hclosed
      obtain ⟨written, after, hcs, hescaped, hafter⟩ :=
        StringBody.exists_escaped_scan quote cs
      obtain ⟨-, hcontent, -, hrest⟩ := Scanned.mk.inj (Except.ok.inj htoken)
      rw [if_pos hclosed, hrest] at hafter
      rw [hcontent] at hescaped
      exact ⟨quote, written, hquote, by rw [hcs, hafter, List.cons_append], hescaped⟩
    · cases htoken
  · split at htoken
    · rename_i hplain
      obtain rfl := Except.ok.inj htoken
      exact absurd rfl (kind_ne_of_scanPlain? hplain).1
    · cases htoken

/-- Where a string token stands in a text, its content is written with escapes between quotes. -/
theorem exists_escaped_of_tokenize {source : String} {scratch : TextBuffer} {tokens : List Token}
    {t : Token} (h : (tokenize source scratch).1 = .ok tokens) (ht : t ∈ tokens)
    (hkind : t.kind = .string) :
    ∃ quote written, (quote = '"' ∨ quote = '\'') ∧
      slice? source.toList t.span = some (quote :: written ++ [quote]) ∧
      Escaped quote t.lexeme.toList written := by
  obtain ⟨front, stop, rfl, hkinds, -, hscan⟩ := scanFrom_scannable h
  have hfront : t ∈ front := by
    rcases List.mem_append.mp ht with hfront | hlast
    · exact hfront
    · obtain rfl := List.mem_singleton.mp hlast
      cases hkind
  obtain ⟨piece, hslice, halone⟩ := exists_slice?_of_scannable hscan hfront (hkinds t hfront)
  rw [hkind] at halone
  obtain ⟨quote, written, hquote, rfl, hescaped⟩ := exists_escaped_of_scansAlone halone
  exact ⟨quote, written, hquote, hslice, hescaped⟩

end ScriptHost
