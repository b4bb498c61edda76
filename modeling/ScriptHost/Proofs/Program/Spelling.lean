import ScriptHost.Proofs.Program.Printed
import ScriptHost.Proofs.Token.Layout

/-!
Words as texts. Keywords and marks have their one spelling, a name stands for itself, a string is
written between quotes with escapes, and a number as any number token of its value. Such a text
alone is scanned to one token, which says the word.
-/

namespace ScriptHost

/-- Between these quotes the text is written with escapes for the content. -/
inductive Escaped (quote : Char) : List Char → List Char → Prop
  | nil : Escaped quote [] []
  | plain {c : Char} {content written : List Char} (hescape : c ≠ '\\') (hquote : c ≠ quote)
      (hline : c ≠ '\n') (hend : c ≠ terminator) (h : Escaped quote content written) :
      Escaped quote (c :: content) (c :: written)
  | escape {c : Char} {content written : List Char} (hend : c ≠ terminator)
      (h : Escaped quote content written) :
      Escaped quote (unescape c :: content) ('\\' :: c :: written)

/-- The text is written for the word. -/
inductive Word.Spelled : Word → List Char → Prop
  | keyword (k : Keyword) : Spelled (.sign (.keyword k)) k.spelling.toList
  | mark {spelling : List Char} {kind : TokenKind} (h : (spelling, kind) ∈ punctuators) :
      Spelled (.sign kind) spelling
  | name (text : String) : Spelled (.name text) text.toList
  | property (text : String) : Spelled (.property text) text.toList
  | string {text : String} {quote : Char} {written : List Char}
      (hquote : quote = '"' ∨ quote = '\'') (h : Escaped quote text.toList written) :
      Spelled (.string text) (quote :: written ++ [quote])
  | number {value : Float} {text : List Char} (hscan : ScansAlone text .number text)
      (hvalue : readFloat? text = some value) : Spelled (.number value) text

theorem StringBody.scan_escaped {quote : Char} (hquote : quote = '"' ∨ quote = '\'')
    {content written : List Char} (h : Escaped quote content written) :
    scan quote (written ++ [quote]) = ⟨content, byteLength (written ++ [quote]), [], true⟩ := by
  have hplain : ∀ {c : Char} {cs : List Char}, c ≠ '\\' → scan quote (c :: cs) =
      if c = terminator ∨ c = '\n' then ⟨[], c.utf8Size, cs, false⟩
      else if c = quote then ⟨[], c.utf8Size, cs, true⟩
      else (scan quote cs).cons c c.utf8Size := by
    intro c cs hc
    rw [scan]
    · exact fun heq _ => hc heq
    · exact fun _ _ heq _ => hc heq
  induction h with
  | nil =>
      have hescape : quote ≠ '\\' := by rcases hquote with rfl | rfl <;> decide
      have hend : ¬ (quote = terminator ∨ quote = '\n') := by
        rcases hquote with rfl | rfl <;> decide
      rw [List.nil_append, hplain hescape, if_neg hend, if_pos rfl]
      rfl
  | plain hescape hquote' hline hend _ ih =>
      rw [List.cons_append, hplain hescape, if_neg (by simp [hend, hline]), if_neg hquote', ih]
      rfl
  | @escape c content written hend _ ih =>
      have hone : '\\'.utf8Size = 1 := by decide
      rw [List.cons_append, List.cons_append, scan, if_neg hend, ih]
      change StringBody.mk (unescape c :: content) _ [] true = _
      congr 1
      rw [byteLength, byteLength, hone, Nat.add_assoc]

theorem exists_escaped {quote : Char} (hquote : quote = '"' ∨ quote = '\'') (content : List Char) :
    ∃ written, Escaped quote content written := by
  have hescaped : ∀ c : Char, (c ≠ '\\' ∧ c ≠ quote ∧ c ≠ '\n' ∧ c ≠ terminator) ∨
      ∃ d, unescape d = c ∧ d ≠ terminator := by
    intro c
    by_cases hescape : c = '\\'
    · subst hescape
      exact .inr ⟨'\\', rfl, by decide⟩
    · by_cases hline : c = '\n'
      · subst hline
        exact .inr ⟨'n', rfl, by decide⟩
      · by_cases hend : c = terminator
        · subst hend
          exact .inr ⟨'0', rfl, by decide⟩
        · by_cases hsame : c = quote
          · subst hsame
            refine .inr ⟨c, ?_, hend⟩
            rcases hquote with rfl | rfl <;> rfl
          · exact .inl ⟨hescape, hsame, hline, hend⟩
  induction content with
  | nil => exact ⟨[], .nil⟩
  | cons c cs ih =>
      obtain ⟨written, h⟩ := ih
      rcases hescaped c with ⟨hescape, hsame, hline, hend⟩ | ⟨d, rfl, hd⟩
      · exact ⟨c :: written, .plain hescape hsame hline hend h⟩
      · exact ⟨'\\' :: d :: written, .escape hd h⟩

/-- The word is scanned to what says it, however it is spelled. -/
def Word.Sound (w : Word) : Prop :=
  ∀ piece, w.Spelled piece → ∃ t : Token, ScansAlone piece t.kind t.lexeme.toList ∧ t.Says w

theorem scansAlone_keyword (k : Keyword) :
    ScansAlone k.spelling.toList (.keyword k) k.spelling.toList := by
  cases k <;> exact .intro (by decide) (fun _ => rfl) fun _ _ => rfl

theorem scansAlone_mark : ∀ p ∈ punctuators, ScansAlone p.1 p.2 p.1 := by
  simp only [punctuators, List.forall_mem_cons]
  and_intros
  all_goals first
    | exact .intro (by decide) (fun _ => rfl) fun _ _ => rfl
    | exact List.forall_mem_nil _

theorem scansAlone_string {quote : Char} (hquote : quote = '"' ∨ quote = '\'')
    {content written : List Char} (h : Escaped quote content written) :
    ScansAlone (quote :: written ++ [quote]) .string content := by
  rw [List.cons_append]
  have hend : quote ≠ terminator := by rcases hquote with rfl | rfl <;> decide
  refine .intro hend (fun offset => ?_) fun offset scratch => ?_
  · refine skipGap_eq_self_iff.mpr ⟨?_, fun l hslash => ?_⟩
    · rcases hquote with rfl | rfl <;> decide
    · rcases hquote with rfl | rfl <;> cases hslash
  · unfold scanToken
    rw [if_pos hquote, StringBody.scan_escaped hquote h]
    rfl

namespace Word

theorem sound_sign (kind : TokenKind) : (Word.sign kind).Sound := by
  intro piece h
  cases h with
  | keyword k => exact ⟨⟨.keyword k, k.spelling, ⟨0, 0⟩⟩, scansAlone_keyword k, .sign⟩
  | mark h =>
      refine ⟨⟨kind, String.ofList piece, ⟨0, 0⟩⟩, ?_, .sign⟩
      rw [String.toList_ofList]
      exact scansAlone_mark _ h

theorem sound_string (text : String) : (Word.string text).Sound := by
  intro piece h
  cases h with
  | string hquote h => exact ⟨⟨.string, text, ⟨0, 0⟩⟩, scansAlone_string hquote h, .string rfl⟩

theorem sound_number (value : Float) : (Word.number value).Sound := by
  intro piece h
  cases h with
  | number hscan hvalue =>
      refine ⟨⟨.number, String.ofList piece, ⟨0, 0⟩⟩, ?_, .number rfl ?_⟩
      · rw [String.toList_ofList]
        exact hscan
      · rw [String.toList_ofList]
        exact hvalue

theorem sound_of_isFixed {w : Word} (h : w.isFixed = true) : w.Sound := by
  cases w with
  | sign kind => exact sound_sign kind
  | string text => exact sound_string text
  | name | property | key | number => cases h

/-- What a token says that is scanned alone is spelled as the token is. -/
theorem sound_of_says {w : Word} {t : Token} {piece : List Char} (ht : t.Says w)
    (hscan : ScansAlone piece t.kind t.lexeme.toList) (hfree : w.isFree = true) :
    w.Sound ∧ w.Spelled t.lexeme.toList := by
  have hself : t.kind ≠ .string → ScansAlone t.lexeme.toList t.kind t.lexeme.toList := by
    intro hkind
    rw [hscan.eq_lexeme hkind] at hscan
    exact hscan
  cases ht with
  | sign | string | key => cases hfree
  | name hkind =>
      refine ⟨fun other h => ?_, .name _⟩
      cases h
      exact ⟨t, hself (by simp [hkind]), .name hkind⟩
  | property hkind =>
      refine ⟨fun other h => ?_, .property _⟩
      cases h
      refine ⟨t, hself ?_, .property hkind⟩
      intro heq
      rw [heq] at hkind
      cases hkind
  | number hkind hvalue =>
      have halone := hself (by simp [hkind])
      rw [hkind] at halone
      exact ⟨sound_number _, .number halone hvalue⟩

theorem exists_spelled_sign {kind : TokenKind} (h : kind.isMark = true) :
    ∃ piece, (Word.sign kind).Spelled piece := by
  have hall : (∃ k, kind = .keyword k) ∨ ∃ p ∈ punctuators, p.2 = kind := by
    cases kind with
    | keyword k => exact .inl ⟨k, rfl⟩
    | identifier | number | string | endOfText => cases h
    | _ => exact .inr (by decide)
  rcases hall with ⟨k, rfl⟩ | ⟨⟨spelling, kind⟩, hmem, rfl⟩
  · exact ⟨_, .keyword k⟩
  · exact ⟨spelling, .mark hmem⟩

theorem exists_spelled_of_isFixed {w : Word} (h : w.isFixed = true) : ∃ piece, w.Spelled piece := by
  cases w with
  | sign kind => exact exists_spelled_sign h
  | string text =>
      obtain ⟨written, hwritten⟩ := exists_escaped (.inl rfl) text.toList
      exact ⟨_, .string (.inl rfl) hwritten⟩
  | name | property | key | number => cases h

end Word

end ScriptHost
