import Mathlib
import ScriptHost.Proofs.Program.Accepted
import ScriptHost.Proofs.Program.Listing
import ScriptHost.Proofs.Program.Restored
import ScriptHost.Proofs.Program.Spelling

/-!
Reading undoes writing. The program of an accepted text can be written out in full, and every text
of these words is read as the same program again, apart from its spans, unless its parentheses nest
too deeply.
-/

namespace ScriptHost

/-- Every word of a listing is said by one of the tokens that are listed. -/
theorem Lists.exists_token {used : List Token} {words : List Word} (h : Lists used words) {w : Word}
    (hw : w ∈ words) : ∃ t ∈ used, t.Says w := by
  unfold Lists at h
  generalize hfiltered : used.filter (·.kind.isListed) = listed at h
  have hsubset : listed ⊆ used := hfiltered ▸ List.filter_subset_self _
  clear hfiltered
  induction h with
  | nil => cases hw
  | cons hhead _ ih =>
      obtain ⟨hfirst, hrest⟩ := List.cons_subset.mp hsubset
      rcases List.mem_cons.mp hw with rfl | hw
      · exact ⟨_, hfirst, hhead⟩
      · exact ih hw hrest

theorem exists_pieces {words : List Word} (h : ∀ w ∈ words, ∃ piece, w.Spelled piece) :
    ∃ pieces, List.Forall₂ Word.Spelled words pieces := by
  induction words with
  | nil => exact ⟨[], .nil⟩
  | cons w words ih =>
      obtain ⟨⟨piece, hpiece⟩, hrest⟩ := List.forall_mem_cons.mp h
      obtain ⟨pieces, hpieces⟩ := ih hrest
      exact ⟨piece :: pieces, .cons hpiece hpieces⟩

/-- Pieces spelled for sound words are scanned to tokens that say them. -/
theorem exists_tokens_of_spelled {words : List Word} {pieces : List (List Char)}
    (hsound : ∀ w ∈ words, w.Sound) (h : List.Forall₂ Word.Spelled words pieces) :
    ∃ tokens : List Token,
      List.Forall₂ (fun piece t => ScansAlone piece t.kind t.lexeme.toList) pieces tokens ∧
      List.Forall₂ Token.Says tokens words := by
  induction h with
  | nil => exact ⟨[], .nil, .nil⟩
  | cons hspelled _ ih =>
      obtain ⟨hfirst, hrest⟩ := List.forall_mem_cons.mp hsound
      obtain ⟨t, hscan, hmeant⟩ := hfirst _ hspelled
      obtain ⟨tokens, hscans, hall⟩ := ih hrest
      exact ⟨t :: tokens, .cons hscan hscans, .cons hmeant hall⟩

theorem Token.Says.sameText {t u : Token} {w : Word} (h : t.Says w) (hsame : t.SameText u) :
    u.Says w := by
  obtain ⟨kind, lexeme, span⟩ := t
  obtain ⟨kind', lexeme', span'⟩ := u
  obtain ⟨rfl, rfl⟩ := hsame
  cases h with
  | sign => exact .sign
  | name hkind => exact .name hkind
  | property hkind => exact .property hkind
  | key hkind => exact .key hkind
  | string hkind => exact .string hkind
  | number hkind hvalue => exact .number hkind hvalue

theorem says_of_sameText {tokens tokens' : List Token} {words : List Word}
    (h : List.Forall₂ Token.Says tokens words)
    (hsame : List.Forall₂ Token.SameText tokens tokens') :
    List.Forall₂ Token.Says tokens' words := by
  induction hsame generalizing words with
  | nil => exact h
  | cons hhead _ ih =>
      cases h with
      | cons hmeant hrest => exact .cons (hmeant.sameText hhead) (ih hrest)

/-- Tokens that say the words of a proper program hold that program, unless they nest too deeply. -/
theorem programOfTokens_of_says {body : List Stmt} (hproper : Stmt.ProperAll false body)
    {used : List Token} {last : Token}
    (hmeant : List.Forall₂ Token.Says used (Stmt.printedAll body))
    (hlast : last.kind = .endOfText) :
    (∃ body', programOfTokens (used ++ [last]) = .ok body' ∧
      Stmt.bareAll body' = Stmt.bareAll body) ∨
    ∃ d : Diagnostic, programOfTokens (used ++ [last]) = .error d ∧ d.IsTooDeep := by
  obtain ⟨body', hbare, hwrites⟩ := Stmt.restored_printedAll hproper used hmeant
  obtain ⟨least, hleast⟩ := hwrites .endOfText (by simp)
  have hderives := hleast (max maxTreeDepth least) (Nat.le_max_right ..)
  have hwhole := programWithin_of_derives hlast hderives
  rcases programWithin_of_le (Nat.le_max_left ..) hwhole with hread | hdeep
  · exact .inl ⟨body', hread, hbare⟩
  · exact .inr hdeep

/-- Whatever a text compiles to, that program can be written out in full, and every text of it is
read as the same program apart from its spans, or refused for being nested too deeply. -/
theorem restored_of_accepted (source : String) (scratch : TextBuffer) (body : List Stmt)
    (h : (programOfSource source scratch).1 = .ok body) :
    (∃ (pieces : List (List Char)) (text : String),
      List.Forall₂ Word.Spelled (Stmt.printedAll body) pieces ∧ Laid pieces text.toList) ∧
    ∀ (pieces : List (List Char)) (text : String) (other : TextBuffer),
      List.Forall₂ Word.Spelled (Stmt.printedAll body) pieces → Laid pieces text.toList →
        (∃ body', (programOfSource text other).1 = .ok body' ∧
          Stmt.bareAll body' = Stmt.bareAll body) ∨
        ∃ d : Diagnostic, (programOfSource text other).1 = .error d ∧ d.IsTooDeep := by
  obtain ⟨front, stop, htokens, hfront, hderives⟩ := derives_of_programOfSource h
  have hlists : Lists front (Stmt.listingAll body) := hderives.listed
  have hword : ∀ w ∈ Stmt.printedAll body, w.Sound ∧ ∃ piece, w.Spelled piece := by
    intro w hw
    rcases Stmt.writtenAll body w hw with hfixed | ⟨hfree, hlisted⟩
    · exact ⟨Word.sound_of_isFixed hfixed, Word.exists_spelled_of_isFixed hfixed⟩
    · obtain ⟨t, ht, hmeant⟩ := hlists.exists_token hlisted
      obtain ⟨piece, -, hscan⟩ :=
        scansAlone_of_scanFrom htokens t (List.mem_append_left _ ht) (hfront t ht)
      exact (Word.sound_of_says hmeant hscan hfree).imp id fun hspelled => ⟨_, hspelled⟩
  constructor
  · obtain ⟨pieces, hpieces⟩ := exists_pieces fun w hw => (hword w hw).2
    exact ⟨pieces, _, hpieces, laid_spaced pieces⟩
  · intro pieces text other hpieces hlaid
    obtain ⟨tokens, hscans, hmeant⟩ :=
      exists_tokens_of_spelled (fun w hw => (hword w hw).1) hpieces
    obtain ⟨tokens', stop', hscan, hsame⟩ := hlaid.scanFrom hscans 0 other
    have hread : (programOfSource text other).1 =
        programOfTokens (tokens' ++ [.ofEnd stop']) := by
      change (scanFrom text.toList 0 other).1 >>= programOfTokens = _
      rw [hscan]
      rfl
    rw [hread]
    exact programOfTokens_of_says hderives.proper (says_of_sameText hmeant hsame) rfl

/-- A text with statements and expressions of several forms. -/
def roundTripText : String := "if (a) \x7b b.c = -d; \x7d else f('x', \x7bk: e\x7d);"

/-- The program that the text is accepted as. -/
def roundTripBody : List Stmt :=
  [.conditional ⟨0, 40⟩ (.variable ⟨4, 5⟩ "a")
    (.block ⟨7, 20⟩
      [.expression ⟨9, 17⟩
        (.assign ⟨9, 17⟩ (.member ⟨9, 12⟩ (.variable ⟨9, 10⟩ "b") "c")
          (.unary ⟨15, 17⟩ .negate (.variable ⟨16, 17⟩ "d")))])
    (some (.expression ⟨26, 40⟩ (.call ⟨26, 40⟩ (.variable ⟨26, 27⟩ "f")
      [.literal ⟨28, 31⟩ (.string "x"), .object ⟨33, 39⟩ [⟨"k", .variable ⟨37, 38⟩ "e"⟩]])))]

/-- The program written out in full. -/
def roundTripPieces : List (List Char) :=
  ["if", "(", "(", "a", ")", ")", "\x7b", "(", "(", "(", "b", ")", ".", "c", ")", "=", "(", "-",
    "(", "d", ")", ")", ")", ";", "\x7d", "else", "(", "(", "f", ")", "(", "(", "\"x\"", ")", ",",
    "(", "\x7b", "\"k\"", ":", "(", "e", ")", "\x7d", ")", ")", ")", ";"].map String.toList

theorem spelled_roundTripPieces :
    List.Forall₂ Word.Spelled (Stmt.printedAll roundTripBody) roundTripPieces := by
  have hx : Word.Spelled (.string "x") ('"' :: ['x'] ++ ['"']) :=
    .string (.inl rfl) (.plain (by decide) (by decide) (by decide) (by decide) .nil)
  have hk : Word.Spelled (.string "k") ('"' :: ['k'] ++ ['"']) :=
    .string (.inl rfl) (.plain (by decide) (by decide) (by decide) (by decide) .nil)
  repeat' first | exact hx | exact hk | constructor

/-- Written out in full, the program is read as itself again. -/
theorem restored_of_accepted_conditional :
    (programOfSource roundTripText .empty).1 = .ok roundTripBody ∧
    List.Forall₂ Word.Spelled (Stmt.printedAll roundTripBody) roundTripPieces ∧
    Laid roundTripPieces (String.ofList (spaced roundTripPieces)).toList ∧
    ∃ body', (programOfSource (String.ofList (spaced roundTripPieces)) .empty).1 = .ok body' ∧
      Stmt.bareAll body' = Stmt.bareAll roundTripBody := by
  have hbody : (programOfSource roundTripText .empty).1 = .ok roundTripBody := by cbv
  have hlaid := laid_spaced roundTripPieces
  have haccepted :
      (programOfSource (String.ofList (spaced roundTripPieces)) .empty).1.isOk = true := by
    decide +kernel
  refine ⟨hbody, spelled_roundTripPieces, hlaid, ?_⟩
  rcases (restored_of_accepted roundTripText .empty roundTripBody hbody).2 roundTripPieces _ .empty
    spelled_roundTripPieces hlaid with hread | ⟨d, hdeep, -⟩
  · exact hread
  · rw [hdeep] at haccepted
    cases haccepted

end ScriptHost
