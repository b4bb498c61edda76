import Mathlib.Data.List.Forall2
import Mathlib.Data.List.TakeWhile
import ScriptHost.Proofs.Token.Gap
import ScriptHost.Proofs.Token.Scratch

/-!
Texts laid out from tokens. The source text of a token is scanned to that token wherever it stands
before what is apart; so texts that are laid out from the same pieces, whatever separates these, are
scanned to the same tokens.
-/

namespace ScriptHost

variable {text cs rest piece lexeme : List Char} {c : Char} {kind : TokenKind} {offset start : Nat}

/-- The text is scanned to one token and nothing else. -/
inductive ScansAlone : List Char → TokenKind → List Char → Prop
  | intro {c : Char} {cs : List Char} {kind : TokenKind} {lexeme : List Char}
      (hbegin : c ≠ terminator)
      (hskip : ∀ offset, skipGap .blank (c :: cs) offset = .ok (c :: cs, offset))
      (hscan : ∀ offset scratch, (scanToken c cs offset scratch).1 =
        .ok ⟨kind, lexeme, byteLength (c :: cs), []⟩) : ScansAlone (c :: cs) kind lexeme

/-- No gap is in front of what begins a token. -/
theorem skipGap_eq_self_iff :
    skipGap .blank (c :: cs) offset = .ok (c :: cs, offset) ↔
      isBlank c = false ∧ ∀ l, c = '/' → cs ≠ '/' :: l ∧ cs ≠ '*' :: l := by
  constructor
  · intro h
    have hleaves : ∀ {gap : Gap} {text : List Char} {more : Nat}, 0 < more →
        skipGap gap text (offset + more) ≠ .ok (c :: cs, offset) := by
      intro gap text more hmore heq
      obtain ⟨width, hstop, -⟩ := leaves_of_skipGap heq
      omega
    refine ⟨?_, ?_⟩
    · rw [← Bool.not_eq_true]
      intro hblank
      rw [skipGap_of_isBlank hblank] at h
      exact hleaves c.utf8Size_pos h
    · rintro l rfl
      constructor
      · rintro rfl
        exact hleaves (by decide) h
      · rintro rfl
        exact hleaves (by decide) h
  · rintro ⟨hblank, hcomment⟩
    rw [skipGap_blank_cons (fun l hc heq => (hcomment l hc).1 heq)
      (fun l hc heq => (hcomment l hc).2 heq), if_neg (by simp [hblank])]

/-- No gap comes in front of a token from what is apart behind it. -/
theorem skipGap_append_apart (h : skipGap .blank (c :: cs) offset = .ok (c :: cs, offset))
    (hrest : Apart rest) :
    skipGap .blank (c :: (cs ++ rest)) offset = .ok (c :: (cs ++ rest), offset) := by
  obtain ⟨hblank, hcomment⟩ := skipGap_eq_self_iff.mp h
  refine skipGap_eq_self_iff.mpr ⟨hblank, fun l hslash => ⟨fun heq => ?_, fun heq => ?_⟩⟩
  · exact hrest.ne (by decide) (fun l => (hcomment l hslash).1) l heq
  · exact hrest.ne (by decide) (fun l => (hcomment l hslash).2) l heq

/-- What skipping comes to has no gap in front. -/
theorem skipGap_eq_self_of_ok {gap : Gap} (h : skipGap gap text offset = .ok (c :: cs, start))
    (hc : c ≠ terminator) (other : Nat) :
    skipGap .blank (c :: cs) other = .ok (c :: cs, other) := by
  fun_induction skipGap gap text offset with
  | case1 | case6 | case10 | case12 => cases h
  | case2 _ _ ih | case3 _ _ ih | case11 _ _ _ ih | case4 _ _ _ _ _ _ ih | case9 _ _ _ _ _ ih
  | case13 _ _ _ _ _ _ ih | case7 _ _ ih => exact ih h
  | case5 d ds offset hline hblock hblank =>
      cases h
      rw [skipGap_blank_cons hline hblock, if_neg hblank]
  | case8 cs offset =>
      cases h
      exact absurd rfl hc

/-- The kinds that punctuators are scanned to are scanned alone as well. -/
theorem punctuator?_self {spelling : List Char}
    (h : punctuator? text = some (spelling, kind)) :
    punctuator? spelling = some (spelling, kind) := by
  have hall : ∀ p ∈ punctuators, punctuator? p.1 = some p := by decide
  exact hall _ (List.mem_of_find?_eq_some h)

theorem numberTail_self (pointSeen : Bool) (text : List Char) :
    numberTail pointSeen (numberTail pointSeen text).1 = ((numberTail pointSeen text).1, []) := by
  fun_induction numberTail pointSeen text with
  | case1 pointSeen => rfl
  | case2 pointSeen c cs hdigit tail left hrest ih =>
      rw [hrest] at ih
      rw [numberTail.eq_def]
      dsimp only
      rw [if_pos hdigit, ih]
  | case3 pointSeen c cs hdigit hpoint tail left hrest ih =>
      rw [hrest] at ih
      rw [numberTail.eq_def]
      dsimp only
      rw [if_neg hdigit, if_pos hpoint, ih]
  | case4 pointSeen c hdigit hpoint hmark cs tail left hrest ih
  | case5 pointSeen c hdigit hpoint hmark cs tail left hrest ih =>
      rw [hrest] at ih
      rw [numberTail.eq_def]
      dsimp only
      rw [if_neg hdigit, if_neg hpoint, if_pos hmark]
      simp only [ih]
  | case6 pointSeen c hdigit hpoint hmark cs hnoplus hnominus tail left hrest ih =>
      rw [hrest] at ih
      have hfront := numberTail_append pointSeen cs
      rw [hrest] at hfront
      rw [numberTail.eq_def]
      dsimp only
      rw [if_neg hdigit, if_neg hpoint, if_pos hmark]
      split
      · exact (hnoplus _ hfront.symm).elim
      · exact (hnominus _ hfront.symm).elim
      · rw [ih]
  | case7 pointSeen c cs hdigit hpoint hmark => rfl

theorem scanPlain?_self {s : Scanned} (h : scanPlain? c cs = some s) :
    ∃ front, cs = front ++ s.rest ∧ s.width = byteLength (c :: front) ∧
      scanPlain? c front = some { s with rest := [] } := by
  unfold scanPlain? at h ⊢
  split at h
  · rename_i hstart
    cases h
    refine ⟨cs.takeWhile isNamePart, List.takeWhile_append_dropWhile.symm, rfl, ?_⟩
    have hall : ∀ d ∈ cs.takeWhile isNamePart, isNamePart d = true :=
      fun d hd => List.mem_takeWhile_imp hd
    rw [if_pos hstart, List.takeWhile_eq_self_iff.mpr hall, List.dropWhile_eq_nil_iff.mpr hall]
    rfl
  · rename_i hstart
    split at h
    · rename_i hdigit
      cases h
      refine ⟨(numberTail false cs).1, (numberTail_append false cs).symm, rfl, ?_⟩
      rw [if_neg hstart, if_pos hdigit, numberTail_self]
      rfl
    · rename_i hdigit
      obtain ⟨⟨spelling, kind⟩, hp, rfl⟩ := Option.map_eq_some_iff.1 h
      have hself := punctuator?_self hp
      have hwhole := append_drop_of_punctuator? hp
      cases spelling with
      | nil => exact absurd rfl (spelling_ne_nil_of_punctuator? hp)
      | cons d front =>
          obtain ⟨rfl, hrest⟩ := List.cons.inj hwhole
          refine ⟨front, hrest.symm, rfl, ?_⟩
          rw [if_neg hstart, if_neg hdigit, hself]
          simp [Scanned.verbatim]

/-- A string literal that is closed is scanned alone to what it is scanned to before the rest. -/
theorem StringBody.scan_self {quote : Char} (h : (scan quote text).closed = true) :
    ∃ front, text = front ++ (scan quote text).rest ∧
      byteLength front = (scan quote text).width ∧
      scan quote front = { scan quote text with rest := [] } := by
  fun_induction scan quote text with
  | case1 | case2 | case3 | case5 => contradiction
  | case4 c cs hend ih =>
      obtain ⟨front, hfront, hwidth, hself⟩ := ih h
      refine ⟨'\\' :: c :: front, congrArg (fun l => '\\' :: c :: l) hfront, ?_, ?_⟩
      · have hone : '\\'.utf8Size = 1 := by decide
        change '\\'.utf8Size + (c.utf8Size + byteLength front) = 1 + c.utf8Size + _
        rw [hwidth, hone, Nat.add_assoc]
      · rw [scan, if_neg hend, hself]
        rfl
  | case6 cs hlone hescape hend =>
      refine ⟨[quote], rfl, rfl, ?_⟩
      rw [scan, if_neg hend, if_pos rfl]
      · exact fun hc _ => ne_backslash hlone hescape hc
      · exact fun _ _ hc _ => ne_backslash hlone hescape hc
  | case7 c cs hlone hescape hend hquote ih =>
      obtain ⟨front, hfront, hwidth, hself⟩ := ih h
      refine ⟨c :: front, congrArg (c :: ·) hfront, congrArg (c.utf8Size + ·) hwidth, ?_⟩
      rw [scan, if_neg hend, if_neg hquote, hself]
      · rfl
      · exact fun hc _ => ne_backslash hlone hescape hc
      · exact fun _ _ hc _ => ne_backslash hlone hescape hc

theorem scanToken_self {scratch left : TextBuffer} {s : Scanned}
    (h : scanToken c cs offset scratch = (.ok s, left)) :
    ∃ front, cs = front ++ s.rest ∧ s.width = byteLength (c :: front) ∧
      ∀ other scratch, (scanToken c front other scratch).1 = .ok { s with rest := [] } := by
  unfold scanToken at h ⊢
  by_cases hquote : c = '"' ∨ c = '\''
  · rw [if_pos hquote] at h
    dsimp only at h
    by_cases hclosed : (StringBody.scan c cs).closed = true
    · rw [if_pos hclosed] at h
      cases h
      obtain ⟨front, hfront, hwidth, hself⟩ := StringBody.scan_self hclosed
      refine ⟨front, hfront, congrArg (c.utf8Size + ·) hwidth.symm, fun other scratch => ?_⟩
      rw [if_pos hquote, hself]
      dsimp only
      rw [if_pos hclosed]
    · rw [if_neg hclosed] at h
      cases h
  · rw [if_neg hquote] at h
    cases hplain : scanPlain? c cs with
    | none =>
        rw [hplain] at h
        cases h
    | some found =>
        rw [hplain] at h
        cases h
        obtain ⟨front, hfront, hwidth, hself⟩ := scanPlain?_self hplain
        refine ⟨front, hfront, hwidth, fun other scratch => ?_⟩
        rw [if_neg hquote, hself]

/-- What a token takes of a text is scanned alone to that token. -/
theorem scansAlone_of_scanToken {gap : Gap} {scratch left : TextBuffer} {s : Scanned}
    (hgap : skipGap gap text offset = .ok (c :: cs, start)) (hc : c ≠ terminator)
    (hscan : scanToken c cs start scratch = (.ok s, left)) :
    ∃ piece, c :: cs = piece ++ s.rest ∧ byteLength piece = s.width ∧
      ScansAlone piece s.kind s.lexeme := by
  obtain ⟨front, rfl, hwidth, hself⟩ := scanToken_self hscan
  refine ⟨c :: front, rfl, hwidth.symm, .intro hc (fun other => ?_) fun other scratch => ?_⟩
  · obtain ⟨hblank, hcomment⟩ := skipGap_eq_self_iff.mp (skipGap_eq_self_of_ok hgap hc offset)
    refine skipGap_eq_self_iff.mpr ⟨hblank, fun l hslash => ⟨?_, ?_⟩⟩
    · rintro rfl
      exact (hcomment _ hslash).1 rfl
    · rintro rfl
      exact (hcomment _ hslash).2 rfl
  · rw [hself other scratch, ← hwidth]

namespace ScansAlone

/-- Before what is apart, the piece is scanned to its token and the scan goes on after it. -/
theorem scanFrom (h : ScansAlone piece kind lexeme) (hrest : Apart rest) (offset : Nat)
    (scratch other : TextBuffer) :
    (scanFrom (piece ++ rest) offset scratch).1 =
      (ScriptHost.scanFrom rest (offset + byteLength piece) other).1.map
        (⟨kind, String.ofList lexeme, ⟨offset, offset + byteLength piece⟩⟩ :: ·) := by
  obtain ⟨hbegin, hskip, hscan⟩ := h
  rename_i c cs
  have hgap := skipGap_append_apart (hskip offset) hrest
  obtain ⟨left, hleft⟩ : ∃ left, scanToken c cs offset scratch =
      (.ok ⟨kind, lexeme, byteLength (c :: cs), []⟩, left) :=
    ⟨_, Prod.ext (hscan offset scratch) rfl⟩
  rw [List.cons_append, ScriptHost.scanFrom, hgap]
  dsimp only
  rw [if_neg hbegin, scanToken_append_apart hleft hrest]
  dsimp only
  rw [scanFrom_fst_eq _ _ left other]
  rfl

/-- But for a string literal, what is scanned alone is its own lexeme. -/
theorem eq_lexeme (h : ScansAlone piece kind lexeme) (hkind : kind ≠ .string) : piece = lexeme := by
  obtain ⟨-, -, hscan⟩ := h
  have hwhole := lexeme_append_of_scanPlain? (scanPlain?_of_scanToken (hscan 0 .empty) hkind)
  rw [List.append_nil] at hwhole
  exact hwhole.symm

end ScansAlone

/-- What separates two tokens: a blank character and any gap after it. -/
def IsSeparator (text : List Char) : Prop :=
  ∃ c gap, text = c :: gap ∧ isBlank c = true ∧ IsGap gap

/-- The pieces stand one after the other, a separator in front of each; one more separator may stand
behind the last. -/
inductive Trailing : List (List Char) → List Char → Prop
  | nil : Trailing [] []
  | gap {separator : List Char} (h : IsSeparator separator) : Trailing [] separator
  | cons {separator piece text : List Char} {pieces : List (List Char)} (h : IsSeparator separator)
      (hrest : Trailing pieces text) : Trailing (piece :: pieces) (separator ++ piece ++ text)

/-- The pieces stand one after the other with separators between them; a gap may stand in front of
the first and a separator behind the last. -/
inductive Laid : List (List Char) → List Char → Prop
  | nil {gap : List Char} (h : IsGap gap) : Laid [] gap
  | cons {gap piece text : List Char} {pieces : List (List Char)} (h : IsGap gap)
      (hrest : Trailing pieces text) : Laid (piece :: pieces) (gap ++ piece ++ text)

theorem IsSeparator.isGap (h : IsSeparator text) : IsGap text := by
  obtain ⟨c, gap, rfl, hblank, hgap⟩ := h
  exact .blank hblank hgap

theorem IsSeparator.apart (h : IsSeparator text) (rest : List Char) : Apart (text ++ rest) := by
  obtain ⟨c, gap, rfl, hblank, -⟩ := h
  exact apart_cons (.inl hblank) _

theorem Trailing.apart {pieces : List (List Char)} (h : Trailing pieces text) : Apart text := by
  cases h with
  | nil => exact apart_nil
  | gap h =>
      have hapart := h.apart []
      rwa [List.append_nil] at hapart
  | cons h _ =>
      rw [List.append_assoc]
      exact h.apart _

/-- The pieces with a blank in front of each. -/
def spaced (pieces : List (List Char)) : List Char := pieces.flatMap (' ' :: ·)

theorem trailing_spaced (pieces : List (List Char)) : Trailing pieces (spaced pieces) := by
  have hblank : IsSeparator [' '] := ⟨' ', [], rfl, rfl, .nil⟩
  induction pieces with
  | nil => exact .nil
  | cons piece pieces ih => exact .cons hblank ih

theorem laid_spaced (pieces : List (List Char)) :
    Laid pieces (String.ofList (spaced pieces)).toList := by
  have hblank : IsGap [' '] := .blank rfl .nil
  rw [String.toList_ofList]
  cases pieces with
  | nil => exact .nil .nil
  | cons piece pieces => exact .cons hblank (trailing_spaced pieces)

/-- A gap in front makes no token. -/
theorem IsGap.scanFrom {gap : List Char} (h : IsGap gap) (rest : List Char) (offset : Nat)
    (scratch : TextBuffer) :
    scanFrom (gap ++ rest) offset scratch =
      ScriptHost.scanFrom rest (offset + byteLength gap) scratch := by
  rw [ScriptHost.scanFrom, h.skipGap, ← ScriptHost.scanFrom]

theorem IsGap.scanFrom_end {gap : List Char} (h : IsGap gap) (offset : Nat) (scratch : TextBuffer) :
    (ScriptHost.scanFrom gap offset scratch).1 =
      .ok [.ofEnd (offset + byteLength gap)] := by
  rw [← List.append_nil gap, h.scanFrom, ScriptHost.scanFrom]
  rw [List.append_nil]
  rfl

/-- A token of the same kind and lexeme. -/
structure Token.SameText (t u : Token) : Prop where
  kind : u.kind = t.kind
  lexeme : u.lexeme = t.lexeme

/-- Pieces that stand behind separators are scanned to their tokens. -/
theorem Trailing.scanFrom {pieces : List (List Char)} (h : Trailing pieces text)
    {tokens : List Token}
    (hpieces : List.Forall₂ (fun piece t => ScansAlone piece t.kind t.lexeme.toList) pieces tokens)
    (offset : Nat) (scratch : TextBuffer) :
    ∃ (tokens' : List Token) (stop : Nat), (scanFrom text offset scratch).1 =
        .ok (tokens' ++ [.ofEnd stop]) ∧
      List.Forall₂ Token.SameText tokens tokens' := by
  induction h generalizing tokens offset scratch with
  | nil =>
      cases hpieces
      exact ⟨[], _, IsGap.nil.scanFrom_end offset scratch, .nil⟩
  | gap h =>
      cases hpieces
      exact ⟨[], _, h.isGap.scanFrom_end offset scratch, .nil⟩
  | cons h hrest ih =>
      obtain _ | ⟨hpiece, hpieces⟩ := hpieces
      rename_i separator piece text pieces t tokens
      let start := offset + byteLength separator
      obtain ⟨tokens', stop, hscan, hsame⟩ := ih hpieces (start + byteLength piece) scratch
      refine ⟨⟨t.kind, String.ofList t.lexeme.toList, ⟨start, start + byteLength piece⟩⟩ :: tokens',
        stop, ?_, .cons ⟨rfl, String.ofList_toList⟩ hsame⟩
      rw [List.append_assoc, h.isGap.scanFrom,
        hpiece.scanFrom hrest.apart _ scratch scratch, hscan]
      rfl

/-- Pieces that are laid out are scanned to their tokens. -/
theorem Laid.scanFrom {pieces : List (List Char)} (h : Laid pieces text) {tokens : List Token}
    (hpieces : List.Forall₂ (fun piece t => ScansAlone piece t.kind t.lexeme.toList) pieces tokens)
    (offset : Nat) (scratch : TextBuffer) :
    ∃ (tokens' : List Token) (stop : Nat), (scanFrom text offset scratch).1 =
        .ok (tokens' ++ [.ofEnd stop]) ∧
      List.Forall₂ Token.SameText tokens tokens' := by
  cases h with
  | nil h =>
      cases hpieces
      exact ⟨[], _, h.scanFrom_end offset scratch, .nil⟩
  | cons h hrest =>
      obtain _ | ⟨hpiece, hpieces⟩ := hpieces
      rename_i gap piece text pieces t tokens
      let start := offset + byteLength gap
      obtain ⟨tokens', stop, hscan, hsame⟩ :=
        hrest.scanFrom hpieces (start + byteLength piece) scratch
      refine ⟨⟨t.kind, String.ofList t.lexeme.toList, ⟨start, start + byteLength piece⟩⟩ :: tokens',
        stop, ?_, .cons ⟨rfl, String.ofList_toList⟩ hsame⟩
      rw [List.append_assoc, h.scanFrom, hpiece.scanFrom hrest.apart _ scratch scratch, hscan]
      rfl

/-- The piece stands in the text at this place, where the text begins at the offset. -/
def StandsAt (text : List Char) (offset : Nat) (piece : List Char) (place : Span) : Prop :=
  ∃ before after, text = before ++ piece ++ after ∧ place.start = offset + byteLength before ∧
    place.stop = place.start + byteLength piece

theorem eq_of_append_eq_append {before before' rest' : List Char}
    (h : before ++ rest = before' ++ rest') (hlength : byteLength before = byteLength before') :
    before = before' ∧ rest = rest' := by
  have hnil : ∀ {l : List Char}, byteLength l = 0 → l = [] := by
    intro l hl
    cases l with
    | nil => rfl
    | cons c cs =>
        have hsize := c.utf8Size_pos
        rw [byteLength] at hl
        omega
  rcases List.append_eq_append_iff.mp h with ⟨l, rfl, rfl⟩ | ⟨l, rfl, rfl⟩
  · rw [byteLength_append] at hlength
    obtain rfl : l = [] := hnil (by omega)
    simp
  · rw [byteLength_append] at hlength
    obtain rfl : l = [] := hnil (by omega)
    simp

/-- One piece stands at a place. -/
theorem StandsAt.unique {piece' : List Char} {place : Span} (h : StandsAt text offset piece place)
    (h' : StandsAt text offset piece' place) : piece = piece' := by
  obtain ⟨before, after, rfl, hstart, hstop⟩ := h
  obtain ⟨before', after', htext, hstart', hstop'⟩ := h'
  rw [List.append_assoc, List.append_assoc] at htext
  obtain ⟨rfl, hrest⟩ := eq_of_append_eq_append htext (by omega)
  exact (eq_of_append_eq_append hrest (by omega)).1

theorem StandsAt.append {place : Span} (front : List Char)
    (h : StandsAt text (offset + byteLength front) piece place) :
    StandsAt (front ++ text) offset piece place := by
  obtain ⟨before, after, rfl, hstart, hstop⟩ := h
  refine ⟨front ++ before, after, by simp, ?_, hstop⟩
  rw [hstart, byteLength_append, Nat.add_assoc]

/-- The pieces are what stands in the text at the places of the tokens. -/
def ArePieces (text : List Char) (pieces : List (List Char)) (tokens : List Token) : Prop :=
  List.Forall₂ (fun piece t => StandsAt text 0 piece t.span) pieces tokens

/-- What stands in the text at the place of one of its tokens is scanned alone to that token. -/
theorem scansAlone_of_scanFrom {offset : Nat} {scratch : TextBuffer} {tokens : List Token}
    (h : (scanFrom text offset scratch).1 = .ok tokens) :
    ∀ t ∈ tokens, t.kind ≠ .endOfText →
      ∃ piece, StandsAt text offset piece t.span ∧ ScansAlone piece t.kind t.lexeme.toList := by
  fun_induction scanFrom text offset scratch generalizing tokens with
  | case1 | case4 => cases h
  | case2 | case3 =>
      cases h
      intro t ht hkind
      obtain rfl := List.mem_singleton.mp ht
      exact absurd rfl hkind
  | case5 text offset scratch c cs start hgap hc s left hscan token rest left' hrest =>
      rename_i ih
      cases rest with
      | error d => cases h
      | ok rest =>
          cases h
          obtain ⟨front, htext, hstart⟩ : ∃ front, text = front ++ c :: cs ∧
              start = offset + byteLength front := by
            obtain ⟨width, rfl, front, rfl, rfl⟩ := leaves_of_skipGap hgap
            exact ⟨front, rfl, rfl⟩
          obtain ⟨piece, hpiece, hwidth, halone⟩ := scansAlone_of_scanToken hgap hc hscan
          intro t ht hkind
          rcases List.mem_cons.mp ht with rfl | ht
          · refine ⟨piece, ⟨front, s.rest, ?_, hstart, ?_⟩, ?_⟩
            · rw [htext, hpiece, List.append_assoc]
            · exact congrArg (start + ·) hwidth.symm
            · rw [String.toList_ofList]
              exact halone
          · obtain ⟨other, hstands, hother⟩ := ih (congrArg Prod.fst hrest) t ht hkind
            refine ⟨other, ?_, hother⟩
            rw [htext, hpiece, ← List.append_assoc]
            apply StandsAt.append
            rw [byteLength_append, ← Nat.add_assoc, ← hstart, hwidth]
            exact hstands

/-- The tokens of a text before its end have pieces, each of which is scanned alone. -/
theorem scansAlone_of_tokens {scratch : TextBuffer} {front : List Token} {last : Token}
    (h : (scanFrom text 0 scratch).1 = .ok (front ++ [last])) :
    last.kind = .endOfText ∧ last.lexeme = "" ∧
      (∃ pieces, ArePieces text pieces front) ∧
      ∀ pieces, ArePieces text pieces front →
        List.Forall₂ (fun piece t => ScansAlone piece t.kind t.lexeme.toList) pieces front := by
  obtain ⟨front', stop, hsplit, hkind⟩ := exists_front_of_scanFrom h
  obtain ⟨rfl, hlast⟩ := List.append_inj' hsplit rfl
  obtain rfl := List.singleton_inj.mp hlast
  have hpiece : ∀ t ∈ front, ∃ piece, StandsAt text 0 piece t.span ∧
      ScansAlone piece t.kind t.lexeme.toList := fun t ht =>
    scansAlone_of_scanFrom h t (List.mem_append_left _ ht) (hkind t ht)
  clear h hsplit hkind
  refine ⟨rfl, rfl, ?_, ?_⟩
  · induction front with
    | nil => exact ⟨[], .nil⟩
    | cons t front ih =>
        obtain ⟨⟨piece, hstands, -⟩, hrest⟩ := List.forall_mem_cons.mp hpiece
        obtain ⟨pieces, hpieces⟩ := ih hrest
        exact ⟨piece :: pieces, .cons hstands hpieces⟩
  · intro pieces hpieces
    unfold ArePieces at hpieces
    induction hpieces with
    | nil => exact .nil
    | cons hstands _ ih =>
        obtain ⟨⟨other, hother, halone⟩, hrest⟩ := List.forall_mem_cons.mp hpiece
        exact .cons (hstands.unique hother ▸ halone) (ih hrest)

end ScriptHost
