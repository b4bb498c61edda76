import Mathlib.Data.List.Find
import ScriptHost.Proofs.Token.Extent

/-!
Where a token is over. Neither a blank character nor a terminator goes on with a token, whatever the
token is; so before the one or the other, and at the end of the text, a token is scanned without a
look at what follows it.
-/

namespace ScriptHost

/-- The code points of the blank characters. -/
def blankCodes : List Nat :=
  [0x9, 0xA, 0xB, 0xC, 0xD, 0x20, 0x85, 0xA0, 0x1680, 0x2000, 0x2001, 0x2002, 0x2003, 0x2004,
   0x2005, 0x2006, 0x2007, 0x2008, 0x2009, 0x200A, 0x2028, 0x2029, 0x202F, 0x205F, 0x3000]

theorem toNat_mem_blankCodes {c : Char} (h : isBlank c = true) : c.toNat ∈ blankCodes := by
  simp only [isBlank, Bool.or_eq_true, Bool.and_eq_true, decide_eq_true_eq, beq_iff_eq] at h
  simp only [blankCodes, List.mem_cons, List.not_mem_nil]
  omega

theorem isNamePart_of_isBlank {c : Char} (h : isBlank c = true) : isNamePart c = false := by
  have hall : ∀ n ∈ blankCodes, isNamePart (Char.ofNat n) = false := by decide +kernel
  rw [← Char.ofNat_toNat c]
  exact hall _ (toNat_mem_blankCodes h)

/-- No token but a string literal goes on with such a character. -/
def IsStop (c : Char) : Prop := isBlank c = true ∨ c = terminator

namespace IsStop

variable {c d : Char}

theorem isNamePart (h : IsStop c) : isNamePart c = false := by
  rcases h with hblank | rfl
  · exact isNamePart_of_isBlank hblank
  · decide +kernel

theorem ne (h : IsStop c) (hd : isBlank d = false ∧ d ≠ terminator) : c ≠ d := by
  rintro rfl
  rcases h with hblank | hend
  · rw [hd.1] at hblank
    contradiction
  · exact hd.2 hend

theorem isDigit (h : IsStop c) : c.isDigit = false := by
  have hpart := h.isNamePart
  rw [← Bool.not_eq_true]
  intro hdigit
  have hcode : c.toNat < 0x80 := by
    simp only [Char.isDigit, Bool.and_eq_true, decide_eq_true_eq] at hdigit
    have hle := hdigit.2
    rw [UInt32.le_iff_toNat_le] at hle
    exact Nat.lt_of_le_of_lt hle (by decide)
  simp [ScriptHost.isNamePart, isAlphanumeric_of_lt hcode, Char.isAlphanum, hdigit] at hpart

end IsStop

/-- A token before such a text is over: the text is at its end, or a stop comes first. -/
def Apart (rest : List Char) : Prop := ∀ c ∈ rest.head?, IsStop c

theorem apart_nil : Apart [] := by
  simp [Apart]

theorem apart_cons {c : Char} (h : IsStop c) (rest : List Char) : Apart (c :: rest) := by
  simpa [Apart] using h

theorem apart_terminator (rest : List Char) : Apart (terminator :: rest) :=
  apart_cons (.inr rfl) rest

variable {cs rest : List Char} {c : Char}

/-- What does not come next does not come next before a text that is apart. -/
theorem Apart.ne (h : Apart rest) {next : Char} (hnext : isBlank next = false ∧ next ≠ terminator)
    (hcs : ∀ l, cs = next :: l → False) : ∀ l, cs ++ rest = next :: l → False := by
  intro l heq
  cases cs with
  | nil =>
      obtain rfl : rest = next :: l := heq
      exact (h next rfl).ne hnext rfl
  | cons c cs =>
      obtain ⟨rfl, -⟩ := List.cons.inj heq
      exact hcs cs rfl

theorem takeWhile_append_apart {p : Char → Bool} (hp : ∀ c, IsStop c → p c = false)
    (h : Apart rest) (text : List Char) : (text ++ rest).takeWhile p = text.takeWhile p := by
  induction text with
  | nil =>
      cases rest with
      | nil => rfl
      | cons c rest => simp [hp c (h c rfl)]
  | cons c cs ih => simp only [List.cons_append, List.takeWhile_cons, ih]

theorem dropWhile_append_apart {p : Char → Bool} (hp : ∀ c, IsStop c → p c = false)
    (h : Apart rest) (text : List Char) :
    (text ++ rest).dropWhile p = text.dropWhile p ++ rest := by
  induction text with
  | nil =>
      cases rest with
      | nil => rfl
      | cons c rest => simp [hp c (h c rfl)]
  | cons c cs ih =>
      simp only [List.cons_append, List.dropWhile_cons, ih]
      split <;> rfl

theorem numberTail_of_apart (pointSeen : Bool) (h : Apart rest) :
    numberTail pointSeen rest = ([], rest) := by
  cases rest with
  | nil => rfl
  | cons c rest =>
      have hstop : IsStop c := h c rfl
      have hdigit := hstop.isDigit
      have hpoint : c ≠ '.' := hstop.ne (by decide)
      have hmark : c ≠ 'e' := hstop.ne (by decide)
      have hmark' : c ≠ 'E' := hstop.ne (by decide)
      rw [numberTail.eq_def]
      dsimp only
      rw [if_neg (by simp [hdigit]), if_neg (by simp [hpoint]), if_neg (by simp [hmark, hmark'])]

theorem numberTail_append_apart (pointSeen : Bool) (h : Apart rest) (text : List Char) :
    numberTail pointSeen (text ++ rest) =
      ((numberTail pointSeen text).1, (numberTail pointSeen text).2 ++ rest) := by
  fun_induction numberTail pointSeen text with
  | case1 pointSeen => exact numberTail_of_apart pointSeen h
  | case2 pointSeen c cs hdigit tail left hrest ih =>
      rw [List.cons_append, numberTail.eq_def]
      dsimp only
      rw [if_pos hdigit, ih, hrest]
  | case3 pointSeen c cs hdigit hpoint tail left hrest ih =>
      rw [List.cons_append, numberTail.eq_def]
      dsimp only
      rw [if_neg hdigit, if_pos hpoint, ih, hrest]
  | case4 pointSeen c hdigit hpoint hmark cs tail left hrest ih
  | case5 pointSeen c hdigit hpoint hmark cs tail left hrest ih =>
      rw [List.cons_append, List.cons_append, numberTail.eq_def]
      dsimp only
      rw [if_neg hdigit, if_neg hpoint, if_pos hmark]
      simp only [ih, hrest]
  | case6 pointSeen c hdigit hpoint hmark cs hnoplus hnominus tail left hrest ih =>
      rw [List.cons_append, numberTail.eq_def]
      dsimp only
      rw [if_neg hdigit, if_neg hpoint, if_pos hmark]
      split
      · rename_i l heq
        exact (h.ne (by decide) hnoplus l heq).elim
      · rename_i l heq
        exact (h.ne (by decide) hnominus l heq).elim
      · rw [ih, hrest]
  | case7 pointSeen c cs hdigit hpoint hmark =>
      rw [List.cons_append, numberTail.eq_def]
      dsimp only
      rw [if_neg hdigit, if_neg hpoint, if_neg hmark]

theorem isPrefixOf_append_apart {spelling : List Char}
    (hspelling : ∀ d ∈ spelling, isBlank d = false ∧ d ≠ terminator) (h : Apart rest)
    (text : List Char) : spelling.isPrefixOf (text ++ rest) = spelling.isPrefixOf text := by
  induction spelling generalizing text with
  | nil => rfl
  | cons d ds ih =>
      obtain ⟨hd, hds⟩ := List.forall_mem_cons.mp hspelling
      cases text with
      | nil =>
          cases rest with
          | nil => rfl
          | cons c rest => simp [List.isPrefixOf, ((h c rfl).ne hd).symm]
      | cons c cs =>
          simp only [List.cons_append, List.isPrefixOf]
          rw [ih hds]

theorem punctuator?_append_apart (h : Apart rest) (text : List Char) :
    punctuator? (text ++ rest) = punctuator? text := by
  have hall : (punctuators.all fun p => p.1.all fun d => !isBlank d && d != terminator) = true := by
    decide
  simp only [List.all_eq_true, Bool.and_eq_true, Bool.not_eq_true', bne_iff_ne] at hall
  refine List.find?_congr ?_
  intro p hp
  exact isPrefixOf_append_apart (hall p hp) h text

theorem scanPlain?_append_apart (c : Char) (cs : List Char) (h : Apart rest) :
    scanPlain? c (cs ++ rest) =
      (scanPlain? c cs).map fun s => { s with rest := s.rest ++ rest } := by
  have hpart : ∀ d, IsStop d → isNamePart d = false := fun _ hd => hd.isNamePart
  unfold scanPlain?
  rw [takeWhile_append_apart hpart h, dropWhile_append_apart hpart h, numberTail_append_apart _ h]
  split
  · rfl
  · split
    · rfl
    · rw [← List.cons_append, punctuator?_append_apart h]
      cases hfound : punctuator? (c :: cs) with
      | none => rfl
      | some found =>
          have hlength : found.1.length ≤ (c :: cs).length := by
            have hwhole := congrArg List.length (append_drop_of_punctuator? hfound)
            rw [List.length_append] at hwhole
            omega
          simp only [Option.map_some, Scanned.verbatim, List.drop_append_of_le_length hlength]

namespace StringBody

theorem ne_backslash (hlone : c = '\\' → cs = [] → False)
    (hescape : ∀ d l, c = '\\' → cs = d :: l → False) : c ≠ '\\' := by
  intro hc
  cases cs with
  | nil => exact hlone hc rfl
  | cons d l => exact hescape d l hc rfl

/-- A string literal that is closed is the same whatever follows it. -/
theorem scan_append_of_closed {quote : Char} {text : List Char}
    (h : (scan quote text).closed = true) (rest : List Char) :
    scan quote (text ++ rest) =
      { scan quote text with rest := (scan quote text).rest ++ rest } := by
  fun_induction scan quote text with
  | case1 | case2 | case3 | case5 => contradiction
  | case4 c cs hend ih =>
      rw [List.cons_append, List.cons_append, scan, if_neg hend, ih h]
      rfl
  | case6 cs hlone hescape hend =>
      rw [List.cons_append, scan, if_neg hend, if_pos rfl]
      · exact fun hc _ => ne_backslash hlone hescape hc
      · exact fun _ _ hc _ => ne_backslash hlone hescape hc
  | case7 c cs hlone hescape hend hquote ih =>
      rw [List.cons_append, scan, if_neg hend, if_neg hquote, ih h]
      · rfl
      · exact fun hc _ => ne_backslash hlone hescape hc
      · exact fun _ _ hc _ => ne_backslash hlone hescape hc

end StringBody

/-- A token that is scanned at the end of a text is scanned before a text that is apart. -/
theorem scanToken_append_apart {offset : Nat} {scratch left : TextBuffer} {s : Scanned}
    (hscan : scanToken c cs offset scratch = (.ok s, left)) (h : Apart rest) :
    scanToken c (cs ++ rest) offset scratch =
      (.ok { s with rest := s.rest ++ rest }, left) := by
  unfold scanToken at hscan ⊢
  by_cases hquote : c = '"' ∨ c = '\''
  · rw [if_pos hquote] at hscan ⊢
    dsimp only at hscan ⊢
    by_cases hclosed : (StringBody.scan c cs).closed = true
    · rw [if_pos hclosed] at hscan
      cases hscan
      rw [StringBody.scan_append_of_closed hclosed, if_pos hclosed]
    · rw [if_neg hclosed] at hscan
      cases hscan
  · rw [if_neg hquote] at hscan ⊢
    rw [scanPlain?_append_apart c cs h]
    cases hplain : scanPlain? c cs with
    | none =>
        rw [hplain] at hscan
        cases hscan
    | some found =>
        rw [hplain] at hscan
        cases hscan
        rfl

end ScriptHost
