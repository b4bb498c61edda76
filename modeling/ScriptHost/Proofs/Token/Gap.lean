import Mathlib.Data.List.Infix
import ScriptHost.Proofs.Token.Apart

/-!
What may stand between tokens: blank characters and complete comments, in any order. A gap is
skipped up to whatever follows it.
-/

namespace ScriptHost

variable {text cs after : List Char} {c : Char} {offset : Nat}

theorem skipGap_blank_cons (hline : ∀ l, c = '/' → cs = '/' :: l → False)
    (hblock : ∀ l, c = '/' → cs = '*' :: l → False) :
    skipGap .blank (c :: cs) offset =
      if isBlank c then skipGap .blank cs (offset + c.utf8Size) else .ok (c :: cs, offset) := by
  rw [skipGap.eq_def]
  split
  · contradiction
  · rename_i heq
    obtain ⟨rfl, rfl⟩ := List.cons.inj heq
    exact (hline _ rfl rfl).elim
  · rename_i heq
    obtain ⟨rfl, rfl⟩ := List.cons.inj heq
    exact (hblock _ rfl rfl).elim
  · rename_i heq
    obtain ⟨rfl, rfl⟩ := List.cons.inj heq
    rfl
  all_goals contradiction

theorem skipGap_lineComment_cons :
    skipGap .lineComment (c :: cs) offset =
      if c = '\n' then skipGap .blank cs (offset + c.utf8Size)
      else if c = terminator then .ok (c :: cs, offset)
      else skipGap .lineComment cs (offset + c.utf8Size) := rfl

theorem skipGap_blockComment_cons {start : Nat} (hclose : ∀ l, c = '*' → cs = '/' :: l → False) :
    skipGap (.blockComment start) (c :: cs) offset =
      if c = terminator then
        .error ((Diagnostic.ofMessage .lexer "unterminated block comment").locate
          ⟨start, offset + c.utf8Size⟩)
      else skipGap (.blockComment start) cs (offset + c.utf8Size) := by
  rw [skipGap.eq_def]
  split
  all_goals try contradiction
  · rename_i heq
    obtain ⟨rfl, rfl⟩ := List.cons.inj heq
    exact (hclose _ rfl rfl).elim
  · rename_i hgap heq
    obtain rfl := Gap.blockComment.inj hgap
    obtain ⟨rfl, rfl⟩ := List.cons.inj heq
    rfl

/-- Blank characters and complete comments. A line comment is complete at its newline and a block
comment at the first mark that closes it, unless a terminator ends the text before. -/
inductive IsGap : List Char → Prop
  | nil : IsGap []
  | blank {c : Char} {gap : List Char} (hc : isBlank c = true) (h : IsGap gap) : IsGap (c :: gap)
  | line {body gap : List Char} (hline : '\n' ∉ body) (hend : terminator ∉ body) (h : IsGap gap) :
      IsGap ('/' :: '/' :: body ++ '\n' :: gap)
  | block {body gap : List Char} (hclose : ¬ ['*', '/'] <:+: body) (hend : terminator ∉ body)
      (h : IsGap gap) : IsGap ('/' :: '*' :: body ++ '*' :: '/' :: gap)

theorem skipGap_lineComment_append {body : List Char} (hline : '\n' ∉ body)
    (hend : terminator ∉ body) (rest : List Char) (offset : Nat) :
    skipGap .lineComment (body ++ '\n' :: rest) offset =
      skipGap .blank rest (offset + byteLength (body ++ ['\n'])) := by
  induction body generalizing offset with
  | nil => rfl
  | cons c cs ih =>
      have hc : c ≠ '\n' := (List.ne_of_not_mem_cons hline).symm
      have hstop : c ≠ terminator := (List.ne_of_not_mem_cons hend).symm
      rw [List.cons_append, skipGap_lineComment_cons, if_neg hc, if_neg hstop,
        ih (List.not_mem_of_not_mem_cons hline) (List.not_mem_of_not_mem_cons hend),
        List.cons_append, byteLength, Nat.add_assoc]

theorem skipGap_blockComment_append {body : List Char} (hclose : ¬ ['*', '/'] <:+: body)
    (hend : terminator ∉ body) (rest : List Char) (start offset : Nat) :
    skipGap (.blockComment start) (body ++ '*' :: '/' :: rest) offset =
      skipGap .blank rest (offset + byteLength (body ++ ['*', '/'])) := by
  induction body generalizing offset with
  | nil => rfl
  | cons c cs ih =>
      have hstop : c ≠ terminator := (List.ne_of_not_mem_cons hend).symm
      have hinner : ¬ ['*', '/'] <:+: cs :=
        fun h => hclose (h.trans (List.suffix_cons c cs).isInfix)
      have hopen : ∀ l, c = '*' → cs ++ '*' :: '/' :: rest = '/' :: l → False := by
        rintro l rfl heq
        cases cs with
        | nil => cases heq
        | cons d ds =>
            obtain ⟨rfl, -⟩ := List.cons.inj heq
            exact hclose ⟨[], ds, rfl⟩
      rw [List.cons_append, skipGap_blockComment_cons hopen, if_neg hstop,
        ih hinner (List.not_mem_of_not_mem_cons hend), List.cons_append, byteLength, Nat.add_assoc]

theorem skipGap_of_isBlank (hc : isBlank c = true) :
    skipGap .blank (c :: cs) offset = skipGap .blank cs (offset + c.utf8Size) := by
  have hslash : c ≠ '/' := by
    rintro rfl
    contradiction
  rw [skipGap_blank_cons (fun _ h => absurd h hslash) (fun _ h => absurd h hslash), if_pos hc]

/-- A gap is skipped. -/
theorem IsGap.skipGap {gap : List Char} (h : IsGap gap) (rest : List Char) (offset : Nat) :
    skipGap .blank (gap ++ rest) offset =
      ScriptHost.skipGap .blank rest (offset + byteLength gap) := by
  have hone : '/'.utf8Size = 1 ∧ '*'.utf8Size = 1 := by decide
  induction h generalizing offset with
  | nil => rfl
  | blank hc _ ih => rw [List.cons_append, skipGap_of_isBlank hc, ih, byteLength, Nat.add_assoc]
  | @line body gap hline hend _ ih =>
      have hskip : ScriptHost.skipGap .blank ('/' :: '/' :: body ++ '\n' :: gap ++ rest) offset =
          ScriptHost.skipGap .lineComment (body ++ '\n' :: (gap ++ rest)) (offset + 2) := by
        rw [List.append_assoc]
        rfl
      rw [hskip, skipGap_lineComment_append hline hend, ih]
      congr 1
      simp only [List.cons_append, byteLength, byteLength_append]
      omega
  | @block body gap hclose hend _ ih =>
      have hskip :
          ScriptHost.skipGap .blank ('/' :: '*' :: body ++ '*' :: '/' :: gap ++ rest) offset =
          ScriptHost.skipGap (.blockComment offset) (body ++ '*' :: '/' :: (gap ++ rest))
            (offset + 2) := by
        rw [List.append_assoc]
        rfl
      rw [hskip, skipGap_blockComment_append hclose hend, ih]
      congr 1
      simp only [List.cons_append, byteLength, byteLength_append]
      omega

end ScriptHost
