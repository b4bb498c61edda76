import ScriptHost.Proofs.Token.Layout

/-!
Texts one after the other. A newline ends whatever was begun before it and may be read on, a line
comment among them, so behind it a text is scanned as it is on its own; and its tokens do not tell
how far from the beginning it stands.
-/

namespace ScriptHost

variable {text cs rest after : List Char} {c : Char} {offset start stop : Nat}

/-! ### A newline between two texts -/

theorem apart_newline (after : List Char) : Apart ('\n' :: after) :=
  apart_cons (.inl rfl) after

/-- Skipping goes on behind a newline from where it comes to before one. -/
theorem skipGap_append_newline {gap : Gap} (htext : terminator ∉ text)
    (h : skipGap gap text offset = .ok (rest, stop)) (after : List Char) :
    skipGap gap (text ++ '\n' :: after) offset = skipGap .blank (rest ++ '\n' :: after) stop := by
  have hapart := apart_newline after
  fun_induction skipGap gap text offset with
  | case1 | case5 =>
      cases h
      rfl
  | case6 offset =>
      cases h
      rw [List.nil_append, skipGap_lineComment_cons, if_pos rfl, skipGap_of_isBlank rfl]
  | case2 cs offset ih | case3 cs offset ih | case11 start cs offset ih =>
      have hcs : terminator ∉ cs := by simp_all
      exact ih hcs h
  | case4 c cs offset hline hblock hblank ih =>
      rw [List.cons_append, skipGap_of_isBlank hblank]
      exact ih (fun hmem => htext (List.mem_cons_of_mem _ hmem)) h
  | case7 cs offset ih =>
      rw [List.cons_append, skipGap_lineComment_cons, if_pos rfl]
      exact ih (fun hmem => htext (List.mem_cons_of_mem _ hmem)) h
  | case8 | case12 => exact absurd List.mem_cons_self htext
  | case9 c cs offset hline hend ih =>
      rw [List.cons_append, skipGap_lineComment_cons, if_neg hline, if_neg hend]
      exact ih (fun hmem => htext (List.mem_cons_of_mem _ hmem)) h
  | case10 => cases h
  | case13 start c cs offset hclose hend ih =>
      rw [List.cons_append, skipGap_blockComment_cons, if_neg hend]
      · exact ih (fun hmem => htext (List.mem_cons_of_mem _ hmem)) h
      · exact fun l hc => hapart.ne (by decide) (fun l => hclose l hc) l

/-- The tokens of a text before a newline are those of the text, and what follows the newline is
scanned from there on. -/
theorem scanFrom_append_newline {scratch : TextBuffer} {front : List Token}
    (htext : terminator ∉ text)
    (h : (scanFrom text offset scratch).1 = .ok (front ++ [.ofEnd stop])) (after : List Char)
    (other : TextBuffer) :
    (scanFrom (text ++ '\n' :: after) offset scratch).1 =
      (scanFrom after (stop + 1) other).1.map (front ++ ·) := by
  fun_induction scanFrom text offset scratch generalizing front with
  | case1 | case4 => cases h
  | case2 text offset scratch start hgap =>
      have heq : [] ++ [Token.ofEnd start] = front ++ [.ofEnd stop] := Except.ok.inj h
      obtain ⟨rfl, hlast⟩ := List.append_inj' heq rfl
      obtain rfl : start = stop := congrArg (fun t => t.span.start) (List.singleton_inj.mp hlast)
      have hskip : skipGap .blank (text ++ '\n' :: after) offset =
          skipGap .blank after (start + 1) := by
        rw [skipGap_append_newline htext hgap, List.nil_append, skipGap_of_isBlank rfl]
        rfl
      have hscan : scanFrom (text ++ '\n' :: after) offset scratch =
          scanFrom after (start + 1) scratch := by
        rw [scanFrom, hskip, ← scanFrom]
      rw [hscan, scanFrom_fst_eq _ _ scratch other]
      cases (scanFrom after (start + 1) other).1 <;> rfl
  | case3 text offset scratch cs start hgap =>
      obtain ⟨width, rfl, hleaves⟩ := leaves_of_skipGap hgap
      exact absurd (hleaves.mem List.mem_cons_self) htext
  | case5 text offset scratch c cs start hgap hc s left hscan token tokens left' hrest =>
      rename_i ih
      cases tokens with
      | error d => cases h
      | ok tokens =>
          have hfront : token :: tokens = front ++ [.ofEnd stop] := Except.ok.inj h
          cases front with
          | nil =>
              obtain ⟨hkind, -⟩ := List.cons.inj hfront
              exact absurd (congrArg Token.kind hkind) (kind_ne_of_scanToken hscan)
          | cons first front =>
              obtain ⟨rfl, rfl⟩ := List.cons.inj hfront
              obtain ⟨width, rfl, hleaves⟩ := leaves_of_skipGap hgap
              obtain ⟨taken, -, -, hafter⟩ := leaves_of_scan hgap hscan
              have hrest' : terminator ∉ s.rest := fun hmem => htext (hafter.mem hmem)
              have hskip : skipGap .blank (text ++ '\n' :: after) offset =
                  .ok (c :: (cs ++ '\n' :: after), offset + width) := by
                rw [skipGap_append_newline htext hgap]
                exact skipGap_append_apart (skipGap_eq_self_of_ok hgap hc _) (apart_newline after)
              rw [scanFrom, hskip]
              dsimp only
              rw [if_neg hc, scanToken_append_apart hscan (apart_newline after)]
              dsimp only
              rw [ih hrest' (congrArg Prod.fst hrest)]
              cases (scanFrom after (stop + 1) other).1 <;> rfl

/-! ### Where a text begins -/

/-- The same state of skipping, where a block comment began elsewhere. -/
def Gap.moved (start : Nat) : Gap → Gap
  | .blank => .blank
  | .lineComment => .lineComment
  | .blockComment _ => .blockComment start

theorem skipGap_moved {gap : Gap} (h : skipGap gap text offset = .ok (rest, stop))
    (start other : Nat) : ∃ stop', skipGap (gap.moved start) text other = .ok (rest, stop') := by
  fun_induction skipGap gap text offset generalizing start other with
  | case1 | case6 =>
      cases h
      exact ⟨other, rfl⟩
  | case2 cs offset ih => exact ih h start (other + 2)
  | case3 cs offset ih => exact ih h other (other + 2)
  | case11 begin cs offset ih => exact ih h start (other + 2)
  | case4 c cs offset hline hblock hblank ih =>
      rw [Gap.moved, skipGap_of_isBlank hblank]
      exact ih h start _
  | case5 c cs offset hline hblock hblank =>
      cases h
      exact ⟨other, by rw [Gap.moved, skipGap_blank_cons hline hblock, if_neg hblank]⟩
  | case7 cs offset ih => exact ih h start (other + 1)
  | case8 cs offset =>
      cases h
      exact ⟨other, rfl⟩
  | case9 c cs offset hline hend ih =>
      obtain ⟨stop', hskip⟩ := ih h start (other + c.utf8Size)
      refine ⟨stop', ?_⟩
      rw [Gap.moved, skipGap_lineComment_cons, if_neg hline, if_neg hend]
      exact hskip
  | case10 | case12 => cases h
  | case13 begin c cs offset hclose hend ih =>
      obtain ⟨stop', hskip⟩ := ih h start (other + c.utf8Size)
      refine ⟨stop', ?_⟩
      rw [Gap.moved, skipGap_blockComment_cons hclose, if_neg hend]
      exact hskip

theorem scanToken_moved {scratch left : TextBuffer} {s : Scanned}
    (h : scanToken c cs offset scratch = (.ok s, left)) (other : Nat) :
    scanToken c cs other scratch = (.ok s, left) := by
  unfold scanToken at h ⊢
  split at h
  · rename_i hquote
    rw [if_pos hquote]
    dsimp only at h ⊢
    split at h
    · rename_i hclosed
      rwa [if_pos hclosed]
    · cases h
  · rename_i hquote
    rw [if_neg hquote]
    cases hplain : scanPlain? c cs with
    | none =>
        rw [hplain] at h
        cases h
    | some found =>
        rw [hplain] at h
        exact h

/-- What a text is scanned to does not depend on the offset that it begins at. -/
theorem sameText_of_scanFrom {scratch : TextBuffer} {tokens : List Token}
    (h : (scanFrom text offset scratch).1 = .ok tokens) (start : Nat) (other : TextBuffer) :
    ∃ tokens', (scanFrom text start other).1 = .ok tokens' ∧
      List.Forall₂ Token.SameText tokens tokens' := by
  rw [scanFrom_fst_eq text start other scratch]
  fun_induction scanFrom text offset scratch generalizing tokens start with
  | case1 | case4 => cases h
  | case2 text offset scratch stop hgap =>
      cases h
      obtain ⟨stop', hskip⟩ := skipGap_moved hgap 0 start
      refine ⟨[.ofEnd stop'], ?_, .cons ⟨rfl, rfl⟩ .nil⟩
      rw [scanFrom, show skipGap .blank text start = _ from hskip]
      rfl
  | case3 text offset scratch cs stop hgap =>
      cases h
      obtain ⟨stop', hskip⟩ := skipGap_moved hgap 0 start
      refine ⟨[.ofEnd (stop' + terminator.utf8Size)], ?_, .cons ⟨rfl, rfl⟩ .nil⟩
      rw [scanFrom, show skipGap .blank text start = _ from hskip]
      rfl
  | case5 text offset scratch c cs stop hgap hc s left hscan token scanned left' hrest =>
      rename_i ih
      cases scanned with
      | error d => cases h
      | ok scanned =>
          cases h
          obtain ⟨stop', hskip⟩ := skipGap_moved hgap 0 start
          obtain ⟨tokens', htokens, hsame⟩ := ih (congrArg Prod.fst hrest) (stop' + s.width)
          refine ⟨⟨s.kind, String.ofList s.lexeme, ⟨stop', stop' + s.width⟩⟩ :: tokens', ?_,
            .cons ⟨rfl, rfl⟩ hsame⟩
          rw [scanFrom, show skipGap .blank text start = _ from hskip]
          dsimp only
          rw [if_neg hc, scanToken_moved hscan stop']
          dsimp only
          rw [htokens]
          rfl

end ScriptHost
