import Mathlib.Data.List.Forall2
import ScriptHost.Proofs.Token.Gap

/-!
What a terminator does. It ends the text that is scanned, so nothing after it matters; a text of its
own and the same text before a terminator give the same tokens and the same refusals. Only what is
placed at the end differs: the terminator has then been taken, and the end stands one byte further
on.
-/

namespace ScriptHost

/-- The same refusal from the same place on. -/
structure Diagnostic.SameStart (d e : Diagnostic) : Prop where
  kind : e.kind = d.kind
  message : e.message = d.message
  start : e.span.start = d.span.start

theorem Diagnostic.SameStart.refl (d : Diagnostic) : d.SameStart d := ⟨rfl, rfl, rfl⟩

variable {text cs after : List Char} {c : Char} {offset : Nat}

/-- What skipping comes to before a terminator, by what follows it, where it comes to this at the end
of the text. -/
inductive SkipsAlike (skipped : List Char → Except Diagnostic (List Char × Nat)) :
    Except Diagnostic (List Char × Nat) → Prop
  | ok {rest : List Char} {stop : Nat}
      (h : ∀ after, skipped after = .ok (rest ++ terminator :: after, stop)) :
      SkipsAlike skipped (.ok (rest, stop))
  | error {d e : Diagnostic} (hsame : d.SameStart e) (h : ∀ after, skipped after = .error e) :
      SkipsAlike skipped (.error d)

/-- A gap before a terminator is skipped like a gap before the end of the text. -/
theorem skipGap_terminator (gap : Gap) (offset : Nat) (htext : terminator ∉ text) :
    SkipsAlike (fun after => skipGap gap (text ++ terminator :: after) offset)
      (skipGap gap text offset) := by
  fun_induction skipGap gap text offset with
  | case1 | case6 => exact .ok fun _ => rfl
  | case2 cs offset ih | case3 cs offset ih | case11 start cs offset ih =>
      have hcs : terminator ∉ cs := by simp_all
      exact ih hcs
  | case4 c cs offset hline hblock hblank ih =>
      have hskip : ∀ after, skipGap .blank (c :: cs ++ terminator :: after) offset =
          skipGap .blank (cs ++ terminator :: after) (offset + c.utf8Size) := by
        intro after
        rw [List.cons_append, skipGap_blank_cons, if_pos hblank]
        · exact fun l hc => (apart_terminator after).ne (by decide) (fun l => hline l hc) l
        · exact fun l hc => (apart_terminator after).ne (by decide) (fun l => hblock l hc) l
      rw [funext hskip]
      exact ih fun hmem => htext (List.mem_cons_of_mem _ hmem)
  | case5 c cs offset hline hblock hblank =>
      refine .ok fun after => ?_
      rw [List.cons_append, skipGap_blank_cons, if_neg hblank]
      · exact fun l hc => (apart_terminator after).ne (by decide) (fun l => hline l hc) l
      · exact fun l hc => (apart_terminator after).ne (by decide) (fun l => hblock l hc) l
  | case7 cs offset ih => exact ih fun hmem => htext (List.mem_cons_of_mem _ hmem)
  | case8 cs offset => exact absurd List.mem_cons_self htext
  | case9 c cs offset hline hend ih =>
      have hskip : ∀ after, skipGap .lineComment (c :: cs ++ terminator :: after) offset =
          skipGap .lineComment (cs ++ terminator :: after) (offset + c.utf8Size) := by
        intro after
        rw [List.cons_append, skipGap_lineComment_cons, if_neg hline, if_neg hend]
      rw [funext hskip]
      exact ih fun hmem => htext (List.mem_cons_of_mem _ hmem)
  | case10 start offset =>
      exact .error (e := (Diagnostic.ofMessage .lexer "unterminated block comment").locate
        ⟨start, offset + terminator.utf8Size⟩) ⟨rfl, rfl, rfl⟩ fun _ => rfl
  | case12 start cs offset => exact absurd List.mem_cons_self htext
  | case13 start c cs offset hclose hend ih =>
      have hskip : ∀ after, skipGap (.blockComment start) (c :: cs ++ terminator :: after) offset =
          skipGap (.blockComment start) (cs ++ terminator :: after) (offset + c.utf8Size) := by
        intro after
        rw [List.cons_append, skipGap_blockComment_cons, if_neg hend]
        exact fun l hc => (apart_terminator after).ne (by decide) (fun l => hclose l hc) l
      rw [funext hskip]
      exact ih fun hmem => htext (List.mem_cons_of_mem _ hmem)

theorem skipGap_terminator_of_ok {gap : Gap} {rest : List Char} {start : Nat}
    (htext : terminator ∉ text) (h : skipGap gap text offset = .ok (rest, start)) :
    ∀ after, skipGap gap (text ++ terminator :: after) offset =
      .ok (rest ++ terminator :: after, start) := by
  have hskipped := skipGap_terminator gap offset htext
  rw [h] at hskipped
  cases hskipped with
  | ok hskip => exact hskip

namespace StringBody

/-- A string literal that is not closed before a terminator is not closed by anything after it. -/
theorem scan_terminator_of_open {quote : Char} (htext : terminator ∉ text)
    (h : (scan quote text).closed = false) :
    ∃ width, ∀ after, (scan quote (text ++ terminator :: after)).content = (scan quote text).content ∧
      (scan quote (text ++ terminator :: after)).width = width ∧
      (scan quote (text ++ terminator :: after)).closed = false := by
  fun_induction scan quote text with
  | case1 => exact ⟨1, fun after => ⟨rfl, rfl, rfl⟩⟩
  | case2 => exact ⟨2, fun after => ⟨rfl, rfl, rfl⟩⟩
  | case3 cs => simp at htext
  | case4 c cs hend ih =>
      have hcs : terminator ∉ cs := by simp_all
      obtain ⟨width, hafter⟩ := ih hcs h
      refine ⟨1 + c.utf8Size + width, fun after => ?_⟩
      obtain ⟨hcontent, hwidth, hclosed⟩ := hafter after
      rw [List.cons_append, List.cons_append, scan, if_neg hend]
      exact ⟨congrArg (unescape c :: ·) hcontent, congrArg (1 + c.utf8Size + ·) hwidth, hclosed⟩
  | case5 c cs hlone hescape hend =>
      refine ⟨c.utf8Size, fun after => ?_⟩
      rw [List.cons_append, scan, if_pos hend]
      · exact ⟨rfl, rfl, rfl⟩
      · exact fun hc _ => ne_backslash hlone hescape hc
      · exact fun _ _ hc _ => ne_backslash hlone hescape hc
  | case6 cs hlone hescape hend => contradiction
  | case7 c cs hlone hescape hend hquote ih =>
      have hcs : terminator ∉ cs := by simp_all
      obtain ⟨width, hafter⟩ := ih hcs h
      refine ⟨c.utf8Size + width, fun after => ?_⟩
      obtain ⟨hcontent, hwidth, hclosed⟩ := hafter after
      rw [List.cons_append, scan, if_neg hend, if_neg hquote]
      · exact ⟨congrArg (c :: ·) hcontent, congrArg (c.utf8Size + ·) hwidth, hclosed⟩
      · exact fun hc _ => ne_backslash hlone hescape hc
      · exact fun _ _ hc _ => ne_backslash hlone hescape hc

end StringBody

/-- What scanning comes to before a terminator, by what follows it, where it comes to this at the end
of the text. -/
inductive ScansAlike (scanned : List Char → Except Diagnostic Scanned × TextBuffer) :
    Except Diagnostic Scanned × TextBuffer → Prop
  | ok {s : Scanned} {left : TextBuffer}
      (h : ∀ after, scanned after = (.ok { s with rest := s.rest ++ terminator :: after }, left)) :
      ScansAlike scanned (.ok s, left)
  | error {d e : Diagnostic} {left : TextBuffer} (hsame : d.SameStart e)
      (h : ∀ after, scanned after = (.error e, left)) : ScansAlike scanned (.error d, left)

/-- A token before a terminator is scanned like a token before the end of the text. -/
theorem scanToken_terminator (offset : Nat) (scratch : TextBuffer) (hcs : terminator ∉ cs) :
    ScansAlike (fun after => scanToken c (cs ++ terminator :: after) offset scratch)
      (scanToken c cs offset scratch) := by
  unfold scanToken
  by_cases hquote : c = '"' ∨ c = '\''
  · rw [if_pos hquote]
    dsimp only
    by_cases hclosed : (StringBody.scan c cs).closed = true
    · rw [if_pos hclosed]
      refine .ok fun after => ?_
      rw [if_pos hquote, StringBody.scan_append_of_closed hclosed, if_pos hclosed]
    · rw [if_neg hclosed]
      obtain ⟨width, hafter⟩ :=
        StringBody.scan_terminator_of_open hcs (Bool.eq_false_iff.mpr hclosed)
      refine .error (e := (Diagnostic.ofMessage .lexer "unterminated string literal").locate
        ⟨offset, offset + (c.utf8Size + width)⟩) ⟨rfl, rfl, rfl⟩ fun after => ?_
      obtain ⟨hcontent, hwidth, hopen⟩ := hafter after
      rw [if_pos hquote, hcontent, hwidth, hopen]
      rfl
  · rw [if_neg hquote]
    cases hplain : scanPlain? c cs with
    | none =>
        refine .error (.refl _) fun after => ?_
        rw [if_neg hquote, scanPlain?_append_apart _ _ (apart_terminator after), hplain]
        rfl
    | some s =>
        refine .ok fun after => ?_
        rw [if_neg hquote, scanPlain?_append_apart _ _ (apart_terminator after), hplain]
        rfl

/-- Two scans with the same tokens, which begin before the first end, but for the place of the end,
or with the same refusal. -/
inductive SameScan (stop stop' : Nat) :
    Except Diagnostic (List Token) → Except Diagnostic (List Token) → Prop
  | ok (front : List Token)
      (hfront : ∀ a ∈ front, a.kind ≠ .endOfText ∧ a.span.start < stop) :
      SameScan stop stop' (.ok (front ++ [⟨.endOfText, "", ⟨stop, stop⟩⟩]))
        (.ok (front ++ [⟨.endOfText, "", ⟨stop', stop'⟩⟩]))
  | error {d e : Diagnostic} (h : d.SameStart e) : SameScan stop stop' (.error d) (.error e)

theorem SameScan.cons {stop stop' : Nat} {tokens tokens' : Except Diagnostic (List Token)}
    {token : Token} (htoken : token.kind ≠ .endOfText ∧ token.span.start < stop)
    (h : SameScan stop stop' tokens tokens') :
    SameScan stop stop' (tokens.map (token :: ·)) (tokens'.map (token :: ·)) := by
  cases h with
  | ok front hfront =>
      refine .ok (token :: front) ?_
      intro a ha
      rcases List.mem_cons.mp ha with rfl | ha
      · exact htoken
      · exact hfront a ha
  | error hsame => exact .error hsame

/-- A text before a terminator is scanned like the text alone, whatever follows the terminator. -/
theorem scanFrom_terminator (offset : Nat) (scratch : TextBuffer) (htext : terminator ∉ text) :
    ∃ result, SameScan (offset + byteLength text) (offset + byteLength text + 1)
        (scanFrom text offset scratch).1 result ∧
      ∀ after, scanFrom (text ++ terminator :: after) offset scratch =
        (result, (scanFrom text offset scratch).2) := by
  fun_induction scanFrom text offset scratch with
  | case1 text offset scratch d hgap =>
      have hskipped := skipGap_terminator .blank offset htext
      rw [hgap] at hskipped
      cases hskipped with
      | error hsame hskip =>
          refine ⟨_, .error hsame, fun after => ?_⟩
          rw [scanFrom, hskip after]
  | case2 text offset scratch start hgap =>
      have hskip := skipGap_terminator_of_ok htext hgap
      obtain ⟨width, rfl, hleaves⟩ := leaves_of_skipGap hgap
      rw [hleaves.byteLength_eq]
      refine ⟨.ok [⟨.endOfText, "", ⟨offset + width + 1, offset + width + 1⟩⟩],
        .ok [] (by simp), fun after => ?_⟩
      rw [scanFrom, hskip after]
      rfl
  | case3 text offset scratch cs start hgap =>
      obtain ⟨width, rfl, hleaves⟩ := leaves_of_skipGap hgap
      exact absurd (hleaves.mem List.mem_cons_self) htext
  | case4 text offset scratch c cs start hgap hc d left hscan =>
      have hskip := skipGap_terminator_of_ok htext hgap
      obtain ⟨width, rfl, hleaves⟩ := leaves_of_skipGap hgap
      have hcs : terminator ∉ cs := fun hmem => htext (hleaves.mem (List.mem_cons_of_mem _ hmem))
      have hscanned := scanToken_terminator (c := c) (offset + width) scratch hcs
      rw [hscan] at hscanned
      cases hscanned with
      | error hsame hread =>
          refine ⟨_, .error hsame, fun after => ?_⟩
          rw [scanFrom, hskip after, List.cons_append]
          dsimp only
          rw [if_neg hc, hread after]
  | case5 text offset scratch c cs start hgap hc s left hscan token tokens left' hrest ih =>
      have hskip := skipGap_terminator_of_ok htext hgap
      obtain ⟨width, rfl, hleaves⟩ := leaves_of_skipGap hgap
      have hcs : terminator ∉ cs := fun hmem => htext (hleaves.mem (List.mem_cons_of_mem _ hmem))
      have hscanned := scanToken_terminator (c := c) (offset + width) scratch hcs
      rw [hscan] at hscanned
      obtain ⟨hread⟩ := hscanned
      obtain ⟨taken, hstop, hstart, hafter⟩ := leaves_of_scan hgap hscan
      obtain ⟨result, hsame, hresult⟩ := ih fun hmem => htext (hafter.mem hmem)
      rw [hrest] at hsame hresult
      have hend : offset + byteLength text = offset + width + s.width + byteLength s.rest := by
        rw [hstop, hafter.byteLength_eq, Nat.add_assoc]
      rw [hend] at hstart ⊢
      refine ⟨_, hsame.cons ⟨kind_ne_of_scanToken hscan, hstart⟩, fun after => ?_⟩
      rw [scanFrom, hskip after, List.cons_append]
      dsimp only
      rw [if_neg hc, hread after]
      dsimp only
      rw [hresult after]

theorem toList_terminated (source : String) :
    (source ++ String.singleton terminator).toList = source.toList ++ [terminator] := by
  simp

end ScriptHost
