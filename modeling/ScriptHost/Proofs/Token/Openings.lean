import ScriptHost.Proofs.Token.Extent
import ScriptHost.Proofs.Token.Scratch

/-!
The string literals that a scan opens. Of a text that is scanned to its end they are the string
tokens; of one that is refused the last may have been left open. The buffer holds in the end what
the last of them denotes, as far as it goes, and what it held before where there is none.
-/

namespace ScriptHost

/-- A string literal that was opened: where its quote stands, this quote, and the text behind it. -/
structure Opening where
  start : Nat
  quote : Char
  rest : List Char

namespace Opening

def body (o : Opening) : StringBody := .scan o.quote o.rest

/-- What the literal denotes, up to its closing quote or to where it breaks off. -/
def text (o : Opening) : String := String.ofList o.body.content

/-- The refusal of a literal that is left open. -/
def refusal (o : Opening) : Diagnostic :=
  (Diagnostic.ofMessage .lexer "unterminated string literal").locate
    ⟨o.start, o.start + (o.quote.utf8Size + o.body.width)⟩

/-- The literal that a token beginning with the character is, if it is one. -/
def ofToken (c : Char) (cs : List Char) (start : Nat) : List Opening :=
  if c = '"' ∨ c = '\'' then [⟨start, c, cs⟩] else []

end Opening

/-- What scanning a text from an offset on comes to, and the literals that it opens, in their
order. -/
inductive Scans : List Char → Nat → Except Diagnostic (List Token) → List Opening → Prop
  | stray {text : List Char} {offset : Nat} {d : Diagnostic}
      (hgap : skipGap .blank text offset = .error d) : Scans text offset (.error d) []
  | ended {text : List Char} {offset start : Nat}
      (hgap : skipGap .blank text offset = .ok ([], start)) :
      Scans text offset (.ok [⟨.endOfText, "", ⟨start, start⟩⟩]) []
  | terminated {text after : List Char} {offset start : Nat}
      (hgap : skipGap .blank text offset = .ok (terminator :: after, start)) :
      Scans text offset (.ok [⟨.endOfText, "", ⟨start + 1, start + 1⟩⟩]) []
  | refused {text cs : List Char} {c : Char} {offset start : Nat} {d : Diagnostic}
      (hgap : skipGap .blank text offset = .ok (c :: cs, start)) (hc : c ≠ terminator)
      (hscan : (scanToken c cs start .empty).1 = .error d) :
      Scans text offset (.error d) (Opening.ofToken c cs start)
  | token {text cs : List Char} {c : Char} {offset start : Nat} {s : Scanned}
      {result : Except Diagnostic (List Token)} {opened : List Opening}
      (hgap : skipGap .blank text offset = .ok (c :: cs, start)) (hc : c ≠ terminator)
      (hscan : (scanToken c cs start .empty).1 = .ok s)
      (hrest : Scans s.rest (start + s.width) result opened) :
      Scans text offset
        (result.map (⟨s.kind, String.ofList s.lexeme, ⟨start, start + s.width⟩⟩ :: ·))
        (Opening.ofToken c cs start ++ opened)

variable {text cs : List Char} {c : Char} {offset start : Nat} {scratch : TextBuffer}
  {opened : List Opening}

/-- A token leaves its text in the buffer if it is a string literal, closed or not. -/
theorem scanToken_snd (c : Char) (cs : List Char) (start : Nat) (scratch : TextBuffer) :
    (scanToken c cs start scratch).2 =
      (Opening.ofToken c cs start).foldl (fun b o => b.assign o.text) scratch := by
  unfold scanToken Opening.ofToken
  split
  · dsimp only
    split <;> rfl
  · split <;> rfl

/-- A scan opens some literals, whatever the buffer holds. -/
theorem exists_scans (text : List Char) (offset : Nat) (scratch : TextBuffer) :
    ∃ opened, Scans text offset (scanFrom text offset scratch).1 opened := by
  fun_induction scanFrom text offset scratch with
  | case1 text offset scratch d hgap => exact ⟨[], .stray hgap⟩
  | case2 text offset scratch start hgap => exact ⟨[], .ended hgap⟩
  | case3 text offset scratch cs start hgap => exact ⟨[], .terminated hgap⟩
  | case4 text offset scratch c cs start hgap hc d left hscan =>
      refine ⟨_, .refused hgap hc ?_⟩
      rw [scanToken_fst_eq c cs start .empty scratch, hscan]
  | case5 text offset scratch c cs start hgap hc s left hscan token tokens left' hrest ih =>
      obtain ⟨opened, hscans⟩ := ih
      rw [hrest] at hscans
      refine ⟨_, .token hgap hc ?_ hscans⟩
      rw [scanToken_fst_eq c cs start .empty scratch, hscan]

theorem text_foldl_assign (opened : List Opening) (b : TextBuffer) :
    (opened.foldl (fun b o => b.assign o.text) b).text =
      (opened.getLast?.map Opening.text).getD b.text := by
  induction opened generalizing b with
  | nil => rfl
  | cons o rest ih =>
      rw [List.foldl_cons, ih, TextBuffer.text_assign, List.getLast?_cons]
      cases rest.getLast? <;> rfl

/-- A token that was scanned is a closed literal with what that denotes, or none. -/
theorem ofToken_of_ok {s : Scanned} (h : (scanToken c cs start .empty).1 = .ok s) :
    (s.kind = .string ∧ ∃ o, Opening.ofToken c cs start = [o] ∧ o.body.closed = true ∧
      o.start = start ∧ o.text = String.ofList s.lexeme) ∨
    (s.kind ≠ .string ∧ Opening.ofToken c cs start = []) := by
  unfold scanToken at h
  unfold Opening.ofToken
  split at h
  · rename_i hquote
    dsimp only at h
    split at h
    · rename_i hclosed
      cases h
      exact .inl ⟨rfl, _, if_pos hquote, hclosed, rfl, rfl⟩
    · cases h
  · rename_i hquote
    split at h
    · rename_i hs
      cases h
      exact .inr ⟨(kind_ne_of_scanPlain? hs).1, if_neg hquote⟩
    · cases h

/-- A token that is refused is a literal left open, or none. -/
theorem ofToken_of_error {d : Diagnostic} (h : (scanToken c cs start .empty).1 = .error d) :
    (∃ o, Opening.ofToken c cs start = [o] ∧ o.body.closed = false ∧ d = o.refusal) ∨
      Opening.ofToken c cs start = [] := by
  unfold scanToken at h
  unfold Opening.ofToken
  split at h
  · rename_i hquote
    dsimp only at h
    split at h
    · cases h
    · rename_i hopen
      cases h
      exact .inl ⟨_, if_pos hquote, Bool.eq_false_iff.mpr hopen, rfl⟩
  · rename_i hquote
    exact .inr (if_neg hquote)

namespace Scans

variable {result : Except Diagnostic (List Token)}

/-- From any buffer the scan comes to the same, and assigns the texts of the same literals, one
after another. -/
theorem scanFrom_eq (h : Scans text offset result opened) (scratch : TextBuffer) :
    scanFrom text offset scratch =
      (result, opened.foldl (fun b o => b.assign o.text) scratch) := by
  have htoken {c : Char} {cs : List Char} {start : Nat} {scanned : Except Diagnostic Scanned}
      (hscan : (scanToken c cs start .empty).1 = scanned) (scratch : TextBuffer) :
      scanToken c cs start scratch =
        (scanned, (Opening.ofToken c cs start).foldl (fun b o => b.assign o.text) scratch) :=
    Prod.ext ((scanToken_fst_eq ..).trans hscan) (scanToken_snd ..)
  induction h generalizing scratch with
  | stray hgap =>
      rw [scanFrom, hgap]
      rfl
  | ended hgap =>
      rw [scanFrom, hgap]
      rfl
  | terminated hgap =>
      rw [scanFrom, hgap]
      rfl
  | refused hgap hc hscan =>
      rw [scanFrom, hgap]
      dsimp only
      rw [if_neg hc, htoken hscan]
  | token hgap hc hscan _ ih =>
      rw [scanFrom, hgap, List.foldl_append]
      dsimp only
      rw [if_neg hc, htoken hscan]
      dsimp only
      rw [ih]

/-- Of a text that is scanned to its end, the literals are the string tokens, all of them closed. -/
theorem tokens {tokens : List Token} (h : Scans text offset (.ok tokens) opened) :
    opened.map (fun o => (o.start, o.text)) =
      (tokens.filter (·.kind = .string)).map fun t => (t.span.start, t.lexeme) := by
  generalize hresult : Except.ok tokens = result at h
  induction h generalizing tokens with
  | stray | refused => cases hresult
  | ended | terminated =>
      cases hresult
      rfl
  | @token _ _ c _ start s result opened _ _ hscan _ ih =>
      cases result with
      | error d => cases hresult
      | ok later =>
          cases hresult
          rcases ofToken_of_ok hscan with ⟨hkind, o, ho, -, hstart, htext⟩ | ⟨hkind, ho⟩
          · rw [ho, List.map_append, ih rfl, List.filter_cons_of_pos (by simpa using hkind)]
            simp [hstart, htext]
          · rw [ho, List.nil_append, ih rfl, List.filter_cons_of_neg (by simpa using hkind)]

/-- All literals are closed but perhaps the last one, and where that is left open it is refused. -/
theorem closed (h : Scans text offset result opened) :
    (∀ o ∈ opened, o.body.closed = true) ∨
      ∃ front o, opened = front ++ [o] ∧ (∀ o ∈ front, o.body.closed = true) ∧
        o.body.closed = false ∧ result = .error o.refusal := by
  induction h with
  | stray | ended | terminated => exact .inl fun _ ho => nomatch ho
  | refused _ _ hscan =>
      rcases ofToken_of_error hscan with ⟨o, ho, hopen, rfl⟩ | ho
      · rw [ho]
        exact .inr ⟨[], o, rfl, fun _ ho => (nomatch ho), hopen, rfl⟩
      · rw [ho]
        exact .inl fun _ ho => nomatch ho
  | @token _ cs c _ start s result opened _ _ hscan _ ih =>
      have hfirst : ∀ o ∈ Opening.ofToken c cs start, o.body.closed = true := by
        rcases ofToken_of_ok hscan with ⟨-, o, ho, hclosed, -⟩ | ⟨-, ho⟩
        · rw [ho]
          exact List.forall_mem_singleton.mpr hclosed
        · rw [ho]
          exact fun _ ho => nomatch ho
      rcases ih with hall | ⟨front, o, rfl, hfront, hopen, rfl⟩
      · exact .inl (List.forall_mem_append.mpr ⟨hfirst, hall⟩)
      · exact .inr ⟨_ ++ front, o, (List.append_assoc ..).symm,
          List.forall_mem_append.mpr ⟨hfirst, hfront⟩, hopen, rfl⟩

/-- The quotes of the literals stand in the text where the literals begin. -/
theorem stands (h : Scans text offset result opened) :
    ∀ o ∈ opened, (o.quote = '"' ∨ o.quote = '\'') ∧
      ∃ width, o.start = offset + width ∧ Leaves text (o.quote :: o.rest) width := by
  have hfirst {text cs : List Char} {c : Char} {offset start : Nat}
      (hgap : skipGap .blank text offset = .ok (c :: cs, start)) :
      ∀ o ∈ Opening.ofToken c cs start, (o.quote = '"' ∨ o.quote = '\'') ∧
        ∃ width, o.start = offset + width ∧ Leaves text (o.quote :: o.rest) width := by
    intro o ho
    unfold Opening.ofToken at ho
    split at ho
    · obtain rfl := List.mem_singleton.mp ho
      exact ⟨by assumption, leaves_of_skipGap hgap⟩
    · cases ho
  induction h with
  | stray | ended | terminated => exact fun _ ho => nomatch ho
  | refused hgap => exact hfirst hgap
  | token hgap _ hscan _ ih =>
      refine List.forall_mem_append.mpr ⟨hfirst hgap, fun o ho => ?_⟩
      obtain ⟨hquote, width, hstart, hleaves⟩ := ih o ho
      obtain ⟨before, rfl, hbefore⟩ := leaves_of_skipGap hgap
      have htoken := leaves_of_scanToken (Prod.ext hscan rfl)
      exact ⟨hquote, _, by rw [hstart, Nat.add_assoc, Nat.add_assoc],
        hbefore.trans (htoken.trans hleaves)⟩

end Scans

end ScriptHost
