import ScriptHost.Proofs.Program.ParserTracking
import ScriptHost.Proofs.Text.Position
import ScriptHost.Proofs.Token.Terminator

/-!
Where a text is refused, and what a terminator after it changes. A text that is no program is
refused at one of its tokens or at its end. Before a terminator it is refused for the same reason at
the same place, but where that place is the end: the terminator is then counted as well.
-/

namespace ScriptHost

/-- A token that begins before an offset, or the end of the text at another. -/
def Token.Placed (before stop : Nat) (a : Token) : Prop :=
  if a.kind = .endOfText then a.span = ⟨stop, stop⟩ else a.span.start < before

/-- The view of tokens that begin before an offset or stand at the end of their text. -/
def Respan.placed (before stop : Nat) : Respan where
  view s := ⟨min s.start (before - 1), s.stop⟩
  atEnd a b := a = b ∧ (a = ⟨stop, stop⟩ ∨ a = ⟨0, 0⟩)
  cut := False
  view_through _ _ := rfl
  atEnd_missing := ⟨rfl, .inr rfl⟩

/-- The view of tokens of which only the last is moved. -/
def Respan.moved (stop stop' : Nat) : Respan where
  view := id
  atEnd a b := a = b ∨ a = ⟨stop, stop⟩ ∧ b = ⟨stop', stop'⟩
  cut := False
  view_through := Respan.id_through
  atEnd_missing := .inl rfl

theorem Token.Placed.matches {before stop : Nat} {a : Token} (h : a.Placed before stop) :
    a.Matches (.placed before stop) a := by
  refine ⟨rfl, rfl, ?_⟩
  unfold Placed at h
  split at h
  · rename_i hend
    exact .inr ⟨hend, rfl, .inl h⟩
  · left
    have hclamp : min a.span.start (before - 1) = a.span.start := by omega
    change a.span = ⟨min a.span.start (before - 1), a.span.stop⟩
    rw [hclamp]

/-- A program is refused at the beginning of one of its tokens. -/
theorem start_of_refused {limit before stop : Nat} {tokens : List Token} {d : Diagnostic}
    (hplaced : ∀ a ∈ tokens, a.Placed before stop) (hbefore : 0 < before)
    (h : programWithin limit tokens = .error d) :
    d.span.start < before ∨ d.span = ⟨stop, stop⟩ := by
  have htokens : List.Forall₂ (Token.Matches (.placed before stop)) tokens tokens :=
    List.forall₂_same.mpr fun a ha => (hplaced a ha).matches
  have hagree : Respan.Agree (.placed before stop) (programWithin limit tokens)
      (programWithin limit tokens) := agree_programWithin (.inl rfl) htokens
  rw [h] at hagree
  cases hagree with
  | error hmatches =>
      rcases hmatches.span with hview | ⟨-, hend | hmissing⟩
      · have hstart : d.span.start = min d.span.start (before - 1) := congrArg Span.start hview
        left
        omega
      · exact .inr hend
      · left
        rw [hmissing]
        exact hbefore
  | cut hcut => exact hcut.elim

/-- The same program, or the same refusal, which may only be moved from the end to another. -/
inductive SameProgram (stop stop' : Nat) :
    Except Diagnostic (List Stmt) → Except Diagnostic (List Stmt) → Prop
  | ok (body : List Stmt) : SameProgram stop stop' (.ok body) (.ok body)
  | error {d e : Diagnostic} (hkind : e.kind = d.kind) (hmessage : e.message = d.message)
      (hstart : d.span.start < stop ∧ e.span.start = d.span.start ∨
        d.span.start = stop ∧ e.span.start = stop') :
      SameProgram stop stop' (.error d) (.error e)

theorem placed_append_end {before stop : Nat} {front : List Token}
    (hfront : ∀ a ∈ front, a.kind ≠ .endOfText ∧ a.span.start < before) :
    ∀ a ∈ front ++ [⟨.endOfText, "", ⟨stop, stop⟩⟩], a.Placed before stop := by
  intro a ha
  rcases List.mem_append.mp ha with hmem | hmem
  · obtain ⟨hkind, hstart⟩ := hfront a hmem
    rw [Token.Placed, if_neg hkind]
    exact hstart
  · obtain rfl := List.mem_singleton.mp hmem
    exact rfl

theorem forall₂_matches_moved (stop stop' : Nat) (front : List Token) :
    List.Forall₂ (Token.Matches (.moved stop stop')) (front ++ [⟨.endOfText, "", ⟨stop, stop⟩⟩])
      (front ++ [⟨.endOfText, "", ⟨stop', stop'⟩⟩]) := by
  induction front with
  | nil => exact .cons ⟨rfl, rfl, .inr ⟨rfl, .inr ⟨rfl, rfl⟩⟩⟩ .nil
  | cons a front ih => exact .cons ⟨rfl, rfl, .inl rfl⟩ ih

/-- Two token lists that differ in the place of their end alone. -/
theorem sameProgram_of_moved {limit stop stop' : Nat} (front : List Token)
    (hfront : ∀ a ∈ front, a.kind ≠ .endOfText ∧ a.span.start < stop) (hlt : stop < stop') :
    SameProgram stop stop' (programWithin limit (front ++ [⟨.endOfText, "", ⟨stop, stop⟩⟩]))
      (programWithin limit (front ++ [⟨.endOfText, "", ⟨stop', stop'⟩⟩])) := by
  cases front with
  | nil => exact .ok []
  | cons first front =>
      have hpositive : 0 < stop := Nat.lt_of_le_of_lt (Nat.zero_le _) (hfront first List.mem_cons_self).2
      have hagree : Respan.Agree (.moved stop stop')
          (programWithin limit (first :: front ++ [⟨.endOfText, "", ⟨stop, stop⟩⟩]))
          (programWithin limit (first :: front ++ [⟨.endOfText, "", ⟨stop', stop'⟩⟩])) :=
        agree_programWithin (.inl rfl) (forall₂_matches_moved stop stop' (first :: front))
      generalize hresult : programWithin limit
        (first :: front ++ [⟨.endOfText, "", ⟨stop, stop⟩⟩]) = result at hagree ⊢
      generalize hresult' : programWithin limit
        (first :: front ++ [⟨.endOfText, "", ⟨stop', stop'⟩⟩]) = result' at hagree ⊢
      cases hagree with
      | ok body =>
          change SameProgram stop stop' (.ok body) (.ok (Stmt.mapSpansAll id body))
          rw [Stmt.mapSpansAll_id]
          exact .ok body
      | @error d e hmatches =>
          have hstart := start_of_refused (placed_append_end hfront) hpositive hresult
          have hstart' := start_of_refused (placed_append_end hfront) hpositive hresult'
          refine .error hmatches.kind hmatches.message ?_
          have hsame : e.span = d.span ∨ d.span = ⟨stop, stop⟩ ∧ e.span = ⟨stop', stop'⟩ := by
            rcases hmatches.span with hview | hequal | hmoved
            · exact .inl hview
            · exact .inl hequal.symm
            · exact .inr hmoved
          rcases hsame with hequal | ⟨hend, hend'⟩
          · rw [hequal] at hstart' ⊢
            rcases hstart with hbefore | hend
            · exact .inl ⟨hbefore, rfl⟩
            · rw [hend] at hstart'
              simp at hstart'
              omega
          · rw [hend, hend']
            exact .inr ⟨rfl, rfl⟩
      | cut hcut => exact hcut.elim

/-- What a text before a terminator holds is what the text alone holds, whatever follows the
terminator. -/
theorem programOfSource_terminated {source : String} (hsource : terminator ∉ source.toList)
    (scratch : TextBuffer) :
    ∃ result, SameProgram (byteLength source.toList) (byteLength source.toList + 1)
        (programOfSource source scratch).1 result ∧
      ∀ (whole : String) (after : List Char), whole.toList = source.toList ++ terminator :: after →
        (programOfSource whole scratch).1 = result := by
  obtain ⟨tokens, hsame, hafter⟩ := scanFrom_terminator 0 scratch hsource
  refine ⟨tokens >>= programOfTokens, ?_, ?_⟩
  · rw [Nat.zero_add] at hsame
    change SameProgram _ _ ((scanFrom source.toList 0 scratch).1 >>= programOfTokens) _
    generalize hscan : (scanFrom source.toList 0 scratch).1 = tokens' at hsame ⊢
    cases hsame with
    | ok front hfront => exact sameProgram_of_moved front hfront (Nat.lt_succ_self _)
    | error hsame =>
        have hstart := start_lt_of_scanFrom (Prod.ext hscan rfl)
        rw [Nat.zero_add] at hstart
        exact .error hsame.kind hsame.message (.inl ⟨hstart, hsame.start⟩)
  · intro whole after hwhole
    change (scanFrom whole.toList 0 scratch).1 >>= programOfTokens = _
    rw [hwhole, hafter after]

end ScriptHost
