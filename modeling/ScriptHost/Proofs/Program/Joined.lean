import ScriptHost.Proofs.Program.Accepted
import ScriptHost.Proofs.Program.Restored
import ScriptHost.Proofs.Program.Spelling
import ScriptHost.Proofs.Program.Writes
import ScriptHost.Proofs.Token.Joined

/-!
Programs one after the other. A semicolon behind a program ends its last statement or makes an empty
one, and nothing of what is read behind it depends on what was read before.
-/

namespace ScriptHost

variable {room : Nat} {inside : Bool} {next : TokenKind} {used after : List Token}
  {construct : Construct} {body more : List Stmt} {mark : Token}

/-- A kind that may come after the construct, where that stands in an expression. -/
def Construct.EndsAt (next : TokenKind) : Construct → Prop
  | .expression _ | .assignment _ => EndsExpression next
  | .level groups _ => Ends groups next
  | .operations operators tighter _ _ => Ends (operators :: tighter) next
  | .operand _ | .unary _ | .suffixed _ | .suffixes .. | .primary _ => Ends [] next
  | .function .. | .block .. => True
  | _ => False

theorem Ends.of_cons {groups : List (List (TokenKind × Operator))}
    {operators : List (TokenKind × Operator)} (h : Ends (operators :: groups) next) :
    Ends groups next :=
  ⟨h.1, h.2.1, (List.forall_mem_cons.mp h.2.2).2⟩

/-- What is not at the end of a construct does not depend on what follows that. -/
theorem Derives.leading {other : TokenKind} {chain : List Token}
    (h : Derives room inside (leading chain next) used construct)
    (hend : Derives room inside other used construct) :
    Derives room inside (ScriptHost.leading chain other) used construct := by
  cases chain with
  | nil => exact hend
  | cons t rest => exact h

/-- An expression is derived before any kind that ends it. -/
theorem Derives.before {other : TokenKind} (h : Derives room inside next used construct)
    (hends : construct.EndsAt other) : Derives room inside other used construct := by
  induction h with
  | statements_nil | statements_cons | statement | var | var_initial | functionForm
  | expressionForm | blockForm | conditional | conditional_else | whileLoop | returnForm
  | returnForm_value | empty | arguments_nil | arguments | items_one | items_cons | entries_nil
  | entries_one | entries_cons => exact hends.elim
  | block hopening hbody hclosing => exact .block hopening hbody hclosing
  | function hfirst hname hopening hparameters hclosing _ ih =>
      exact .function hfirst hname hopening hparameters hclosing (ih trivial)
  | expression _ ih => exact .expression (ih hends)
  | assignment _ _ ih => exact .assignment (ih hends.1) hends.2
  | assignment_sign htarget hsign _ hassignable _ ih =>
      exact .assignment_sign htarget hsign (ih hends) hassignable
  | level_nil _ ih => exact .level_nil (ih hends)
  | level_cons hleft _ ih ihchain =>
      exact .level_cons (hleft.leading (ih hends.of_cons)) (ihchain hends)
  | operations_nil => exact .operations_nil (hends.2.2 _ List.mem_cons_self)
  | operations_cons hmem hsign hright _ ih ihchain =>
      exact .operations_cons hmem hsign (hright.leading (ih hends.of_cons)) (ihchain hends)
  | operand _ ih => exact .operand (ih hends)
  | unary hsign _ ih => exact .unary hsign (ih hends)
  | unary_none h hstart ih =>
      obtain ⟨t, rest, rfl, -⟩ := h.begins
      exact .unary_none (ih hends) hstart
  | suffixed hprimary _ ih ihchain => exact .suffixed (hprimary.leading (ih hends)) (ihchain hends)
  | suffixes_nil => exact .suffixes_nil hends.1 hends.2.1
  | suffixes_call hopening harguments hclosing _ _ ihchain =>
      exact .suffixes_call hopening harguments hclosing (ihchain hends)
  | suffixes_member hsign hname _ ihchain => exact .suffixes_member hsign hname (ihchain hends)
  | number ht hvalue => exact .number ht hvalue
  | string ht => exact .string ht
  | name ht => exact .name ht
  | this ht => exact .this ht
  | constant ht hvalue => exact .constant ht hvalue
  | functionExpression _ ih => exact .functionExpression (ih trivial)
  | parentheses hopening h hclosing => exact .parentheses hopening h hclosing
  | object hopening h hclosing => exact .object hopening h hclosing

theorem endsExpression_semicolon : EndsExpression .semicolon := by decide

/-- With a semicolon behind it the construct either ends in that, before anything but an
alternative, or stands before it. -/
inductive Construct.MeetsMark (room : Nat) (inside : Bool) (used : List Token) (mark : Token)
    (construct : Construct) : Prop
  | taken (h : ∀ next, next ≠ .keyword .else →
      Derives room inside next (used ++ [mark]) construct) :
      MeetsMark room inside used mark construct
  | left (h : Derives room inside .semicolon used construct) :
      MeetsMark room inside used mark construct

/-- Statements meet a semicolon. -/
def Construct.IsStatement : Construct → Prop
  | .statements _ | .statement _ | .form _ => True
  | _ => False

/-- A construct at the end of another meets the mark for both. -/
theorem Construct.MeetsMark.map {outer : Nat} {whole : Construct}
    (h : construct.MeetsMark room inside used mark) (place : List Token → List Token)
    (hplace : place (used ++ [mark]) = place used ++ [mark])
    (hwhole : ∀ next used, next ≠ .keyword .else → Derives room inside next used construct →
      Derives outer inside next (place used) whole) :
    whole.MeetsMark outer inside (place used) mark := by
  rcases h with htaken | hleft
  · refine .taken fun next hnext => ?_
    rw [← hplace]
    exact hwhole next _ hnext (htaken next hnext)
  · exact .left (hwhole .semicolon used (by simp) hleft)

theorem startsForm_semicolon {first second : TokenKind} (h : startsForm first second = false) :
    startsForm first .semicolon = false := by
  unfold startsForm at h ⊢
  split <;> simp_all

theorem Derives.eq_nil_of_statements (h : Derives room inside next used (.statements body))
    (hused : used = []) : body = [] := by
  cases h with
  | statements_nil => rfl
  | statements_cons hfirst _ =>
      obtain ⟨t, rest, rfl, -⟩ := hfirst.begins
      cases hused

theorem Derives.expression_before_mark {e : Expr} (hmark : mark.kind = .semicolon)
    (h : Derives room inside next used (.expression e)) (other : TokenKind) :
    Derives room inside (ScriptHost.leading [mark] other) used (.expression e) := by
  rw [leading_cons, hmark]
  exact h.before endsExpression_semicolon

theorem Derives.meetsMark (hmark : mark.kind = .semicolon)
    (h : Derives room inside next used construct) (hstatement : construct.IsStatement) :
    construct.MeetsMark room inside used mark := by
  induction h with
  | statements_nil => exact .left .statements_nil
  | @statements_cons room inside next used rest s body hfirst hrest ih ihrest =>
      cases rest with
      | nil =>
          obtain rfl := hrest.eq_nil_of_statements rfl
          refine (ih trivial).map (· ++ []) (by simp) fun next used _ h => ?_
          exact .statements_cons h .statements_nil
      | cons t rest =>
          rcases ihrest trivial with htaken | hleft
          · refine .taken fun next hnext => ?_
            rw [List.append_assoc]
            exact .statements_cons hfirst (htaken next hnext)
          · exact .left (.statements_cons hfirst hleft)
  | statement _ ih =>
      exact (ih trivial).map id rfl fun next used _ h => .statement h
  | var hfirst hname hend hbare =>
      cases hend with
      | bare => exact .taken fun next _ => .var hfirst hname (.marked hmark) (by simp [hmark])
      | marked hlast => exact .left (.var hfirst hname (.marked hlast) hbare)
  | var_initial hfirst hname hsign hvalue hend =>
      cases hend with
      | bare =>
          refine .taken fun next _ => ?_
          rw [List.append_nil]
          exact .var_initial hfirst hname hsign (hvalue.expression_before_mark hmark next)
            (.marked hmark)
      | marked hlast => exact .left (.var_initial hfirst hname hsign hvalue (.marked hlast))
  | functionForm h hname => exact .left (.functionForm (h.before trivial) hname)
  | @expressionForm room inside next value ending e hvalue hend hstart =>
      obtain ⟨t, rest, rfl, -⟩ := hvalue.begins
      cases hend with
      | bare =>
          refine .taken fun next _ => ?_
          rw [List.append_nil]
          refine .expressionForm (hvalue.expression_before_mark hmark next) (.marked hmark) ?_
          cases rest with
          | nil =>
              have hfirst : startsForm t.kind mark.kind = false :=
                hmark ▸ startsForm_semicolon hstart
              exact hfirst
          | cons u rest => exact hstart
      | marked hlast =>
          refine .left (.expressionForm hvalue (.marked hlast) ?_)
          cases rest <;> exact hstart
  | blockForm h => exact .left (.blockForm (h.before trivial))
  | @conditional room inside next first opening condition closing branch e s hfirst hopening
      hcondition hclosing hbranch hnext _ ih =>
      refine (ih trivial).map (fun branch => first :: opening :: condition ++ closing :: branch)
        (by simp) fun next used hnext h => ?_
      exact .conditional hfirst hopening hcondition hclosing h hnext
  | @conditional_else room inside next first opening condition closing branch sign other e s t
      hfirst hopening hcondition hclosing hbranch hsign hother _ _ ih =>
      refine (ih trivial).map
        (fun other => first :: opening :: condition ++ closing :: branch ++ sign :: other)
        (by simp) fun next used _ h => ?_
      exact .conditional_else hfirst hopening hcondition hclosing hbranch hsign h
  | @whileLoop room inside next first opening condition closing body e s hfirst hopening hcondition
      hclosing hbody _ ih =>
      refine (ih trivial).map (fun body => first :: opening :: condition ++ closing :: body)
        (by simp) fun next used _ h => ?_
      exact .whileLoop hfirst hopening hcondition hclosing h
  | returnForm hfirst hend hbare =>
      cases hend with
      | bare => exact .taken fun next _ => .returnForm hfirst (.marked hmark) (by simp [hmark]; rfl)
      | marked hlast => exact .left (.returnForm hfirst (.marked hlast) hbare)
  | returnForm_value hfirst hvalue hend =>
      cases hend with
      | bare =>
          refine .taken fun next _ => ?_
          rw [List.append_nil]
          exact .returnForm_value hfirst (hvalue.expression_before_mark hmark next) (.marked hmark)
      | marked hlast => exact .left (.returnForm_value hfirst hvalue (.marked hlast))
  | empty hmark => exact .left (.empty hmark)
  | _ => exact hstatement.elim

/-- Statements behind others. -/
theorem Derives.statements_append
    (h : Derives room inside (ScriptHost.leading after next) used (.statements body))
    (hafter : Derives room inside next after (.statements more)) :
    Derives room inside next (used ++ after) (.statements (body ++ more)) := by
  induction body generalizing used with
  | nil =>
      cases h
      exact hafter
  | cons s body ih =>
      cases h with
      | @statements_cons _ _ _ used rest _ _ hfirst hrest =>
          rw [← leading_append] at hfirst
          rw [List.append_assoc]
          exact .statements_cons hfirst (ih hrest)

/-- What a semicolon between two programs adds to their statements. -/
inductive Joint : List Stmt → Prop
  | none : Joint []
  | empty (span : Span) : Joint [.empty span]

/-- Two programs with a semicolon between them are one, with at most an empty statement more. -/
theorem Derives.joined (hmark : mark.kind = .semicolon)
    (h : Derives (room + 1) inside .endOfText used (.statements body))
    (hafter : Derives (room + 1) inside .endOfText after (.statements more)) :
    ∃ joint, Joint joint ∧
      Derives (room + 1) inside .endOfText (used ++ mark :: after)
        (.statements (body ++ joint ++ more)) := by
  rcases h.meetsMark hmark trivial with htaken | hleft
  · refine ⟨[], .none, ?_⟩
    rw [List.append_nil, List.append_cons]
    exact (htaken _ (hafter.leading_ne_else (by simp))).statements_append hafter
  · refine ⟨[.empty mark.span], .empty mark.span, ?_⟩
    have hempty : Derives (room + 1) inside .endOfText ([mark] ++ after)
        (.statements (.empty mark.span :: more)) :=
      .statements_cons (.statement (.empty hmark)) hafter
    rw [List.append_assoc]
    refine statements_append ?_ hempty
    change Derives (room + 1) inside mark.kind used (.statements body)
    rw [hmark]
    exact hleft

/-- A text behind a semicolon on a line of its own. -/
theorem scanFrom_semicolon (after : List Char) (offset : Nat) (scratch : TextBuffer) :
    ∃ mark : Token, mark.kind = .semicolon ∧
      (scanFrom (';' :: '\n' :: after) offset scratch).1 =
        (scanFrom after (offset + 1 + 1) scratch).1.map (mark :: ·) := by
  have halone : ScansAlone [';'] .semicolon [';'] := scansAlone_mark ([';'], _) (by decide)
  have hgap : IsGap ['\n'] := .blank rfl .nil
  have hmark := halone.scanFrom (apart_newline after) offset scratch scratch
  have hnewline := hgap.scanFrom after (offset + byteLength [';']) scratch
  rw [List.singleton_append] at hmark hnewline
  rw [hnewline] at hmark
  exact ⟨⟨.semicolon, String.ofList [';'], ⟨offset, offset + byteLength [';']⟩⟩, rfl, hmark⟩

/-- A program, a semicolon on a line of its own and another program hold the statements of both,
with at most an empty one between them. -/
theorem programOfSource_joined {first second : String} {scratch : TextBuffer}
    (hend : terminator ∉ first.toList) (hfirst : (programOfSource first scratch).1 = .ok body)
    (hsecond : (programOfSource second scratch).1 = .ok more) :
    ∃ whole joint, Joint joint ∧
      (programOfSource (first ++ "\n;\n" ++ second) scratch).1 = .ok whole ∧
      Stmt.bareAll whole = Stmt.bareAll (body ++ joint ++ more) := by
  obtain ⟨front, stop, htokens, -, hbody⟩ := derives_of_programOfSource hfirst
  obtain ⟨back, stop', htokens', -, hmore⟩ := derives_of_programOfSource hsecond
  obtain ⟨mark, hmark, hscan⟩ := scanFrom_semicolon second.toList (stop + 1) scratch
  obtain ⟨tokens, hmoved, hsame⟩ := sameText_of_scanFrom htokens' (stop + 1 + 1 + 1) scratch
  obtain ⟨moved, last, rfl, hfront⟩ := exists_front_of_scanFrom hmoved
  -- the second program, read from where its tokens stand in the whole text
  have halike : ReadAlike (programWithin maxTreeDepth (back ++ [.ofEnd stop'])) _ :=
    readAlike_of_sameText hsame
  rw [programWithin_of_derives rfl hmore] at halike
  generalize hread : programWithin maxTreeDepth (moved ++ [.ofEnd last]) = program at halike
  cases halike with
  | @ok _ more' hbare =>
      have hmoved' := derives_of_programWithin hfront rfl hread
      obtain ⟨joint, hjoint, hwhole⟩ := Derives.joined hmark hbody hmoved'
      refine ⟨body ++ joint ++ more', joint, hjoint, ?_, ?_⟩
      · have htext : (first ++ "\n;\n" ++ second).toList =
            first.toList ++ '\n' :: ';' :: '\n' :: second.toList := by
          simp
        change (scanFrom _ 0 scratch).1 >>= programOfTokens = _
        rw [htext, scanFrom_append_newline hend htokens _ scratch, hscan, hmoved]
        have hread : programOfTokens (front ++ mark :: moved ++ [.ofEnd last]) =
            .ok (body ++ joint ++ more') := programWithin_of_derives rfl hwhole
        rw [List.append_assoc, List.cons_append] at hread
        exact hread
      · rw [Stmt.bareAll_append, Stmt.bareAll_append _ more, hbare]

end ScriptHost
