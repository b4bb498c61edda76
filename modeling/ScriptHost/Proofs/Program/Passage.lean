import ScriptHost.Proofs.Program.Grammar
import ScriptHost.Proofs.Program.Room

/-!
Cursors on the two sides of what was read. The cursor in front is the one behind with the tokens
put back; one lemma for each parser of single tokens says which tokens those are, and that the end
of the text was not among them.
-/

namespace ScriptHost

namespace Cursor

/-- The cursor in front of these tokens as well. -/
def before (d : Cursor) (used : List Token) : Cursor :=
  { d with remaining := used ++ d.remaining }

/-- Whether a function body encloses the cursor. -/
def inside (c : Cursor) : Bool := c.functionDepth != 0

/-- The end of the text is still to come. -/
def HasEnd (c : Cursor) : Prop := ∃ t ∈ c.remaining, t.kind = .endOfText

variable {c d : Cursor}

@[simp] theorem before_nil (d : Cursor) : d.before [] = d := rfl

@[simp] theorem before_before (d : Cursor) (first second : List Token) :
    (d.before second).before first = d.before (first ++ second) := by
  simp [before]

@[simp] theorem inside_before (d : Cursor) (used : List Token) :
    (d.before used).inside = d.inside := rfl

@[simp] theorem kind_next_before (d : Cursor) (used : List Token) :
    (d.before used).next.kind = leading used d.next.kind := by
  cases used <;> rfl

theorem kind_second_before (d : Cursor) (t : Token) (rest : List Token) :
    ((d.before (t :: rest)).remaining.tail.headD Parser.endOfText).kind =
      leading rest d.next.kind :=
  d.kind_next_before rest

theorem length_remaining_before (d : Cursor) (used : List Token) :
    (d.before used).remaining.length = used.length + d.remaining.length :=
  List.length_append

/-- The cursor on another level. -/
def atDepth (c : Cursor) (depth : Nat) : Cursor := { c with depth := depth }

@[simp] theorem atDepth_before (d : Cursor) (used : List Token) (depth : Nat) :
    (d.before used).atDepth depth = (d.atDepth depth).before used := rfl

@[simp] theorem atDepth_atDepth (c : Cursor) (first second : Nat) :
    (c.atDepth first).atDepth second = c.atDepth second := rfl

@[simp] theorem atDepth_self (c : Cursor) : c.atDepth c.depth = c := rfl

@[simp] theorem length_remaining_atDepth (c : Cursor) (depth : Nat) :
    (c.atDepth depth).remaining.length = c.remaining.length := rfl

@[simp] theorem inside_atDepth (c : Cursor) (depth : Nat) :
    (c.atDepth depth).inside = c.inside := rfl

theorem HasEnd.pos (h : c.HasEnd) : 0 < c.remaining.length := by
  obtain ⟨t, ht, -⟩ := h
  exact List.length_pos_of_mem ht

/-- A token that does not mark the end is the first that remains. -/
theorem exists_before_of_next (h : c.next.kind ≠ .endOfText) (hend : c.HasEnd) :
    c = c.taken.before [c.next] ∧ c.taken.HasEnd := by
  obtain ⟨t, ht, hkind⟩ := hend
  obtain ⟨remaining, limit, depth, functionDepth⟩ := c
  cases remaining with
  | nil => exact absurd rfl h
  | cons first rest =>
      have htaken : taken ⟨first :: rest, limit, depth, functionDepth⟩ =
          ⟨rest, limit, depth, functionDepth⟩ := if_neg h
      rw [htaken]
      refine ⟨rfl, t, ?_, hkind⟩
      rcases List.mem_cons.mp ht with rfl | ht
      · exact absurd hkind h
      · exact ht

end Cursor

/-- Between the cursors stand tokens that are written for the construct, and the end of the text is
still to come. -/
def Passes (room : Nat) (construct : Construct) (c d : Cursor) : Prop :=
  ∃ used : List Token, c = d.before used ∧ d.HasEnd ∧
    Derives room d.inside d.next.kind used construct

/-- What was read while levels were entered is read on the first level once that is restored. -/
theorem Passes.restored {room : Nat} {construct : Construct} {c d : Cursor}
    (h : Passes room construct (c.atDepth d.depth) d) :
    Passes room construct c (d.atDepth c.depth) := by
  obtain ⟨used, hbefore, hend, hderives⟩ := h
  refine ⟨used, ?_, hend, hderives⟩
  calc c = (c.atDepth d.depth).atDepth c.depth := rfl
    _ = (d.atDepth c.depth).before used := by rw [hbefore, Cursor.atDepth_before]

namespace Parser

variable {α β : Type} {c d : Cursor} {kind : TokenKind} {message : String}

/-- Whatever the parser reads is written for the construct. -/
def Finds (p : Parser α) (construct : α → Construct) : Prop :=
  ∀ {room : Nat} {c d : Cursor} {a : α}, c.HasRoom room → c.HasEnd → p c = .ok a d →
    Passes room (construct a) c d

theorem ok_of_peekKind {f : TokenKind → Parser β} {b : β} (h : (peekKind >>= f) c = .ok b d) :
    f c.next.kind c = .ok b d := h

theorem ok_of_tokensLeft {f : List Token → Parser β} {b : β}
    (h : (tokensLeft >>= f) c = .ok b d) : f c.remaining c = .ok b d := h

theorem ok_of_discard {p : Parser α} {f : PUnit → Parser β} {b : β}
    (h : (discard p >>= f) c = .ok b d) :
    ∃ a middle, p c = .ok a middle ∧ f ⟨⟩ middle = .ok b d := by
  have hsame : (discard p >>= f) = p >>= fun _ => f ⟨⟩ := bind_map_left _ p f
  rw [hsame] at h
  exact ok_of_bind h

theorem before_of_advance {t : Token} (h : advance c = .ok t d) (hkind : c.next.kind ≠ .endOfText)
    (hend : c.HasEnd) : c = d.before [t] ∧ d.HasEnd ∧ t.kind = c.next.kind := by
  rw [advance_apply] at h
  cases h
  obtain ⟨hbefore, hend⟩ := Cursor.exists_before_of_next hkind hend
  exact ⟨hbefore, hend, rfl⟩

theorem before_of_expect {t : Token} (h : expect kind message c = .ok t d)
    (hkind : kind ≠ .endOfText) (hend : c.HasEnd) :
    c = d.before [t] ∧ d.HasEnd ∧ t.kind = kind := by
  rw [expect_apply] at h
  split at h
  · rename_i hnext
    cases h
    obtain ⟨hbefore, hend⟩ := Cursor.exists_before_of_next (hnext ▸ hkind) hend
    exact ⟨hbefore, hend, hnext⟩
  · exact absurd h (refuseNext_ne_ok message c t d)

theorem before_of_expectProperty {t : Token} (h : expectProperty message c = .ok t d)
    (hend : c.HasEnd) : c = d.before [t] ∧ d.HasEnd ∧ t.kind.isProperty = true := by
  have hread := ok_of_peekKind h
  generalize hnext : c.next.kind = kind at hread
  split at hread
  · obtain ⟨hbefore, hend, ht⟩ := before_of_advance hread (by simp [hnext]) hend
    exact ⟨hbefore, hend, by rw [ht, hnext]; rfl⟩
  · obtain ⟨hbefore, hend, ht⟩ := before_of_advance hread (by simp [hnext]) hend
    exact ⟨hbefore, hend, by rw [ht, hnext]; rfl⟩
  · exact absurd hread (refuseNext_ne_ok message c t d)

theorem before_of_accept? {found : Option Token} (h : accept? kind c = .ok found d)
    (hkind : kind ≠ .endOfText) (hend : c.HasEnd) :
    (∃ t, found = some t ∧ c = d.before [t] ∧ d.HasEnd ∧ t.kind = kind) ∨
      found = none ∧ c = d ∧ d.next.kind ≠ kind := by
  rw [accept?_apply] at h
  split at h
  · rename_i hnext
    cases h
    obtain ⟨hbefore, hend⟩ := Cursor.exists_before_of_next (hnext ▸ hkind) hend
    exact .inl ⟨_, rfl, hbefore, hend, hnext⟩
  · rename_i hnext
    cases h
    exact .inr ⟨rfl, rfl, hnext⟩

/-- A level is entered only where there is room for it. -/
theorem entered_of_descend {room : Nat} (h : descend c = .ok () d) (hroom : c.HasRoom room) :
    ∃ rest, room = rest + 1 ∧ d = c.atDepth (c.depth + 1) ∧ d.HasRoom rest := by
  obtain ⟨hlimit, rest, hrest, hless⟩ := yields_descend c hroom () d h
  rw [descend_apply] at h
  split at h
  · cases h
    exact ⟨rest, hless, rfl, hrest⟩
  · cases h

theorem finds_tooDeep {construct : α → Construct} : (tooDeep : Parser α).Finds construct := by
  intro room c d a _ _ hread
  cases hread

theorem ok_of_restoringDepth {p : Parser α} {a : α} (h : restoringDepth p c = .ok a d) :
    ∃ left, p c = .ok a left ∧ d = left.atDepth c.depth := by
  obtain ⟨_, _, hget, hrest⟩ := ok_of_bind h
  cases hget
  obtain ⟨a, left, hinner, hrest⟩ := ok_of_bind hrest
  cases hrest
  exact ⟨left, hinner, rfl⟩

/-- A construct that is read one level deeper takes one level more of room. -/
theorem Finds.nested {p : Parser α} {inner outer : α → Construct} (h : p.Finds inner)
    (houter : ∀ {room inside next used a}, Derives room inside next used (inner a) →
      Derives (room + 1) inside next used (outer a)) : (nested p).Finds outer := by
  intro room c d a hroom hend hread
  obtain ⟨_, entered, hdescend, hread⟩ := ok_of_bind hread
  obtain ⟨rest, rfl, rfl, hrest⟩ := entered_of_descend hdescend hroom
  cases hinner : p (c.atDepth (c.depth + 1)) with
  | error e left =>
      rw [hinner] at hread
      cases hread
  | ok b left =>
      rw [hinner] at hread
      cases hread
      obtain ⟨used, hbefore, hleft, hderives⟩ := h hrest hend hinner
      refine ⟨used, ?_, hleft, houter hderives⟩
      have hdepth : c.depth + 1 = left.depth := congrArg Cursor.depth hbefore
      calc c = (c.atDepth (c.depth + 1)).atDepth (left.depth - 1) := by
            rw [Cursor.atDepth_atDepth, ← hdepth]
            rfl
        _ = (left.atDepth (left.depth - 1)).before used := by
            rw [hbefore]
            rfl

theorem Finds.deepened {p : Parser α} {inner outer : α → Construct} (h : p.Finds inner)
    (houter : ∀ {room inside next used a}, Derives room inside next used (inner a) →
      Derives (room + 1) inside next used (outer a)) : (deepened p).Finds outer :=
  fun hroom hend hread => h.nested houter hroom hend (deepened_eq_ok_iff.mp hread)

theorem names_of_separated {message : String} {bound ts : List Token} (hend : c.HasEnd)
    (hbound : c.remaining.length ≤ bound.length)
    (h : separated (expect .identifier message) bound c = .ok ts d) :
    ∃ used, c = d.before used ∧ d.HasEnd ∧ Names used (ts.map Token.lexeme) := by
  induction bound generalizing c ts with
  | nil =>
      have := hend.pos
      rw [List.length_nil] at hbound
      omega
  | cons token bound ih =>
      obtain ⟨name, middle, hfirst, hrest⟩ := ok_of_bind h
      obtain ⟨hbefore, hmiddle, hname⟩ := before_of_expect hfirst (by simp) hend
      obtain ⟨found, after, hcomma, hrest⟩ := ok_of_bind hrest
      rcases before_of_accept? hcomma (by simp) hmiddle with
        ⟨comma, rfl, hcomma, hafter, hkind⟩ | ⟨rfl, rfl, -⟩
      · obtain ⟨names, last, hnames, hpure⟩ := ok_of_bind hrest
        cases hpure
        rw [hbefore, hcomma, Cursor.length_remaining_before, Cursor.length_remaining_before,
          List.length_singleton, List.length_singleton, List.length_cons] at hbound
        obtain ⟨used, rfl, hd, hused⟩ := ih hafter (by omega) hnames
        refine ⟨name :: comma :: used, ?_, hd, .more hname hkind hused⟩
        rw [hbefore, hcomma, Cursor.before_before, Cursor.before_before]
        rfl
      · cases hrest
        exact ⟨[name], hbefore, hmiddle, .one hname⟩

theorem parameters_of_separatedUntil {message : String} {ts : List Token} (hend : c.HasEnd)
    (h : separatedUntil .rightParen (expect .identifier message) c = .ok ts d) :
    ∃ used, c = d.before used ∧ d.HasEnd ∧ Parameters used (ts.map Token.lexeme) := by
  have hread := ok_of_peekKind h
  split at hread
  · cases hread
    exact ⟨[], rfl, hend, .none⟩
  · obtain ⟨used, hbefore, hd, hnames⟩ :=
      names_of_separated hend (Nat.le_refl _) (ok_of_tokensLeft hread)
    exact ⟨used, hbefore, hd, .some hnames⟩

end Parser

end ScriptHost
