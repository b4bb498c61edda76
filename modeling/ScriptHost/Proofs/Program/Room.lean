import ScriptHost.Proofs.Program.Reading

/-!
How much room a parser has. The room is how many levels of nesting a cursor may still enter, and
what a parser reads is bounded by the room it starts with. Each rule says of one way to build a
parser what is left of the room when it succeeds.
-/

namespace ScriptHost

/-- The cursor may enter this many levels more. -/
def Cursor.HasRoom (c : Cursor) (room : Nat) : Prop :=
  c.limit = c.depth + room

theorem Cursor.HasRoom.taken {c : Cursor} {room : Nat} (h : c.HasRoom room) :
    c.taken.HasRoom room := by
  rw [HasRoom, limit_taken, depth_taken]
  exact h

namespace Parser

variable {α β : Type} {room : Nat}

/-- Whatever the parser reads with so much room satisfies the property together with the room that
is left, under the same limit. -/
def Yields (room : Nat) (p : Parser α) (post : α → Nat → Prop) : Prop :=
  ∀ c : Cursor, c.HasRoom room → ∀ (a : α) (d : Cursor), p c = .ok a d →
    d.limit = c.limit ∧ ∃ rest, d.HasRoom rest ∧ post a rest

/-- The parser leaves as much room as it found. -/
abbrev Keeps (room : Nat) (p : Parser α) (P : α → Prop) : Prop :=
  Yields room p fun a rest => rest = room ∧ P a

variable {p : Parser α} {f : α → Parser β} {post post' : α → Nat → Prop} {P Q : α → Prop}

theorem Yields.mono (h : Yields room p post) (hpost : ∀ a rest, post a rest → post' a rest) :
    Yields room p post' := by
  intro c hroom a d hread
  obtain ⟨hlimit, rest, hrest, ha⟩ := h c hroom a d hread
  exact ⟨hlimit, rest, hrest, hpost a rest ha⟩

theorem Keeps.mono (h : Keeps room p P) (hP : ∀ a, P a → Q a) : Keeps room p Q := by
  apply Yields.mono h
  rintro a rest ⟨hrest, ha⟩
  exact ⟨hrest, hP a ha⟩

theorem yields_pure {a : α} (h : post a room) : Yields room (pure a) post := by
  intro c hroom b d hread
  cases hread
  exact ⟨rfl, room, hroom, h⟩

theorem keeps_pure {a : α} (h : P a) : Keeps room (pure a) P :=
  yields_pure ⟨rfl, h⟩

theorem Yields.bind {post' : β → Nat → Prop} (hp : Yields room p post)
    (hf : ∀ a rest, post a rest → Yields rest (f a) post') : Yields room (p >>= f) post' := by
  intro c hroom b d hread
  obtain ⟨a, middle, hfirst, hread⟩ := ok_of_bind hread
  obtain ⟨hlimit, rest, hrest, ha⟩ := hp c hroom a middle hfirst
  obtain ⟨hlimit', hb⟩ := hf a rest ha middle hrest b d hread
  exact ⟨hlimit'.trans hlimit, hb⟩

theorem Keeps.bind {post' : β → Nat → Prop} (hp : Keeps room p P)
    (hf : ∀ a, P a → Yields room (f a) post') : Yields room (p >>= f) post' := by
  apply Yields.bind hp
  rintro a rest ⟨rfl, ha⟩
  exact hf a ha

theorem Keeps.map {g : α → β} {Q : β → Prop} (hp : Keeps room p P) (hg : ∀ a, P a → Q (g a)) :
    Keeps room (g <$> p) Q := by
  rw [map_eq_pure_bind]
  apply Keeps.bind hp
  intro a ha
  exact keeps_pure (hg a ha)

/-- What is read of tokens alone takes no room. -/
theorem Keeps.discard (hp : Keeps room p P) : Keeps room (discard p) fun _ => True :=
  hp.map fun _ _ => trivial

theorem yields_peekKind_bind {f : TokenKind → Parser β} {post : β → Nat → Prop}
    (h : ∀ kind, Yields room (f kind) post) : Yields room (peekKind >>= f) post :=
  fun c hroom b d hread => h c.next.kind c hroom b d hread

theorem yields_peekSecondKind_bind {f : TokenKind → Parser β} {post : β → Nat → Prop}
    (h : ∀ kind, Yields room (f kind) post) : Yields room (peekSecondKind >>= f) post :=
  fun c hroom b d hread => h (c.remaining.tail.headD endOfText).kind c hroom b d hread

theorem yields_tokensLeft_bind {f : List Token → Parser β} {post : β → Nat → Prop}
    (h : ∀ bound, Yields room (f bound) post) : Yields room (tokensLeft >>= f) post :=
  fun c hroom b d hread => h c.remaining c hroom b d hread

theorem yields_get_bind {f : Cursor → Parser β} {post : β → Nat → Prop}
    (h : ∀ c, Yields room (f c) post) : Yields room (get >>= f) post :=
  fun c hroom b d hread => h c c hroom b d hread

theorem yields_refuse (message : String) (span : Span) :
    Yields room (refuse message span : Parser α) post :=
  fun _ _ _ _ hread => nomatch hread

theorem yields_tooDeep : Yields room (tooDeep : Parser α) post :=
  fun _ _ _ _ hread => nomatch hread

theorem yields_refuseNext (message : String) :
    Yields room (refuseNext message : Parser α) post :=
  fun c _ a d hread => absurd hread (refuseNext_ne_ok message c a d)

theorem keeps_advance : Keeps room advance fun _ => True := by
  intro c hroom a d hread
  rw [advance_apply] at hread
  cases hread
  exact ⟨c.limit_taken, room, hroom.taken, rfl, trivial⟩

theorem keeps_expect (kind : TokenKind) (message : String) :
    Keeps room (expect kind message) fun _ => True := by
  apply yields_peekKind_bind
  intro found
  split
  · exact keeps_advance
  · exact yields_refuseNext message

theorem keeps_expectProperty (message : String) :
    Keeps room (expectProperty message) fun _ => True := by
  apply yields_peekKind_bind
  intro found
  split
  · exact keeps_advance
  · exact keeps_advance
  · exact yields_refuseNext message

theorem keeps_accept? (kind : TokenKind) : Keeps room (accept? kind) fun _ => True := by
  apply yields_peekKind_bind
  intro found
  split
  · exact keeps_advance.bind fun _ _ => keeps_pure trivial
  · exact keeps_pure trivial

/-- A level is entered only where there is room for it. -/
theorem yields_descend : Yields room descend fun _ rest => room = rest + 1 := by
  intro c hroom a d hread
  change c.limit = c.depth + room at hroom
  rw [descend_apply] at hread
  split at hread
  · rename_i hless
    cases hread
    obtain ⟨rest, rfl⟩ : ∃ rest, room = rest + 1 := Nat.exists_eq_add_one.mpr (by omega)
    refine ⟨rfl, rest, ?_, rfl⟩
    change c.limit = c.depth + 1 + rest
    omega
  · cases hread

theorem keeps_nested (h : ∀ rest, room = rest + 1 → Keeps rest p P) : Keeps room (nested p) P := by
  intro c hroom a d hread
  obtain ⟨_, entered, hdescend, hread⟩ := ok_of_bind hread
  rw [descend_apply] at hdescend
  split at hdescend
  · cases hdescend
    cases hinner : p { c with depth := c.depth + 1 } with
    | error e left =>
        rw [hinner] at hread
        cases hread
    | ok b left =>
        rw [hinner] at hread
        cases hread
        change c.limit = c.depth + room at hroom
        obtain ⟨rest, rfl⟩ : ∃ rest, room = rest + 1 := Nat.exists_eq_add_one.mpr (by omega)
        have hentered : Cursor.HasRoom { c with depth := c.depth + 1 } rest := by
          change c.limit = c.depth + 1 + rest
          omega
        obtain ⟨hlimit, same, hleft, hsame, ha⟩ := h rest rfl _ hentered a left hinner
        refine ⟨hlimit, rest + 1, ?_, rfl, ha⟩
        change left.limit = c.limit at hlimit
        change left.limit = left.depth + same at hleft
        change left.limit = left.depth - 1 + (rest + 1)
        omega
  · cases hdescend

theorem keeps_deepened (h : ∀ rest, room = rest + 1 → Keeps rest p P) :
    Keeps room (deepened p) P :=
  fun c hroom a d hread => keeps_nested h c hroom a d (deepened_eq_ok_iff.mp hread)

/-- Whatever room a parser takes is given back. -/
theorem keeps_restoringDepth (h : Yields room p fun a _ => P a) :
    Keeps room (restoringDepth p) P := by
  intro c hroom a d hread
  obtain ⟨_, _, hget, hread⟩ := ok_of_bind hread
  cases hget
  obtain ⟨b, left, hinner, hread⟩ := ok_of_bind hread
  cases hread
  obtain ⟨hlimit, _, -, ha⟩ := h c hroom a left hinner
  exact ⟨hlimit, room, hlimit.trans hroom, rfl, ha⟩

theorem keeps_inFunction (h : Keeps room p P) : Keeps room (inFunction p) P := by
  intro c hroom a d hread
  unfold inFunction at hread
  cases hinner : p { c with functionDepth := c.functionDepth + 1 } with
  | error e left =>
      rw [hinner] at hread
      cases hread
  | ok b left =>
      rw [hinner] at hread
      cases hread
      exact h { c with functionDepth := c.functionDepth + 1 } hroom a left hinner

theorem keeps_manyUntil {closes : TokenKind → Bool} (h : Keeps room p P) (bound : List Token) :
    Keeps room (manyUntil closes p bound) fun as => ∀ a ∈ as, P a := by
  induction bound with
  | nil => exact keeps_pure (List.forall_mem_nil _)
  | cons token bound ih =>
      apply yields_peekKind_bind
      intro kind
      split
      · exact keeps_pure (List.forall_mem_nil _)
      · apply h.bind
        intro a ha
        apply ih.bind
        intro as has
        exact keeps_pure (List.forall_mem_cons.mpr ⟨ha, has⟩)

theorem keeps_separated (h : Keeps room p P) (bound : List Token) :
    Keeps room (separated p bound) fun as => ∀ a ∈ as, P a := by
  induction bound with
  | nil => exact keeps_pure (List.forall_mem_nil _)
  | cons token bound ih =>
      apply h.bind
      intro a ha
      apply (keeps_accept? .comma).bind
      intro comma _
      cases comma with
      | none => exact keeps_pure (List.forall_mem_singleton.mpr ha)
      | some _ =>
          apply ih.bind
          intro as has
          exact keeps_pure (List.forall_mem_cons.mpr ⟨ha, has⟩)

theorem keeps_separatedUntil {closing : TokenKind} (h : Keeps room p P) :
    Keeps room (separatedUntil closing p) fun as => ∀ a ∈ as, P a := by
  apply yields_peekKind_bind
  intro kind
  split
  · exact keeps_pure (List.forall_mem_nil _)
  · apply yields_tokensLeft_bind
    intro bound
    exact keeps_separated h bound

theorem keeps_following? {sign : TokenKind} (h : Keeps room p P) :
    Keeps room (following? sign p) fun a? => ∀ a ∈ a?, P a := by
  apply (keeps_accept? sign).bind
  intro found _
  cases found with
  | none => exact keeps_pure (by simp)
  | some _ =>
      apply h.bind
      intro a ha
      exact keeps_pure (by simpa using ha)

end Parser

end ScriptHost
