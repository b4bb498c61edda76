import ScriptHost.Proofs.Program.Room

/-!
That a parser succeeds. It reads certain kinds of tokens if it accepts them from every cursor with
enough room, whatever follows them that does not belong to the construct. The rules build longer
readings from shorter ones, token by token for the parsers of single tokens.
-/

namespace ScriptHost

/-- The kinds of the tokens still to be read. -/
def Cursor.kinds (c : Cursor) : List TokenKind := c.remaining.map Token.kind

theorem Cursor.kind_next (c : Cursor) : c.next.kind = c.kinds.headD .endOfText := by
  obtain ⟨remaining, limit, depth, functionDepth⟩ := c
  cases remaining <;> rfl

theorem Cursor.kind_next_of_cons {c : Cursor} {kind : TokenKind} {kinds : List TokenKind}
    (h : c.kinds = kind :: kinds) : c.next.kind = kind := by
  rw [kind_next, h]
  rfl

theorem Cursor.kinds_taken {c : Cursor} {kind : TokenKind} {kinds : List TokenKind}
    (h : c.kinds = kind :: kinds) (hkind : kind ≠ .endOfText) : c.taken.kinds = kinds := by
  have hnext : c.next.kind ≠ .endOfText := by
    rw [kind_next_of_cons h]
    exact hkind
  unfold taken
  rw [if_neg hnext]
  change c.remaining.tail.map Token.kind = kinds
  rw [List.map_tail]
  exact congrArg List.tail h

namespace Parser

variable {α β : Type} {room rest left : Nat} {ends ends' : TokenKind → Prop} {kind : TokenKind}
  {kinds kinds' : List TokenKind} {p : Parser α} {f : α → Parser β} {P : α → Prop} {Q : β → Prop}

/-- With so much room the parser accepts these kinds before any kind that ends the construct, reads
no further, and leaves the rest of the room. -/
def Reads (room rest : Nat) (ends : TokenKind → Prop) (p : Parser α) (kinds : List TokenKind)
    (P : α → Prop) : Prop :=
  ∀ (c : Cursor) (after : List TokenKind), c.HasRoom room → c.kinds = kinds ++ after →
    ends (after.headD .endOfText) →
    ∃ (a : α) (d : Cursor), p c = .ok a d ∧ d.kinds = after ∧ d.limit = c.limit ∧
      d.HasRoom rest ∧ P a

theorem Reads.mono {P' : α → Prop} (h : Reads room rest ends p kinds P) (hP : ∀ a, P a → P' a) :
    Reads room rest ends p kinds P' := by
  intro c after hroom hkinds hafter
  obtain ⟨a, d, hread, hleft, hlimit, hrest, ha⟩ := h c after hroom hkinds hafter
  exact ⟨a, d, hread, hleft, hlimit, hrest, hP a ha⟩

theorem reads_pure {a : α} (h : P a) : Reads room room ends (pure a) [] P :=
  fun c _ hroom hkinds _ => ⟨a, c, rfl, hkinds, rfl, hroom, h⟩

/-- What follows the first part is what the second begins with. -/
theorem Reads.bind (hp : Reads room rest ends p kinds P)
    (hf : ∀ a, P a → Reads rest left ends' (f a) kinds' Q)
    (hends : ∀ after : List TokenKind, ends' (after.headD .endOfText) →
      ends ((kinds' ++ after).headD .endOfText)) :
    Reads room left ends' (p >>= f) (kinds ++ kinds') Q := by
  intro c after hroom hkinds hafter
  rw [List.append_assoc] at hkinds
  obtain ⟨a, d, hread, hnext, hlimit, hrest, ha⟩ := hp c _ hroom hkinds (hends after hafter)
  obtain ⟨b, e, hread', hnext', hlimit', hleft, hb⟩ := hf a ha d after hrest hnext hafter
  exact ⟨b, e, (bind_of_ok hread).trans hread', hnext', hlimit'.trans hlimit, hleft, hb⟩

/-- A parser that takes the next token, before any other. -/
theorem reads_bind_of_token {v : Token → α} (hp : ∀ c : Cursor, c.next.kind = kind →
      p c = .ok (v c.next) c.taken) (hkind : kind ≠ .endOfText)
    (h : ∀ token, Reads room rest ends (f (v token)) kinds Q) :
    Reads room rest ends (p >>= f) (kind :: kinds) Q := by
  intro c after hroom hkinds hafter
  have hnext : c.next.kind = kind := Cursor.kind_next_of_cons hkinds
  obtain ⟨b, d, hread, hleft, hlimit, hrest, hb⟩ :=
    h c.next c.taken after hroom.taken (Cursor.kinds_taken hkinds hkind) hafter
  exact ⟨b, d, (bind_of_ok (hp c hnext)).trans hread, hleft, hlimit.trans c.limit_taken, hrest, hb⟩

theorem reads_advance_bind {f : Token → Parser β} (hkind : kind ≠ .endOfText)
    (h : ∀ token, Reads room rest ends (f token) kinds Q) :
    Reads room rest ends (advance >>= f) (kind :: kinds) Q :=
  reads_bind_of_token (v := id) (fun c _ => advance_apply c) hkind h

theorem reads_expect_bind {f : Token → Parser β} {message : String} (hkind : kind ≠ .endOfText)
    (h : ∀ token, Reads room rest ends (f token) kinds Q) :
    Reads room rest ends (expect kind message >>= f) (kind :: kinds) Q := by
  apply reads_bind_of_token (v := id) _ hkind h
  intro c hnext
  rw [expect_apply, if_pos hnext]
  rfl

theorem reads_peekKind_bind {f : TokenKind → Parser β}
    (h : Reads room rest ends (f kind) (kind :: kinds) Q) :
    Reads room rest ends (peekKind >>= f) (kind :: kinds) Q := by
  intro c after hroom hkinds hafter
  have hnext : c.next.kind = kind := Cursor.kind_next_of_cons hkinds
  obtain ⟨b, d, hread, hrest⟩ := h c after hroom hkinds hafter
  refine ⟨b, d, ?_, hrest⟩
  change f c.next.kind c = _
  rw [hnext]
  exact hread

/-- The kind that ends the construct decides how it ends. -/
theorem reads_peekKind_bind_nil {f : TokenKind → Parser β}
    (h : ∀ kind, ends kind → Reads room rest (· = kind) (f kind) [] Q) :
    Reads room rest ends (peekKind >>= f) [] Q := by
  intro c after hroom hkinds hafter
  have hnext : c.next.kind = after.headD .endOfText := by
    rw [c.kind_next, hkinds]
    rfl
  exact h c.next.kind (hnext ▸ hafter) c after hroom hkinds hnext.symm

theorem reads_accept?_bind {f : Option Token → Parser β} (hkind : kind ≠ .endOfText)
    (h : ∀ token, Reads room rest ends (f (some token)) kinds Q) :
    Reads room rest ends (accept? kind >>= f) (kind :: kinds) Q := by
  apply reads_bind_of_token (v := some) _ hkind h
  intro c hnext
  rw [accept?_apply, if_pos hnext]

theorem reads_accept?_bind_nil {f : Option Token → Parser β} (hends : ¬ ends kind)
    (h : Reads room rest ends (f none) [] Q) :
    Reads room rest ends (accept? kind >>= f) [] Q := by
  intro c after hroom hkinds hafter
  have hnext : c.next.kind ≠ kind := by
    rintro rfl
    rw [c.kind_next, hkinds] at hends
    exact hends hafter
  obtain ⟨b, d, hread, hrest⟩ := h c after hroom hkinds hafter
  have hnone : accept? kind c = .ok none c := by
    rw [accept?_apply, if_neg hnext]
  exact ⟨b, d, (bind_of_ok hnone).trans hread, hrest⟩

theorem reads_discard_bind {f : PUnit → Parser β}
    (h : Reads room rest ends (p >>= fun _ => f ⟨⟩) kinds Q) :
    Reads room rest ends (discard p >>= f) kinds Q := by
  have hsame : (discard p >>= f) = p >>= fun _ => f ⟨⟩ := bind_map_left _ p f
  rw [hsame]
  exact h

theorem reads_tokensLeft_bind {f : List Token → Parser β}
    (h : ∀ bound, kinds.length ≤ bound.length → Reads room rest ends (f bound) kinds Q) :
    Reads room rest ends (tokensLeft >>= f) kinds Q := by
  intro c after hroom hkinds hafter
  have hlength : kinds.length ≤ c.remaining.length := by
    have hsum := congrArg List.length hkinds
    rw [Cursor.kinds, List.length_map, List.length_append] at hsum
    omega
  exact h c.remaining hlength c after hroom hkinds hafter

/-- A cursor with room enters a level. -/
theorem descend_of_hasRoom {c : Cursor} (h : c.HasRoom (room + 1)) :
    descend c = .ok () { c with depth := c.depth + 1 } ∧
      Cursor.HasRoom { c with depth := c.depth + 1 } room := by
  change c.limit = c.depth + (room + 1) at h
  constructor
  · rw [descend_apply, if_pos (by omega)]
  · change c.limit = c.depth + 1 + room
    omega

theorem reads_descend_bind {f : Unit → Parser β} (h : Reads rest left ends (f ()) kinds Q) :
    Reads (rest + 1) left ends (descend >>= f) kinds Q := by
  intro c after hroom hkinds hafter
  obtain ⟨hdescend, hentered⟩ := descend_of_hasRoom hroom
  obtain ⟨b, d, hread, hrest⟩ := h _ after hentered hkinds hafter
  exact ⟨b, d, (bind_of_ok hdescend).trans hread, hrest⟩

theorem Reads.nested (h : Reads room room ends p kinds P) :
    Reads (room + 1) (room + 1) ends (nested p) kinds P := by
  intro c after hroom hkinds hafter
  obtain ⟨hdescend, hentered⟩ := descend_of_hasRoom hroom
  obtain ⟨a, d, hread, hleft, hlimit, hrest, ha⟩ := h _ after hentered hkinds hafter
  refine ⟨a, { d with depth := d.depth - 1 }, (bind_of_ok hdescend).trans ?_, hleft, hlimit, ?_, ha⟩
  · rw [hread]
  · change c.limit = c.depth + (room + 1) at hroom
    change d.limit = c.limit at hlimit
    change d.limit = d.depth + room at hrest
    change d.limit = d.depth - 1 + (room + 1)
    omega

/-- The room that was taken is there again. -/
theorem Reads.restoringDepth (h : Reads room rest ends p kinds P) :
    Reads room room ends (restoringDepth p) kinds P := by
  intro c after hroom hkinds hafter
  obtain ⟨a, d, hread, hleft, hlimit, -, ha⟩ := h c after hroom hkinds hafter
  have hwhole : Parser.restoringDepth p c = .ok a { d with depth := c.depth } :=
    (bind_of_ok rfl).trans ((bind_of_ok hread).trans rfl)
  exact ⟨a, _, hwhole, hleft, hlimit, hlimit.trans hroom, ha⟩

end Parser

end ScriptHost
