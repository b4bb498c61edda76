import ScriptHost.Proofs.Program.Passage

/-!
Where parsers stop. A parser that begins within a token list stops within it, not in front of where
it began and on no lower level, and this holds when it refuses as well; what it refuses is one of
the tokens. Each rule is about one way to build a parser.
-/

namespace ScriptHost

namespace Cursor

/-- The cursor stands in the token list: what is left to be read is the back of the list and has its
end, and no more levels have been entered than there are. -/
structure On (tokens : List Token) (c : Cursor) : Prop where
  suffix : c.remaining <:+ tokens
  ends : c.HasEnd
  depth_le : c.depth ≤ c.limit

/-- The second cursor stands where the first does or behind it, and in as many levels and function
bodies at least. -/
structure Onward (c d : Cursor) : Prop where
  suffix : d.remaining <:+ c.remaining
  limit : d.limit = c.limit
  depth : c.depth ≤ d.depth
  functionDepth : c.functionDepth ≤ d.functionDepth

/-- The number of tokens in front of the cursor. -/
def index (tokens : List Token) (c : Cursor) : Nat := tokens.length - c.remaining.length

variable {tokens : List Token} {c d e : Cursor}

theorem Onward.refl (c : Cursor) : c.Onward c :=
  ⟨List.suffix_refl _, rfl, Nat.le_refl _, Nat.le_refl _⟩

theorem Onward.trans (h : c.Onward d) (h' : d.Onward e) : c.Onward e :=
  ⟨h'.suffix.trans h.suffix, h'.limit.trans h.limit, Nat.le_trans h.depth h'.depth,
    Nat.le_trans h.functionDepth h'.functionDepth⟩

namespace On

/-- The next token is the one with the index of the cursor. -/
theorem getElem?_index (h : c.On tokens) :
    c.index tokens < tokens.length ∧ tokens[c.index tokens]? = some c.next := by
  obtain ⟨front, rfl⟩ := h.suffix
  have hpos := h.ends.pos
  unfold index next
  cases hremaining : c.remaining with
  | nil => simp [hremaining] at hpos
  | cons t rest => simp

theorem next_mem (h : c.On tokens) : c.next ∈ tokens :=
  List.mem_of_getElem? h.getElem?_index.2

/-- Taking a token goes on, and no further than to the end. -/
theorem taken (h : c.On tokens) : c.taken.On tokens ∧ c.Onward c.taken := by
  by_cases hkind : c.next.kind = .endOfText
  · have hsame : c.taken = c := if_pos hkind
    rw [hsame]
    exact ⟨h, .refl c⟩
  · obtain ⟨hbefore, hends⟩ := exists_before_of_next hkind h.ends
    have hsuffix : c.taken.remaining <:+ c.remaining :=
      ⟨[c.next], (congrArg Cursor.remaining hbefore).symm⟩
    have hsame : c.taken = { c with remaining := c.remaining.tail } := if_neg hkind
    have hdepth : c.depth = c.taken.depth := c.depth_taken.symm
    have hfunction : c.functionDepth = c.taken.functionDepth :=
      (congrArg Cursor.functionDepth hsame).symm
    exact ⟨⟨hsuffix.trans h.suffix, hends, by simpa using h.depth_le⟩, hsuffix, c.limit_taken,
      Nat.le_of_eq hdepth, Nat.le_of_eq hfunction⟩

end On

end Cursor

namespace Parser

/-- A parser that began at the cursor has accepted something with the property, or refused a token
of the list, and stands further on in the list. -/
inductive Stops {α : Type} (tokens : List Token) (c : Cursor) (P : α → Prop) :
    EStateM.Result Diagnostic Cursor α → Prop
  | ok {a : α} {d : Cursor} (hd : d.On tokens) (hon : c.Onward d) (ha : P a) :
      Stops tokens c P (.ok a d)
  | error {e : Diagnostic} {d : Cursor} (hd : d.On tokens) (hon : c.Onward d)
      (hkind : e.kind = .parser) (hspan : ∃ t ∈ tokens, e.span? = some t.span) :
      Stops tokens c P (.error e d)

/-- Within the token list, the parser stops within it. -/
def Stays {α : Type} (tokens : List Token) (p : Parser α) (P : α → Prop) : Prop :=
  ∀ c : Cursor, c.On tokens → Stops tokens c P (p c)

variable {α β : Type} {tokens : List Token} {p : Parser α} {f : α → Parser β} {P : α → Prop}
  {Q : β → Prop} {c d : Cursor}

/-- One of the tokens, where there is one. -/
abbrev FoundIn (tokens : List Token) (found : Option Token) : Prop := ∀ t ∈ found, t ∈ tokens

theorem Stops.of_onward {r : EStateM.Result Diagnostic Cursor α} (hon : c.Onward d)
    (h : Stops tokens d P r) : Stops tokens c P r := by
  cases h with
  | ok hd hon' ha => exact .ok hd (hon.trans hon') ha
  | error hd hon' hkind hspan => exact .error hd (hon.trans hon') hkind hspan

theorem Stays.bind (hp : Stays tokens p P) (hf : ∀ a, P a → Stays tokens (f a) Q) :
    Stays tokens (p >>= f) Q := by
  intro c hc
  rw [bind_apply]
  have hstops := hp c hc
  generalize p c = r at hstops ⊢
  cases hstops with
  | ok hd hon ha => exact (hf _ ha _ hd).of_onward hon
  | error hd hon hkind hspan => exact .error hd hon hkind hspan

theorem stays_pure {a : α} (ha : P a) : Stays tokens (pure a) P :=
  fun c hc => .ok hc (.refl c) ha

/-- Where the parser stops does not depend on what is said of its result. -/
theorem Stays.forget (hp : Stays tokens p P) : Stays tokens p fun _ => True := by
  intro c hc
  have hstops := hp c hc
  generalize p c = r at hstops ⊢
  cases hstops with
  | ok hd hon ha => exact .ok hd hon trivial
  | error hd hon hkind hspan => exact .error hd hon hkind hspan

theorem Stays.map {g : α → β} (hp : Stays tokens p P) (hg : ∀ a, P a → Q (g a)) :
    Stays tokens (g <$> p) Q := by
  rw [map_eq_pure_bind]
  exact hp.bind fun a ha => stays_pure (hg a ha)

theorem Stays.discard (hp : Stays tokens p P) : Stays tokens (discard p) fun _ => True :=
  hp.map fun _ _ => trivial

theorem stays_peekKind_bind {f : TokenKind → Parser β} (h : ∀ kind, Stays tokens (f kind) Q) :
    Stays tokens (peekKind >>= f) Q :=
  fun c hc => h c.next.kind c hc

theorem stays_peekSecondKind_bind {f : TokenKind → Parser β}
    (h : ∀ kind, Stays tokens (f kind) Q) : Stays tokens (peekSecondKind >>= f) Q :=
  fun c hc => h (c.remaining.tail.headD endOfText).kind c hc

theorem stays_tokensLeft_bind {f : List Token → Parser β}
    (h : ∀ bound, Stays tokens (f bound) Q) : Stays tokens (tokensLeft >>= f) Q :=
  fun c hc => h c.remaining c hc

theorem stays_get_bind {f : Cursor → Parser β} (h : ∀ c, Stays tokens (f c) Q) :
    Stays tokens (get >>= f) Q :=
  fun c hc => h c c hc

theorem stays_refuse {t : Token} (ht : t ∈ tokens) (message : String) :
    Stays tokens (refuse message t.span : Parser α) P :=
  fun c hc => .error hc (.refl c) rfl ⟨t, ht, rfl⟩

theorem stays_peek : Stays tokens peek (· ∈ tokens) :=
  fun c hc => .ok hc (.refl c) hc.next_mem

theorem stays_tooDeep : Stays tokens (tooDeep : Parser α) P :=
  stays_peek.bind fun _ ht => stays_refuse ht _

theorem stays_refuseNext (message : String) :
    Stays tokens (refuseNext message : Parser α) P := by
  apply stays_peek.bind
  intro t ht
  split
  · exact stays_refuse ht _
  · exact stays_refuse ht _

theorem stays_advance : Stays tokens advance (· ∈ tokens) := by
  intro c hc
  rw [advance_apply]
  exact .ok hc.taken.1 hc.taken.2 hc.next_mem

theorem stays_expect (kind : TokenKind) (message : String) :
    Stays tokens (expect kind message) (· ∈ tokens) := by
  apply stays_peekKind_bind
  intro found
  split
  · exact stays_advance
  · exact stays_refuseNext message

theorem stays_expectProperty (message : String) :
    Stays tokens (expectProperty message) (· ∈ tokens) := by
  apply stays_peekKind_bind
  intro found
  split
  · exact stays_advance
  · exact stays_advance
  · exact stays_refuseNext message

theorem stays_accept? (kind : TokenKind) :
    Stays tokens (accept? kind) (FoundIn tokens) := by
  apply stays_peekKind_bind
  intro found
  split
  · exact stays_advance.bind fun t ht => stays_pure fun u hu => Option.mem_some.mp hu ▸ ht
  · exact stays_pure fun u hu => absurd hu (Option.not_mem_none u)

theorem descend_of_less (h : c.depth < c.limit) :
    descend c = .ok () (c.atDepth (c.depth + 1)) := by
  rw [descend_apply, if_pos h]
  rfl

theorem descend_of_full (h : ¬ c.depth < c.limit) :
    descend c = .error ⟨.parser, "expression nested too deeply", some c.next.span⟩ c := by
  rw [descend_apply, if_neg h]
  rfl

theorem stays_descend : Stays tokens descend fun _ => True := by
  intro c hc
  rw [descend_apply]
  split
  · rename_i hless
    exact .ok ⟨hc.suffix, hc.ends, hless⟩ ⟨List.suffix_refl _, rfl, Nat.le_succ _, Nat.le_refl _⟩
      trivial
  · exact stays_tooDeep c hc

/-- A cursor that has gone on from one level deeper has gone on from the level above once it leaves
the one it came to. -/
theorem on_of_entered (hd : d.On tokens) (hon : (c.atDepth (c.depth + 1)).Onward d) :
    (d.atDepth (d.depth - 1)).On tokens ∧ c.Onward (d.atDepth (d.depth - 1)) := by
  have hdepth : c.depth + 1 ≤ d.depth := hon.depth
  refine ⟨⟨hd.suffix, hd.ends, Nat.le_trans (Nat.sub_le _ _) hd.depth_le⟩, hon.suffix, hon.limit,
    ?_, hon.functionDepth⟩
  exact Nat.le_sub_of_add_le hdepth

theorem Stays.nested (hp : Stays tokens p P) : Stays tokens (nested p) P := by
  intro c hc
  by_cases hless : c.depth < c.limit
  · have hstops := hp (c.atDepth (c.depth + 1)) ⟨hc.suffix, hc.ends, hless⟩
    have hnested : Parser.nested p c = _ := bind_of_ok (descend_of_less hless)
    rw [hnested]
    generalize p (c.atDepth (c.depth + 1)) = r at hstops ⊢
    cases hstops with
    | ok hd hon ha =>
        obtain ⟨hleft, hon⟩ := on_of_entered hd hon
        exact .ok hleft hon ha
    | error hd hon hkind hspan =>
        obtain ⟨hleft, hon⟩ := on_of_entered hd hon
        exact .error hleft hon hkind hspan
  · have hnested : Parser.nested p c = .error ⟨.parser, _, some c.next.span⟩ c :=
      error_of_bind (descend_of_full hless)
    rw [hnested]
    exact .error hc (.refl c) rfl ⟨c.next, hc.next_mem, rfl⟩

theorem Stays.deepened (hp : Stays tokens p P) : Stays tokens (deepened p) P := by
  intro c hc
  by_cases hless : c.depth < c.limit
  · have hstops := hp (c.atDepth (c.depth + 1)) ⟨hc.suffix, hc.ends, hless⟩
    rw [deepened_apply p (descend_of_less hless)]
    generalize p (c.atDepth (c.depth + 1)) = r at hstops ⊢
    cases hstops with
    | ok hd hon ha =>
        obtain ⟨hleft, hon⟩ := on_of_entered hd hon
        exact .ok hleft hon ha
    | error hd hon hkind hspan =>
        refine .error hd ⟨hon.suffix, hon.limit, ?_, hon.functionDepth⟩ hkind hspan
        exact Nat.le_of_succ_le hon.depth
  · have hdeepened : Parser.deepened p c = .error ⟨.parser, _, some c.next.span⟩ c :=
      error_of_bind (descend_of_full hless)
    rw [hdeepened]
    exact .error hc (.refl c) rfl ⟨c.next, hc.next_mem, rfl⟩

theorem Stays.restoringDepth (hp : Stays tokens p P) : Stays tokens (restoringDepth p) P := by
  intro c hc
  change Stops tokens c P ((p >>= fun a => do
    modify fun d => d.atDepth c.depth
    return a) c)
  rw [bind_apply]
  have hstops := hp c hc
  generalize p c = r at hstops ⊢
  cases hstops with
  | ok hd hon ha =>
      refine .ok ⟨hd.suffix, hd.ends, ?_⟩ ⟨hon.suffix, hon.limit, Nat.le_refl _, hon.functionDepth⟩
        ha
      exact hon.limit ▸ hc.depth_le
  | error hd hon hkind hspan => exact .error hd hon hkind hspan

theorem Stays.inFunction (hp : Stays tokens p P) : Stays tokens (inFunction p) P := by
  intro c hc
  unfold Parser.inFunction
  have hstops := hp { c with functionDepth := c.functionDepth + 1 }
    ⟨hc.suffix, hc.ends, hc.depth_le⟩
  generalize p { c with functionDepth := c.functionDepth + 1 } = r at hstops ⊢
  cases hstops with
  | ok hd hon ha =>
      refine .ok ⟨hd.suffix, hd.ends, hd.depth_le⟩ ⟨hon.suffix, hon.limit, hon.depth, ?_⟩ ha
      exact Nat.le_sub_of_add_le hon.functionDepth
  | error hd hon hkind hspan =>
      refine .error ⟨hd.suffix, hd.ends, hd.depth_le⟩ ⟨hon.suffix, hon.limit, hon.depth, ?_⟩ hkind
        hspan
      exact Nat.le_sub_of_add_le hon.functionDepth

theorem Stays.manyUntil {closes : TokenKind → Bool} (hp : Stays tokens p P) (bound : List Token) :
    Stays tokens (manyUntil closes p bound) fun as => ∀ a ∈ as, P a := by
  induction bound with
  | nil => exact stays_pure (List.forall_mem_nil _)
  | cons token bound ih =>
      apply stays_peekKind_bind
      intro kind
      split
      · exact stays_pure (List.forall_mem_nil _)
      · exact hp.bind fun a ha => ih.bind fun as has =>
          stays_pure (List.forall_mem_cons.mpr ⟨ha, has⟩)

theorem Stays.separated (hp : Stays tokens p P) (bound : List Token) :
    Stays tokens (separated p bound) fun as => ∀ a ∈ as, P a := by
  induction bound with
  | nil => exact stays_pure (List.forall_mem_nil _)
  | cons token bound ih =>
      apply hp.bind
      intro a ha
      apply (stays_accept? .comma).bind
      intro comma _
      cases comma with
      | none => exact stays_pure (List.forall_mem_singleton.mpr ha)
      | some _ =>
          exact ih.bind fun as has => stays_pure (List.forall_mem_cons.mpr ⟨ha, has⟩)

theorem Stays.separatedUntil {closing : TokenKind} (hp : Stays tokens p P) :
    Stays tokens (separatedUntil closing p) fun as => ∀ a ∈ as, P a := by
  apply stays_peekKind_bind
  intro kind
  split
  · exact stays_pure (List.forall_mem_nil _)
  · exact stays_tokensLeft_bind fun bound => hp.separated bound

theorem Stays.following? {sign : TokenKind} (hp : Stays tokens p P) :
    Stays tokens (following? sign p) fun a? => ∀ a ∈ a?, P a := by
  apply (stays_accept? sign).bind
  intro found _
  cases found with
  | none => exact stays_pure (by simp)
  | some _ => exact hp.bind fun a ha => stays_pure (by simpa using ha)

end Parser

end ScriptHost
