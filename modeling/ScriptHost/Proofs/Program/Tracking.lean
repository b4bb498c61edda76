import Mathlib.Data.List.Forall2
import ScriptHost.Proofs.Program.Reading

/-!
Two parsers side by side, on token lists that differ in their spans alone. The second list carries
the spans of the first as seen through a view, apart from the token at the end, which may stand
anywhere. One parser tracks the other if they read the same tokens and both succeed, with values
that correspond, or both refuse, with the same message and at places that correspond. The limits on
nesting may differ as well; then the parser with the lower one may refuse what the other goes on to
read.
-/

namespace ScriptHost

/-- How the places in one token list compare with those in another. -/
structure Respan where
  view : Span → Span
  atEnd : Span → Span → Prop
  cut : Prop
  view_through : ∀ a b : Span, view (a.through b) = (view a).through (view b)
  atEnd_missing : atEnd Parser.endOfText.span Parser.endOfText.span

theorem Respan.id_through (a b : Span) : id (a.through b) = (id a).through (id b) := rfl

variable {r : Respan} {α β γ δ : Type}

/-- A token other than the end, with its place viewed. -/
structure Token.Tracks (r : Respan) (a b : Token) : Prop where
  lexeme : b.lexeme = a.lexeme
  span : b.span = r.view a.span

/-- Any token, the end included, with its place viewed. -/
structure Token.Matches (r : Respan) (a b : Token) : Prop where
  kind : b.kind = a.kind
  lexeme : b.lexeme = a.lexeme
  span : b.span = r.view a.span ∨ a.kind = .endOfText ∧ r.atEnd a.span b.span

/-- The same refusal, with its place viewed. -/
structure Diagnostic.Matches (r : Respan) (d e : Diagnostic) : Prop where
  kind : e.kind = d.kind
  message : e.message = d.message
  span : e.span = r.view d.span ∨ r.atEnd d.span e.span

structure Cursor.Matches (r : Respan) (c d : Cursor) : Prop where
  remaining : List.Forall₂ (Token.Matches r) c.remaining d.remaining
  limit : d.limit = c.limit ∨ r.cut ∧ c.limit ≤ d.limit
  depth : d.depth = c.depth
  functionDepth : d.functionDepth = c.functionDepth

/-- The refusal of what is nested too deeply. -/
def Diagnostic.IsTooDeep (d : Diagnostic) : Prop :=
  d.kind = .parser ∧ d.message = "expression nested too deeply"

namespace Token

theorem matches_endOfText : Parser.endOfText.Matches r Parser.endOfText :=
  ⟨rfl, rfl, .inr ⟨rfl, r.atEnd_missing⟩⟩

theorem Matches.tracks {a b : Token} (h : a.Matches r b) (hkind : a.kind ≠ .endOfText) :
    a.Tracks r b := by
  refine ⟨h.lexeme, ?_⟩
  rcases h.span with hspan | ⟨hend, -⟩
  · exact hspan
  · exact absurd hend hkind

theorem Matches.diagnostic {a b : Token} (h : a.Matches r b) (message : String) :
    Diagnostic.Matches r ⟨.parser, message, some a.span⟩ ⟨.parser, message, some b.span⟩ := by
  refine ⟨rfl, rfl, ?_⟩
  rcases h.span with hspan | ⟨-, hspan⟩
  · exact .inl hspan
  · exact .inr hspan

end Token

theorem Cursor.Matches.next {c d : Cursor} (h : c.Matches r d) : c.next.Matches r d.next := by
  obtain ⟨remaining, limit, depth, functionDepth⟩ := c
  obtain ⟨remaining', limit', depth', functionDepth'⟩ := d
  have htokens : List.Forall₂ (Token.Matches r) remaining remaining' := h.remaining
  cases htokens with
  | nil => exact Token.matches_endOfText
  | cons hhead htail => exact hhead

theorem Cursor.Matches.skip {c d : Cursor} (h : c.Matches r d) :
    Cursor.Matches r { c with remaining := c.remaining.tail }
      { d with remaining := d.remaining.tail } := by
  refine ⟨?_, h.limit, h.depth, h.functionDepth⟩
  obtain ⟨remaining, limit, depth, functionDepth⟩ := c
  obtain ⟨remaining', limit', depth', functionDepth'⟩ := d
  have htokens : List.Forall₂ (Token.Matches r) remaining remaining' := h.remaining
  cases htokens with
  | nil => exact .nil
  | cons hhead htail => exact htail

theorem Cursor.Matches.taken {c d : Cursor} (h : c.Matches r d) : c.taken.Matches r d.taken := by
  unfold Cursor.taken
  rw [h.next.kind]
  split
  · exact h
  · exact h.skip

namespace Parser

/-- The same outcome of two parsers, or a refusal of the first for a limit that the second lacks. -/
inductive Agree (r : Respan) (ρ : α → β → Prop) :
    EStateM.Result Diagnostic Cursor α → EStateM.Result Diagnostic Cursor β → Prop
  | ok {a : α} {b : β} {c d : Cursor} (hvalue : ρ a b) (hcursor : c.Matches r d) :
      Agree r ρ (.ok a c) (.ok b d)
  | error {e f : Diagnostic} {c d : Cursor} (hrefused : e.Matches r f) :
      Agree r ρ (.error e c) (.error f d)
  | cut {e : Diagnostic} {c : Cursor} {result : EStateM.Result Diagnostic Cursor β} (hcut : r.cut)
      (hdeep : e.IsTooDeep) : Agree r ρ (.error e c) result

/-- From cursors that match, with a next token of one of these kinds, two parsers come to the same
outcome. -/
def Tracks (r : Respan) (kinds : TokenKind → Prop) (ρ : α → β → Prop) (p : Parser α)
    (q : Parser β) : Prop :=
  ∀ c d : Cursor, c.Matches r d → kinds c.next.kind → Agree r ρ (p c) (q d)

/-- Whatever the next token is. -/
abbrev TracksAny (r : Respan) (ρ : α → β → Prop) (p : Parser α) (q : Parser β) : Prop :=
  Tracks r (fun _ => True) ρ p q

variable {kinds : TokenKind → Prop} {ρ : α → β → Prop} {σ : γ → δ → Prop} {p : Parser α}
  {q : Parser β}

theorem Tracks.of_any (h : TracksAny r ρ p q) : Tracks r kinds ρ p q :=
  fun c d hcursor _ => h c d hcursor trivial

theorem tracks_pure {a : α} {b : β} (h : ρ a b) : Tracks r kinds ρ (pure a) (pure b) :=
  fun _ _ hcursor _ => .ok h hcursor

theorem Tracks.bind {f : α → Parser γ} {g : β → Parser δ} (hp : Tracks r kinds ρ p q)
    (hf : ∀ a b, ρ a b → TracksAny r σ (f a) (g b)) : Tracks r kinds σ (p >>= f) (q >>= g) := by
  intro c d hcursor hnext
  have hfirst := hp c d hcursor hnext
  change Agree r σ (EStateM.bind p f c) (EStateM.bind q g d)
  unfold EStateM.bind
  generalize p c = result at hfirst ⊢
  generalize q d = result' at hfirst ⊢
  cases hfirst with
  | ok hvalue hcursor => exact hf _ _ hvalue _ _ hcursor trivial
  | error hrefused => exact .error hrefused
  | cut hcut hdeep => exact .cut hcut hdeep

theorem Tracks.map {f : α → γ} {g : β → δ} (hp : Tracks r kinds ρ p q)
    (hf : ∀ a b, ρ a b → σ (f a) (g b)) : Tracks r kinds σ (f <$> p) (g <$> q) := by
  intro c d hcursor hnext
  have hfirst := hp c d hcursor hnext
  change Agree r σ (EStateM.map f p c) (EStateM.map g q d)
  unfold EStateM.map
  generalize p c = result at hfirst ⊢
  generalize q d = result' at hfirst ⊢
  cases hfirst with
  | ok hvalue hcursor => exact .ok (hf _ _ hvalue) hcursor
  | error hrefused => exact .error hrefused
  | cut hcut hdeep => exact .cut hcut hdeep

theorem Tracks.discard (hp : Tracks r kinds ρ p q) :
    Tracks r kinds (fun _ _ => True) (discard p) (discard q) :=
  hp.map fun _ _ _ => trivial

/-- After a look at the kind of the next token both go on in the same way. -/
theorem tracks_peekKind_bind {f : TokenKind → Parser γ} {g : TokenKind → Parser δ}
    (h : ∀ kind, kinds kind → Tracks r (· = kind) σ (f kind) (g kind)) :
    Tracks r kinds σ (peekKind >>= f) (peekKind >>= g) := by
  intro c d hcursor hnext
  have hkind : d.next.kind = c.next.kind := hcursor.next.kind
  have hrest := h c.next.kind hnext c d hcursor rfl
  change Agree r σ (f c.next.kind c) (g d.next.kind d)
  rw [hkind]
  exact hrest

theorem tracks_get_bind {f : Cursor → Parser γ} {g : Cursor → Parser δ}
    (h : ∀ c d, c.Matches r d → Tracks r kinds σ (f c) (g d)) :
    Tracks r kinds σ (get >>= f) (get >>= g) :=
  fun c d hcursor hnext => h c d hcursor c d hcursor hnext

theorem tracks_peekSecondKind_bind {f : TokenKind → Parser γ} {g : TokenKind → Parser δ}
    (h : ∀ kind, Tracks r kinds σ (f kind) (g kind)) :
    Tracks r kinds σ (peekSecondKind >>= f) (peekSecondKind >>= g) := by
  intro c d hcursor hnext
  have hkind : (d.remaining.tail.headD endOfText).kind = (c.remaining.tail.headD endOfText).kind :=
    hcursor.skip.next.kind
  have hrest := h (c.remaining.tail.headD endOfText).kind c d hcursor hnext
  change Agree r σ (f (c.remaining.tail.headD endOfText).kind c)
    (g (d.remaining.tail.headD endOfText).kind d)
  rw [hkind]
  exact hrest

/-- Both take the same token, where it is not the end that comes next. -/
theorem tracks_advance (hkinds : ∀ kind, kinds kind → kind ≠ .endOfText) :
    Tracks r kinds (Token.Tracks r) advance advance := by
  intro c d hcursor hnext
  rw [advance_apply, advance_apply]
  exact .ok (hcursor.next.tracks (hkinds _ hnext)) hcursor.taken

theorem tracks_refuse (message : String) {s t : Span} (h : t = r.view s) :
    Tracks r kinds ρ (refuse message s) (refuse message t) :=
  fun _ _ _ _ => .error ⟨rfl, rfl, .inl h⟩

theorem tracks_refuseNext (message : String) :
    Tracks r kinds ρ (refuseNext message) (refuseNext message) := by
  intro c d hcursor _
  have hnext := hcursor.next
  have hrefuse : ∀ text, Agree r ρ (refuse text c.next.span c) (refuse text d.next.span d) :=
    fun text => .error (hnext.diagnostic text)
  unfold refuseNext
  rw [bind_apply, bind_apply]
  change Agree r ρ
    ((if c.next.kind = .endOfText then refuse (message ++ ", found end of input") c.next.span
      else refuse (message ++ ", found `" ++ c.next.lexeme ++ "`") c.next.span : Parser α) c)
    ((if d.next.kind = .endOfText then refuse (message ++ ", found end of input") d.next.span
      else refuse (message ++ ", found `" ++ d.next.lexeme ++ "`") d.next.span : Parser β) d)
  rw [hnext.kind, hnext.lexeme]
  split
  · exact hrefuse _
  · exact hrefuse _

theorem tracks_tooDeep : Tracks r kinds ρ tooDeep tooDeep :=
  fun _ _ hcursor _ => .error (hcursor.next.diagnostic _)

/-- Where the first finds no room, the second may have some. -/
theorem tracks_tooDeep_left (hcut : r.cut) (q : Parser β) : Tracks r kinds ρ (tooDeep : Parser α) q :=
  fun _ _ _ _ => .cut hcut ⟨rfl, rfl⟩

theorem tracks_expect {kind : TokenKind} (hkind : kind ≠ .endOfText) (message : String) :
    Tracks r kinds (Token.Tracks r) (expect kind message) (expect kind message) := by
  intro c d hcursor hnext
  rw [expect_apply, expect_apply, hcursor.next.kind]
  split
  · rename_i hfound
    exact .ok (hcursor.next.tracks (hfound ▸ hkind)) hcursor.taken
  · exact tracks_refuseNext message c d hcursor hnext

theorem tracks_accept? {kind : TokenKind} (hkind : kind ≠ .endOfText) :
    Tracks r kinds (Option.Rel (Token.Tracks r)) (accept? kind) (accept? kind) := by
  intro c d hcursor _
  rw [accept?_apply, accept?_apply, hcursor.next.kind]
  split
  · rename_i hfound
    exact .ok (.some (hcursor.next.tracks (hfound ▸ hkind))) hcursor.taken
  · exact .ok .none hcursor

theorem tracks_expectProperty (message : String) :
    Tracks r kinds (Token.Tracks r) (expectProperty message) (expectProperty message) := by
  refine tracks_peekKind_bind ?_
  intro kind _
  split
  · exact tracks_advance (by rintro _ rfl; simp)
  · exact tracks_advance (by rintro _ rfl; simp)
  · exact tracks_refuseNext message

theorem tracks_descend : Tracks r kinds (fun _ _ => True) descend descend := by
  intro c d hcursor _
  rw [descend_apply, descend_apply, hcursor.depth]
  by_cases hroom : c.depth < c.limit
  · have hroom' : c.depth < d.limit := by
      rcases hcursor.limit with hlimit | ⟨-, hlimit⟩ <;> omega
    rw [if_pos hroom, if_pos hroom']
    exact .ok trivial ⟨hcursor.remaining, hcursor.limit, rfl, hcursor.functionDepth⟩
  · rw [if_neg hroom]
    rcases hcursor.limit with hlimit | ⟨hcut, -⟩
    · rw [hlimit, if_neg hroom]
      exact .error (hcursor.next.diagnostic _)
    · exact .cut hcut ⟨rfl, rfl⟩

theorem Tracks.nested (h : TracksAny r ρ p q) : TracksAny r ρ (nested p) (nested q) := by
  refine Tracks.bind tracks_descend ?_
  intro _ _ _ c d hcursor _
  have hinner := h c d hcursor trivial
  dsimp only
  generalize p c = result at hinner ⊢
  generalize q d = result' at hinner ⊢
  cases hinner with
  | ok hvalue hcursor =>
      exact .ok hvalue ⟨hcursor.remaining, hcursor.limit, congrArg (· - 1) hcursor.depth,
        hcursor.functionDepth⟩
  | error hrefused => exact .error hrefused
  | cut hcut hdeep => exact .cut hcut hdeep

theorem Tracks.deepened (h : TracksAny r ρ p q) : TracksAny r ρ (deepened p) (deepened q) := by
  refine Tracks.bind tracks_descend ?_
  intro _ _ _ c d hcursor _
  have hinner := h c d hcursor trivial
  rw [bind_apply, bind_apply]
  generalize p c = result at hinner ⊢
  generalize q d = result' at hinner ⊢
  cases hinner with
  | ok hvalue hcursor =>
      exact .ok hvalue ⟨hcursor.remaining, hcursor.limit, congrArg (· - 1) hcursor.depth,
        hcursor.functionDepth⟩
  | error hrefused => exact .error hrefused
  | cut hcut hdeep => exact .cut hcut hdeep

theorem Tracks.restoringDepth (h : Tracks r kinds ρ p q) :
    Tracks r kinds ρ (restoringDepth p) (restoringDepth q) := by
  intro c d hcursor hnext
  have hinner := h c d hcursor hnext
  have hdepth := hcursor.depth
  unfold Parser.restoringDepth
  rw [bind_apply, bind_apply]
  change Agree r ρ ((p >>= _) c) ((q >>= _) d)
  rw [bind_apply, bind_apply]
  generalize p c = result at hinner ⊢
  generalize q d = result' at hinner ⊢
  cases hinner with
  | ok hvalue hcursor =>
      exact .ok hvalue ⟨hcursor.remaining, hcursor.limit, hdepth, hcursor.functionDepth⟩
  | error hrefused => exact .error hrefused
  | cut hcut hdeep => exact .cut hcut hdeep

theorem Tracks.inFunction (h : TracksAny r ρ p q) : TracksAny r ρ (inFunction p) (inFunction q) := by
  intro c d hcursor _
  have hinner := h { c with functionDepth := c.functionDepth + 1 }
    { d with functionDepth := d.functionDepth + 1 }
    ⟨hcursor.remaining, hcursor.limit, hcursor.depth, congrArg (· + 1) hcursor.functionDepth⟩ trivial
  unfold Parser.inFunction
  generalize p { c with functionDepth := c.functionDepth + 1 } = result at hinner ⊢
  generalize q { d with functionDepth := d.functionDepth + 1 } = result' at hinner ⊢
  cases hinner with
  | ok hvalue hcursor =>
      exact .ok hvalue ⟨hcursor.remaining, hcursor.limit, hcursor.depth,
        congrArg (· - 1) hcursor.functionDepth⟩
  | error hrefused => exact .error hrefused
  | cut hcut hdeep => exact .cut hcut hdeep

/-- As many tokens are left to the one as to the other, and both go on with them. -/
theorem tracks_tokensLeft_bind {f : List Token → Parser γ} {g : List Token → Parser δ}
    (h : ∀ bound bound', bound'.length = bound.length → Tracks r kinds σ (f bound) (g bound')) :
    Tracks r kinds σ (tokensLeft >>= f) (tokensLeft >>= g) := by
  intro c d hcursor hnext
  exact h c.remaining d.remaining hcursor.remaining.length_eq.symm c d hcursor hnext

theorem Tracks.manyUntil {closes : TokenKind → Bool} (h : TracksAny r ρ p q)
    {bound bound' : List Token} (hbound : bound'.length = bound.length) :
    Tracks r kinds (List.Forall₂ ρ) (manyUntil closes p bound) (manyUntil closes q bound') := by
  induction bound generalizing bound' kinds with
  | nil =>
      obtain rfl := List.length_eq_zero_iff.mp hbound
      exact tracks_pure .nil
  | cons token bound ih =>
      obtain ⟨token', bound', rfl⟩ := List.exists_cons_of_length_eq_add_one hbound
      refine tracks_peekKind_bind ?_
      intro kind _
      split
      · exact tracks_pure .nil
      · refine Tracks.bind (Tracks.of_any h) ?_
        intro a b hvalue
        refine Tracks.bind (ih (Nat.succ.inj hbound)) ?_
        intro as bs hvalues
        exact tracks_pure (.cons hvalue hvalues)

theorem Tracks.separated (h : TracksAny r ρ p q) {bound bound' : List Token}
    (hbound : bound'.length = bound.length) :
    Tracks r kinds (List.Forall₂ ρ) (separated p bound) (separated q bound') := by
  induction bound generalizing bound' kinds with
  | nil =>
      obtain rfl := List.length_eq_zero_iff.mp hbound
      exact tracks_pure .nil
  | cons token bound ih =>
      obtain ⟨token', bound', rfl⟩ := List.exists_cons_of_length_eq_add_one hbound
      refine Tracks.bind (Tracks.of_any h) ?_
      intro a b hvalue
      refine Tracks.bind (tracks_accept? (by simp)) ?_
      intro comma comma' hcomma
      cases hcomma with
      | none => exact tracks_pure (.cons hvalue .nil)
      | some _ =>
          refine Tracks.bind (ih (Nat.succ.inj hbound)) ?_
          intro as bs hvalues
          exact tracks_pure (.cons hvalue hvalues)

theorem Tracks.separatedUntil {closing : TokenKind} (h : TracksAny r ρ p q) :
    Tracks r kinds (List.Forall₂ ρ) (separatedUntil closing p) (separatedUntil closing q) := by
  refine tracks_peekKind_bind ?_
  intro kind _
  split
  · exact tracks_pure .nil
  · refine tracks_tokensLeft_bind ?_
    intro bound bound' hbound
    exact h.separated hbound

theorem Tracks.following? {sign : TokenKind} (hsign : sign ≠ .endOfText)
    (h : TracksAny r ρ p q) :
    Tracks r kinds (Option.Rel ρ) (following? sign p) (following? sign q) := by
  refine Tracks.bind (tracks_accept? hsign) ?_
  intro found found' hfound
  cases hfound with
  | none => exact tracks_pure .none
  | some _ =>
      refine Tracks.bind h ?_
      intro a b hvalue
      exact tracks_pure (.some hvalue)

end Parser

end ScriptHost
