import Mathlib
import ScriptHost.Proofs.Program.Enclosure
import ScriptHost.Proofs.Program.Word
import ScriptHost.Proofs.Token.Segments

/-!
How the spans of a tree nest, and what stands at those of its leaves. All through the tree of an
accepted text the spans are not empty and the parts of a construct have theirs within its own, one
behind the other; where a leaf has its span, the text has the token that the leaf was read from.
-/

namespace ScriptHost

namespace Tree

/-- The word for a constant, a variable or `this`, which have no parts. -/
def leafWord? : Tree → Option Word
  | .expr (.literal _ value) => some value.word
  | .expr (.variable _ name) => some (.name name)
  | .expr (.this _) => some (.sign (.keyword .this))
  | _ => none

/-- Each leaf of the tree has the span of one of the tokens, and this says the leaf. -/
inductive Leafed (tokens : List Token) : Tree → Prop
  | intro {t : Tree}
      (hleaf : ∀ w, t.leafWord? = some w → ∃ k ∈ tokens, k.span = t.span ∧ k.Says w)
      (hparts : ∀ u ∈ t.parts, Leafed tokens u) : Leafed tokens t

def AllLeafed (tokens : List Token) (ts : List Tree) : Prop := ∀ t ∈ ts, t.Leafed tokens

variable {tokens : List Token} {t u : Tree} {ts rest : List Tree} {bodies : Nat}

theorem AllLeafed.nil : AllLeafed tokens [] := fun _ ht => nomatch ht

theorem AllLeafed.cons (h : t.Leafed tokens) (hrest : AllLeafed tokens rest) :
    AllLeafed tokens (t :: rest) :=
  List.forall_mem_cons.mpr ⟨h, hrest⟩

theorem Leafed.one (h : t.Leafed tokens) : AllLeafed tokens [t] := .cons h .nil

theorem Leafed.of_parts (hleaf : t.leafWord? = none) (hparts : AllLeafed tokens t.parts) :
    t.Leafed tokens := by
  refine .intro (fun w hw => ?_) hparts
  rw [hleaf] at hw
  cases hw

theorem Leafed.of_token {k : Token} {w : Word} (hk : k ∈ tokens) (hleaf : t.leafWord? = some w)
    (hspan : k.span = t.span) (hreading : k.Says w) : t.Leafed tokens := by
  refine .intro (fun w' hw' => ?_) fun u hu => ?_
  · obtain rfl := Option.some.inj (hleaf.symm.trans hw')
    exact ⟨k, hk, hspan, hreading⟩
  · cases t with
    | stmt s => cases hleaf
    | expr e =>
        cases e with
        | literal | «variable» | this => cases hu
        | _ => cases hleaf

theorem Leafed.holds (h : t.Leafed tokens) (hholds : t.Holds bodies u) : u.Leafed tokens := by
  induction hholds with
  | here => exact h
  | part hpart _ _ ih | body hpart _ _ ih =>
      cases h with
      | intro _ hparts => exact ih (hparts _ hpart)

@[simp] theorem leafWord?_join (op : Operator) (left right : Expr) :
    (expr (op.join left right)).leafWord? = none := by
  cases op <;> rfl

/-- The trees of a row stand in its order. -/
theorem Row.pairwise {first last : Nat} (h : Row first last ts) :
    ts.Pairwise fun t u => t.span.stop ≤ u.span.start := by
  induction ts generalizing first with
  | nil => exact .nil
  | cons t rest ih =>
      cases h with
      | cons hfirst ht hrest => exact .cons (fun u hu => (hrest.of_mem hu).2.1) (ih hrest)

end Tree

open ScriptHost.Tree

/-- The leaves of what tokens are written for; what goes on from a left operand has those of this
too. -/
def Construct.Leafed (tokens : List Token) : Construct → Prop
  | .statements body | .block body _ => AllLeafed tokens (body.map .stmt)
  | .function code _ => AllLeafed tokens (code.body.map .stmt)
  | .statement s | .form s => (Tree.stmt s).Leafed tokens
  | .operations _ _ left e | .suffixes left e =>
    (Tree.expr left).Leafed tokens → (Tree.expr e).Leafed tokens
  | .arguments es | .items es => AllLeafed tokens (es.map .expr)
  | .entries es => AllLeafed tokens (es.map fun entry => .expr entry.value)
  | .expression e | .assignment e | .level _ e | .operand e | .unary e | .suffixed e
  | .primary e => (Tree.expr e).Leafed tokens

theorem Derives.leafed {room : Nat} {inside : Bool} {next : TokenKind} {used tokens : List Token}
    {construct : Construct} (h : Derives room inside next used construct)
    (hused : ∀ k ∈ used, k ∈ tokens) : construct.Leafed tokens := by
  induction h with
  | statement _ ih | expression _ ih | assignment _ _ ih | level_nil _ ih | operand _ ih
  | unary_none _ _ ih | arguments _ ih => exact ih hused
  | statements_nil | arguments_nil | entries_nil => exact .nil
  | operations_nil | suffixes_nil => exact id
  | functionForm _ _ ih | functionExpression _ ih | blockForm _ ih =>
      exact Tree.Leafed.of_parts rfl (ih hused)
  | var | returnForm | empty => exact Tree.Leafed.of_parts rfl .nil
  | number ht hvalue =>
      exact Tree.Leafed.of_token (hused _ List.mem_cons_self) rfl rfl (.number ht hvalue)
  | string ht => exact Tree.Leafed.of_token (hused _ List.mem_cons_self) rfl rfl (.string ht)
  | name ht => exact Tree.Leafed.of_token (hused _ List.mem_cons_self) rfl rfl (.name ht)
  | this ht => exact Tree.Leafed.of_token (hused _ List.mem_cons_self) rfl rfl (Token.says_sign ht)
  | constant ht hvalue =>
      refine Tree.Leafed.of_token (hused _ List.mem_cons_self) rfl rfl ?_
      rw [word_of_literal? hvalue]
      exact Token.says_sign ht
  | statements_cons _ _ ih ihrest | items_cons _ _ _ ih ihrest
  | entries_cons _ _ _ _ _ ih ihrest =>
      have hfirst := ih fun k hk => hused k (by simp [hk])
      exact .cons hfirst (ihrest fun k hk => hused k (by simp [hk]))
  | var_initial _ _ _ _ _ ih | expressionForm _ _ _ ih | returnForm_value _ _ _ ih | unary _ _ ih =>
      exact Tree.Leafed.of_parts rfl (ih fun k hk => hused k (by simp [hk])).one
  | conditional _ _ _ _ _ _ ih ihthen | whileLoop _ _ _ _ _ ih ihthen =>
      have htest := ih fun k hk => hused k (by simp [hk])
      have hthen := ihthen fun k hk => hused k (by simp [hk])
      exact Tree.Leafed.of_parts rfl (.cons htest hthen.one)
  | conditional_else _ _ _ _ _ _ _ ih ihthen ihother =>
      have htest := ih fun k hk => hused k (by simp [hk])
      have hthen := ihthen fun k hk => hused k (by simp [hk])
      have hother := ihother fun k hk => hused k (by simp [hk])
      exact Tree.Leafed.of_parts rfl (.cons htest (.cons hthen hother.one))
  | block _ _ _ ih | function _ _ _ _ _ _ ih | parentheses _ _ _ ih =>
      exact ih fun k hk => hused k (by simp [hk])
  | assignment_sign _ _ _ _ ih ihvalue =>
      have htarget := ih fun k hk => hused k (by simp [hk])
      have hvalue := ihvalue fun k hk => hused k (by simp [hk])
      exact Tree.Leafed.of_parts rfl (.cons htarget hvalue.one)
  | level_cons _ _ ih ihchain | suffixed _ _ ih ihchain =>
      exact ihchain (fun k hk => hused k (by simp [hk])) (ih fun k hk => hused k (by simp [hk]))
  | operations_cons _ _ _ _ ih ihchain =>
      intro hleft
      have hright := ih fun k hk => hused k (by simp [hk])
      refine ihchain (fun k hk => hused k (by simp [hk])) (.of_parts (leafWord?_join _ _ _) ?_)
      rw [parts_join]
      exact .cons hleft hright.one
  | suffixes_call _ _ _ _ ih ihchain =>
      intro hleft
      have harguments := ih fun k hk => hused k (by simp [hk])
      exact ihchain (fun k hk => hused k (by simp [hk]))
        (.of_parts rfl (.cons hleft harguments))
  | suffixes_member _ _ _ ihchain =>
      intro hleft
      exact ihchain (fun k hk => hused k (by simp [hk])) (.of_parts rfl hleft.one)
  | object _ _ _ ih =>
      exact Tree.Leafed.of_parts rfl (ih fun k hk => hused k (by simp [hk]))
  | items_one _ _ ih => exact (ih hused).one
  | entries_one _ _ _ _ ih => exact (ih fun k hk => hused k (by simp [hk])).one

/-- A construct stands somewhere, and its parts stand within it, in their order and apart. -/
structure Tree.Nested (t : Tree) : Prop where
  nonempty : t.span.start < t.span.stop
  within : ∀ u ∈ t.parts, t.span.start ≤ u.span.start ∧ u.span.stop ≤ t.span.stop
  apart : t.parts.Pairwise fun u v => u.span.stop ≤ v.span.start

theorem Tree.Spaced.nested {t : Tree} (h : t.Spaced) : t.Nested :=
  ⟨h.lt, fun _ hu => (h.row.of_mem hu).2, h.row.pairwise⟩

/-- What the text has at the span of the token is just the token: scanned alone it comes to this,
and it is the lexeme unless that was written as a string literal. -/
def Token.StandsIn (source : List Char) (t : Token) : Prop :=
  ∃ piece, slice? source t.span = some piece ∧ (t.kind ≠ .string → piece = t.lexeme.toList) ∧
    ∀ scratch, (tokenize (String.ofList piece) scratch).1 =
      .ok [⟨t.kind, t.lexeme, ⟨0, byteLength piece⟩⟩, .ofEnd (byteLength piece)]

theorem Segmented.standsIn {source : List Char} {front : List Token} {stop : Nat} {t : Token}
    (h : Segmented source front stop) (ht : t ∈ front) : t.StandsIn source := by
  obtain ⟨piece, hcut, halone⟩ := h.alone t ht
  refine ⟨piece, hcut, fun hkind => ?_, halone⟩
  have hlexeme := h.lexeme t (List.mem_append_left _ ht) hkind
  exact Option.some.inj (hcut.symm.trans hlexeme)

/-- The statements of a program stand one behind the other, everything in it is nested, and where a
leaf has its span, there stands the token that says it. -/
structure SpansNest (source : List Char) (tokens : List Token) (body : List Stmt) : Prop where
  statements : body.Pairwise fun s s' => s.span.stop ≤ s'.span.start
  nested : ∀ bodies t, Lies body bodies t → t.Nested
  leaves : ∀ bodies t w, Lies body bodies t → t.leafWord? = some w →
    ∃ k ∈ tokens, k.span = t.span ∧ k.Says w ∧ k.StandsIn source

/-- The spans of the program that a text is accepted as nest, down to the tokens of the text. -/
theorem spansNest_of_accepted (source : String) (scratch : TextBuffer) (body : List Stmt)
    (h : (programOfSource source scratch).1 = .ok body) :
    ∃ tokens, (tokenize source scratch).1 = .ok tokens ∧
      SpansNest source.toList tokens body := by
  obtain ⟨front, stop, htokens, -, hderives⟩ := derives_of_programOfSource h
  obtain ⟨last, hrow⟩ := exists_row_of_programOfSource h
  obtain ⟨front', stop', heq, hsegmented⟩ := segmented_of_tokenize htokens
  obtain ⟨rfl, -⟩ := List.append_inj' heq rfl
  have hleafed : AllLeafed front (body.map .stmt) := hderives.leafed fun _ hk => hk
  refine ⟨_, htokens, List.pairwise_map.mp hrow.pairwise, ?_, ?_⟩
  · rintro bodies t ⟨s, hs, hholds⟩
    exact (hholds.within (hrow.of_mem (List.mem_map_of_mem hs)).1).1.nested
  · rintro bodies t w ⟨s, hs, hholds⟩ hword
    obtain ⟨hleaf, -⟩ := (hleafed _ (List.mem_map_of_mem hs)).holds hholds
    obtain ⟨k, hk, hspan, hreading⟩ := hleaf w hword
    exact ⟨k, List.mem_append_left _ hk, hspan, hreading, hsegmented.standsIn hk⟩

/-- A text with parentheses around operands and a function, which the spans of these leave out. -/
def parenthesizedText : String :=
  "var f = (function (x) \x7b return -((x) + this.y) * ('é'); \x7d);"

def parenthesizedSum : Expr :=
  .binary ⟨34, 45⟩ .add (.variable ⟨34, 35⟩ "x") (.member ⟨39, 45⟩ (.this ⟨39, 43⟩) "y")

/-- The program that the text is accepted as. -/
def parenthesizedBody : List Stmt :=
  [.var ⟨0, 58⟩ "f" (some (.function ⟨9, 58⟩ ⟨none, ["x"],
    [.return ⟨24, 54⟩ (some (.binary ⟨31, 54⟩ .mul (.unary ⟨31, 45⟩ .negate parenthesizedSum)
      (.literal ⟨50, 54⟩ (.string "é"))))]⟩))]

theorem lies_parenthesizedSum : Lies parenthesizedBody 1 (.expr parenthesizedSum) := by
  have hfunction : Lies parenthesizedBody 0 (.expr (.function ⟨9, 58⟩ _)) :=
    (Lies.top List.mem_cons_self).inner rfl List.mem_cons_self
  have hproduct : Lies parenthesizedBody 1 (.expr (.binary ⟨31, 54⟩ .mul _ _)) :=
    (hfunction.body rfl List.mem_cons_self).inner rfl List.mem_cons_self
  exact (hproduct.left rfl).inner rfl List.mem_cons_self

/-- A sum within a function and a product, and its first operand. -/
theorem spansNest_of_accepted_parentheses :
    (programOfSource parenthesizedText .empty).1 = .ok parenthesizedBody ∧
    ∃ tokens, (tokenize parenthesizedText .empty).1 = .ok tokens ∧
      SpansNest parenthesizedText.toList tokens parenthesizedBody ∧
      (Tree.expr parenthesizedSum).Nested ∧
      ∃ k ∈ tokens, k.span = ⟨34, 35⟩ ∧ k.Says (.name "x") ∧
        k.StandsIn parenthesizedText.toList := by
  have hbody : (programOfSource parenthesizedText .empty).1 = .ok parenthesizedBody := by cbv
  obtain ⟨tokens, htokens, hnest⟩ :=
    spansNest_of_accepted parenthesizedText .empty parenthesizedBody hbody
  have hsum := lies_parenthesizedSum
  refine ⟨hbody, tokens, htokens, hnest, hnest.nested _ _ hsum, ?_⟩
  exact hnest.leaves _ _ _ (hsum.left rfl) rfl

end ScriptHost
