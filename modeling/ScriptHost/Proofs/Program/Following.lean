import ScriptHost.Proofs.Program.Derived
import ScriptHost.Proofs.Program.Descent
import ScriptHost.Proofs.Program.Onward

/-!
A descent and a parser that go together. The descent comes to the result of the parser, with rounds
and levels to spare, and at each of its moments the cursor has gone on from where it began, while
the calls that are active stand in order: each is deeper than the one it was made from, or on its
level and of a function that leads further down. Each rule is about one way to build both.
-/

namespace ScriptHost

open ScriptHost.Parser

namespace Routine

/-- Within one level calls lead from the higher rank to the lower. -/
def rank : Routine → Nat
  | .statement | .expression => 0
  | .program | .varDeclaration | .returnStatement | .expressionStatement | .block | .condition
  | .object => 1
  | .conditional | .whileLoop | .function => 2
  | .functionDeclaration | .primary => 3
  | .form | .suffixed => 4
  | .unary => 5
  | .level number => 5 + number
  | .assignment => 12

/-- The number of functions that can call one another without going a level deeper. -/
def ranks : Nat := 13

end Routine

/-- How many calls there can still be inside of this one, where there are so many levels. -/
def OpenCall.height (limit : Nat) (call : OpenCall) : Nat :=
  Routine.ranks * (limit - call.depth) + call.routine.rank

/-- The calls, the latest first, go down from one to the next, and all lie below this height. -/
structure Descends (limit height : Nat) (calls : List OpenCall) : Prop where
  ordered : calls.Pairwise fun inner outer => inner.height limit < outer.height limit
  bounded : ∀ call ∈ calls, call.routine.rank < Routine.ranks ∧ call.height limit < height

/-- The moment is one of a descent that began inside of these calls at this cursor and calls
functions below this rank. -/
structure Moment.Since (tokens : List Token) (rank : Nat) (active : List OpenCall) (c : Cursor)
    (m : Moment) : Prop where
  on : m.cursor.On tokens
  onward : c.Onward m.cursor
  calls : ∃ made, m.active = made ++ active ∧
    Descends c.limit (Routine.ranks * (c.limit - c.depth) + rank) made

namespace Cursor

/-- The second cursor stands at least so many tokens behind the first, in the same function body
and, where this is asked for, on the same level. -/
structure Gains (count : Nat) (level : Prop) (c d : Cursor) : Prop where
  tokens : d.remaining.length + count ≤ c.remaining.length
  functionDepth : d.functionDepth = c.functionDepth
  depth : level → d.depth = c.depth

/-- The cursor stands in the token list, with a round for each token left and room for each level
left. -/
structure Ready (tokens : List Token) (rounds room : Nat) (c : Cursor) : Prop extends
    c.On tokens where
  rounds : c.remaining.length ≤ rounds
  room : c.limit ≤ c.depth + room

variable {tokens : List Token} {rounds room m n : Nat} {level : Prop} {c d e : Cursor}

theorem Gains.refl (level : Prop) (c : Cursor) : c.Gains 0 level c :=
  ⟨Nat.le_refl _, rfl, fun _ => rfl⟩

theorem Gains.trans (h : c.Gains m level d) (h' : d.Gains n level e) :
    c.Gains (m + n) level e := by
  have hfirst := h.tokens
  have hsecond := h'.tokens
  exact ⟨by omega, h'.functionDepth.trans h.functionDepth,
    fun hlevel => (h'.depth hlevel).trans (h.depth hlevel)⟩

theorem Gains.weaken (h : c.Gains n level d) (hle : m ≤ n) : c.Gains m level d :=
  ⟨Nat.le_trans (Nat.add_le_add_left hle _) h.tokens, h.functionDepth, h.depth⟩

/-- A level that was entered is left where the cursor is on it again. -/
theorem Gains.left (h : (c.atDepth (c.depth + 1)).Gains n True d) :
    c.Gains n True (d.atDepth (d.depth - 1)) where
  tokens := h.tokens
  functionDepth := h.functionDepth
  depth := fun _ => by
    rw [h.depth trivial]
    exact Nat.add_sub_cancel c.depth 1

theorem Gains.of_before {used : List Token} (h : c = d.before used) :
    c.Gains used.length level d := by
  subst h
  exact ⟨Nat.le_of_eq (by rw [length_remaining_before, Nat.add_comm]), rfl, fun _ => rfl⟩

theorem gains_taken (level : Prop) (c : Cursor) : c.Gains 0 level c.taken := by
  unfold taken
  split
  · exact .refl level c
  · exact ⟨by simp, rfl, fun _ => rfl⟩

theorem Ready.of_onward (h : c.Ready tokens rounds room) (hd : d.On tokens) (hon : c.Onward d) :
    d.Ready tokens rounds room where
  toOn := hd
  rounds := Nat.le_trans hon.suffix.length_le h.rounds
  room := by
    rw [hon.limit]
    exact Nat.le_trans h.room (Nat.add_le_add_right hon.depth room)

theorem On.deeper (h : c.On tokens) (hless : c.depth < c.limit) :
    (c.atDepth (c.depth + 1)).On tokens ∧ c.Onward (c.atDepth (c.depth + 1)) :=
  ⟨⟨h.suffix, h.ends, hless⟩, List.suffix_refl _, rfl, Nat.le_succ _, Nat.le_refl _⟩

theorem Ready.deeper (h : c.Ready tokens rounds room) (hd : (c.atDepth (c.depth + 1)).On tokens) :
    (c.atDepth (c.depth + 1)).Ready tokens rounds (room - 1) where
  toOn := hd
  rounds := h.rounds
  room := by
    have hroom := h.room
    change c.limit ≤ c.depth + 1 + (room - 1)
    omega

end Cursor

theorem Descends.nil (limit height : Nat) : Descends limit height [] :=
  ⟨.nil, List.forall_mem_nil _⟩

theorem Descends.raise {limit height higher : Nat} {calls : List OpenCall}
    (h : Descends limit height calls) (hle : height ≤ higher) : Descends limit higher calls :=
  ⟨h.ordered, fun call hcall =>
    ⟨(h.bounded call hcall).1, Nat.lt_of_lt_of_le (h.bounded call hcall).2 hle⟩⟩

/-- Calls below one that is lower than the height stand below it in order. -/
theorem Descends.concat {limit height : Nat} {calls : List OpenCall} {outer : OpenCall}
    (h : Descends limit (outer.height limit) calls) (hrank : outer.routine.rank < Routine.ranks)
    (hheight : outer.height limit < height) : Descends limit height (calls ++ [outer]) := by
  constructor
  · rw [List.pairwise_append]
    refine ⟨h.ordered, List.pairwise_singleton _ _, ?_⟩
    intro inner hinner other hother
    rw [List.mem_singleton.mp hother]
    exact (h.bounded inner hinner).2
  · intro call hcall
    rcases List.mem_append.mp hcall with hcall | hcall
    · exact ⟨(h.bounded call hcall).1, Nat.lt_trans (h.bounded call hcall).2 hheight⟩
    · rw [List.mem_singleton.mp hcall]
      exact ⟨hrank, hheight⟩

namespace Moment.Since

variable {tokens : List Token} {rank higher : Nat} {active : List OpenCall} {c d : Cursor}
  {m : Moment}

theorem raise (h : m.Since tokens rank active c) (hle : rank ≤ higher) :
    m.Since tokens higher active c := by
  obtain ⟨made, hactive, hmade⟩ := h.calls
  exact ⟨h.on, h.onward, made, hactive, hmade.raise (Nat.add_le_add_left hle _)⟩

/-- What happens from a cursor further on happens from the first cursor. -/
theorem of_onward (hon : c.Onward d) (h : m.Since tokens rank active d) :
    m.Since tokens rank active c := by
  obtain ⟨made, hactive, hmade⟩ := h.calls
  rw [hon.limit] at hmade
  refine ⟨h.on, hon.trans h.onward, made, hactive, hmade.raise ?_⟩
  have hdepth := hon.depth
  exact Nat.add_le_add_right (Nat.mul_le_mul_left _ (by omega)) rank

/-- What happens one level deeper is no call of the level above. -/
theorem of_deeper (hless : c.depth < c.limit)
    (h : m.Since tokens Routine.ranks active (c.atDepth (c.depth + 1))) :
    m.Since tokens 0 active c := by
  obtain ⟨made, hactive, hmade⟩ := h.calls
  have hdepth : c.depth + 1 ≤ m.cursor.depth := h.onward.depth
  refine ⟨h.on, ⟨h.onward.suffix, h.onward.limit, by omega, h.onward.functionDepth⟩, made,
    hactive, hmade.raise ?_⟩
  simp only [Cursor.atDepth, Routine.ranks]
  omega

/-- What happens inside of a call of a function below the rank happens inside of what makes it. -/
theorem of_call {routine : Routine} (hlower : routine.rank < rank)
    (hrank : routine.rank < Routine.ranks)
    (h : m.Since tokens routine.rank (⟨routine, c.depth⟩ :: active) c) :
    m.Since tokens rank active c := by
  obtain ⟨made, hactive, hmade⟩ := h.calls
  have hbelow : Descends c.limit (OpenCall.height c.limit ⟨routine, c.depth⟩) made := hmade
  refine ⟨h.on, h.onward, made ++ [⟨routine, c.depth⟩], ?_,
    hbelow.concat hrank (Nat.add_lt_add_left hlower _)⟩
  rw [hactive, List.append_assoc, List.singleton_append]

/-- With no call made since, the moment is at a cursor further on. -/
theorem here (hd : d.On tokens) (hon : c.Onward d) (rank : Nat) (active : List OpenCall) :
    (⟨active, d⟩ : Moment).Since tokens rank active c :=
  ⟨hd, hon, [], rfl, .nil _ _⟩

end Moment.Since

/-- From the cursor the descent comes to the result of the parser, at each of its moments calls and
cursor are in order, and where the parser accepts it leaves a cursor as described. -/
structure FollowsAt {α : Type} (tokens : List Token) (rank : Nat) (w : Descent α) (p : Parser α)
    (Q : Cursor → Prop) (c : Cursor) : Prop where
  runs : ∀ active, ∃ seen, w active c = some (p c, seen) ∧
    ∀ m ∈ seen, m.Since tokens rank active c
  on : (cursorOf (p c)).On tokens
  onward : c.Onward (cursorOf (p c))
  accepts : ∀ a d, p c = .ok a d → Q d

/-- Wherever there are rounds and room, the descent follows the parser, and what is accepted gains
so many tokens. -/
def Follows {α : Type} (tokens : List Token) (rounds room rank : Nat) (level : Prop)
    (w : Descent α) (p : Parser α) (count : Nat) : Prop :=
  ∀ c : Cursor, c.Ready tokens rounds room → FollowsAt tokens rank w p (c.Gains count level) c

variable {α β : Type} {tokens : List Token} {rounds room rank higher m n : Nat} {level : Prop}
  {w : Descent α} {p : Parser α} {f : α → Descent β} {g : α → Parser β} {P Q : Cursor → Prop}
  {c d : Cursor}

theorem cursorOf_changing (change : Cursor → Cursor)
    (result : EStateM.Result Diagnostic Cursor α) :
    cursorOf (changing change result) = change (cursorOf result) := by
  cases result <;> rfl

theorem eq_ok_of_changing {change : Cursor → Cursor}
    {result : EStateM.Result Diagnostic Cursor α} {a : α}
    (h : changing change result = .ok a d) : ∃ left, result = .ok a left ∧ change left = d := by
  cases result with
  | ok b left =>
      cases h
      exact ⟨left, rfl, rfl⟩
  | error e left => cases h

theorem Descent.bind_of_ok {active : List OpenCall} {a : α} {seen : List Moment}
    (h : w active c = some (.ok a d, seen)) :
    (w >>= f) active c = (f a active d).map fun (result, later) => (result, seen ++ later) := by
  change Descent.andThen w f active c = _
  rw [Descent.andThen, h]

theorem Descent.bind_of_error {active : List OpenCall} {e : Diagnostic} {seen : List Moment}
    (h : w active c = some (.error e d, seen)) :
    (w >>= f) active c = some (.error e d, seen) := by
  change Descent.andThen w f active c = _
  rw [Descent.andThen, h]

theorem Parser.Stays.cursorOf_apply {R : α → Prop} (h : Stays tokens p R) (hc : c.On tokens) :
    (cursorOf (p c)).On tokens ∧ c.Onward (cursorOf (p c)) := by
  have hstops := h c hc
  generalize p c = r at hstops ⊢
  cases hstops with
  | ok hd hon ha => exact ⟨hd, hon⟩
  | error hd hon hkind hspan => exact ⟨hd, hon⟩

/-- What there is to show once the result of the parser is known. -/
theorem followsAt_of_eq {r : EStateM.Result Diagnostic Cursor α} (hr : p c = r)
    (hruns : ∀ active, ∃ seen, w active c = some (r, seen) ∧
      ∀ m ∈ seen, m.Since tokens rank active c)
    (hon : (cursorOf r).On tokens) (honward : c.Onward (cursorOf r))
    (hQ : ∀ a d, r = .ok a d → Q d) : FollowsAt tokens rank w p Q c := by
  subst hr
  exact ⟨hruns, hon, honward, hQ⟩

theorem followsAt_pure (hc : c.On tokens) (a : α) (hQ : Q c) :
    FollowsAt tokens rank (pure a) (pure a) Q c := by
  refine followsAt_of_eq rfl (fun active => ⟨[], rfl, List.forall_mem_nil _⟩) hc (.refl c) ?_
  intro b d hd
  cases hd
  exact hQ

theorem followsAt_read {r : EStateM.Result Diagnostic Cursor α} (hr : p c = r)
    (hon : (cursorOf r).On tokens) (honward : c.Onward (cursorOf r))
    (hQ : ∀ a d, r = .ok a d → Q d) : FollowsAt tokens rank (Descent.read p) p Q c := by
  refine followsAt_of_eq hr (fun active => ⟨[⟨active, cursorOf r⟩], ?_, ?_⟩) hon honward hQ
  · rw [Descent.read, hr]
  · exact List.forall_mem_singleton.mpr (.here hon honward rank active)

/-- Where the parser refuses on the spot, there is nothing more to follow. -/
theorem followsAt_refusal (hc : c.On tokens) (h : ∃ e, p c = .error e c) :
    FollowsAt tokens rank (Descent.read p) p Q c := by
  obtain ⟨e, he⟩ := h
  refine followsAt_read he hc (.refl c) ?_
  intro a d hd
  cases hd

namespace FollowsAt

theorem congr {q : Parser α} (h : FollowsAt tokens rank w p Q c) (hsame : q c = p c) :
    FollowsAt tokens rank w q Q c :=
  followsAt_of_eq hsame h.runs h.on h.onward h.accepts

theorem raise (h : FollowsAt tokens rank w p P c) (hrank : rank ≤ higher)
    (hQ : ∀ d, P d → Q d) : FollowsAt tokens higher w p Q c where
  runs active := by
    obtain ⟨seen, hrun, hseen⟩ := h.runs active
    exact ⟨seen, hrun, fun m hm => (hseen m hm).raise hrank⟩
  on := h.on
  onward := h.onward
  accepts a d hd := hQ d (h.accepts a d hd)

/-- What follows on a first part may call other functions, as long as its moments are in order from
the beginning. -/
theorem andThen (hw : FollowsAt tokens rank w p P c) (inside : Nat)
    (hf : ∀ a d, p c = .ok a d → d.On tokens → c.Onward d →
      FollowsAt tokens inside (f a) (g a) Q d ∧
        ∀ active (m : Moment), m.Since tokens inside active d → m.Since tokens rank active c) :
    FollowsAt tokens rank (w >>= f) (p >>= g) Q c := by
  obtain ⟨hruns, hon, honward, -⟩ := hw
  cases hp : p c with
  | error e d =>
      rw [hp] at hon honward
      refine followsAt_of_eq (error_of_bind hp) (fun active => ?_) hon honward ?_
      · obtain ⟨seen, hrun, hseen⟩ := hruns active
        rw [hp] at hrun
        exact ⟨seen, Descent.bind_of_error hrun, hseen⟩
      · intro b d' hd'
        cases hd'
  | ok a d =>
      rw [hp] at hon honward
      obtain ⟨hnext, hsince⟩ := hf a d hp hon honward
      refine followsAt_of_eq (bind_of_ok hp) (fun active => ?_) hnext.on
        (honward.trans hnext.onward) hnext.accepts
      obtain ⟨seen, hrun, hseen⟩ := hruns active
      obtain ⟨later, hrun', hlater⟩ := hnext.runs active
      rw [hp] at hrun
      refine ⟨seen ++ later, ?_, ?_⟩
      · rw [Descent.bind_of_ok hrun, hrun']
        rfl
      · intro m hm
        rcases List.mem_append.mp hm with hm | hm
        · exact hseen m hm
        · exact hsince active m (hlater m hm)

theorem bind (hw : FollowsAt tokens rank w p P c)
    (hf : ∀ a d, p c = .ok a d → d.On tokens → c.Onward d →
      FollowsAt tokens rank (f a) (g a) Q d) :
    FollowsAt tokens rank (w >>= f) (p >>= g) Q c :=
  hw.andThen rank fun a d hp hd hon => ⟨hf a d hp hd hon, fun _ _ hm => hm.of_onward hon⟩

/-- A look at the cursor leaves it where it is. -/
theorem look {a : α} (hc : c.On tokens) (hp : p c = .ok a c)
    (h : FollowsAt tokens rank (f a) (g a) Q c) :
    FollowsAt tokens rank (Descent.read p >>= f) (p >>= g) Q c := by
  have hread : FollowsAt tokens rank (Descent.read p) p (fun _ => True) c :=
    followsAt_read hp hc (.refl c) fun _ _ _ => trivial
  refine hread.bind fun b d hd _ _ => ?_
  rw [hp] at hd
  cases hd
  exact h

/-- A call is made of a function below the present one. -/
theorem call {routine : Routine} (hc : c.On tokens) (hlower : routine.rank < rank)
    (hrank : routine.rank < Routine.ranks) (h : FollowsAt tokens routine.rank w p Q c) :
    FollowsAt tokens rank (Descent.call routine w) p Q c := by
  refine followsAt_of_eq rfl (fun active => ?_) h.on h.onward h.accepts
  obtain ⟨seen, hrun, hseen⟩ := h.runs (⟨routine, c.depth⟩ :: active)
  refine ⟨⟨⟨routine, c.depth⟩ :: active, c⟩ :: seen, ?_, ?_⟩
  · rw [Descent.call, hrun]
    rfl
  · refine List.forall_mem_cons.mpr ⟨?_, fun m hm => (hseen m hm).of_call hlower hrank⟩
    exact (Moment.Since.here hc (.refl c) _ _).of_call hlower hrank

/-- What is read within something that is entered and left, whether it is accepted or refused. -/
theorem within {enter : Parser Unit} {leave : Cursor → Cursor} {inside : Nat}
    (henter : enter c = .ok () d) (hd : d.On tokens) (hon : c.Onward d)
    (hsince : ∀ active (m : Moment), m.Since tokens inside active d → m.Since tokens rank active c)
    (hleave : ∀ e, e.On tokens → d.Onward e → (leave e).On tokens ∧ c.Onward (leave e))
    (hw : FollowsAt tokens inside w p P d) (hQ : ∀ e, P e → Q (leave e)) :
    FollowsAt tokens rank (Descent.read enter >>= fun _ => Descent.leaving leave w)
      (enter >>= fun _ => (fun c => changing leave (p c) : Parser α)) Q c := by
  have hleft := hleave _ hw.on hw.onward
  rw [← cursorOf_changing leave (p d)] at hleft
  refine followsAt_of_eq (bind_of_ok henter) (fun active => ?_) hleft.1 hleft.2 ?_
  · obtain ⟨seen, hrun, hseen⟩ := hw.runs active
    refine ⟨⟨active, d⟩ :: (seen ++ [⟨active, cursorOf (changing leave (p d))⟩]), ?_, ?_⟩
    · have hread : Descent.read enter active c = some (.ok () d, [⟨active, d⟩]) := by
        rw [Descent.read, henter]
        rfl
      rw [Descent.bind_of_ok hread, Descent.leaving, hrun, cursorOf_changing]
      rfl
    · refine List.forall_mem_cons.mpr ⟨.here hd hon rank active, ?_⟩
      refine List.forall_mem_append.mpr ⟨fun m hm => hsince active m (hseen m hm), ?_⟩
      exact List.forall_mem_singleton.mpr (.here hleft.1 hleft.2 rank active)
  · intro a e he
    obtain ⟨b, hb, rfl⟩ := eq_ok_of_changing he
    exact hQ b (hw.accepts a b hb)

/-- What begins with the entering of a level is refused there and then, unless there is a level to
enter. -/
theorem entering {f : Unit → Descent α} {g : Unit → Parser α} (hc : c.On tokens)
    (h : c.depth < c.limit →
      FollowsAt tokens rank (Descent.read descend >>= f) (descend >>= g) Q c) :
    FollowsAt tokens rank (Descent.read descend >>= f) (descend >>= g) Q c := by
  by_cases hless : c.depth < c.limit
  · exact h hless
  · have hread : FollowsAt tokens rank (Descent.read descend) descend (fun _ => True) c :=
      followsAt_refusal hc ⟨_, descend_of_full hless⟩
    refine hread.bind fun a d hd _ _ => ?_
    rw [descend_of_full hless] at hd
    cases hd

theorem descend {f : Unit → Descent α} {g : Unit → Parser α} (hc : c.On tokens)
    (h : (c.atDepth (c.depth + 1)).On tokens →
      FollowsAt tokens Routine.ranks (f ()) (g ()) Q (c.atDepth (c.depth + 1))) :
    FollowsAt tokens 0 (Descent.read descend >>= f) (descend >>= g) Q c := by
  refine entering hc fun hless => ?_
  obtain ⟨hdeeper, honward⟩ := hc.deeper hless
  have hread : FollowsAt tokens 0 (Descent.read Parser.descend) Parser.descend (fun _ => True) c :=
    followsAt_read (descend_of_less hless) hdeeper honward fun _ _ _ => trivial
  refine hread.andThen Routine.ranks fun a d hd _ _ => ?_
  rw [descend_of_less hless] at hd
  cases hd
  exact ⟨h hdeeper, fun active m hm => hm.of_deeper hless⟩

theorem nested (hc : c.On tokens)
    (h : (c.atDepth (c.depth + 1)).On tokens →
      FollowsAt tokens Routine.ranks w p ((c.atDepth (c.depth + 1)).Gains n True)
        (c.atDepth (c.depth + 1))) :
    FollowsAt tokens 0 (Descent.nested w) (Parser.nested p) (c.Gains n True) c := by
  refine entering hc fun hless => ?_
  obtain ⟨hdeeper, honward⟩ := hc.deeper hless
  refine within (descend_of_less hless) hdeeper honward (fun active m hm => hm.of_deeper hless)
    (fun e he hone => on_of_entered he hone) (h hdeeper) fun e he => he.left

theorem inFunction (hc : c.On tokens)
    (h : FollowsAt tokens rank w p ({ c with functionDepth := c.functionDepth + 1 }.Gains n True)
      { c with functionDepth := c.functionDepth + 1 }) :
    FollowsAt tokens rank (Descent.inFunction w) (Parser.inFunction p) (c.Gains n True) c := by
  refine within (d := { c with functionDepth := c.functionDepth + 1 }) rfl
    ⟨hc.suffix, hc.ends, hc.depth_le⟩
    ⟨List.suffix_refl _, rfl, Nat.le_refl _, Nat.le_succ _⟩ ?_ ?_ h ?_
  · intro active m hm
    refine ⟨hm.on, ⟨hm.onward.suffix, hm.onward.limit, hm.onward.depth, ?_⟩, hm.calls⟩
    exact Nat.le_of_succ_le hm.onward.functionDepth
  · intro e he hone
    exact ⟨⟨he.suffix, he.ends, he.depth_le⟩, hone.suffix, hone.limit, hone.depth,
      Nat.le_sub_of_add_le hone.functionDepth⟩
  · intro e he
    refine ⟨he.tokens, ?_, he.depth⟩
    have hfunction : e.functionDepth = c.functionDepth + 1 := he.functionDepth
    change e.functionDepth - 1 = c.functionDepth
    omega

/-- What is read within something that is entered, and left only when it is accepted. -/
theorem withinAccepted {enter : Parser β} {b : β} {f : β → Descent α} {g : β → Parser α}
    {leave : Cursor → Cursor} {inside : Nat}
    (henter : enter c = .ok b d) (hd : d.On tokens) (hon : c.Onward d)
    (hsince : ∀ active (m : Moment), m.Since tokens inside active d → m.Since tokens rank active c)
    (hleave : ∀ e, e.On tokens → d.Onward e → (leave e).On tokens ∧ c.Onward (leave e))
    (hf : f b = w >>= fun a => Descent.read (modify leave) >>= fun _ => pure a)
    (hg : g b = p >>= fun a => modify leave >>= fun _ => pure a)
    (hw : FollowsAt tokens inside w p P d) (hQ : ∀ e, P e → Q (leave e)) :
    FollowsAt tokens rank (Descent.read enter >>= f) (enter >>= g) Q c := by
  have hread : ∀ active, Descent.read enter active c = some (.ok b d, [⟨active, d⟩]) := by
    intro active
    rw [Descent.read, henter]
    rfl
  have hbegun : ∀ active, (⟨active, d⟩ : Moment).Since tokens rank active c :=
    fun active => .here hd hon rank active
  obtain ⟨hruns, hend, honward, haccepts⟩ := hw
  cases hp : p d with
  | error x e =>
      rw [hp] at hend honward
      have hrefused : (enter >>= g) c = .error x e := by
        rw [bind_of_ok henter, hg, error_of_bind hp]
      refine followsAt_of_eq hrefused (fun active => ?_) hend (hon.trans honward) ?_
      · obtain ⟨seen, hrun, hseen⟩ := hruns active
        rw [hp] at hrun
        refine ⟨⟨active, d⟩ :: seen, ?_, ?_⟩
        · rw [Descent.bind_of_ok (hread active), hf, Descent.bind_of_error hrun]
          rfl
        · exact List.forall_mem_cons.mpr
            ⟨hbegun active, fun m hm => hsince active m (hseen m hm)⟩
      · intro a e' he
        cases he
  | ok a e =>
      rw [hp] at hend honward
      obtain ⟨hleft, hleftward⟩ := hleave e hend honward
      have haccepted : (enter >>= g) c = .ok a (leave e) := by
        rw [bind_of_ok henter, hg, bind_of_ok hp]
        rfl
      refine followsAt_of_eq haccepted (fun active => ?_) hleft hleftward ?_
      · obtain ⟨seen, hrun, hseen⟩ := hruns active
        rw [hp] at hrun
        refine ⟨⟨active, d⟩ :: (seen ++ [⟨active, leave e⟩]), ?_, ?_⟩
        · rw [Descent.bind_of_ok (hread active), hf, Descent.bind_of_ok hrun]
          rfl
        · refine List.forall_mem_cons.mpr ⟨hbegun active, List.forall_mem_append.mpr ⟨?_, ?_⟩⟩
          · exact fun m hm => hsince active m (hseen m hm)
          · exact List.forall_mem_singleton.mpr (.here hleft hleftward rank active)
      · intro a' e' he
        cases he
        exact hQ e (haccepts a e hp)

theorem deepened (hc : c.On tokens)
    (h : (c.atDepth (c.depth + 1)).On tokens →
      FollowsAt tokens Routine.ranks w p ((c.atDepth (c.depth + 1)).Gains n True)
        (c.atDepth (c.depth + 1))) :
    FollowsAt tokens 0 (Descent.deepened w) (Parser.deepened p) (c.Gains n True) c := by
  refine entering hc fun hless => ?_
  obtain ⟨hdeeper, honward⟩ := hc.deeper hless
  refine withinAccepted (descend_of_less hless) hdeeper honward
    (fun active m hm => hm.of_deeper hless) (fun e he hone => on_of_entered he hone) rfl rfl
    (h hdeeper) fun e he => ?_
  exact he.left

theorem restoringDepth (hc : c.On tokens)
    (h : FollowsAt tokens rank w p (c.Gains n False) c) :
    FollowsAt tokens rank (Descent.restoringDepth w) (Parser.restoringDepth p) (c.Gains n True)
      c := by
  have hleave (e : Cursor) (he : e.On tokens) (hone : c.Onward e) :
      (e.atDepth c.depth).On tokens ∧ c.Onward (e.atDepth c.depth) :=
    ⟨⟨he.suffix, he.ends, hone.limit ▸ hc.depth_le⟩, hone.suffix, hone.limit, Nat.le_refl _,
      hone.functionDepth⟩
  have hlook : (get : Parser Cursor) c = .ok c c := rfl
  refine withinAccepted hlook hc (.refl c) (fun _ _ hm => hm) hleave rfl rfl h fun e he => ?_
  exact ⟨he.tokens, he.functionDepth, fun _ => rfl⟩

/-- What the second part gains is what is missing after the first. -/
theorem seq (hc : c.Ready tokens rounds room)
    (hw : FollowsAt tokens rank w p (c.Gains m level) c)
    (hf : ∀ a, Follows tokens rounds room rank level (f a) (g a) (n - m)) :
    FollowsAt tokens rank (w >>= f) (p >>= g) (c.Gains n level) c := by
  refine hw.bind fun a d hp hd hon => ?_
  exact (hf a d (hc.of_onward hd hon)).raise (Nat.le_refl _) fun e he =>
    ((hw.accepts a d hp).trans he).weaken (by omega)

end FollowsAt

/-! Rules for what is read from any cursor that there are rounds and room for. -/

namespace Follows

theorem raise (h : Follows tokens rounds room rank level w p n) (hrank : rank ≤ higher) :
    Follows tokens rounds room higher level w p n :=
  fun c hc => (h c hc).raise hrank fun _ => id

theorem weaken (h : Follows tokens rounds room rank level w p n) (hcount : m ≤ n) :
    Follows tokens rounds room rank level w p m :=
  fun c hc => (h c hc).raise (Nat.le_refl _) fun _ hd => hd.weaken hcount

theorem loosen (h : Follows tokens rounds room rank True w p n) (level : Prop) :
    Follows tokens rounds room rank level w p n :=
  fun c hc => (h c hc).raise (Nat.le_refl _) fun _ hd =>
    ⟨hd.tokens, hd.functionDepth, fun _ => hd.depth trivial⟩

theorem seq (hw : Follows tokens rounds room rank level w p m)
    (hf : ∀ a, Follows tokens rounds room rank level (f a) (g a) (n - m)) :
    Follows tokens rounds room rank level (w >>= f) (p >>= g) n :=
  fun c hc => (hw c hc).seq hc hf

theorem call {routine : Routine} (h : Follows tokens rounds room routine.rank level w p n)
    (hlower : routine.rank < rank) (hrank : routine.rank < Routine.ranks) :
    Follows tokens rounds room rank level (Descent.call routine w) p n :=
  fun c hc => (h c hc).call hc.toOn hlower hrank

theorem nested (h : Follows tokens rounds (room - 1) Routine.ranks True w p n) :
    Follows tokens rounds room 0 True (Descent.nested w) (Parser.nested p) n := by
  intro c hc
  exact FollowsAt.nested hc.toOn fun hdeeper => h _ (hc.deeper hdeeper)

theorem deepened (h : Follows tokens rounds (room - 1) Routine.ranks True w p n) :
    Follows tokens rounds room 0 True (Descent.deepened w) (Parser.deepened p) n := by
  intro c hc
  exact FollowsAt.deepened hc.toOn fun hdeeper => h _ (hc.deeper hdeeper)

theorem descend {f : Unit → Descent α} {g : Unit → Parser α}
    (h : Follows tokens rounds (room - 1) Routine.ranks False (f ()) (g ()) n) :
    Follows tokens rounds room 0 False (Descent.read descend >>= f) (descend >>= g) n := by
  intro c hc
  refine FollowsAt.descend hc.toOn fun hdeeper => ?_
  exact (h _ (hc.deeper hdeeper)).raise (Nat.le_refl _) fun e he =>
    ⟨he.tokens, he.functionDepth, False.elim⟩

theorem restoringDepth (h : Follows tokens rounds room rank False w p n) :
    Follows tokens rounds room rank True (Descent.restoringDepth w) (Parser.restoringDepth p) n :=
  fun c hc => (h c hc).restoringDepth hc.toOn

theorem inFunction (h : Follows tokens rounds room rank True w p n) :
    Follows tokens rounds room rank True (Descent.inFunction w) (Parser.inFunction p) n :=
  fun _ hc => FollowsAt.inFunction hc.toOn
    (h _ ⟨⟨hc.suffix, hc.ends, hc.depth_le⟩, hc.rounds, hc.room⟩)

end Follows

theorem followsAt_advance (hc : c.On tokens) (hkind : c.next.kind ≠ .endOfText) :
    FollowsAt tokens rank (Descent.read advance) advance (c.Gains 1 level) c := by
  obtain ⟨hd, hon⟩ := stays_advance.cursorOf_apply hc
  exact followsAt_read rfl hd hon fun a d h => .of_before (before_of_advance h hkind hc.ends).1

theorem follows_pure (a : α) :
    Follows tokens rounds room rank level (pure a : Descent α) (pure a) 0 :=
  fun c hc => followsAt_pure hc.toOn a (.refl level c)

theorem follows_read {R : α → Prop} (hstays : Stays tokens p R)
    (hgains : ∀ (c : Cursor) a d, c.HasEnd → p c = .ok a d → c.Gains n level d) :
    Follows tokens rounds room rank level (Descent.read p) p n := by
  intro c hc
  obtain ⟨hd, hon⟩ := hstays.cursorOf_apply hc.toOn
  exact followsAt_read rfl hd hon fun a d => hgains c a d hc.ends

theorem follows_refusal (h : ∀ c, ∃ e, p c = .error e c) :
    Follows tokens rounds room rank level (Descent.read p) p n :=
  fun c hc => followsAt_refusal hc.toOn (h c)

theorem follows_refuse (message : String) (span : Span) :
    Follows tokens rounds room rank level (Descent.read (refuse message span))
      (refuse message span : Parser α) n :=
  follows_refusal fun _ => ⟨_, rfl⟩

theorem follows_refuseNext (message : String) :
    Follows tokens rounds room rank level (Descent.read (refuseNext message))
      (refuseNext message : Parser α) n := by
  refine follows_refusal fun c => ?_
  change ∃ e, (if c.next.kind = .endOfText then
      refuse (message ++ ", found end of input") c.next.span
    else refuse (message ++ ", found `" ++ c.next.lexeme ++ "`") c.next.span : Parser α) c =
      .error e c
  split
  · exact ⟨_, rfl⟩
  · exact ⟨_, rfl⟩

theorem follows_advance :
    Follows tokens rounds room rank level (Descent.read advance) advance 0 := by
  refine follows_read stays_advance fun c a d _ hd => ?_
  rw [advance_apply] at hd
  cases hd
  exact c.gains_taken level

theorem follows_expect {kind : TokenKind} (hkind : kind ≠ .endOfText) (message : String) :
    Follows tokens rounds room rank level (Descent.read (expect kind message))
      (expect kind message) 1 :=
  follows_read (stays_expect kind message) fun _ _ _ hend hd =>
    .of_before (before_of_expect hd hkind hend).1

theorem follows_expectProperty (message : String) :
    Follows tokens rounds room rank level (Descent.read (expectProperty message))
      (expectProperty message) 1 :=
  follows_read (stays_expectProperty message) fun _ _ _ hend hd =>
    .of_before (before_of_expectProperty hd hend).1

theorem follows_accept? (kind : TokenKind) :
    Follows tokens rounds room rank level (Descent.read (accept? kind)) (accept? kind) 0 := by
  refine follows_read (stays_accept? kind) fun c a d _ hd => ?_
  rw [accept?_apply] at hd
  split at hd
  · cases hd
    exact c.gains_taken level
  · cases hd
    exact .refl level c

/-- What is read for its place alone. -/
theorem Follows.discard (h : Follows tokens rounds room rank level (Descent.read p) p n) :
    Follows tokens rounds room rank level (Descent.read (discard p)) (discard p) n := by
  intro c hc
  obtain ⟨-, hd, hon, hgains⟩ := h c hc
  have hsame : Functor.discard p = p >>= fun _ => pure ⟨⟩ := map_eq_pure_bind _ p
  cases hp : p c with
  | error e d =>
      rw [hp] at hd hon
      refine followsAt_read ((congrFun hsame c).trans (error_of_bind hp)) hd hon ?_
      intro b d' hd'
      cases hd'
  | ok a d =>
      rw [hp] at hd hon
      refine followsAt_read ((congrFun hsame c).trans (bind_of_ok hp)) hd hon ?_
      intro b d' hd'
      cases hd'
      exact hgains a d hp

/-- A look at what comes next takes nothing. -/
theorem follows_look (hlook : ∀ c, ∃ a, p c = .ok a c)
    (h : ∀ a, Follows tokens rounds room rank level (f a) (g a) n) :
    Follows tokens rounds room rank level (Descent.read p >>= f) (p >>= g) n := by
  intro c hc
  obtain ⟨a, ha⟩ := hlook c
  exact FollowsAt.look hc.toOn ha (h a c hc)

theorem follows_peekKind {f : TokenKind → Descent β} {g : TokenKind → Parser β}
    (h : ∀ kind, Follows tokens rounds room rank level (f kind) (g kind) n) :
    Follows tokens rounds room rank level (Descent.read peekKind >>= f) (peekKind >>= g) n :=
  follows_look (fun _ => ⟨_, rfl⟩) h

/-- What is read by the kind of the next token may rely on it. -/
theorem follows_of_peekKind {f : TokenKind → Descent β} {g : TokenKind → Parser β}
    (h : ∀ kind (c : Cursor), c.Ready tokens rounds room → c.next.kind = kind →
      FollowsAt tokens rank (f kind) (g kind) (c.Gains n level) c) :
    Follows tokens rounds room rank level (Descent.read peekKind >>= f) (peekKind >>= g) n :=
  fun c hc => FollowsAt.look hc.toOn rfl (h c.next.kind c hc rfl)

/-! Repetitions. Each round takes a token at least, so with as many rounds and as long a bound as
there are tokens left, neither is used up. -/

/-- Where no token is left, not even the end of the text, no cursor stands. -/
theorem follows_of_none : Follows tokens 0 room rank level w p n := by
  intro c hc
  have hpos := hc.ends.pos
  have hnone := hc.rounds
  omega

namespace Follows

theorem narrow (h : Follows tokens rounds room rank level w p n) :
    Follows tokens rounds (room - 1) rank level w p n :=
  fun c hc => h c ⟨hc.toOn, hc.rounds, Nat.le_trans hc.room
    (Nat.add_le_add_left (Nat.sub_le room 1) _)⟩

theorem fewer {times : Nat} (h : Follows tokens rounds room rank level w p n)
    (hle : times ≤ rounds) : Follows tokens times room rank level w p n :=
  fun c hc => h c ⟨hc.toOn, Nat.le_trans hc.rounds hle, hc.room⟩

/-- Once a token is taken, one round less is enough. -/
theorem step (hw : Follows tokens (rounds + 1) room rank level w p 1)
    (hf : ∀ a, Follows tokens rounds room rank level (f a) (g a) 0) :
    Follows tokens (rounds + 1) room rank level (w >>= f) (p >>= g) 0 := by
  intro c hc
  refine (hw c hc).bind fun a d hp hd hon => ?_
  have hgains := (hw c hc).accepts a d hp
  have hready := hc.of_onward hd hon
  refine (hf a d ⟨hd, ?_, hready.room⟩).raise (Nat.le_refl _) fun e he =>
    (hgains.trans he).weaken (Nat.zero_le _)
  have htokens := hgains.tokens
  have hrounds := hc.rounds
  omega

end Follows

/-- A repetition follows one with a bound if each round does, given that the rest does. -/
theorem follows_repetition {σ : Type} (again : Nat → σ → Descent α)
    (again' : List Token → σ → Parser α)
    (hround : ∀ times left token bound, left + 1 ≤ rounds →
      (∀ s, Follows tokens left room rank level (again times s) (again' bound s) 0) →
      ∀ s, Follows tokens (left + 1) room rank level (again (times + 1) s)
        (again' (token :: bound) s) 0) (s : σ) :
    Follows tokens rounds room rank level (again rounds s)
      (tokensLeft >>= fun bound => again' bound s) 0 := by
  have hrounds : ∀ times left bound, left ≤ times → left ≤ bound.length → left ≤ rounds → ∀ s,
      Follows tokens left room rank level (again times s) (again' bound s) 0 := by
    intro times left
    induction left generalizing times with
    | zero => exact fun _ _ _ _ _ => follows_of_none
    | succ left ih =>
        intro bound htimes hbound hle s
        obtain ⟨times, rfl⟩ :=
          Nat.exists_eq_add_of_le' (Nat.le_trans (Nat.le_add_left 1 left) htimes)
        obtain ⟨token, bound, rfl⟩ :=
          List.exists_cons_of_length_pos (Nat.lt_of_lt_of_le (Nat.succ_pos left) hbound)
        exact hround times left token bound hle
          (ih times bound (Nat.le_of_succ_le_succ htimes) (Nat.le_of_succ_le_succ hbound)
            (Nat.le_of_succ_le hle)) s
  intro c hc
  exact (hrounds rounds c.remaining.length c.remaining hc.rounds (Nat.le_refl _) hc.rounds s c
    ⟨hc.toOn, Nat.le_refl _, hc.room⟩).congr rfl

namespace Follows

theorem manyUntil {closes : TokenKind → Bool}
    (h : Follows tokens rounds room rank True w p 1) :
    Follows tokens rounds room rank True (Descent.manyUntil closes w rounds)
      (tokensLeft >>= fun bound => Parser.manyUntil closes p bound) 0 := by
  refine follows_repetition (fun times (_ : Unit) => Descent.manyUntil closes w times)
    (fun bound _ => Parser.manyUntil closes p bound) ?_ ()
  intro times left token bound hle hrest s
  refine follows_peekKind fun kind => ?_
  by_cases hcloses : closes kind = true
  · rw [if_pos hcloses, if_pos hcloses]
    exact follows_pure []
  · rw [if_neg hcloses, if_neg hcloses]
    exact (h.fewer hle).step fun a => (hrest s).seq fun as => follows_pure (a :: as)

theorem separated (h : Follows tokens rounds room rank True w p 1) :
    Follows tokens rounds room rank True (Descent.separated w rounds)
      (tokensLeft >>= fun bound => Parser.separated p bound) 0 := by
  refine follows_repetition (fun times (_ : Unit) => Descent.separated w times)
    (fun bound _ => Parser.separated p bound) ?_ ()
  intro times left token bound hle hrest s
  refine (h.fewer hle).step fun a => (follows_accept? .comma).seq fun comma => ?_
  cases comma with
  | none => exact follows_pure [a]
  | some _ => exact (hrest s).seq fun as => follows_pure (a :: as)

theorem separatedUntil (h : Follows tokens rounds room rank True w p 1) (closing : TokenKind) :
    Follows tokens rounds room rank True (Descent.separatedUntil closing w rounds)
      (Parser.separatedUntil closing p) 0 := by
  refine follows_peekKind fun kind => ?_
  by_cases hclosing : kind = closing
  · rw [if_pos hclosing, if_pos hclosing]
    exact follows_pure []
  · rw [if_neg hclosing, if_neg hclosing]
    exact h.separated

theorem following? {sign : TokenKind} (h : Follows tokens rounds room rank level w p n) :
    Follows tokens rounds room rank level (Descent.following? sign w) (Parser.following? sign p)
      0 := by
  refine (follows_accept? sign).seq fun found => ?_
  cases found with
  | none => exact follows_pure none
  | some _ => exact (h.weaken (Nat.zero_le _)).seq fun a => follows_pure (some a)

/-- A repetition, and what comes behind it. -/
theorem repeated {r : List Token → Parser α}
    (h : Follows tokens rounds room rank level w (tokensLeft >>= r) m)
    (hf : ∀ a, Follows tokens rounds room rank level (f a) (g a) (n - m)) :
    Follows tokens rounds room rank level (w >>= f) (tokensLeft >>= fun bound => r bound >>= g)
      n := by
  rw [← bind_assoc]
  exact h.seq hf

end Follows

end ScriptHost
