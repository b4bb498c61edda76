import Mathlib.Logic.Function.Basic
import ScriptHost.Proofs.Machine.Chain
import ScriptHost.Proofs.Program.Enclosure

/-!
Where functions come from and what code is being run. A chart is kept beside a run: for each
function that was made, the program and the phrase of it that made it, and for each call under way,
the program that its code belongs to. The code at hand then lies in as many function bodies of that
program as there are frames in front of the global one, and so does the phrase that made a function,
for the frames that the function is closed over.
-/

namespace ScriptHost

variable {p q last : Phrase}

/-- For the number of a function, the program that it comes from and the expression or declaration
of it that made the function. -/
abbrev Origins := Nat → Option (List Stmt × Tree)

/-- Every function that has an origin in the first has the same in the second. -/
def Origins.Extends (o o' : Origins) : Prop := ∀ identity origin, o identity = some origin →
  o' identity = some origin

/-- The code of a call: the program that it belongs to, and the phrases of it that were entered and
not left, innermost first. -/
structure Activation where
  unit : List Stmt
  phrases : List Tree

/-- Another phrase is entered. -/
def Activation.enter (t : Tree) (a : Activation) : Activation :=
  { a with phrases := t :: a.phrases }

/-- The innermost phrase is left. -/
def Activation.leave (a : Activation) : Activation := { a with phrases := a.phrases.tail }

/-- What is recorded beside a run: the origins of functions, the code of the calls under way,
innermost first, and the program of the function that was called last. -/
structure Chart where
  origins : Origins
  running : List Activation
  called : List Stmt

namespace Chart

/-- The code that is being run. -/
def current (c : Chart) : Activation := c.running.headD ⟨[], []⟩

/-- The program that a function comes from. -/
def unitOf (c : Chart) (identity : Nat) : List Stmt :=
  ((c.origins identity).map Prod.fst).getD []

/-- The program of a closure that is entered. -/
def entered (c : Chart) (closure : Closure) : List Stmt :=
  if closure.isUnit then closure.code.body else c.called

/-- The chart after a phrase was entered. -/
def enter (c : Chart) (t : Tree) : Chart := { c with running := c.running.modifyHead (.enter t) }

/-- If the phrase makes a function, that has the next number. -/
def record (c : Chart) (m : Machine) (t : Tree) : Chart :=
  match t.function? with
  | some _ =>
    { c with origins := Function.update c.origins m.store.nextIdentity (some (c.current.unit, t)) }
  | none => c

theorem origins_record {c : Chart} {m : Machine} {t : Tree} {code : FunctionCode}
    (h : t.function? = some code) :
    (c.record m t).origins =
      Function.update c.origins m.store.nextIdentity (some (c.current.unit, t)) := by
  rw [record, h]

theorem running_record (c : Chart) (m : Machine) (t : Tree) :
    (c.record m t).running = c.running := by
  unfold record
  split <;> rfl

/-- The chart after a phrase was left. -/
def leave (c : Chart) : Chart := { c with running := c.running.modifyHead .leave }

/-- The chart after a step. -/
def after (c : Chart) : Situation last → Chart
  | ⟨_, .evaluate e, _, m⟩ =>
    if m.nesting < maxNesting then (c.enter (.expr e)).record m (.expr e) else c
  | ⟨_, .execute s, _, m⟩ =>
    if m.nesting < maxNesting then (c.enter (.stmt s)).record m (.stmt s) else c
  | ⟨_, .invoke _ (.function identity _) _, _, _⟩ => { c with called := c.unitOf identity }
  | ⟨_, .enter _ closure _, _, m⟩ =>
    if m.depth < m.maxCallDepth then { c with running := ⟨c.entered closure, []⟩ :: c.running }
    else c
  | ⟨_, .value _, .cons .leave _, _⟩ => c.leave
  | ⟨_, .completion _, .cons .leave _, _⟩ => c.leave
  | ⟨_, .fault _, .cons .leave _, _⟩ => c.leave
  | ⟨_, .completion _, .cons (.returnTo _ _ _) _, _⟩ => { c with running := c.running.tail }
  | ⟨_, .fault _, .cons (.returnTo _ _ _) _, _⟩ => { c with running := c.running.tail }
  | _ => c

end Chart

/-- Where code belongs: to the innermost of some calls, in so many function bodies of its
program. -/
structure Site where
  running : List Activation
  bodies : Nat

namespace Site

def current (site : Site) : Activation := site.running.headD ⟨[], []⟩

/-- The phrase is found there. -/
def Has (site : Site) (t : Tree) : Prop :=
  IsProgram site.current.unit ∧ Lies site.current.unit site.bodies t

/-- Every phrase that was entered and not left is found there. -/
def Executes (site : Site) : Prop := ∀ t ∈ site.current.phrases, site.Has t

end Site

/-- The site of the code that a machine is running. -/
def Chart.site (c : Chart) (m : Machine) : Site := ⟨c.running, m.environment.depth⟩

/-- The closure is that of a function which the phrase of the program makes, and it is closed over
as many frames, besides the global one, as there are bodies around the phrase. -/
structure Closure.MadeBy (unit : List Stmt) (t : Tree) (closure : Closure) : Prop where
  program : IsProgram unit
  lies : Lies unit closure.environment.depth t
  code : t.function? = some closure.code
  isUnit : closure.isUnit = false

/-- The closure can be entered: it is a program bound to the global frame, or that of a function of
the program given. -/
inductive Closure.Ready (unit : List Stmt) (closure : Closure) : Prop
  | program (hunit : closure.isUnit = true) (hdepth : closure.environment.depth = 0)
      (hprogram : IsProgram closure.code.body)
  | function {t : Tree} (h : closure.MadeBy unit t)

/-- The function has an origin that has made it; the value is no native of a host. -/
def Value.Placed (o : Origins) : Value → Prop
  | .function identity closure =>
    ∃ unit t, o identity = some (unit, t) ∧ closure.MadeBy unit t
  | .native _ (.host _) => False
  | _ => True

def Completion.Placed (o : Origins) : Completion → Prop
  | .normal value => ∀ v ∈ value, v.Placed o
  | .return v => v.Placed o

def Ending.Placed (o : Origins) : Ending p → Prop
  | .value v => v.Placed o
  | .completion c => c.Placed o
  | .fault _ | .stranded _ => True

/-- The functions of a store have origins, and none have the numbers that are yet to be given. -/
structure Store.Placed (o : Origins) (s : Store) : Prop where
  values : ∀ id name v, s.get? id name = some v → v.Placed o
  fresh : ∀ identity, o identity ≠ none → identity < s.nextIdentity

structure Machine.Placed (c : Chart) (m : Machine) : Prop where
  store : m.store.Placed c.origins
  receiver : m.receiver.Placed c.origins
  environment : m.environment.depth ≤ maxTreeDepth
  executes : (c.site m).Executes

def Focus.Placed (chart : Chart) (site : Site) : Focus p → Prop
  | .evaluate e => site.Has (.expr e)
  | .execute s => site.Has (.stmt s)
  | .executeAll body latest =>
    (∀ s ∈ body, site.Has (.stmt s)) ∧ ∀ v ∈ latest, v.Placed chart.origins
  | .invoke receiver callee arguments =>
    receiver.Placed chart.origins ∧ callee.Placed chart.origins ∧
      ∀ v ∈ arguments, v.Placed chart.origins
  | .enter receiver closure arguments =>
    receiver.Placed chart.origins ∧ closure.Ready chart.called ∧
      ∀ v ∈ arguments, v.Placed chart.origins
  | .perform _ => False
  | .value v => v.Placed chart.origins
  | .completion c => c.Placed chart.origins
  | .fault _ => True

/-- The site of the code that is gone on with once a result has passed the frame. -/
def Frame.below : Frame p q → Site → Site
  | .leave, site => { site with running := site.running.modifyHead .leave }
  | .returnTo environment _ _, site => ⟨site.running.tail, environment.depth⟩
  | _, site => site

/-- What a frame keeps of a loop is the code of the loop. -/
def Frame.Placed (o : Origins) (site : Site) : Frame p q → Prop
  | .binaryRight _ e | .logicalRight _ e | .assignTo e => site.Has (.expr e)
  | .binaryApply _ v | .assignMember _ _ v => v.Placed o
  | .callMember call _ | .callFunction call => ∀ e ∈ call.arguments, site.Has (.expr e)
  | .callArgument _ receiver function done rest =>
    (receiver.Placed o ∧ function.Placed o ∧ ∀ v ∈ done, v.Placed o) ∧
      ∀ e ∈ rest, site.Has (.expr e)
  | .objectEntry _ _ rest => ∀ entry ∈ rest, site.Has (.expr entry.value)
  | .host _ => False
  | .returnTo environment receiver _ =>
    (environment.depth ≤ maxTreeDepth ∧ receiver.Placed o) ∧
      Site.Executes ⟨site.running.tail, environment.depth⟩
  | .branch thenBranch elseBranch =>
    site.Has (.stmt thenBranch) ∧ ∀ s ∈ elseBranch, site.Has (.stmt s)
  | .loopTest condition body value | .loopBody condition body value =>
    (∃ span, site.Has (.stmt (.while span condition body))) ∧ ∀ v ∈ value, v.Placed o
  | .sequence rest value => (∀ s ∈ rest, site.Has (.stmt s)) ∧ ∀ v ∈ value, v.Placed o
  | .leave | .unaryApply _ | .readMember .. | .locate _ | .defineVar _ | .complete
  | .returnValue => True

def Stack.Placed (o : Origins) : {p q : Phrase} → Stack p q → Site → Prop
  | _, _, .nil, _ => True
  | _, _, .cons frame rest, site => frame.Placed o site ∧ rest.Placed o (frame.below site)

/-- All that is at hand agrees with the chart. -/
structure Situation.Placed (c : Chart) (s : Situation last) : Prop where
  focus : s.focus.Placed c (c.site s.machine)
  stack : s.stack.Placed c.origins (c.site s.machine)
  machine : s.machine.Placed c

/-- What a step leads to agrees with the chart. -/
def Progress.Placed (c : Chart) : Progress last → Prop :=
  Leads (Situation.Placed c) fun m ending => m.Placed c ∧ ending.Placed c.origins

namespace Site

variable {site : Site} {t u : Tree}

theorem Has.left {e : Expr} (h : site.Has t) (hpart : t.leftPart? = some e) :
    site.Has (.expr e) := ⟨h.1, h.2.left hpart⟩

theorem Has.inner (h : site.Has t) (hplain : t.function? = none) (hpart : u ∈ t.innerParts) :
    site.Has u := ⟨h.1, h.2.inner hplain hpart⟩

/-- Entering a phrase, or leaving one, does not change what is found at a site. -/
theorem has_enter : Has { site with running := site.running.modifyHead (.enter u) } t ↔
    site.Has t := by
  obtain ⟨running, bodies⟩ := site
  cases running <;> exact Iff.rfl

theorem has_leave : Has { site with running := site.running.modifyHead .leave } t ↔
    site.Has t := by
  obtain ⟨running, bodies⟩ := site
  cases running <;> exact Iff.rfl

theorem Executes.enter (h : site.Executes) (hu : site.Has u) :
    Executes { site with running := site.running.modifyHead (.enter u) } := by
  intro t ht
  rw [has_enter]
  obtain ⟨running, bodies⟩ := site
  cases running with
  | nil => exact h t ht
  | cons a rest =>
      rcases List.mem_cons.mp ht with rfl | hold
      · exact hu
      · exact h t hold

theorem Executes.leave (h : site.Executes) :
    Executes { site with running := site.running.modifyHead .leave } := by
  intro t ht
  rw [has_leave]
  obtain ⟨running, bodies⟩ := site
  cases running with
  | nil => exact h t ht
  | cons a rest => exact h t (List.mem_of_mem_tail ht)

end Site

theorem Frame.below_leave (site : Site) : (leave : Frame p p).below site =
    { site with running := site.running.modifyHead .leave } := by
  cases p <;> rfl

/-- Below the frame of a phrase that was entered, the code stands where it stood. -/
theorem Stack.placed_enter {o : Origins} {site : Site} {k : Stack p last}
    (hk : k.Placed o site) (t : Tree) :
    (cons .leave k).Placed o { site with running := site.running.modifyHead (.enter t) } := by
  refine ⟨trivial, ?_⟩
  rw [Frame.below_leave]
  obtain ⟨running, bodies⟩ := site
  cases running <;> exact hk

section Values

variable {o o' : Origins}

/-- The policy that lets no function pass. -/
def Policy.functionless : Policy where
  object := fun _ => True
  environment := fun _ => False
  code := fun _ => True
  left := fun _ _ => trivial
  inner := fun _ _ => trivial

theorem Value.Obeys.placed {v : Value} (h : v.Obeys .functionless) : v.Placed o := by
  cases v with
  | function identity closure => exact h.1.elim
  | native identity code => cases code <;> exact h
  | _ => exact h

theorem Value.placed_binary (op : BinaryOp) (a b : Value) : (binary op a b).Placed o :=
  (obeys_binary op a b).placed

theorem Value.placed_unary (op : UnaryOp) (a : Value) : (unary op a).Placed o :=
  (obeys_unary op a).placed

theorem Literal.placed_value (literal : Literal) : literal.value.Placed o :=
  literal.obeys_value.placed

theorem placed_none : ∀ v ∈ (none : Option Value), v.Placed o := by simp

theorem placed_or {latest value : Option Value} (hlatest : ∀ v ∈ latest, v.Placed o)
    (hvalue : ∀ v ∈ value, v.Placed o) : ∀ v ∈ latest.or value, v.Placed o := by
  cases latest with
  | none => simpa using hvalue
  | some w => simpa using hlatest

theorem placed_getD {value : Option Value} (h : ∀ v ∈ value, v.Placed o) :
    (value.getD .undefined).Placed o := by
  cases value with
  | none => exact trivial
  | some v => exact h v rfl

/-! What agrees with some origins agrees with more. -/

theorem Value.Placed.mono {v : Value} (h : v.Placed o) (hextends : o.Extends o') : v.Placed o' := by
  cases v with
  | function identity closure =>
      obtain ⟨unit, t, horigin, hmade⟩ := h
      exact ⟨unit, t, hextends _ _ horigin, hmade⟩
  | native identity code => cases code <;> exact h
  | _ => exact h

theorem Frame.Placed.mono {frame : Frame p q} {site : Site} (h : frame.Placed o site)
    (hextends : o.Extends o') : frame.Placed o' site := by
  cases frame with
  | binaryApply | assignMember => exact Value.Placed.mono h hextends
  | callArgument call receiver function done rest =>
      obtain ⟨⟨hreceiver, hfunction, hdone⟩, hrest⟩ := h
      exact ⟨⟨hreceiver.mono hextends, hfunction.mono hextends,
        fun v hv => (hdone v hv).mono hextends⟩, hrest⟩
  | returnTo environment receiver isUnit => exact ⟨⟨h.1.1, h.1.2.mono hextends⟩, h.2⟩
  | loopTest | loopBody | sequence => exact ⟨h.1, fun v hv => (h.2 v hv).mono hextends⟩
  | _ => exact h

theorem Stack.Placed.mono {k : Stack p q} {site : Site} (h : k.Placed o site)
    (hextends : o.Extends o') : k.Placed o' site := by
  induction k generalizing site with
  | nil => exact trivial
  | cons frame rest ih => exact ⟨h.1.mono hextends, ih h.2⟩

end Values

namespace Store

variable {o : Origins} {s : Store}

theorem Placed.set (hs : s.Placed o) (id : ObjectId) (name : String) {value : Value}
    (hvalue : value.Placed o) : (s.set id name value).Placed o := by
  refine ⟨fun other key v hv => ?_, hs.fresh⟩
  rw [get?_set] at hv
  split at hv
  · exact Option.some.inj hv ▸ hvalue
  · exact hs.values other key v hv

theorem Placed.allocate (hs : s.Placed o) (kind : ObjectClass) :
    (s.allocate kind).2.Placed o := by
  refine ⟨fun id name v hv => ?_, hs.fresh⟩
  rw [get?_allocate] at hv
  exact hs.values id name v hv

theorem Placed.bindParameters (hs : s.Placed o) (scope : ObjectId) (names : List String)
    {arguments : List Value} (harguments : ∀ v ∈ arguments, v.Placed o) :
    (s.bindParameters scope names arguments).Placed o := by
  induction names generalizing s arguments with
  | nil => exact hs
  | cons name rest ih =>
      rw [Store.bindParameters]
      apply ih
      · apply hs.set
        cases arguments with
        | nil => exact trivial
        | cons v left => exact harguments v List.mem_cons_self
      · intro v hv
        exact harguments v (List.mem_of_mem_tail hv)

theorem Placed.assign (hs : s.Placed o) (env : Environment) (name : String) {value : Value}
    (hvalue : value.Placed o) : (s.assign env name value).Placed o := by
  induction env with
  | root scope => exact hs.set scope name hvalue
  | child scope parent ih =>
      rw [Store.assign]
      split
      · exact hs.set scope name hvalue
      · exact ih

theorem Placed.of_lookup (hs : s.Placed o) {env : Environment} {name : String} {v : Value}
    (h : s.lookup env name = some v) : v.Placed o := by
  induction env with
  | root scope => exact hs.values scope name v h
  | child scope parent ih =>
      rw [lookup] at h
      split at h
      · rename_i w hw
        exact Option.some.inj h ▸ hs.values scope name w hw
      · exact ih h

end Store

theorem Progress.placed_raise {c : Chart} {m : Machine} {k : Stack p last} (kind : FaultKind)
    (message : String) (span : Option Span) (hm : m.Placed c)
    (hk : k.Placed c.origins (c.site m)) : (raise m k kind message span).Placed c := by
  unfold raise
  split
  · exact ⟨trivial, hk, hm⟩
  · exact ⟨hm, trivial⟩

end ScriptHost
