import ScriptHost.Proofs.Program.Enclosure
import ScriptHost.Proofs.Program.Proper
import ScriptHost.Proofs.Token.Scratch

/-!
What stands where in an accepted text: a return stands in the body of a function, and whatever is
assigned to is a variable or a member. The same then holds of every piece of code that lies in some
accepted text.
-/

namespace ScriptHost

variable {t u : Tree} {inside : Bool} {bodies : Nat} {unit : List Stmt}

namespace Tree

/-- The phrase may have been read from some text, in a function body or not. -/
def Proper (inside : Bool) : Tree → Prop
  | .expr e => e.Proper
  | .stmt s => s.Proper inside

end Tree

theorem Expr.ProperAll.of_mem {es : List Expr} (h : Expr.ProperAll es) {e : Expr} (he : e ∈ es) :
    e.Proper := by
  induction es with
  | nil => cases he
  | cons first rest ih =>
      rcases List.mem_cons.mp he with rfl | hmem
      · exact h.1
      · exact ih h.2 hmem

theorem Entry.ProperAll.of_mem {entries : List Entry} (h : Entry.ProperAll entries) {entry : Entry}
    (hentry : entry ∈ entries) : entry.value.Proper := by
  induction entries with
  | nil => cases hentry
  | cons first rest ih =>
      obtain ⟨key, value⟩ := first
      rcases List.mem_cons.mp hentry with rfl | hmem
      · exact h.1
      · exact ih h.2 hmem

theorem Stmt.ProperAll.of_mem {body : List Stmt} (h : Stmt.ProperAll inside body) {s : Stmt}
    (hs : s ∈ body) : s.Proper inside := by
  induction body with
  | nil => cases hs
  | cons first rest ih =>
      rcases List.mem_cons.mp hs with rfl | hmem
      · exact h.1
      · exact ih h.2 hmem

theorem FunctionCode.Proper.body {code : FunctionCode} (h : code.Proper) :
    Stmt.ProperAll true code.body := by
  obtain ⟨name, parameters, body⟩ := code
  exact h

namespace Tree

/-- The parts of a phrase that makes no function are in a function body where the phrase is. -/
theorem Proper.part (h : t.Proper inside) (hplain : t.function? = none) (hu : u ∈ t.parts) :
    u.Proper inside := by
  cases t with
  | stmt s =>
      cases s with
      | var span name value | «return» span value =>
          obtain ⟨e, rfl, rfl⟩ : ∃ e, value = some e ∧ expr e = u := by
            simpa [parts, leftPart?, innerParts] using hu
          first | exact h | exact h.2
      | expression span e =>
          obtain rfl := List.mem_singleton.mp hu
          exact h
      | block span body =>
          obtain ⟨s, hs, rfl⟩ := List.mem_map.mp hu
          exact Stmt.ProperAll.of_mem h hs
      | conditional span condition thenBranch elseBranch =>
          simp only [parts, leftPart?, innerParts, Option.toList_none, List.map_nil,
            List.nil_append, List.mem_cons, List.mem_map, Option.mem_toList] at hu
          cases elseBranch with
          | none =>
              rcases hu with rfl | rfl | ⟨s, hs, -⟩
              · exact h.1
              · exact h.2
              · cases hs
          | some elseBranch =>
              rcases hu with rfl | rfl | ⟨s, hs, rfl⟩
              · exact h.1
              · exact h.2.1
              · obtain rfl := Option.some.inj hs
                exact h.2.2.2
      | «while» span condition body =>
          rcases List.mem_cons.mp hu with rfl | hu
          · exact h.1
          · obtain rfl := List.mem_singleton.mp hu
            exact h.2
      | function => cases hplain
      | empty => cases hu
  | expr e =>
      cases e with
      | binary span op left right | logical span op left right =>
          rcases List.mem_cons.mp hu with rfl | hu
          · exact h.1
          · obtain rfl := List.mem_singleton.mp hu
            exact h.2
      | assign span target value =>
          rcases List.mem_cons.mp hu with rfl | hu
          · exact h.2.1
          · obtain rfl := List.mem_singleton.mp hu
            exact h.2.2
      | unary span op e | member span e property =>
          obtain rfl := List.mem_singleton.mp hu
          exact h
      | call span callee arguments =>
          rcases List.mem_cons.mp hu with rfl | hu
          · exact h.1
          · obtain ⟨e, he, rfl⟩ := List.mem_map.mp hu
            exact Expr.ProperAll.of_mem h.2 he
      | object span entries =>
          obtain ⟨entry, hentry, rfl⟩ := List.mem_map.mp hu
          exact Entry.ProperAll.of_mem h hentry
      | function => cases hplain
      | literal | «variable» | this => cases hu

theorem Proper.function {code : FunctionCode} (h : t.Proper inside)
    (hfunction : t.function? = some code) : code.Proper := by
  cases t with
  | stmt s =>
      cases s with
      | function span code => cases hfunction; exact h.2
      | _ => cases hfunction
  | expr e =>
      cases e with
      | function span code => cases hfunction; exact h
      | _ => cases hfunction

theorem Holds.proper (h : t.Holds bodies u) (ht : t.Proper inside) :
    u.Proper (inside || decide (0 < bodies)) := by
  induction h generalizing inside with
  | here => simpa using ht
  | part hpart hplain _ ih => exact ih (ht.part hplain hpart)
  | body hpart hfunction _ ih =>
      rw [parts_of_function hfunction] at hpart
      obtain ⟨s, hs, rfl⟩ := List.mem_map.mp hpart
      have hinner : (stmt s).Proper true :=
        Stmt.ProperAll.of_mem (ht.function hfunction).body hs
      simpa using ih hinner

end Tree

theorem IsProgram.proper (h : IsProgram unit) : Stmt.ProperAll false unit := by
  obtain ⟨source, scratch, haccepted⟩ := h
  obtain ⟨front, stop, -, -, hderives⟩ := derives_of_programOfSource haccepted
  exact hderives.proper

namespace Lies

theorem proper (hprogram : IsProgram unit) (h : Lies unit bodies t) :
    t.Proper (decide (0 < bodies)) := by
  obtain ⟨s, hs, hholds⟩ := h
  have hproper : (Tree.stmt s).Proper false := Stmt.ProperAll.of_mem hprogram.proper hs
  simpa using hholds.proper hproper

theorem inside_of_return (hprogram : IsProgram unit) {span : Span} {value : Option Expr}
    (h : Lies unit bodies (.stmt (.return span value))) : 0 < bodies := by
  have hproper := h.proper hprogram
  cases value with
  | none => simpa [Tree.Proper, Stmt.Proper] using hproper
  | some e => simpa [Tree.Proper, Stmt.Proper] using hproper.1

theorem isAssignable_of_assign (hprogram : IsProgram unit) {span : Span} {target value : Expr}
    (h : Lies unit bodies (.expr (.assign span target value))) : target.isAssignable = true :=
  (h.proper hprogram).1

end Lies

/-- A return lies in the body of some function, and an assignment is to a variable or a member,
however deep in the statements they lie. -/
structure WellPlaced (unit : List Stmt) : Prop where
  inside : ∀ bodies span value, Lies unit bodies (.stmt (.return span value)) → 0 < bodies
  target : ∀ bodies span target value, Lies unit bodies (.expr (.assign span target value)) →
    (∃ place name, target = .variable place name) ∨
      ∃ place owner property, target = .member place owner property

theorem IsProgram.wellPlaced (h : IsProgram unit) : WellPlaced unit where
  inside bodies span value hlies := hlies.inside_of_return h
  target bodies span target value hlies := by
    have hassignable := hlies.isAssignable_of_assign h
    cases target with
    | «variable» place name => exact .inl ⟨place, name, rfl⟩
    | member place owner property => exact .inr ⟨place, owner, property, rfl⟩
    | _ => cases hassignable

/-- The unit was compiled from an accepted text. -/
def ScriptUnit.Compiled (u : ScriptUnit) : Prop :=
  ∃ name source env scratch, (compile name source env scratch).1 = .ok u

theorem ScriptUnit.Compiled.isUnit {u : ScriptUnit} (h : u.Compiled) :
    u.closure.isUnit = true := by
  obtain ⟨name, source, env, scratch, hu⟩ := h
  obtain ⟨body, -, rfl⟩ := exists_ofBody_of_compile hu
  rfl

theorem ScriptUnit.Compiled.isProgram {u : ScriptUnit} (h : u.Compiled) : IsProgram u.body := by
  obtain ⟨name, source, env, scratch, hu⟩ := h
  obtain ⟨body, hbody, rfl⟩ := exists_ofBody_of_compile hu
  exact ⟨source, .empty, hbody⟩

/-! ### Code that lies in accepted texts -/

/-- The phrase lies in some accepted text, in a function body there or not. -/
def Tree.Sourced (inside : Bool) (t : Tree) : Prop :=
  ∃ unit bodies, IsProgram unit ∧ Lies unit bodies t ∧ inside = decide (0 < bodies)

/-- All of the statements lie in accepted texts. -/
def Stmt.SourcedAll (inside : Bool) (body : List Stmt) : Prop :=
  ∀ s ∈ body, (Tree.stmt s).Sourced inside

namespace Tree.Sourced

theorem left {e : Expr} (h : t.Sourced inside) (hpart : t.leftPart? = some e) :
    (expr e).Sourced inside := by
  obtain ⟨unit, bodies, hprogram, hlies, hinside⟩ := h
  exact ⟨unit, bodies, hprogram, hlies.left hpart, hinside⟩

theorem inner (h : t.Sourced inside) (hplain : t.function? = none) (hpart : u ∈ t.innerParts) :
    u.Sourced inside := by
  obtain ⟨unit, bodies, hprogram, hlies, hinside⟩ := h
  exact ⟨unit, bodies, hprogram, hlies.inner hplain hpart, hinside⟩

theorem statements {body : List Stmt} (h : t.Sourced inside) (hplain : t.function? = none)
    (hparts : t.innerParts = body.map .stmt) : Stmt.SourcedAll inside body :=
  fun _ hs => h.inner hplain (hparts ▸ List.mem_map_of_mem hs)

/-- The statements of a function lie in its body. -/
theorem body {code : FunctionCode} (h : t.Sourced inside) (hfunction : t.function? = some code) :
    Stmt.SourcedAll true code.body := by
  obtain ⟨unit, bodies, hprogram, hlies, -⟩ := h
  intro s hs
  exact ⟨unit, bodies + 1, hprogram, hlies.body hfunction hs, by simp⟩

theorem inside_of_return {span : Span} {value : Option Expr}
    (h : (stmt (.return span value)).Sourced inside) : inside = true := by
  obtain ⟨unit, bodies, hprogram, hlies, rfl⟩ := h
  exact decide_eq_true (hlies.inside_of_return hprogram)

theorem isAssignable {span : Span} {target value : Expr}
    (h : (expr (.assign span target value)).Sourced inside) : target.isAssignable = true := by
  obtain ⟨unit, bodies, hprogram, hlies, -⟩ := h
  exact hlies.isAssignable_of_assign hprogram

end Tree.Sourced

/-- The statements of an accepted text lie in it outside of functions. -/
theorem IsProgram.sourced (h : IsProgram unit) : Stmt.SourcedAll false unit :=
  fun _ hs => ⟨unit, 0, h, .top hs, rfl⟩

end ScriptHost
