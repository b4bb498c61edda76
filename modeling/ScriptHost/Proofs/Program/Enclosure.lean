import ScriptHost.Proofs.Program.Nesting
import ScriptHost.Proofs.Program.Spacing

/-!
How many function bodies lie around a phrase of a program. As no two parts of an accepted text have
a byte in common, a phrase stands in one place of it only, so the number is one of the phrase; and
as each body takes a level of nesting, it is below the limit on these.
-/

namespace ScriptHost

namespace Tree

/-- The function that an expression or a declaration makes. -/
def function? : Tree → Option FunctionCode
  | .expr (.function _ code) | .stmt (.function _ code) => some code
  | _ => none

/-- The second tree stands within the first, in so many bodies of functions there. -/
inductive Holds : Tree → Nat → Tree → Prop
  | here (t : Tree) : Holds t 0 t
  | part {t u v : Tree} {bodies : Nat} (hpart : u ∈ t.parts) (hplain : t.function? = none)
      (hrest : Holds u bodies v) : Holds t bodies v
  | body {t u v : Tree} {code : FunctionCode} {bodies : Nat} (hpart : u ∈ t.parts)
      (hfunction : t.function? = some code) (hrest : Holds u bodies v) : Holds t (bodies + 1) v

variable {t u v : Tree} {bodies more : Nat}

theorem Holds.trans (h : t.Holds bodies u) (hrest : u.Holds more v) :
    t.Holds (bodies + more) v := by
  induction h with
  | here => rwa [Nat.zero_add]
  | part hpart hplain _ ih => exact .part hpart hplain (ih hrest)
  | body hpart hfunction _ ih =>
      rw [Nat.add_right_comm]
      exact .body hpart hfunction (ih hrest)

theorem mem_parts_of_left {e : Expr} (h : t.leftPart? = some e) : .expr e ∈ t.parts := by
  simp [parts, h]

theorem mem_parts_of_inner (h : u ∈ t.innerParts) : u ∈ t.parts := List.mem_append_right _ h

theorem function?_of_left {e : Expr} (h : t.leftPart? = some e) : t.function? = none := by
  cases t with
  | stmt s => cases h
  | expr e => cases e <;> first | rfl | cases h

theorem parts_of_function {code : FunctionCode} (h : t.function? = some code) :
    t.parts = code.body.map .stmt := by
  cases t with
  | stmt s =>
      cases s with
      | function span code => cases h; rfl
      | _ => cases h
  | expr e =>
      cases e with
      | function span code => cases h; rfl
      | _ => cases h

theorem sizeOf_lt_of_mem_body {code : FunctionCode} {s : Stmt} (h : s ∈ code.body) :
    sizeOf s < sizeOf code := by
  obtain ⟨name, parameters, body⟩ := code
  have hlt : sizeOf s < sizeOf body := List.sizeOf_lt_of_mem h
  simp only [FunctionCode.mk.sizeOf_spec]
  omega

theorem sizeOf_lt_of_mem_parts (h : u ∈ t.parts) : sizeOf u < sizeOf t := by
  cases t with
  | stmt s =>
      cases s with
      | var span name value | «return» span value =>
          obtain ⟨e, rfl, rfl⟩ : ∃ e, value = some e ∧ expr e = u := by
            simpa [parts, leftPart?, innerParts] using h
          simp
          omega
      | function span code =>
          obtain ⟨s, hs, rfl⟩ := List.mem_map.mp h
          have hlt := sizeOf_lt_of_mem_body hs
          simp
          omega
      | block span body =>
          obtain ⟨s, hs, rfl⟩ := List.mem_map.mp h
          have hlt := List.sizeOf_lt_of_mem hs
          simp
          omega
      | conditional span condition thenBranch elseBranch =>
          simp only [parts, leftPart?, innerParts, Option.toList_none, List.map_nil,
            List.nil_append, List.mem_cons, List.mem_map, Option.mem_toList] at h
          rcases h with rfl | rfl | ⟨s, rfl, rfl⟩ <;> simp <;> omega
      | expression span e =>
          obtain rfl := List.mem_singleton.mp h
          simp only [expr.sizeOf_spec, stmt.sizeOf_spec, Stmt.expression.sizeOf_spec]
          omega
      | «while» span e body =>
          simp only [parts, leftPart?, innerParts, Option.toList_none, List.map_nil,
            List.nil_append, List.mem_cons, List.not_mem_nil, or_false] at h
          rcases h with rfl | rfl
          · simp only [expr.sizeOf_spec, stmt.sizeOf_spec, Stmt.while.sizeOf_spec]
            omega
          · simp only [stmt.sizeOf_spec, Stmt.while.sizeOf_spec]
            omega
      | empty => cases h
  | expr e =>
      cases e with
      | binary span op left right | logical span op left right | assign span left right =>
          rcases List.mem_cons.mp h with rfl | h
          · simp
            omega
          · obtain rfl := List.mem_singleton.mp h
            simp only [expr.sizeOf_spec, Expr.binary.sizeOf_spec, Expr.logical.sizeOf_spec,
              Expr.assign.sizeOf_spec]
            omega
      | unary span op e | member span e property =>
          obtain rfl := List.mem_singleton.mp h
          simp only [expr.sizeOf_spec, Expr.unary.sizeOf_spec, Expr.member.sizeOf_spec]
          omega
      | call span callee arguments =>
          rcases List.mem_cons.mp h with rfl | h
          · simp
            omega
          · obtain ⟨e, he, rfl⟩ := List.mem_map.mp h
            have hlt := List.sizeOf_lt_of_mem he
            simp
            omega
      | object span entries =>
          obtain ⟨entry, hentry, rfl⟩ := List.mem_map.mp h
          have hlt := List.sizeOf_lt_of_mem hentry
          obtain ⟨key, e⟩ := entry
          simp at hlt ⊢
          omega
      | function span code =>
          obtain ⟨s, hs, rfl⟩ := List.mem_map.mp h
          have hlt := sizeOf_lt_of_mem_body hs
          simp
          omega
      | literal | «variable» | this => cases h

theorem Holds.sizeOf_le (h : t.Holds bodies u) : sizeOf u ≤ sizeOf t := by
  induction h with
  | here => exact Nat.le_refl _
  | part hpart _ _ ih | body hpart _ _ ih =>
      exact Nat.le_of_lt (Nat.lt_of_le_of_lt ih (sizeOf_lt_of_mem_parts hpart))

/-- A tree that stands in a row stands between its ends, and apart from the others. -/
theorem Row.of_mem {first last : Nat} {ts : List Tree} (h : Row first last ts) (ht : t ∈ ts) :
    t.Spaced ∧ first ≤ t.span.start ∧ t.span.stop ≤ last := by
  induction ts generalizing first with
  | nil => cases ht
  | cons other rest ih =>
      cases h with
      | cons hfirst hother hrest =>
          rcases List.mem_cons.mp ht with rfl | hmem
          · exact ⟨hother, hfirst, hrest.le⟩
          · obtain ⟨hspaced, hstart, hstop⟩ := ih hrest hmem
            have hlt := hother.lt
            exact ⟨hspaced, by omega, hstop⟩

theorem Row.apart {first last : Nat} {ts : List Tree} (h : Row first last ts) (ht : t ∈ ts)
    (hu : u ∈ ts) : t = u ∨ t.span.stop ≤ u.span.start ∨ u.span.stop ≤ t.span.start := by
  induction ts generalizing first with
  | nil => cases ht
  | cons other rest ih =>
      cases h with
      | cons hfirst hother hrest =>
          rcases List.mem_cons.mp ht with rfl | hbehind
          · rcases List.mem_cons.mp hu with rfl | hnext
            · exact .inl rfl
            · exact .inr (.inl (hrest.of_mem hnext).2.1)
          · rcases List.mem_cons.mp hu with rfl | hnext
            · exact .inr (.inr (hrest.of_mem hbehind).2.1)
            · exact ih hrest hbehind hnext

theorem Holds.within (h : t.Holds bodies u) (ht : t.Spaced) :
    u.Spaced ∧ t.span.start ≤ u.span.start ∧ u.span.stop ≤ t.span.stop := by
  induction h with
  | here => exact ⟨ht, Nat.le_refl _, Nat.le_refl _⟩
  | part hpart _ _ ih | body hpart _ _ ih =>
      obtain ⟨hspaced, hstart, hstop⟩ := ht.row.of_mem hpart
      obtain ⟨hinner, hfirst, hlast⟩ := ih hspaced
      exact ⟨hinner, Nat.le_trans hstart hfirst, Nat.le_trans hlast hstop⟩

/-- Two trees of a row that hold the same tree are one. -/
theorem Row.eq_of_holds {first last : Nat} {ts : List Tree} (h : Row first last ts) (ht : t ∈ ts)
    (hu : u ∈ ts) (hv : t.Holds bodies v) (hv' : u.Holds more v) : t = u := by
  obtain ⟨hspaced, hstart, hstop⟩ := hv.within (h.of_mem ht).1
  obtain ⟨-, hstart', hstop'⟩ := hv'.within (h.of_mem hu).1
  have hlt := hspaced.lt
  rcases h.apart ht hu with heq | hbefore | hbehind
  · exact heq
  · omega
  · omega

/-- A tree stands within another in one number of bodies. -/
theorem Holds.unique (h : t.Holds bodies v) (ht : t.Spaced) (h' : t.Holds more v) :
    bodies = more := by
  have hnot {t u v : Tree} {n : Nat} (hpart : u ∈ t.parts) (h : u.Holds n v) : t ≠ v := by
    rintro rfl
    have hle := h.sizeOf_le
    have hlt := sizeOf_lt_of_mem_parts hpart
    omega
  induction h generalizing more with
  | here t =>
      cases h' with
      | here => rfl
      | part hpart _ hrest | body hpart _ hrest => exact absurd rfl (hnot hpart hrest)
  | part hpart hplain hrest ih =>
      cases h' with
      | here => exact absurd rfl (hnot hpart hrest)
      | part hpart' _ hrest' =>
          obtain rfl := ht.row.eq_of_holds hpart hpart' hrest hrest'
          exact ih (ht.row.of_mem hpart).1 hrest'
      | body _ hfunction => rw [hplain] at hfunction; cases hfunction
  | body hpart hfunction hrest ih =>
      cases h' with
      | here => exact absurd rfl (hnot hpart hrest)
      | part _ hplain => rw [hplain] at hfunction; cases hfunction
      | body hpart' _ hrest' =>
          obtain rfl := ht.row.eq_of_holds hpart hpart' hrest hrest'
          rw [ih (ht.row.of_mem hpart).1 hrest']

/-- Every body takes a level of its own, and so does every step to the left. -/
theorem Holds.exists_path (h : t.Holds bodies u) :
    ∃ levels lefts, t.Path u levels lefts ∧ bodies + lefts < levels := by
  have hstep {t u v : Tree} {levels lefts : Nat} (hpart : u ∈ t.parts)
      (hpath : u.Path v levels lefts) :
      t.Path v (levels + 1) lefts ∨ t.function? = none ∧ t.Path v (levels + 1) (lefts + 1) := by
    rcases List.mem_append.mp hpart with hleft | hinner
    · obtain ⟨e, he, rfl⟩ := List.mem_map.mp hleft
      rw [Option.mem_toList] at he
      exact .inr ⟨function?_of_left he, .left he hpath⟩
    · exact .inl (.inner hinner hpath)
  induction h with
  | here t => exact ⟨1, 0, .here t, Nat.zero_lt_one⟩
  | part hpart hplain _ ih =>
      obtain ⟨levels, lefts, hpath, hlt⟩ := ih
      rcases hstep hpart hpath with hinner | ⟨-, hleft⟩
      · exact ⟨_, _, hinner, by omega⟩
      · exact ⟨_, _, hleft, by omega⟩
  | body hpart hfunction _ ih =>
      obtain ⟨levels, lefts, hpath, hlt⟩ := ih
      rcases hstep hpart hpath with hinner | ⟨hplain, -⟩
      · exact ⟨_, _, hinner, by omega⟩
      · rw [hplain] at hfunction
        cases hfunction

end Tree

open ScriptHost.Tree

/-- Some source text is accepted as these statements. -/
def IsProgram (body : List Stmt) : Prop :=
  ∃ (source : String) (scratch : TextBuffer), (programOfSource source scratch).1 = .ok body

/-- The phrase stands among the statements, in so many bodies of functions there. -/
def Lies (unit : List Stmt) (bodies : Nat) (t : Tree) : Prop :=
  ∃ s ∈ unit, (Tree.stmt s).Holds bodies t

namespace Lies

variable {unit : List Stmt} {bodies more : Nat} {t u : Tree}

theorem top {s : Stmt} (hs : s ∈ unit) : Lies unit 0 (.stmt s) := ⟨s, hs, .here _⟩

theorem holds (h : Lies unit bodies t) (hrest : t.Holds more u) : Lies unit (bodies + more) u := by
  obtain ⟨s, hs, hholds⟩ := h
  exact ⟨s, hs, hholds.trans hrest⟩

theorem left {e : Expr} (h : Lies unit bodies t) (hpart : t.leftPart? = some e) :
    Lies unit bodies (.expr e) :=
  h.holds (.part (mem_parts_of_left hpart) (function?_of_left hpart) (.here _))

theorem inner (h : Lies unit bodies t) (hplain : t.function? = none) (hpart : u ∈ t.innerParts) :
    Lies unit bodies u :=
  h.holds (.part (mem_parts_of_inner hpart) hplain (.here u))

/-- The statements of a function lie in one body more than the function. -/
theorem body {code : FunctionCode} {s : Stmt} (h : Lies unit bodies t)
    (hfunction : t.function? = some code) (hs : s ∈ code.body) :
    Lies unit (bodies + 1) (.stmt s) := by
  refine h.holds (.body ?_ hfunction (.here _))
  rw [parts_of_function hfunction]
  exact List.mem_map_of_mem hs

/-- In a program a phrase lies in just one number of bodies. -/
theorem unique (hprogram : IsProgram unit) (h : Lies unit bodies t) (h' : Lies unit more t) :
    bodies = more := by
  obtain ⟨source, scratch, haccepted⟩ := hprogram
  obtain ⟨last, hrow⟩ := exists_row_of_programOfSource haccepted
  obtain ⟨s, hs, hholds⟩ := h
  obtain ⟨s', hs', hholds'⟩ := h'
  have hmem : Tree.stmt s ∈ unit.map .stmt := List.mem_map_of_mem hs
  obtain heq := hrow.eq_of_holds hmem (List.mem_map_of_mem hs') hholds hholds'
  exact hholds.unique (hrow.of_mem hmem).1 (heq ▸ hholds')

/-- In a program no phrase lies in as many bodies as the limit on nesting. -/
theorem lt (hprogram : IsProgram unit) (h : Lies unit bodies t) : bodies < maxTreeDepth := by
  obtain ⟨source, scratch, haccepted⟩ := hprogram
  obtain ⟨s, hs, hholds⟩ := h
  obtain ⟨levels, lefts, hpath, hlt⟩ := hholds.exists_path
  have hprogram : (tokenize source scratch).1 >>= programOfTokens = .ok unit := haccepted
  cases htokens : (tokenize source scratch).1 with
  | error d =>
      rw [htokens] at hprogram
      cases hprogram
  | ok tokens =>
      rw [htokens] at hprogram
      obtain ⟨hlevels, -⟩ := bounded_of_programWithin hprogram s hs t levels lefts hpath
      omega

end Lies

end ScriptHost
