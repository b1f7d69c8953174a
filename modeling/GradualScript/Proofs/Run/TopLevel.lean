/-
# GradualScript.Proofs.Run.TopLevel -- both passes build one top level

The checker and the evaluator walk a script independently of each other, with different scopes
around blocks, loops and bodies. At the top they come to the same: after the names of its prelude,
the scope of either pass binds what the `LET`s and `DEF`s at the top of the script declare, once
each and in their order. Nothing that is nested in a branch, a loop, an object or a called body gets
there.

The checker's side is what a statement leaves behind (`Check.stmt_comes`). For the evaluator's side
a statement is `Quiet` or `Defines` one name; what it evaluates on the way may assign properties far
away, but only in scopes of objects, and no statement runs in one of those.
-/

import GradualScript.Proofs.Check.Residue
import GradualScript.Proofs.Run.Names

namespace GradualScript

/-- The names that a script declares at its top, in their order. -/
def Script.declared (p : Script) : List String := Stmt.allDeclared p.statements

/-! ## What a run adds to the active scope -/

namespace Run

variable {H : Heap Ty} {h : Heap Value} {objects : Set ScopeId} {s : ScopeId} {Γ : Env} {w : World}
  {call : Caller} {flow : Flow}

theorem Quiet.names (quiet : Quiet H objects h flow w) (inside : s < h.size) (apart : s ∉ objects) :
    (w.heap.bindings s).names = (h.bindings s).names := by
  obtain ⟨_, passed, _⟩ := quiet
  exact passed.names inside apart (Set.notMem_empty s)

theorem Defines.names {n : String} (defines : Defines H s n objects h flow w) (inside : s < h.size)
    (apart : s ∉ objects) : (w.heap.bindings s).names = (h.bindings s).names ++ [n] := by
  obtain ⟨_, h', v, passed, fresh, put, _⟩ := defines
  have inside' := Nat.lt_of_lt_of_le inside passed.grows.size_le
  rw [put, Heap.bindings_put_self inside', Bindings.names_insert_of_not_mem v fresh,
    passed.names inside apart (Set.notMem_empty s)]

/-- A statement that comes to its end binds in the active scope what it declares, and nothing else.
-/
theorem executeKind_names (callee : Caller.Scoped H call) {id : NodeId} {x : StmtKind}
    {k : Typed.StmtKind} (elaborates : x.Elaborates H Γ id k) (known : w.heap.Scoped H objects)
    (here : At objects w.heap s Γ) :
    Ends Uncaught (executeKind call s x) w fun _ w' =>
      (w'.heap.bindings s).names = (w.heap.bindings s).names ++ x.declares?.toList := by
  have quiet {flow : Flow} {w' : World} (none : x.declares? = none)
      (quiet : Quiet H objects w.heap flow w') :
      (w'.heap.bindings s).names = (w.heap.bindings s).names ++ x.declares?.toList := by
    rw [quiet.names here.inside here.apart, none, Option.toList_none, List.append_nil]
  cases x with
  | letVar b =>
    obtain ⟨name, ty, value⟩ := b
    rw [StmtKind.Elaborates] at elaborates
    obtain ⟨b, rfl, bound, unbound⟩ := elaborates
    exact (letVar_defines callee bound unbound known here).mono fun _ _ defines =>
      defines.names here.inside here.apart
  | defFun d =>
    rw [StmtKind.Elaborates] at elaborates
    obtain ⟨t, rfl, defined⟩ := elaborates
    exact (defFun_defines defined known here).mono fun _ _ defines =>
      defines.names here.inside here.apart
  | ifElse condition thenBody elseBody =>
    rw [StmtKind.Elaborates] at elaborates
    obtain ⟨c, a, b, rfl, conditionOk, _, thenOk, elseOk⟩ := elaborates
    exact (ifElse_quiet callee conditionOk
      (fun inner objects w known here => block_scoped callee thenOk known here .nil)
      (fun inner objects w known here => block_scoped callee elseOk known here .nil)
      known here).mono fun _ _ => quiet rfl
  | forEach name iterable body =>
    rw [StmtKind.Elaborates] at elaborates
    obtain ⟨ty, i, b, rfl, iterableOk, _, _, bodyOk⟩ := elaborates
    exact (forEach_quiet callee iterableOk
      (fun inner objects w known here => block_scoped callee bodyOk known here .nil)
      known here).mono fun _ _ => quiet rfl
  | returns value => exact (returns_quiet callee elaborates known here).mono fun _ _ => quiet rfl
  | expr e => exact (expr_quiet callee elaborates known here).mono fun _ _ => quiet rfl
  | assign target value =>
    exact (assign_quiet callee elaborates known here).mono fun _ _ => quiet rfl

theorem execute_names (callee : Caller.Scoped H call) {x : Stmt} {t : Typed.Stmt}
    (elaborates : x.Elaborates H Γ t) (known : w.heap.Scoped H objects)
    (here : At objects w.heap s Γ) :
    Ends Uncaught (execute call s x) w fun _ w' =>
      (w'.heap.bindings s).names = (w.heap.bindings s).names ++ x.declares?.toList := by
  obtain ⟨node, kind⟩ := x
  rw [Stmt.Elaborates] at elaborates
  rw [execute]
  exact .located (executeKind_names callee elaborates.2 known here)

/-- So do statements in a row, each after the ones before it. -/
theorem statements_names (callee : Caller.Scoped H call) : ∀ {xs : List Stmt} {ts : List Typed.Stmt}
    {Γ : Env} {objects : Set ScopeId} {w : World} {last : Value},
      Stmt.ElaborateAll H Γ xs ts → w.heap.Scoped H objects → At objects w.heap s Γ →
      Ends Uncaught (statements call s last xs) w fun _ w' =>
        (w'.heap.bindings s).names = (w.heap.bindings s).names ++ Stmt.allDeclared xs
  | [], _, _, _, _, _, _, _, _ => by
    rw [statements]
    exact .pure (List.append_nil _).symm
  | x :: rest, _, _, _, _, _, elaborates, known, here => by
    rw [Stmt.ElaborateAll] at elaborates
    obtain ⟨t, _, rfl, first, following⟩ := elaborates
    rw [statements]
    refine .bind ((execute_scoped callee first known here).and
      (execute_names callee first known here)) fun flow w₁ both => ?_
    obtain ⟨⟨objects₁, passed₁, _, here₁⟩, names⟩ := both
    cases flow with
    | returned v => exact .failAt trivial
    | value v =>
      refine (statements_names callee following passed₁.heap here₁).mono fun _ _ more => ?_
      rw [more, names, Stmt.allDeclared_cons, List.append_assoc]

end Run

/-! ## What a check adds to it -/

namespace CheckSession

variable {s : CheckSession} {p : Script} {typed : List Typed.Stmt}

/-- The scope of a session binds more after an accepted script: what the typed statements record. -/
theorem check_adds (inside : s.scope < s.heap.size) (ok : (s.check p).1 = .ok typed) :
    (typed.flatMap fun t => t.kind.entries).map Prod.fst = p.declared ∧
      Check.Adds s.scope (typed.flatMap fun t => t.kind.entries) s.heap (s.check p).2.heap :=
  Check.block_adds inside (check_eq_ok ok)

theorem resolveLocal_of_mem_entries (inside : s.scope < s.heap.size)
    (ok : (s.check p).1 = .ok typed) {t : Typed.Stmt} (mem : t ∈ typed) {e : String × Ty}
    (entry : e ∈ t.kind.entries) : (s.check p).2.heap.resolveLocal s.scope e.1 = some e.2 := by
  obtain ⟨_, adds⟩ := check_adds inside ok
  refine Bindings.find?_eq_some_of_mem ?_
  rw [adds.entries]
  exact List.mem_append_right _ (List.mem_flatMap.mpr ⟨t, mem, entry⟩)

end CheckSession

/-! ## Both -/

/-- Whatever the prelude, if a script is accepted and its run comes to an end, then both passes have
added to the scope of the prelude the names that the script declares at its top, in their order. In
the scope of types each is bound to the type that its typed statement records. -/
theorem Script.same_top_level (fixtures : Bool) (p : Script) (depth : Nat) {typed : List Typed.Stmt}
    {v : Value} {w : World} (checked : ((CheckSession.start fixtures).check p).1 = .ok typed)
    (ran : Run.script depth (RunSession.start fixtures).scope p
      ⟨(RunSession.start fixtures).heap, #[]⟩ = .ok v w) :
    let types := CheckSession.start fixtures
    let types' := (types.check p).2
    let values := RunSession.start fixtures
    (types'.heap.bindings types.scope).names =
        (types.heap.bindings types.scope).names ++ p.declared ∧
      (w.heap.bindings values.scope).names =
        (values.heap.bindings values.scope).names ++ p.declared ∧
      (typed.flatMap fun t => t.kind.entries.map Prod.fst) = p.declared ∧
      (∀ t ∈ typed, ∀ b, t.kind = .letVar b →
        types'.heap.resolveLocal types.scope b.name = some b.ty) ∧
      ∀ t ∈ typed, ∀ d, t.kind = .defFun d →
        types'.heap.resolveLocal types.scope d.name = some d.ty := by
  have inside : (CheckSession.start fixtures).scope < (CheckSession.start fixtures).heap.size :=
    (CheckSession.start_closed fixtures).active
  obtain ⟨names, adds⟩ := CheckSession.check_adds inside checked
  have elaborates := (CheckSession.start_closed fixtures).elaborates checked
  -- The checker's names are read off the typed script, those of the run off the script itself.
  have ends : Run.Ends Run.Uncaught (Run.script depth (RunSession.start fixtures).scope p)
      ⟨(RunSession.start fixtures).heap, #[]⟩ _ :=
    Run.statements_names (Run.callClosure_scoped _ depth) elaborates
      (RunSession.start_scoped _ fixtures) (RunSession.start_at fixtures)
  refine ⟨?_, ends.of_ok ran, ?_, fun t mem b same => ?_, fun t mem d same => ?_⟩
  · rw [Bindings.names, adds.entries, List.map_append, names]
    rfl
  · rw [← names, List.map_flatMap]
  · refine CheckSession.resolveLocal_of_mem_entries inside checked mem (e := b.entry) ?_
    rw [same]
    exact List.mem_singleton_self _
  · refine CheckSession.resolveLocal_of_mem_entries inside checked mem (e := d.entry) ?_
    rw [same]
    exact List.mem_singleton_self _

/-- A function and an object with a method, both with names of their own inside, and a loop and a
branch that declare names, call the method and assign to the field. -/
def nestingScript : Script :=
  ⟨[⟨default, .defFun ⟨"same", [⟨"n", some "Integer"⟩], some "Integer",
      [⟨default, .letVar ⟨"inner", none, some ⟨default, .variable "n"⟩⟩⟩,
        ⟨default, .returns (some ⟨default, .variable "inner"⟩)⟩]⟩⟩,
    ⟨default, .letVar ⟨"o", none, some ⟨default, .object (some "Cell")
      [⟨default, "x", some "Integer", some ⟨default, .literal (.integer 1)⟩⟩]
      [⟨default, "get", [], some "Integer",
        [⟨default, .letVar ⟨"found", none,
            some ⟨default, .property ⟨default, .variable "this"⟩ "x"⟩⟩⟩,
          ⟨default, .returns (some ⟨default, .variable "found"⟩)⟩]⟩]⟩⟩⟩,
    ⟨default, .forEach "i"
      ⟨default, .call "range"
        [⟨default, .literal (.integer 0)⟩, ⟨default, .literal (.integer 2)⟩]⟩
      [⟨default, .letVar ⟨"y", none, some ⟨default, .call "same" [⟨default, .variable "i"⟩]⟩⟩⟩,
        ⟨default, .ifElse ⟨default, .literal (.boolean true)⟩
          [⟨default, .letVar ⟨"z", none,
            some ⟨default, .invoke ⟨default, .variable "o"⟩ "get" []⟩⟩⟩,
            ⟨default, .assign ⟨default, .property ⟨default, .variable "o"⟩ "x"⟩
              ⟨default, .variable "y"⟩⟩] []⟩]⟩,
    ⟨default, .letVar ⟨"last", some "Any", some ⟨default, .variable "o"⟩⟩⟩]⟩

theorem Script.same_top_level_nesting :
    ∃ typed v w, ((CheckSession.start false).check nestingScript).1 = .ok typed ∧
      Run.script 1 (RunSession.start false).scope nestingScript
        ⟨(RunSession.start false).heap, #[]⟩ = .ok v w ∧
      (((CheckSession.start false).check nestingScript).2.heap.bindings
          (CheckSession.start false).scope).names =
        ((CheckSession.start false).heap.bindings (CheckSession.start false).scope).names ++
          ["same", "o", "last"] ∧
      (w.heap.bindings (RunSession.start false).scope).names =
        ((RunSession.start false).heap.bindings (RunSession.start false).scope).names ++
          ["same", "o", "last"] := by
  obtain ⟨v, w, ran⟩ := Run.exists_of_completes
    (show Run.completes (Run.script 1 (RunSession.start false).scope nestingScript)
      ⟨(RunSession.start false).heap, #[]⟩ = true by decide +kernel)
  obtain ⟨types, values, _⟩ := Script.same_top_level false nestingScript 1 rfl ran
  exact ⟨_, v, w, rfl, ran, types, values⟩

end GradualScript
