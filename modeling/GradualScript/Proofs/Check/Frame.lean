/-
# GradualScript.Proofs.Check.Frame -- what checking leaves alone

Checking only ever adds: new scopes, and new names at the end of old scopes. `Heap.Keeps free`
says that between two heaps nothing happened to the old scopes but additions to those in `free`.
The main statements bound what each function of the checker may add to: an expression to no old
scope, a `LET` or `DEF` and a block to the active one, other statements to none, a binding to its
target. They hold whether checking succeeds or fails (`Check.Leaves` speaks of the heap after
either).
-/

import GradualScript.Check.Walk
import GradualScript.Proofs.Scope.Growth
import Mathlib.Data.Set.Insert

namespace GradualScript

universe u

/-- The name that a statement defines in the active scope. -/
def StmtKind.declares? : StmtKind → Option String
  | .letVar b => some b.name
  | .defFun d => some d.name
  | _ => none

/-- The name that a statement defines in the active scope. -/
def Stmt.declares? (x : Stmt) : Option String := x.kind.declares?

/-- The names that statements define in the active scope, in their order. -/
def Stmt.allDeclared (xs : List Stmt) : List String := xs.filterMap Stmt.declares?

theorem Stmt.allDeclared_cons (x : Stmt) (rest : List Stmt) :
    Stmt.allDeclared (x :: rest) = x.declares?.toList ++ Stmt.allDeclared rest := by
  rw [allDeclared, List.filterMap_cons]
  cases x.declares? <;> rfl

/-- Old scopes keep their parents and what they bind. Only those in `free` may bind more. -/
structure Heap.Keeps {α : Type u} (free : Set ScopeId) (h h' : Heap α) : Prop where
  size_le : h.size ≤ h'.size
  parent : ∀ s, s < h.size → h'.parent? s = h.parent? s
  grown : ∀ s, s < h.size →
    ∃ added, (h'.bindings s).entries = (h.bindings s).entries ++ added
  same : ∀ s, s < h.size → s ∉ free → h'.bindings s = h.bindings s

namespace Heap.Keeps

variable {α : Type u} {free free' : Set ScopeId} {h h' h'' : Heap α} {s t : ScopeId}

theorem refl (free : Set ScopeId) (h : Heap α) : Keeps free h h where
  size_le := Nat.le_refl _
  parent _ _ := rfl
  grown _ _ := ⟨[], (List.append_nil _).symm⟩
  same _ _ _ := rfl

theorem trans (first : Keeps free h h') (second : Keeps free h' h'') : Keeps free h h'' where
  size_le := Nat.le_trans first.size_le second.size_le
  parent s inside := by
    rw [second.parent s (Nat.lt_of_lt_of_le inside first.size_le), first.parent s inside]
  grown s inside := by
    obtain ⟨added, grown⟩ := first.grown s inside
    obtain ⟨more, grown'⟩ := second.grown s (Nat.lt_of_lt_of_le inside first.size_le)
    exact ⟨added ++ more, by rw [grown', grown, List.append_assoc]⟩
  same s inside kept := by
    rw [second.same s (Nat.lt_of_lt_of_le inside first.size_le) kept, first.same s inside kept]

/-- Scopes that are not in the old heap need not be listed as free. -/
theorem of_old (keeps : Keeps free' h h') (old : ∀ s ∈ free', s < h.size → s ∈ free) :
    Keeps free h h' where
  size_le := keeps.size_le
  parent := keeps.parent
  grown := keeps.grown
  same s inside kept := keeps.same s inside fun mem => kept (old s mem inside)

theorem mono (keeps : Keeps free' h h') (sub : free' ⊆ free) : Keeps free h h' :=
  keeps.of_old fun _ mem _ => sub mem

/-- Additions to scopes that the first part made do not count for the whole. -/
theorem trans_fresh (first : Keeps free h h') (second : Keeps free' h' h'')
    (old : ∀ s ∈ free', s < h.size → s ∈ free) : Keeps free h h'' :=
  ((first.mono Set.subset_union_left).trans (second.mono Set.subset_union_right)).of_old
    fun s mem inside => mem.elim id fun mem => old s mem inside

theorem child (free : Set ScopeId) (h : Heap α) (s : ScopeId) (b : Bindings α) :
    Keeps free h (h.child s b).2 where
  size_le := Nat.le_of_lt (lt_size_child h s b)
  parent _ inside := parent?_child_of_lt s b inside
  grown _ inside := ⟨[], by rw [bindings_child_of_lt s b inside, List.append_nil]⟩
  same _ inside _ := bindings_child_of_lt s b inside

theorem root (free : Set ScopeId) (h : Heap α) (b : Bindings α) : Keeps free h (h.root b).2 where
  size_le := Nat.le_of_lt (lt_size_root h b)
  parent _ inside := parent?_root_of_lt b inside
  grown _ inside := ⟨[], by rw [bindings_root_of_lt b inside, List.append_nil]⟩
  same _ inside _ := bindings_root_of_lt b inside

/-- Defining a new name adds to one scope. -/
theorem put {name : String} (fresh : h.binds s name = false) (v : α) :
    Keeps {s} h (h.put s name v) where
  size_le := Nat.le_of_eq (size_put ..).symm
  parent t _ := parent?_put ..
  grown t inside := by
    by_cases at_s : s = t
    · subst at_s
      rw [bindings_put_self inside,
        Bindings.entries_insert_of_not_mem v (Bindings.not_mem_names_of_not_contains fresh)]
      exact ⟨_, rfl⟩
    · exact ⟨[], by rw [bindings_put_of_ne at_s, List.append_nil]⟩
  same t _ kept := bindings_put_of_ne (fun at_s => kept at_s.symm) _ _

/-! ## What kept scopes answer -/

/-- Chains of old scopes stay what they are. -/
theorem chain (keeps : Keeps free h h') : s < h.size → h'.chain s = h.chain s :=
  chain_of_parents keeps.parent

/-- What a scope binds it goes on binding. -/
theorem resolveLocal (keeps : Keeps free h h') {n : String} {v : α}
    (found : h.resolveLocal s n = some v) : h'.resolveLocal s n = some v := by
  obtain ⟨added, grown⟩ := keeps.grown s (lt_size_of_resolveLocal found)
  apply Bindings.find?_eq_some_of_mem
  rw [grown]
  exact List.mem_append_left _ (Bindings.mem_of_find? found)

/-- Names mean what they did in a scope that nothing was added to, and around which nothing was. -/
theorem resolve_eq (keeps : Keeps ∅ h h') (inside : s < h.size) (n : String) :
    h'.resolve s n = h.resolve s n := by
  refine resolve_congr (keeps.chain inside) fun t mem => ?_
  have older : t < h.size := Nat.lt_of_le_of_lt (le_of_mem_chain mem) inside
  rw [Heap.resolveLocal, keeps.same t older (Set.notMem_empty t), ← Heap.resolveLocal]

theorem bindings_isEmpty (keeps : Keeps free h h') (inside : s < h.size)
    (empty : (h'.bindings s).isEmpty = true) : (h.bindings s).isEmpty = true := by
  obtain ⟨added, grown⟩ := keeps.grown s inside
  simp only [Bindings.isEmpty, grown, List.isEmpty_iff, List.append_eq_nil_iff] at empty ⊢
  exact empty.1

end Heap.Keeps

/-! ## Steps of the checker -/

namespace Check

variable {α β : Type} {free : Set ScopeId}

/-- The heap after a step, whether it succeeds or fails. -/
def after (x : Check α) (h : Heap Ty) : Heap Ty :=
  match x h with
  | .ok _ h' => h'
  | .error _ h' => h'

/-- A step adds to no old scope but those in `free`. -/
def Leaves (free : Set ScopeId) (x : Check α) : Prop :=
  ∀ h : Heap Ty, h.Keeps free (after x h)

theorem after_of_ok {x : Check α} {h h' : Heap Ty} {a : α} (ok : x h = .ok a h') :
    after x h = h' := by
  simp [after, ok]

theorem after_bind (x : Check α) (f : α → Check β) (h : Heap Ty) :
    after (x >>= f) h = match x h with
      | .ok a h' => after (f a) h'
      | .error _ h' => h' := by
  simp only [after, bind, EStateM.bind]
  cases x h <;> rfl

namespace Leaves

theorem keeps {x : Check α} (leaves : Leaves free x) {h h' : Heap Ty} {a : α}
    (ok : x h = .ok a h') : h.Keeps free h' := after_of_ok ok ▸ leaves h

theorem mono {free' : Set ScopeId} {x : Check α} (leaves : Leaves free' x) (sub : free' ⊆ free) :
    Leaves free x := fun h => (leaves h).mono sub

theorem pure (a : α) : Leaves free (Pure.pure a : Check α) := fun h => .refl free h

/-- What both steps may bind in, their sequence may bind in. -/
theorem bind {x : Check α} {f : α → Check β} (first : Leaves free x)
    (second : ∀ a, Leaves free (f a)) : Leaves free (x >>= f) := by
  intro h
  have kept := first h
  rw [after_bind]
  cases result : x h with
  | ok a h' =>
    rw [after_of_ok result] at kept
    exact kept.trans (second a h')
  | error fault h' =>
    simpa [after, result] using kept

theorem fail (cause : CheckError) : Leaves free (Check.fail cause : Check α) :=
  fun h => .refl free h

theorem failAt (node : NodeRef) (cause : CheckError) :
    Leaves free (Check.failAt node cause : Check α) := fun h => .refl free h

theorem located {x : Check α} (node : NodeRef) (leaves : Leaves free x) :
    Leaves free (Check.located node x) := by
  intro h
  have kept := leaves h
  simp only [after, Check.located] at kept ⊢
  cases result : x h <;> simpa [result] using kept

theorem rule (result : Heap Ty → Except CheckError α) : Leaves free (Check.rule result) := by
  intro h
  simp only [after, Check.rule]
  cases result h <;> exact .refl free h

theorem requireSubtype (sub sup : Ty) (cause : CheckError) :
    Leaves free (Check.requireSubtype sub sup cause) := by
  intro h
  simp only [after, Check.requireSubtype]
  cases sub.isSubtype h sup <;> exact .refl free h

theorem requireCount (callee : String) (expected found : Nat) :
    Leaves free (Check.requireCount callee expected found) := by
  unfold Check.requireCount
  split
  · exact pure ()
  · exact fail _

theorem resolve (s : ScopeId) (name : String) (cause : CheckError) :
    Leaves free (Check.resolve s name cause) := by
  intro h
  simp only [after, Check.resolve]
  cases h.resolve s name <;> exact .refl free h

theorem define (s : ScopeId) (name : String) (t : Ty) (cause : CheckError) :
    Leaves {s} (Check.define s name t cause) := by
  intro h
  simp only [after, Check.define]
  cases fresh : h.binds s name with
  | true => exact .refl _ h
  | false => exact .put fresh t

/-- A scope that the step makes itself may be added to. -/
theorem child_bind (s : ScopeId) (b : Bindings Ty) {f : ScopeId → Check β}
    (next : ∀ t, Leaves {t} (f t)) : Leaves free (Check.child s b >>= f) := by
  intro h
  rw [after_bind]
  simp only [Check.child, Heap.child_fst]
  refine (Heap.Keeps.child free h s b).trans_fresh (next h.size _) ?_
  rintro t rfl inside
  exact absurd inside (Nat.lt_irrefl _)

/-- A scope that is made on the way may get names. -/
theorem root_bind {f : ScopeId → Check β} (next : ∀ t, Leaves {t} (f t)) :
    Leaves free (Check.root >>= f) := by
  intro h
  rw [after_bind]
  simp only [Check.root, Heap.root_fst]
  refine (Heap.Keeps.root free h .empty).trans_fresh (next h.size _) ?_
  rintro t rfl inside
  exact absurd inside (Nat.lt_irrefl _)

theorem annotated (ctx : Context) (name : String) : Leaves free <| Check.annotation ctx name :=
  resolve _ _ _

theorem annotationOrDynamic (ctx : Context) (name : Option String) :
    Leaves free (Check.annotationOrDynamic ctx name) := by
  cases name with
  | none => exact pure _
  | some name => exact annotated ctx name

theorem annotated? (ctx : Context) (name : Option String) :
    Leaves free <| Check.annotation? ctx name := by
  cases name with
  | none => exact pure _
  | some name => exact bind (annotated ctx name) fun _ => pure _

theorem params (ctx : Context) (list : List Param) :
    ∀ seen, Leaves free (Check.params ctx seen list) := by
  induction list with
  | nil => exact fun _ => pure _
  | cons param rest ih =>
    intro seen
    rw [Check.params]
    split
    · exact bind (fail _) fun _ => bind (annotationOrDynamic ctx _) fun _ =>
        bind (ih _) fun _ => pure _
    · exact bind (annotationOrDynamic ctx _) fun _ => bind (ih _) fun _ => pure _

theorem bodyBindings (this : Option Ty) (list : List Typed.Param) :
    Leaves free (Check.bodyBindings this list) := by
  unfold Check.bodyBindings
  cases this with
  | none => exact pure _
  | some this =>
    dsimp only
    split
    · exact fail _
    · exact pure _

end Leaves

/-! ## The walk

One statement for each function, by recursion on the tree. The free scope is where the function
defines names: none for an expression, the target for a binding, the active scope for the rest. -/

mutual

theorem leaves_expr (ctx : Context) : ∀ e : Expr, Leaves ∅ (expr ctx e)
  | ⟨node, kind⟩ => by
    rw [expr]
    exact .located node (.bind (leaves_exprKind ctx kind) fun _ => .pure _)

/-- An expression binds names in new scopes only: those of members, parameters and blocks. -/
theorem leaves_exprKind (ctx : Context) : ∀ k : ExprKind, Leaves ∅ (exprKind ctx k)
  | .literal value => by
    rw [exprKind]
    exact .pure _
  | .group inner => by
    rw [exprKind]
    exact .bind (leaves_expr ctx inner) fun _ => .pure _
  | .binary op left right => by
    rw [exprKind]
    exact .bind (leaves_expr ctx left) fun _ => .bind (leaves_expr ctx right) fun _ =>
      .bind (.rule _) fun _ => .pure _
  | .variable name => by
    rw [exprKind]
    exact .bind (.resolve _ _ _) fun _ => .pure _
  | .property receiver name => by
    rw [exprKind]
    exact .bind (leaves_expr ctx receiver) fun _ => .bind (.rule _) fun _ => .pure _
  | .call name arguments => by
    rw [exprKind]
    refine .bind (.resolve _ _ _) fun callee => ?_
    cases callee with
    | function params returns =>
      exact .bind (.requireCount _ _ _) fun _ =>
        .bind (leaves_argumentList ctx name 0 params arguments) fun _ => .pure _
    | prim p => exact .fail _
    | object n members => exact .fail _
  | .invoke receiver name arguments => by
    rw [exprKind]
    refine .bind (leaves_expr ctx receiver) fun r => .bind (.rule _) fun callee => ?_
    split
    · exact .bind (leaves_exprs ctx arguments) fun _ => .pure _
    · exact .bind (.requireCount _ _ _) fun _ =>
        .bind (leaves_argumentList ctx name 0 _ arguments) fun _ => .pure _
    · exact .fail _
  | .object name fieldList methodList => by
    rw [exprKind]
    refine .root_bind fun members => .bind (leaves_fields ctx members fieldList) fun _ => ?_
    exact .bind (leaves_methods ⟨members, _, _⟩ _ methodList) fun _ => .pure _

theorem leaves_exprs (ctx : Context) : ∀ es : List Expr, Leaves ∅ (exprs ctx es)
  | [] => by
    rw [exprs]
    exact .pure _
  | e :: es => by
    rw [exprs]
    exact .bind (leaves_expr ctx e) fun _ => .bind (leaves_exprs ctx es) fun _ => .pure _

theorem leaves_argumentList (ctx : Context) (callee : String) :
    ∀ (index : Nat) (params : List Ty) (es : List Expr),
      Leaves ∅ (argumentList ctx callee index params es)
  | index, param :: params, e :: es => by
    rw [argumentList]
    exact .bind (leaves_expr ctx e) fun _ => .bind (.located _ (.requireSubtype _ _ _)) fun _ =>
      .bind (leaves_argumentList ctx callee (index + 1) params es) fun _ => .pure _
  | _, [], es => by
    rw [argumentList]
    · exact .pure _
    · simp
  | _, _ :: _, [] => by
    rw [argumentList]
    · exact .pure _
    · simp

/-- A binding adds to the scope that it is for. -/
theorem leaves_binding (ctx : Context) (id : NodeId) (target : ScopeId) :
    ∀ b : Binding, Leaves {target} (binding ctx id target b)
  | ⟨name, ty, none⟩ => by
    rw [binding]
    exact .bind (.annotated? ctx ty) fun _ => .bind (.define _ _ _ _) fun _ => .pure _
  | ⟨name, ty, some e⟩ => by
    rw [binding]
    exact .bind (.annotated? ctx ty) fun _ =>
      .bind ((leaves_expr ctx e).mono (Set.empty_subset _)) fun _ =>
        .bind (.located _ (.requireSubtype _ _ _)) fun _ => .bind (.define _ _ _ _) fun _ => .pure _

theorem leaves_fields (ctx : Context) (target : ScopeId) :
    ∀ fs : List Field, Leaves {target} (fields ctx target fs)
  | [] => by
    rw [fields]
    exact .pure _
  | ⟨node, b⟩ :: rest => by
    rw [fields]
    exact .bind (.located node (leaves_binding ctx node.id target b)) fun _ =>
      .bind (leaves_fields ctx target rest) fun _ => .pure _

/-- A definition adds its name to the scope that it stands in. -/
theorem leaves_definition (ctx : Context) (id : NodeId) (this : Option Ty) :
    ∀ d : Definition, Leaves {ctx.scope} (definition ctx id this d)
  | ⟨name, list, returns, body⟩ => by
    rw [definition]
    refine .bind (.annotationOrDynamic ctx returns) fun returns =>
      .bind (.params ctx list []) fun list => .bind (.define _ _ _ _) fun _ =>
        .bind (.bodyBindings this list) fun bound => .child_bind _ _ fun s => ?_
    exact .bind (leaves_block { ctx with scope := s, returns := some returns } body)
      fun _ => .pure _

theorem leaves_methods (ctx : Context) (this : Ty) :
    ∀ ms : List Method, Leaves {ctx.scope} (methods ctx this ms)
  | [] => by
    rw [methods]
    exact .pure _
  | ⟨node, d⟩ :: rest => by
    rw [methods]
    exact .bind (.located node (leaves_definition ctx node.id (some this) d)) fun _ =>
      .bind (leaves_methods ctx this rest) fun _ => .pure _

theorem leaves_stmt (ctx : Context) : ∀ s : Stmt, Leaves {ctx.scope} (stmt ctx s)
  | ⟨node, kind⟩ => by
    rw [stmt]
    exact .located node (.bind ((leaves_stmtKind ctx node.id kind).mono fun _ mem => mem.1)
      fun _ => .pure _)

/-- A statement that defines no name adds to no old scope. -/
theorem leaves_stmtKind (ctx : Context) (id : NodeId) :
    ∀ k : StmtKind, Leaves {s | s = ctx.scope ∧ k.declares?.isSome} (stmtKind ctx id k)
  | .letVar b => by
    rw [stmtKind]
    exact .bind ((leaves_binding ctx id ctx.scope b).mono fun _ same => ⟨same, rfl⟩)
      fun _ => .pure _
  | .defFun d => by
    rw [stmtKind]
    exact .bind ((leaves_definition ctx id none d).mono fun _ same => ⟨same, rfl⟩) fun _ => .pure _
  | .ifElse condition thenBody elseBody => by
    rw [stmtKind]
    refine .bind ((leaves_expr ctx condition).mono (Set.empty_subset _)) fun c => ?_
    have branches : ∀ free, Leaves free (child ctx.scope .empty >>= fun s => do
        let thenBody ← block { ctx with scope := s } thenBody
        let elseScope ← child ctx.scope .empty
        let elseBody ← block { ctx with scope := elseScope } elseBody
        return Typed.StmtKind.ifElse c thenBody elseBody) := fun free =>
      .child_bind _ _ fun s => .bind (leaves_block { ctx with scope := s } thenBody) fun _ =>
        .child_bind _ _ fun s => .bind (leaves_block { ctx with scope := s } elseBody) fun _ =>
          .pure _
    split
    · exact .bind (.fail _) fun _ => branches _
    · exact branches _
  | .forEach name iterable body => by
    rw [stmtKind]
    exact .bind ((leaves_expr ctx iterable).mono (Set.empty_subset _)) fun _ =>
      .bind (.requireSubtype _ _ _) fun _ => .child_bind _ _ fun s =>
        .bind (leaves_block { ctx with scope := s } body) fun _ => .pure _
  | .returns value => by
    rw [stmtKind]
    cases ctx.returns with
    | none => exact .fail _
    | some expected =>
      cases value with
      | none => exact .bind (.requireSubtype _ _ _) fun _ => .pure _
      | some e =>
        exact .bind ((leaves_expr ctx e).mono (Set.empty_subset _)) fun _ =>
          .bind (.requireSubtype _ _ _) fun _ => .pure _
  | .expr e => by
    rw [stmtKind]
    exact .bind ((leaves_expr ctx e).mono (Set.empty_subset _)) fun _ => .pure _
  | .assign ⟨target, kind⟩ value => by
    cases kind with
    | «variable» name =>
      rw [stmtKind]
      exact .bind (.located _ (.resolve _ _ _)) fun _ =>
        .bind ((leaves_expr ctx value).mono (Set.empty_subset _)) fun _ =>
          .bind (.requireSubtype _ _ _) fun _ => .pure _
    | property receiver name =>
      rw [stmtKind]
      exact .bind ((leaves_expr ctx receiver).mono (Set.empty_subset _)) fun _ =>
        .bind (.located _ (.rule _)) fun _ =>
          .bind ((leaves_expr ctx value).mono (Set.empty_subset _)) fun _ =>
            .bind (.requireSubtype _ _ _) fun _ => .pure _
    | _ =>
      rw [stmtKind]
      · exact .failAt _ _
      all_goals simp

theorem leaves_block (ctx : Context) : ∀ ss : List Stmt, Leaves {ctx.scope} (block ctx ss)
  | [] => by
    rw [block]
    exact .pure _
  | s :: rest => by
    rw [block]
    exact .bind (leaves_stmt ctx s) fun _ => .bind (leaves_block ctx rest) fun _ => .pure _

end

end Check

end GradualScript
