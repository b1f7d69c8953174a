/-
# GradualScript.Proofs.Run.Unrolling -- a loop is its rounds, one after the other

A loop over a sequence of integers does what its rounds do when they are written out: for each
element a branch that is always taken, with a `LET` of the element in it and around the body another
branch of this kind. The two branches make the same two scopes in which a loop runs its body, in the
same order, so the heaps are equal and not only alike. A fault in the body belongs to a node of the
body already; the statements that are written around it do not claim it (`Run.Attributed`).

The sequence is taken once, before the first round. What a body assigns to the variable of the loop
is in a scope of its own round, and the next round begins with its own element in another scope.
-/

import GradualScript.Proofs.Run.Erasure
import GradualScript.Proofs.Run.Discipline

namespace GradualScript

/-! ## Rounds -/

/-- A round of a loop as a statement: `IF TRUE { LET name = k; IF TRUE { body } }`. -/
def Stmt.round (origin : NodeRef) (name : String) (body : List Stmt) (k : Int) : Stmt :=
  let always : Expr := ⟨origin, .literal (.boolean true)⟩
  ⟨origin, .ifElse always
    [⟨origin, .letVar ⟨name, none, some ⟨origin, .literal (.integer k)⟩⟩⟩,
      ⟨origin, .ifElse always body []⟩] []⟩

/-- A loop that is not ended by a `RETURN` comes to `Nil`, whatever its last round comes to. -/
def Flow.afterLoop : Flow → Flow
  | .value _ => .value .nil
  | .returned v => .returned v

namespace Heap

variable {α : Type}

theorem updateBindings_push (h : Heap α) (parent : Option ScopeId) (b : Bindings α) (old)
    (change : Bindings α → Bindings α) :
    (h.push ⟨parent, b⟩ old).updateBindings h.size change = h.push ⟨parent, change b⟩ old := by
  have frames : (h.frames.push ⟨parent, b⟩).modify h.frames.size
      (fun f => { f with bindings := change f.bindings }) = h.frames.push ⟨parent, change b⟩ := by
    apply Array.ext_getElem?
    intro i
    rw [Array.getElem?_modify, Array.getElem?_push, Array.getElem?_push]
    by_cases last : i = h.frames.size
    · simp [last]
    · simp [last, Ne.symm last]
  simp only [updateBindings, push, size, frames]

/-- A new scope that gets its first name is a scope that is made with it. -/
theorem put_child (h : Heap α) (s : ScopeId) (name : String) (v : α) :
    (h.child s .empty).2.put h.size name v = (h.child s (.ofList [(name, v)])).2 := by
  by_cases inside : s < h.size
  · simp only [child_eq_push inside, put, updateBindings_push]
    rfl
  · simp only [child_eq_root inside, root, put]
    exact h.updateBindings_push none .empty (by simp) _

/-- A scope that is made with a name owns it, also for a scope without names inside it. -/
theorem owner?_child_child (h : Heap α) (s : ScopeId) (name : String) (v : α) :
    ((h.child s (.ofList [(name, v)])).2.child h.size .empty).2.owner? (h.size + 1) name =
      some h.size := by
  have around : (h.child s (.ofList [(name, v)])).2.owner? h.size name = some h.size := by
    have binds : (h.child s (.ofList [(name, v)])).2.binds h.size name = true := by
      rw [binds_iff, bindings_child_self, Bindings.mem_names_ofList]
      exact List.mem_cons_self
    rw [owner?_eq, if_pos binds]
  have inner := owner?_child_self (lt_size_child h s (.ofList [(name, v)])) .empty name
  rwa [size_child, around] at inner

theorem resolve_child_child (h : Heap α) (s : ScopeId) (name : String) (v : α) :
    ((h.child s (.ofList [(name, v)])).2.child h.size .empty).2.resolve (h.size + 1) name =
      some v := by
  have inside := lt_size_child h s (.ofList [(name, v)])
  rw [resolve_eq_owner?, owner?_child_child, Option.bind_some, resolveLocal,
    bindings_child_of_lt _ _ inside, bindings_child_self]
  simp [Bindings.ofList, Bindings.find?_insert]

end Heap

/-- The world at the beginning of the body of a round: the round has made a scope with the element
and inside it the scope of the body. -/
def World.entered (w : World) (s : ScopeId) (name : String) (k : Int) : World :=
  { w with heap := ((w.heap.child s (.ofList [(name, .integer k)])).2.child w.heap.size .empty).2 }

namespace Run

variable {α β : Type} {x : Run α} {f : α → Run β} {call : Caller} {s : ScopeId} {w w' : World}
  {name : String} {body : List Stmt} {origin : NodeRef}

/-! ## Faults that belong to a node -/

/-- The faults of a step belong to a node. -/
def Attributed (x : Run α) : Prop :=
  ∀ ⦃w fault w'⦄, x w = .error (.fault fault) w' → ∃ n, fault.node = some n

namespace Attributed

theorem located {node : NodeRef} : Attributed (Run.located node x) := fun _ _ _ stopped =>
  exists_node_of_located stopped

theorem pure {a : α} : Attributed (Pure.pure a : Run α) := fun _ _ _ stopped => by cases stopped

theorem child {b : Bindings Value} : Attributed (Run.child s b) := fun _ _ _ stopped => by
  cases stopped

theorem bind (first : Attributed x) (second : ∀ a, Attributed (f a)) : Attributed (x >>= f) := by
  intro w fault w' stopped
  simp only [Bind.bind, EStateM.bind] at stopped
  split at stopped
  case h_1 a u _ => exact second a stopped
  case h_2 halt u result =>
    cases stopped
    exact first result

/-- Such a step is not located again. -/
theorem located_eq (attributed : Attributed x) (node : NodeRef) : Run.located node x = x := by
  funext w
  unfold Run.located
  cases result : x w with
  | ok a u => rfl
  | error halt u =>
    cases halt with
    | tooDeep => rfl
    | fault fault =>
      -- The node is there already, and stays.
      obtain ⟨n, own⟩ := attributed result
      simp only [Located.located_of_node own]

theorem execute {stmt : Stmt} : Attributed (Run.execute call s stmt) := by
  obtain ⟨node, kind⟩ := stmt
  rw [Run.execute]
  exact located

theorem block : ∀ {stmts : List Stmt} {last : Value}, Attributed (Run.block call s last stmts)
  | [], last => pure
  | stmt :: rest, last => by
    refine .bind execute fun flow => ?_
    cases flow with
    | value v => exact block
    | returned v => exact pure

theorem overElements {run : ScopeId → Run Flow} (rounds : ∀ inner, Attributed (run inner)) :
    ∀ {vs : List Value}, Attributed (Run.overElements s name run vs)
  | [] => pure
  | v :: rest => by
    rw [overElements_cons]
    refine .bind (.bind .child fun t => .bind .child rounds) fun flow => ?_
    cases flow with
    | value v => exact overElements rounds
    | returned v => exact pure

end Attributed

/-! ## Statements in a row -/

theorem block_cons (call : Caller) (s : ScopeId) (last : Value) (stmt : Stmt) (rest : List Stmt) :
    block call s last (stmt :: rest) = execute call s stmt >>= fun
      | .value v => block call s v rest
      | .returned v => pure (.returned v) := rfl

/-- A single statement is a block. -/
theorem block_singleton (call : Caller) (s : ScopeId) (last : Value) (stmt : Stmt) :
    block call s last [stmt] = execute call s stmt := by
  rw [block_cons]
  conv_rhs => rw [← bind_pure (execute call s stmt)]
  refine congrArg _ (funext fun flow => ?_)
  cases flow <;> rfl

theorem block_append (call : Caller) (s : ScopeId) : ∀ (before after : List Stmt) (last : Value),
    block call s last (before ++ after) = block call s last before >>= fun
      | .value v => block call s v after
      | .returned v => pure (.returned v)
  | [], after, last => rfl
  | stmt :: before, after, last => by
    rw [List.cons_append, block_cons, block_cons, bind_assoc]
    refine congrArg _ (funext fun flow => ?_)
    cases flow with
    | value v => exact block_append call s before after v
    | returned v => rfl

/-! ## A round -/

/-- Steps that do the same from two worlds do it also if the same is done after them. -/
theorem bind_congr_of_eq {y : Run α} {g : α → Run β} (same : x w = y w') (next : ∀ a, f a = g a) :
    (x >>= f) w = (y >>= g) w' := by
  show EStateM.bind x f w = EStateM.bind y g w'
  rw [EStateM.bind, EStateM.bind, same, funext next]

theorem child_eq_ok (s : ScopeId) (b : Bindings Value) (w : World) :
    child s b w = .ok w.heap.size { w with heap := (w.heap.child s b).2 } := by
  rw [← Heap.child_fst w.heap s b]
  rfl

/-- A branch that is always taken runs its body in a new scope. -/
theorem execute_always (call : Caller) (s : ScopeId) (origin : NodeRef) (body : List Stmt) :
    execute call s ⟨origin, .ifElse ⟨origin, .literal (.boolean true)⟩ body []⟩ =
      child s .empty >>= fun t => block call t .nil body := by
  have attributed : Attributed (child s .empty >>= fun t => block call t .nil body) :=
    .bind .child fun _ => .block
  rw [← attributed.located_eq origin]
  rfl

/-- The `LET` of an integer, where its name is free. -/
theorem execute_let {t : ScopeId} (free : w.heap.binds t name = false) (call : Caller)
    (origin : NodeRef) (k : Int) :
    execute call t ⟨origin, .letVar ⟨name, none, some ⟨origin, .literal (.integer k)⟩⟩⟩ w =
      .ok (.value (.integer k)) { w with heap := w.heap.put t name (.integer k) } := by
  have defined : define t name (.integer k) (.variableDefined name) w =
      .ok () { w with heap := w.heap.put t name (.integer k) } := by
    show (if w.heap.binds t name then _ else _ : Run Unit) w = _
    rw [free]
    rfl
  show located origin (define t name (.integer k) (.variableDefined name) >>= fun _ =>
    pure (Flow.value (.integer k))) w = _
  simp only [located, Bind.bind, EStateM.bind, defined]
  rfl

/-- A round makes a scope that binds the element and inside it the scope of the body. -/
theorem execute_round (call : Caller) (s : ScopeId) (origin : NodeRef) (name : String)
    (body : List Stmt) (k : Int) :
    execute call s (.round origin name body k) =
      child s (.ofList [(name, .integer k)]) >>= fun t => child t .empty >>= fun inner =>
        block call inner .nil body := by
  rw [Stmt.round, execute_always]
  funext w
  have free : (w.heap.child s .empty).2.binds w.heap.size name = false := by
    rw [Heap.binds, Heap.bindings_child_self]
    rfl
  -- The scope of the outer branch is the one of the element once its `LET` is done.
  have bound := execute_let (w := { w with heap := (w.heap.child s .empty).2 }) free call origin k
  rw [Heap.put_child] at bound
  calc (child s .empty >>= fun t => block call t .nil _) w
    _ = block call w.heap.size .nil _ { w with heap := (w.heap.child s .empty).2 } :=
      bind_of_ok (child_eq_ok s .empty w)
    _ = block call w.heap.size (.integer k) _ _ := by rw [block_cons, bind_of_ok bound]
    _ = (child w.heap.size .empty >>= fun inner => block call inner .nil body) _ := by
      rw [block_singleton, execute_always]
    _ = (child s (.ofList [(name, .integer k)]) >>= fun t => child t .empty >>= fun inner =>
          block call inner .nil body) w := by
      rw [bind_of_ok (child_eq_ok s _ w)]

/-- The body of a round runs in its own scope, with the element bound around it. -/
theorem execute_round_entered (call : Caller) (s : ScopeId) (origin : NodeRef) (name : String)
    (body : List Stmt) (k : Int) (w : World) :
    execute call s (.round origin name body k) w =
      block call (w.heap.size + 1) .nil body (w.entered s name k) := by
  have inner := child_eq_ok w.heap.size .empty
    { w with heap := (w.heap.child s (.ofList [(name, .integer k)])).2 }
  rw [Heap.size_child] at inner
  rw [execute_round, bind_of_ok (child_eq_ok s _ w), bind_of_ok inner]
  rfl

/-! ## The loop -/

/-- The rounds of a loop, one after the other, whatever the statement before them has come to. -/
theorem overElements_eq_rounds (call : Caller) (s : ScopeId) (origin : NodeRef) (name : String)
    (body : List Stmt) : ∀ (ks : List Int) (last : Value),
    overElements s name (fun inner => block call inner .nil body) (ks.map .integer) =
      block call s last (ks.map (.round origin name body)) >>= fun flow => pure flow.afterLoop
  | [], last => rfl
  | k :: ks, last => by
    rw [List.map_cons, List.map_cons, block_cons, bind_assoc, overElements_cons,
      ← execute_round call s origin]
    -- Both sides begin with the same round. If it returns, neither goes on.
    refine congrArg _ (funext fun flow => ?_)
    cases flow with
    | value v => exact overElements_eq_rounds call s origin name body ks v
    | returned v => rfl

/-- A loop whose sequence has been taken runs its rounds. -/
theorem execute_forEach {iterable : Expr} {ks : List Int}
    (evaluated : evaluate call s iterable w = .ok (.iterable (ks.map .integer)) w')
    (node origin : NodeRef) (name : String) (body : List Stmt) :
    execute call s ⟨node, .forEach name iterable body⟩ w =
      (block call s .nil (ks.map (.round origin name body)) >>= fun flow =>
        pure flow.afterLoop) w' := by
  have attributed : Attributed (overElements s name (fun inner => block call inner .nil body)
    (ks.map .integer)) := .overElements fun _ => .block
  rw [← overElements_eq_rounds, ← attributed.located_eq node]
  show located node (evaluate call s iterable >>= _) w = _
  unfold located
  rw [bind_of_ok evaluated]

end Run

namespace Builtin

/-- A range holds the integers from its start on that are less than its stop, each of them once
and in order. -/
theorem apply_range (a b : Int) (w : World) : ∃ ks : List Int,
    apply .range [.integer a, .integer b] w = .ok (.iterable (ks.map .integer)) w ∧
      (∀ k, k ∈ ks ↔ a ≤ k ∧ k < b) ∧ ks.IsChain (fun i j => j = i + 1) ∧ (b ≤ a → ks = []) := by
  refine ⟨(List.range (b - a).toNat).map fun n : Nat => a + n, ?_, fun k => ?_, ?_, fun le => ?_⟩
  · rw [List.map_map]
    rfl
  · rw [List.mem_map]
    constructor
    · rintro ⟨n, mem, rfl⟩
      have below := List.mem_range.mp mem
      omega
    · rintro ⟨le, lt⟩
      exact ⟨(k - a).toNat, List.mem_range.mpr (by omega), by omega⟩
  · rw [List.isChain_iff_getElem]
    intro n _
    simp only [List.getElem_map, List.getElem_range]
    omega
  · rw [Int.toNat_eq_zero.mpr (by omega)]
    rfl

end Builtin

namespace Run

variable {call : Caller} {s : ScopeId} {w w' : World} {name : String}

/-- A loop over integers is its rounds, one after the other, in all that it does: how it ends, also
with which fault, and which world it leaves. And whatever the rounds before have done, with closures
and to their own variables, the next round begins with its own element in a scope made for it. A
range is such a sequence: it holds the integers from its start on that are less than its stop. -/
theorem loop_unrolls {iterable : Expr} {ks : List Int} (node origin : NodeRef) (name : String)
    (body : List Stmt)
    (evaluated : evaluate call s iterable w = .ok (.iterable (ks.map .integer)) w') :
    execute call s ⟨node, .forEach name iterable body⟩ w =
      (block call s .nil (ks.map (.round origin name body)) >>= fun flow =>
        pure flow.afterLoop) w' ∧
    (∀ before k after v w₁, ks = before ++ k :: after →
      block call s .nil (before.map (.round origin name body)) w' = .ok (.value v) w₁ →
      (w₁.entered s name k).heap.owner? (w₁.heap.size + 1) name = some w₁.heap.size ∧
      (w₁.entered s name k).heap.resolve (w₁.heap.size + 1) name = some (.integer k) ∧
      execute call s ⟨node, .forEach name iterable body⟩ w =
        (block call (w₁.heap.size + 1) .nil body >>= fun
          | .value u => block call s u (after.map (.round origin name body)) >>= fun flow =>
              pure flow.afterLoop
          | .returned u => pure (.returned u)) (w₁.entered s name k)) ∧
    (∀ a b u, ∃ js : List Int,
      Builtin.apply .range [.integer a, .integer b] u = .ok (.iterable (js.map .integer)) u ∧
      (∀ k, k ∈ js ↔ a ≤ k ∧ k < b) ∧ js.IsChain (fun i j => j = i + 1) ∧ (b ≤ a → js = [])) := by
  have unrolled := execute_forEach evaluated node origin name body
  refine ⟨unrolled, ?_, Builtin.apply_range⟩
  rintro before k after v w₁ rfl done
  refine ⟨Heap.owner?_child_child _ s name _, Heap.resolve_child_child _ s name _, ?_⟩
  -- The rounds before are a prefix of the block, and the next one begins where they have ended.
  rw [unrolled, List.map_append, block_append, bind_assoc, bind_of_ok done]
  show (block call s v ((k :: after).map (.round origin name body)) >>= _) w₁ = _
  rw [List.map_cons, block_cons, bind_assoc]
  refine bind_congr_of_eq (execute_round_entered call s origin name body k w₁) fun flow => ?_
  cases flow <;> rfl

/-- `DEF add() { x = x + 100 }`, `add()`, `IF x == 102 { RETURN x }` -/
def addingBody : List Stmt :=
  let x : Expr := ⟨default, .variable "x"⟩
  [⟨default, .defFun ⟨"add", [], none, [⟨default, .assign x
      ⟨default, .binary .add x ⟨default, .literal (.integer 100)⟩⟩⟩]⟩⟩,
    ⟨default, .expr ⟨default, .call "add" []⟩⟩,
    ⟨default, .ifElse ⟨default, .binary .eq x ⟨default, .literal (.integer 102)⟩⟩
      [⟨default, .returns (some x)⟩] []⟩]

/-- Whether a statement has returned the integer `k`. -/
def returnsInteger (k : Int) : EStateM.Result Halt World Flow → Bool
  | .ok (.returned (.integer m)) _ => m == k
  | _ => false

/-- Whether a block has come to its end and left the integer `k` under a name. -/
def leavesInteger (s : ScopeId) (name : String) (k : Int) : EStateM.Result Halt World Flow → Bool
  | .ok (.value _) w =>
    match w.heap.resolve s name with
    | some (.integer m) => m == k
    | _ => false
  | _ => false

theorem exists_of_leavesInteger {k : Int} {result : EStateM.Result Halt World Flow}
    (leaves : leavesInteger s name k result = true) :
    ∃ v w, result = .ok (.value v) w ∧ w.heap.resolve s name = some (.integer k) := by
  unfold leavesInteger at leaves
  split at leaves
  case h_1 v w =>
    split at leaves
    case h_1 m found => exact ⟨v, w, rfl, by rw [found, beq_iff_eq.mp leaves]⟩
    case h_2 => cases leaves
  case h_2 => cases leaves

/-- A closure of the first round has made its `x` 101. The second round starts from 2 in another
scope, and its `RETURN` ends the loop over `range(1, 4)`. -/
theorem loop_unrolls_adding :
    let w : World := ⟨(RunSession.start false).heap, #[]⟩
    let numbers : Expr := ⟨default, .call "range"
      [⟨default, .literal (.integer 1)⟩, ⟨default, .literal (.integer 4)⟩]⟩
    let loop := execute (callClosure 1) 0 ⟨default, .forEach "x" numbers addingBody⟩ w
    let round := Stmt.round default "x" addingBody
    evaluate (callClosure 1) 0 numbers w = .ok (.iterable ([1, 2, 3].map .integer)) w ∧
      loop = (block (callClosure 1) 0 .nil [round 1, round 2, round 3] >>= fun flow =>
        pure flow.afterLoop) w ∧
      (∃ v w₁, block (callClosure 1) 0 .nil [round 1] w = .ok (.value v) w₁ ∧
        w₁.heap.resolve 2 "x" = some (.integer 101) ∧
        (w₁.entered 0 "x" 2).heap.resolve (w₁.heap.size + 1) "x" = some (.integer 2)) ∧
      returnsInteger 102 loop = true := by
  intro w numbers loop round
  have evaluated : evaluate (callClosure 1) 0 numbers w =
      .ok (.iterable ([1, 2, 3].map .integer)) w := rfl
  obtain ⟨unrolled, own, -⟩ := loop_unrolls default default "x" addingBody evaluated
  have judged : leavesInteger 2 "x" 101 (block (callClosure 1) 0 .nil [round 1] w) = true := by
    decide +kernel
  obtain ⟨v, w₁, result, left⟩ := exists_of_leavesInteger judged
  have entered := (own [1] 2 [3] v w₁ rfl result).2.1
  exact ⟨evaluated, unrolled, ⟨v, w₁, result, left, entered⟩, by decide +kernel⟩

end Run

end GradualScript
