/-
# GradualScript.Proofs.Run.Names -- checked names stay covered

No run of an accepted script stops because a name is defined twice or a function is not there, and
the only variables that a run can miss are the names of the primitive types. The proof follows the
evaluator along the elaboration of the script: by recursion on the tree for everything between two
calls, and by induction on the depth of calls.
-/

import GradualScript.Proofs.Check.Accepted
import GradualScript.Proofs.Run.Scoped

namespace GradualScript

/-- A cause that checking the names of a script does not rule out. -/
def EvalError.Uncaught : EvalError → Prop
  | .variableDefined _ | .functionDefined _ | .fieldDefined _ | .methodDefined _
  | .duplicateParameter _ | .thisParameter | .undefinedFunction _ => False
  | .undefinedVariable name => ∃ p : Primitive, name = p.name
  | _ => True

theorem EvalError.OfOperator.uncaught {cause : EvalError} (operator : cause.OfOperator) :
    cause.Uncaught := by
  cases cause <;> trivial

/-- The value that a statement ends with. -/
def Flow.result : Flow → Value
  | .value v | .returned v => v

namespace Run

/-- What a run may be stopped for; it may also be stopped for its depth. -/
def Uncaught : Option EvalError → Prop
  | none => True
  | some cause => cause.Uncaught

variable {H : Heap Ty} {h : Heap Value} {free objects : Set ScopeId} {s : ScopeId} {v : Value}
  {Γ : Env} {w : World} {call : Caller}

/-- A part of a run that found the heap `h` has yielded `v`. -/
def Yields (H : Heap Ty) (objects : Set ScopeId) (h : Heap Value) (v : Value) (w : World) : Prop :=
  ∃ objects', Passed H ∅ objects h objects' w.heap ∧ v.Scoped H objects' w.heap

def YieldsAll (H : Heap Ty) (objects : Set ScopeId) (h : Heap Value) (vs : List Value)
    (w : World) : Prop :=
  ∃ objects', Passed H ∅ objects h objects' w.heap ∧ ∀ v ∈ vs, v.Scoped H objects' w.heap

/-- Scoped closures, called with scoped arguments, yield scoped values. -/
def Caller.Scoped (H : Heap Ty) (call : Caller) : Prop :=
  ∀ (f : Closure) (arguments : List Value) (objects : Set ScopeId) (w : World),
    w.heap.Scoped H objects → f.Scoped H w.heap →
    (∀ v ∈ arguments, v.Scoped H objects w.heap) →
      Ends Uncaught (call f arguments) w (Yields H objects w.heap)

theorem Yields.after {h : Heap Value} {objects' : Set ScopeId}
    (passed : Passed H ∅ objects h objects' w.heap) {w' : World}
    (yields : Yields H objects' w.heap v w') : Yields H objects h v w' := by
  obtain ⟨objects'', second, known⟩ := yields
  exact ⟨objects'', passed.trans second, known⟩

theorem Yields.plain (known : w.heap.Scoped H objects) (plain : v.IsPlain) :
    Yields H objects w.heap v w := by
  refine ⟨objects, .refl known, ?_⟩
  cases v <;> trivial

/-! ## Members and calls -/

theorem membersOf_scoped {node : NodeRef} (known : v.Scoped H objects w.heap) :
    Ends Uncaught (membersOf node v) w fun m w' => w' = w ∧ m ∈ objects := by
  unfold membersOf
  split
  · exact .pure ⟨rfl, known⟩
  · exact .failAt trivial

theorem invoke_scoped (callee : Caller.Scoped H call) {f : Callable} {arguments : List Value}
    (known : w.heap.Scoped H objects) (function : (Value.function f).Scoped H objects w.heap)
    (all : ∀ v ∈ arguments, v.Scoped H objects w.heap) :
    Ends Uncaught (invoke call f arguments) w (Yields H objects w.heap) := by
  cases f with
  | closure f => exact callee f arguments objects w known function all
  | builtin f =>
    refine .mono (f.ends_apply arguments (fun _ _ => trivial) fun _ _ _ => trivial) ?_
    rintro v w' ⟨same, result⟩
    rw [← same] at known all ⊢
    rcases result with mem | rfl | ⟨a, b, rfl⟩
    · exact ⟨objects, .refl known, all v mem⟩
    · exact .plain known trivial
    · refine ⟨objects, .refl known, fun v mem => ?_⟩
      obtain ⟨k, _, same⟩ := List.mem_map.mp mem
      exact ⟨_, same.symm⟩

/-- The methods of an object are bound one after the other. Each may be called as soon as it is
bound: it sees the members before it and itself. -/
theorem defineMethods_scoped {this : Ty} {members : ScopeId} :
    ∀ {ms : List Method} {ds : List Typed.Definition} {Γ : Env} {w : World},
      Method.ElaborateAll H Γ this ms ds → Γ.outer = [] →
      (w.heap.bindings members).names = Γ.own.map Prod.fst →
      (Γ.own.map Prod.fst ++ ds.map Typed.Definition.name).Nodup →
      w.heap.Scoped H objects → members < w.heap.size →
      Ends Uncaught (defineMethods members ms) w fun _ w' =>
        Passed H {members} objects w.heap objects w'.heap
  | [], ds, Γ, w, _, _, _, _, known, _ => .pure (.refl known)
  | ⟨node, d⟩ :: rest, ds, Γ, w, elaborates, outer, names, nodup, known, inside => by
    rw [Method.ElaborateAll] at elaborates
    obtain ⟨t, more, rfl, first, following⟩ := elaborates
    rw [defineMethods]
    rw [List.map_cons] at nodup
    have fresh : d.name ∉ (w.heap.bindings members).names := by
      rw [names, ← first.name_eq]
      exact fun mem => (List.nodup_append.mp nodup).2.2 _ mem _ List.mem_cons_self rfl
    refine .bind (.located (.define fresh)) ?_
    rintro _ _ rfl
    have names₁ : ((w.heap.put members d.name (.function (.closure ⟨d, members, true⟩))).bindings
        members).names = (Γ.declare t.name t.ty).own.map Prod.fst := by
      rw [Heap.bindings_put_self inside, Bindings.names_insert_of_not_mem _ fresh, names,
        Env.declare, List.map_append, first.name_eq]
      rfl
    have outer₁ : (Γ.declare t.name t.ty).outer = [] := outer
    have passed : Passed H {members} objects w.heap objects
        (w.heap.put members d.name (.function (.closure ⟨d, members, true⟩))) := by
      refine .put known inside (Or.inr (Or.inr rfl)) ⟨?_, Γ, _, _, t, first, rfl, ?_⟩
      · rw [Heap.size_put]
        exact inside
      · exact .of_own outer₁ fun n mem => names₁ ▸ mem
    refine (defineMethods_scoped following outer₁ names₁ ?_ passed.heap ?_).mono fun _ _ more =>
      passed.trans more
    · rw [Env.declare, List.map_append, List.append_assoc]
      exact nodup
    · rw [Heap.size_put]
      exact inside

/-! ## Expressions -/

section

variable (H : Heap Ty) (call : Caller) (s : ScopeId) (Γ : Env)

/-- Wherever the names of `Γ` are covered, the expression yields a scoped value. -/
def ScopedExpr (e : Expr) : Prop :=
  ∀ ⦃objects : Set ScopeId⦄ ⦃w : World⦄, w.heap.Scoped H objects → At objects w.heap s Γ →
    Ends Uncaught (evaluate call s e) w (Yields H objects w.heap)

def ScopedKind (e : ExprKind) : Prop :=
  ∀ ⦃objects : Set ScopeId⦄ ⦃w : World⦄, w.heap.Scoped H objects → At objects w.heap s Γ →
    Ends Uncaught (evaluateKind call s e) w (Yields H objects w.heap)

def ScopedAll (es : List Expr) : Prop :=
  ∀ ⦃objects : Set ScopeId⦄ ⦃w : World⦄, w.heap.Scoped H objects → At objects w.heap s Γ →
    Ends Uncaught (evaluateAll call s es) w (YieldsAll H objects w.heap)

/-- The fields can be given to an object that nothing in reach leads to yet, under the names in
`bs`. -/
def ScopedFields (fs : List Field) (bs : List Typed.Binding) : Prop :=
  ∀ ⦃members : ScopeId⦄ ⦃objects : Set ScopeId⦄ ⦃w : World⦄, s ≠ members →
    w.heap.Scoped H objects → At objects w.heap s Γ → members < w.heap.size → members ∉ objects →
    ((w.heap.bindings members).names ++ bs.map Typed.Binding.name).Nodup →
    Ends Uncaught (defineFields call s members fs) w fun _ w' =>
      (∃ objects', Passed H {members} objects w.heap objects' w'.heap) ∧
        (w'.heap.bindings members).names =
          (w.heap.bindings members).names ++ bs.map Typed.Binding.name

end

/-! ### One lemma for each kind of expression -/

theorem binary_scoped {op : BinaryOp} {left right : Expr} (leftScoped : ScopedExpr H call s Γ left)
    (rightScoped : ScopedExpr H call s Γ right) :
    ScopedKind H call s Γ (.binary op left right) := by
  intro objects w known here
  refine .binary_plain (fun _ operator => operator.uncaught) ((leftScoped known here).mono ?_)
  rintro l w₁ ⟨objects₁, passed₁, _⟩
  refine ⟨fun v plain => .after passed₁ (.plain passed₁.heap plain), ?_⟩
  refine (rightScoped passed₁.heap (here.next passed₁ (Set.notMem_empty s))).mono ?_
  rintro r w₂ ⟨objects₂, passed₂, _⟩ v plain
  exact .after passed₁ (.after passed₂ (.plain passed₂.heap plain))

/-- What the checker knows and the run does not see is the name of a primitive type. -/
theorem variable_scoped {name : String} {ty : Ty} (bound : Γ.find? name = some ty) :
    ScopedKind H call s Γ (.variable name) := by
  intro objects w known here
  rw [evaluateKind]
  refine .read_bind ?_
  cases found : w.heap.resolve s name with
  | some v => exact .pure ⟨objects, .refl known, known.resolve found⟩
  | none =>
    refine .fail ?_
    rcases here.covered name ty bound with seen | ⟨p, same, _⟩
    · rw [Heap.sees_iff_resolve, found] at seen
      cases seen
    · exact ⟨p, same⟩

theorem property_scoped {receiver : Expr} {name : String}
    (receiverScoped : ScopedExpr H call s Γ receiver) :
    ScopedKind H call s Γ (.property receiver name) := by
  intro objects w known here
  refine .property ((receiverScoped known here).mono ?_)
  rintro object w₁ ⟨objects₁, passed₁, objectKnown⟩
  refine (membersOf_scoped objectKnown).mono ?_
  rintro members w₁ ⟨rfl, _⟩
  exact ⟨fun v found => ⟨objects₁, passed₁, passed₁.heap.lookup found⟩, fun _ => trivial⟩

/-- A name that only the checker knows stands for a type, and a type is not called. -/
theorem call_scoped (callee : Caller.Scoped H call) {name : String} {arguments : List Expr}
    {params : List Ty} {ty : Ty} (bound : Γ.find? name = some (.function params ty))
    (argumentsScoped : ScopedAll H call s Γ arguments) :
    ScopedKind H call s Γ (.call name arguments) := by
  intro objects w known here
  refine .call (fun f found => ?_) (fun _ => trivial) fun unbound => ?_
  · refine (argumentsScoped known here).mono ?_
    rintro vs w₁ ⟨objects₁, passed₁, all⟩
    exact (invoke_scoped callee passed₁.heap (passed₁.value (known.resolve found)) all).mono
      fun _ _ => .after passed₁
  · rcases here.covered name _ bound with seen | ⟨p, _, same⟩
    · rw [Heap.sees_iff_resolve, unbound] at seen
      cases seen
    · cases same

theorem methodCall_scoped (callee : Caller.Scoped H call) {receiver : Expr} {name : String}
    {arguments : List Expr} (receiverScoped : ScopedExpr H call s Γ receiver)
    (argumentsScoped : ScopedAll H call s Γ arguments) :
    ScopedKind H call s Γ (.invoke receiver name arguments) := by
  intro objects w known here
  refine .invoke ((receiverScoped known here).mono ?_)
  rintro object w₁ ⟨objects₁, passed₁, objectKnown⟩
  refine (membersOf_scoped objectKnown).mono ?_
  rintro members w₁ ⟨rfl, _⟩
  refine ⟨fun f found => ?_, fun _ => trivial, trivial⟩
  refine (argumentsScoped passed₁.heap (here.next passed₁ (Set.notMem_empty s))).mono ?_
  rintro vs w₂ ⟨objects₂, passed₂, all⟩
  have method := passed₂.value (passed₁.heap.lookup found)
  have all' : ∀ u ∈ object :: vs, u.Scoped H objects₂ w₂.heap :=
    List.forall_mem_cons.mpr ⟨passed₂.value objectKnown, all⟩
  exact (invoke_scoped callee passed₂.heap method all').mono fun _ _ yields =>
    .after passed₁ (.after passed₂ yields)

/-- The member scope is apart from the objects in reach until the object itself is passed on. -/
theorem object_scoped {name : Option String} {fields : List Field} {methods : List Method}
    {this : Ty} {members : ScopeId} {bs : List Typed.Binding} {ds : List Typed.Definition}
    (entries : (H.bindings members).entries =
      bs.map Typed.Binding.entry ++ ds.map Typed.Definition.entry)
    (methodsOk : Method.ElaborateAll H (Γ.members (bs.map Typed.Binding.entry)) this methods ds)
    (fieldsScoped : ScopedFields H call s Γ fields bs) :
    ScopedKind H call s Γ (.object name fields methods) := by
  intro objects w known here
  have nodup := (H.bindings members).names_nodup
  rw [entries, List.map_append, List.map_map, List.map_map] at nodup
  rw [evaluateKind]
  refine .root_bind ?_
  have made : Passed H ∅ objects w.heap objects (w.heap.root .empty).2 := .root known
  have ne : s ≠ w.heap.size := Nat.ne_of_lt here.inside
  have apart : w.heap.size ∉ objects := fun mem => Nat.lt_irrefl _ (known.objects_lt _ mem)
  have inside : w.heap.size < (w.heap.root .empty).2.size := Heap.lt_size_root w.heap .empty
  have names : ((w.heap.root .empty).2.bindings w.heap.size).names = [] := by
    rw [Heap.bindings_root_self]
    rfl
  refine .bind (fieldsScoped ne made.heap (here.next made (Set.notMem_empty s)) inside apart ?_) ?_
  · rw [names, List.nil_append]
    exact (List.nodup_append.mp nodup).1
  · rintro _ w₂ ⟨⟨objects₂, passed₂⟩, names₂⟩
    have inside₂ := Nat.lt_of_lt_of_le inside passed₂.grows.size_le
    refine .bind (defineMethods_scoped methodsOk rfl ?_ ?_ passed₂.heap inside₂) ?_
    · rw [names₂, names, Env.members, List.map_map]
      rfl
    · rw [Env.members, List.map_map]
      exact nodup
    · intro _ w₃ passed₃
      have inside₃ := Nat.lt_of_lt_of_le inside₂ passed₃.grows.size_le
      have whole : Passed H ∅ objects w.heap objects₂ w₃.heap :=
        made.trans_fresh (passed₂.trans passed₃) fun t mem old =>
          absurd (mem ▸ old) (Nat.lt_irrefl _)
      exact .pure ⟨_, whole.publish (Nat.le_refl _) inside₃, Set.mem_insert _ _⟩

/-! ### The walk over expressions -/

mutual

theorem evaluate_scoped (callee : Caller.Scoped H call) : ∀ {e : Expr} {t : Typed.Expr} {Γ : Env},
    e.Elaborates H Γ t → ScopedExpr H call s Γ e
  | ⟨node, kind⟩, t, Γ, elaborates => by
    rw [Expr.Elaborates] at elaborates
    intro objects w known here
    rw [evaluate]
    exact .located (evaluateKind_scoped callee elaborates.2 known here)

theorem evaluateKind_scoped (callee : Caller.Scoped H call) : ∀ {e : ExprKind}
    {t : Typed.ExprKind} {ty : Ty} {Γ : Env}, e.Elaborates H Γ t ty → ScopedKind H call s Γ e
  | .literal value, t, ty, Γ, _ => by
    intro objects w known here
    rw [evaluateKind]
    exact .pure (.plain known (Value.isPlain_ofLiteral value))
  | .group inner, t, ty, Γ, elaborates => by
    rw [ExprKind.Elaborates] at elaborates
    obtain ⟨_, _, elaborates, _⟩ := elaborates
    intro objects w known here
    rw [evaluateKind]
    exact evaluate_scoped callee elaborates known here
  | .binary op left right, t, ty, Γ, elaborates => by
    rw [ExprKind.Elaborates] at elaborates
    obtain ⟨_, _, _, leftOk, rightOk, _⟩ := elaborates
    exact binary_scoped (evaluate_scoped callee leftOk) (evaluate_scoped callee rightOk)
  | .variable name, t, ty, Γ, elaborates => by
    rw [ExprKind.Elaborates] at elaborates
    exact variable_scoped elaborates.2
  | .property receiver name, t, ty, Γ, elaborates => by
    rw [ExprKind.Elaborates] at elaborates
    obtain ⟨_, _, receiverOk, _⟩ := elaborates
    exact property_scoped (evaluate_scoped callee receiverOk)
  | .call name arguments, t, ty, Γ, elaborates => by
    rw [ExprKind.Elaborates] at elaborates
    obtain ⟨params, _, _, bound, argumentsOk, _⟩ := elaborates
    exact call_scoped callee bound (evaluateAll_scoped callee argumentsOk)
  | .invoke receiver name arguments, t, ty, Γ, elaborates => by
    rw [ExprKind.Elaborates] at elaborates
    obtain ⟨_, _, _, receiverOk, argumentsOk, _⟩ := elaborates
    exact methodCall_scoped callee (evaluate_scoped callee receiverOk)
      (evaluateAll_scoped callee argumentsOk)
  | .object name fields methods, t, ty, Γ, elaborates => by
    rw [ExprKind.Elaborates] at elaborates
    obtain ⟨members, bs, ds, _, _, _, _, entries, fieldsOk, methodsOk⟩ := elaborates
    exact object_scoped entries methodsOk (defineFields_scoped callee fieldsOk)

theorem evaluateAll_scoped (callee : Caller.Scoped H call) : ∀ {es : List Expr}
    {ts : List Typed.Expr} {Γ : Env}, Expr.ElaborateAll H Γ es ts → ScopedAll H call s Γ es
  | [], ts, Γ, _ => by
    intro objects w known here
    rw [evaluateAll]
    exact .pure ⟨objects, .refl known, by simp⟩
  | e :: rest, ts, Γ, elaborates => by
    rw [Expr.ElaborateAll] at elaborates
    obtain ⟨_, _, _, first, following⟩ := elaborates
    intro objects w known here
    rw [evaluateAll]
    refine .bind (evaluate_scoped callee first known here) fun v w₁ yields => ?_
    obtain ⟨objects₁, passed₁, vKnown⟩ := yields
    have here₁ := here.next passed₁ (Set.notMem_empty s)
    refine .bind (evaluateAll_scoped callee following passed₁.heap here₁) fun vs w₂ yields => ?_
    obtain ⟨objects₂, passed₂, all⟩ := yields
    refine .pure ⟨objects₂, passed₁.trans passed₂, ?_⟩
    intro u mem
    rcases List.mem_cons.mp mem with rfl | mem
    · exact passed₂.value vKnown
    · exact all u mem

theorem evaluateOption_scoped (callee : Caller.Scoped H call) {id : NodeId} : ∀ {name : String}
    {ty : Option String} {value : Option Expr} {t : Typed.Binding} {Γ : Env}
    {objects : Set ScopeId} {w : World},
      Binding.Elaborates H Γ id ⟨name, ty, value⟩ t → w.heap.Scoped H objects →
      At objects w.heap s Γ →
      Ends Uncaught (evaluateOption call s value) w (Yields H objects w.heap)
  | _, _, none, t, Γ, objects, w, _, known, _ => by
    rw [evaluateOption]
    exact .pure (.plain known trivial)
  | _, _, some e, t, Γ, objects, w, elaborates, known, here => by
    rw [Binding.Elaborates] at elaborates
    obtain ⟨_, _, _, _, elaborates, _⟩ := elaborates
    rw [evaluateOption]
    exact evaluate_scoped callee elaborates known here

theorem defineFields_scoped (callee : Caller.Scoped H call) : ∀ {fs : List Field}
    {bs : List Typed.Binding} {Γ : Env}, Field.ElaborateAll H Γ fs bs →
      ScopedFields H call s Γ fs bs
  | [], bs, Γ, elaborates => by
    rw [Field.ElaborateAll] at elaborates
    intro members objects w ne known here inside apart nodup
    rw [defineFields]
    refine .pure ⟨⟨objects, .refl known⟩, ?_⟩
    rw [elaborates]
    simp
  | ⟨node, ⟨name, ty, value⟩⟩ :: rest, bs, Γ, elaborates => by
    rw [Field.ElaborateAll] at elaborates
    obtain ⟨b, more, rfl, first, following⟩ := elaborates
    have same : b.name = name := first.name_eq
    intro members objects w ne known here inside apart nodup
    rw [defineFields]
    refine .bind (evaluateOption_scoped callee first known here) fun v w₁ yields => ?_
    obtain ⟨objects₁, passed₁, vKnown⟩ := yields
    -- No initial value binds anything in the member scope: nothing in reach leads there yet.
    have names₁ := passed₁.names inside apart (Set.notMem_empty _)
    have inside₁ : members < w₁.heap.size := Nat.lt_of_lt_of_le inside passed₁.grows.size_le
    have fresh : name ∉ (w₁.heap.bindings members).names := by
      rw [names₁, ← same]
      exact fun mem => (List.nodup_append.mp nodup).2.2 _ mem _ List.mem_cons_self rfl
    refine .bind (.located (.define fresh)) ?_
    rintro _ _ rfl
    have passed₂ : Passed H {members} objects₁ w₁.heap objects₁ (w₁.heap.put members name v) :=
      .put passed₁.heap inside₁ (Or.inr (Or.inr rfl)) (vKnown.mono subset_rfl (.put _ _ _ _))
    have names₂ : ((w₁.heap.put members name v).bindings members).names =
        (w.heap.bindings members).names ++ [b.name] := by
      rw [Heap.bindings_put_self inside₁, Bindings.names_insert_of_not_mem _ fresh, names₁, same]
    have here₂ := (here.next passed₁ (Set.notMem_empty s)).next passed₂ ne
    refine (defineFields_scoped callee following ne passed₂.heap here₂ ?_ ?_ ?_).mono ?_
    · rw [Heap.size_put]
      exact inside₁
    · exact passed₁.apart inside apart
    · rw [names₂, List.append_assoc]
      exact nodup
    · rintro _ w₃ ⟨⟨objects₃, passed₃⟩, names₃⟩
      refine ⟨⟨objects₃, ?_⟩, ?_⟩
      · exact (passed₁.mono (Set.empty_subset _)).trans (passed₂.trans passed₃)
      · rw [names₃, names₂, List.append_assoc]
        rfl

end

/-! ## Statements -/

theorem assign_scoped (callee : Caller.Scoped H call) {node : NodeRef} {kind : ExprKind} {e : Expr}
    {k : Typed.StmtKind} {id : NodeId}
    (elaborates : StmtKind.Elaborates H Γ id (.assign ⟨node, kind⟩ e) k)
    (known : w.heap.Scoped H objects) (here : At objects w.heap s Γ)
    (value : v.Scoped H objects w.heap) :
    Ends Uncaught (assign call s ⟨node, kind⟩ v) w fun _ w' =>
      ∃ objects', Passed H ∅ objects w.heap objects' w'.heap := by
  obtain ⟨ty, _, _, _, target⟩ := elaborates.assign
  unfold assign
  rcases target with ⟨name, rfl, _, bound⟩ | ⟨receiver, name, _, rfl, _, receiverOk, _⟩
  · refine .read_bind ?_
    cases found : w.heap.owner? s name with
    | some owner =>
      have binds := Heap.binds_iff.mp (Heap.binds_of_owner? found)
      exact .put ⟨objects, .put known (Heap.lt_size_of_binds (Heap.binds_of_owner? found))
        (Or.inl binds) (value.mono subset_rfl (.put _ _ _ _))⟩
    | none =>
      refine .failAt ?_
      rcases here.covered name ty bound with seen | ⟨p, same, _⟩
      · rw [Heap.sees_iff_owner?, found] at seen
        cases seen
      · exact ⟨p, same⟩
  · refine .bind (evaluate_scoped callee receiverOk known here) fun object w₁ yields => ?_
    obtain ⟨objects₁, passed₁, objectKnown⟩ := yields
    refine .bind (membersOf_scoped objectKnown) ?_
    rintro members w₁ ⟨rfl, mem⟩
    refine .read_bind ?_
    cases Value.lookup w₁.heap members name with
    | none => exact .failAt trivial
    | some _ =>
      have inside := passed₁.heap.objects_lt members mem
      have put : Passed H ∅ objects₁ w₁.heap objects₁ (w₁.heap.put members name v) :=
        .put passed₁.heap inside (Or.inr (Or.inl mem))
          ((passed₁.value value).mono subset_rfl (.put _ _ _ _))
      exact .put ⟨objects₁, passed₁.trans put⟩

/-- How a block in `s` ends. -/
def Finishes (H : Heap Ty) (s : ScopeId) (objects : Set ScopeId) (h : Heap Value) (flow : Flow)
    (w : World) : Prop :=
  ∃ objects', Passed H {s} objects h objects' w.heap ∧ flow.result.Scoped H objects' w.heap

/-- How a statement in `s` ends: what follows it may run in `s`. -/
def Proceeds (H : Heap Ty) (s : ScopeId) (Γ : Env) (objects : Set ScopeId) (h : Heap Value)
    (flow : Flow) (w : World) : Prop :=
  ∃ objects', Passed H {s} objects h objects' w.heap ∧ flow.result.Scoped H objects' w.heap ∧
    At objects' w.heap s Γ

/-- How a statement ends that declares nothing: like an expression. -/
def Quiet (H : Heap Ty) (objects : Set ScopeId) (h : Heap Value) (flow : Flow) (w : World) : Prop :=
  ∃ objects', Passed H ∅ objects h objects' w.heap ∧ flow.result.Scoped H objects' w.heap

/-- How a statement ends that declares `n`: what it evaluates passes like an expression, and then
`n`, which was free, is defined in the active scope. -/
def Defines (H : Heap Ty) (s : ScopeId) (n : String) (objects : Set ScopeId) (h : Heap Value)
    (flow : Flow) (w : World) : Prop :=
  ∃ objects' h' v, Passed H ∅ objects h objects' h' ∧ n ∉ (h'.bindings s).names ∧
    w.heap = h'.put s n v ∧ flow.result = v ∧ v.Scoped H objects' w.heap

theorem Quiet.after {flow : Flow} {w' : World} {objects' : Set ScopeId}
    (passed : Passed H ∅ objects w.heap objects' h) (quiet : Quiet H objects' h flow w') :
    Quiet H objects w.heap flow w' := by
  obtain ⟨objects'', second, result⟩ := quiet
  exact ⟨objects'', passed.trans second, result⟩

theorem Proceeds.of_quiet {k : Typed.StmtKind} {flow : Flow} {w' : World} (none : k.entries = [])
    (here : At objects w.heap s Γ) (quiet : Quiet H objects w.heap flow w') :
    Proceeds H s (Γ.after k) objects w.heap flow w' := by
  obtain ⟨objects', passed, known⟩ := quiet
  rw [Env.after_of_entries none]
  exact ⟨objects', passed.mono (Set.empty_subset _), known, here.next passed (Set.notMem_empty s)⟩

theorem Proceeds.of_defines {flow : Flow} {w' : World} {n : String} {t : Ty}
    (here : At objects w.heap s Γ) (defines : Defines H s n objects w.heap flow w') :
    Proceeds H s (Γ.declare n t) objects w.heap flow w' := by
  obtain ⟨objects', h', v, passed, _, put, rfl, known⟩ := defines
  have here' := here.next passed (Set.notMem_empty s)
  refine ⟨objects', (passed.mono (Set.empty_subset _)).trans ?_, known, ?_⟩
  · rw [put] at known ⊢
    exact .put passed.heap here'.inside (Or.inr (Or.inr rfl)) known
  · rw [put]
    exact here'.put n t _

/-- A block in a scope that was made for it. -/
theorem Finishes.of_fresh {flow : Flow} {fresh : ScopeId} {h' : Heap Value}
    {objects' : Set ScopeId} (made : Passed H ∅ objects h objects' h') (young : h.size ≤ fresh)
    (finishes : Finishes H fresh objects' h' flow w) :
    ∃ objects'', Passed H ∅ objects h objects'' w.heap ∧ flow.result.Scoped H objects'' w.heap := by
  obtain ⟨objects'', passed, result⟩ := finishes
  refine ⟨objects'', made.trans_fresh passed ?_, result⟩
  intro t mem old
  rw [Set.mem_singleton_iff.mp mem] at old
  exact absurd old (Nat.not_lt.mpr young)

/-- A block in a new scope inside the active one. -/
theorem Quiet.of_branch {flow : Flow} {w' : World} (known : w.heap.Scoped H objects)
    (finishes : Finishes H w.heap.size objects (w.heap.child s .empty).2 flow w') :
    Quiet H objects w.heap flow w' := by
  have made : Passed H ∅ objects w.heap objects (w.heap.child s .empty).2 :=
    .child known fun n v found => by simp at found
  exact Finishes.of_fresh made (Nat.le_refl _) finishes

theorem overElements_scoped {name : String} {ty : Ty} {body : ScopeId → Run Flow}
    (bodyEnds : ∀ (inner : ScopeId) (objects : Set ScopeId) (w : World), w.heap.Scoped H objects →
      At objects w.heap inner (Γ.inside [(name, ty)]) →
      Ends Uncaught (body inner) w (Finishes H inner objects w.heap)) :
    ∀ {elements : List Value} {objects : Set ScopeId} {w : World},
      (∀ v ∈ elements, ∃ n, v = .integer n) → w.heap.Scoped H objects → At objects w.heap s Γ →
      Ends Uncaught (overElements s name body elements) w (Quiet H objects w.heap) := by
  intro elements
  induction elements with
  | nil => exact fun _ known _ => .pure ⟨_, .refl known, trivial⟩
  | cons v rest ih =>
    intro objects w integers known here
    obtain ⟨n, rfl⟩ := integers _ List.mem_cons_self
    obtain ⟨made, inside⟩ := At.body (b := .ofList [(name, .integer n)])
      (Δ := Γ.inside [(name, ty)]) known here.inside here.covered
      (fun m v found => by
        obtain ⟨_, rfl⟩ := Bindings.eq_of_find?_single found
        trivial)
      (fun m mem => by
        rw [Bindings.names_single]
        exact mem) rfl
    refine .child_bind (.child_bind (.bind (bodyEnds _ objects _ made.heap inside) ?_))
    intro flow w₁ finishes
    obtain ⟨objects₁, passed₁, result⟩ :=
      Finishes.of_fresh made (Nat.le_of_lt (Heap.lt_size_child ..)) finishes
    cases flow with
    | returned v => exact .pure ⟨objects₁, passed₁, result⟩
    | value v =>
      refine (ih (fun v mem => integers v (List.mem_cons_of_mem _ mem)) passed₁.heap
        (here.next passed₁ (Set.notMem_empty s))).mono ?_
      exact fun _ _ quiet => .after passed₁ quiet

-- One lemma for each kind of statement says what it does to the active scope. The blocks in it are
-- hypotheses, so that the recursion below is over the tree.
section

variable {id : NodeId}

theorem letVar_defines (callee : Caller.Scoped H call) {name : String} {ty : Option String}
    {value : Option Expr} {b : Typed.Binding}
    (bound : Binding.Elaborates H Γ id ⟨name, ty, value⟩ b) (unbound : b.name ∉ Γ.own.map Prod.fst)
    (known : w.heap.Scoped H objects) (here : At objects w.heap s Γ) :
    Ends Uncaught (executeKind call s (.letVar ⟨name, ty, value⟩)) w
      (Defines H s name objects w.heap) := by
  have same : b.name = name := bound.name_eq
  rw [executeKind]
  refine .bind (evaluateOption_scoped callee bound known here) fun v w₁ yields => ?_
  obtain ⟨objects₁, passed₁, vKnown⟩ := yields
  have here₁ := here.next passed₁ (Set.notMem_empty s)
  have fresh : name ∉ (w₁.heap.bindings s).names := fun mem =>
    unbound (same ▸ here₁.own name mem)
  refine .bind (.define fresh) ?_
  rintro _ _ rfl
  exact .pure ⟨objects₁, w₁.heap, v, passed₁, fresh, rfl, rfl,
    vKnown.mono subset_rfl (.put _ _ _ _)⟩

theorem defFun_defines {d : Definition} {t : Typed.Definition}
    (defined : d.Elaborates H Γ id none t) (known : w.heap.Scoped H objects)
    (here : At objects w.heap s Γ) :
    Ends Uncaught (executeKind call s (.defFun d)) w (Defines H s d.name objects w.heap) := by
  have same : t.name = d.name := defined.name_eq
  have fresh : d.name ∉ (w.heap.bindings s).names := fun mem => defined.fresh (here.own _ mem)
  rw [executeKind]
  refine .bind (.checkParameters defined) ?_
  rintro _ w rfl
  refine .bind (.define fresh) ?_
  rintro _ _ rfl
  have here₁ := here.put d.name t.ty (.function (.closure ⟨d, s, false⟩))
  refine .pure ⟨objects, w.heap, _, .refl known, fresh, rfl, rfl, ?_⟩
  rw [same.symm] at here₁ ⊢
  exact ⟨here₁.inside, Γ, id, none, t, defined, rfl, here₁.covered⟩

theorem ifElse_quiet (callee : Caller.Scoped H call) {condition : Expr} {c : Typed.Expr}
    {thenBody elseBody : List Stmt} (conditionOk : condition.Elaborates H Γ c)
    (thenEnds : ∀ (inner : ScopeId) (objects : Set ScopeId) (w : World), w.heap.Scoped H objects →
      At objects w.heap inner (Γ.inside []) →
      Ends Uncaught (block call inner .nil thenBody) w (Finishes H inner objects w.heap))
    (elseEnds : ∀ (inner : ScopeId) (objects : Set ScopeId) (w : World), w.heap.Scoped H objects →
      At objects w.heap inner (Γ.inside []) →
      Ends Uncaught (block call inner .nil elseBody) w (Finishes H inner objects w.heap))
    (known : w.heap.Scoped H objects) (here : At objects w.heap s Γ) :
    Ends Uncaught (executeKind call s (.ifElse condition thenBody elseBody)) w
      (Quiet H objects w.heap) := by
  refine .ifElse ((evaluate_scoped callee conditionOk known here).mono ?_)
  rintro v w₁ ⟨objects₁, passed₁, _⟩
  have here₁ := here.next passed₁ (Set.notMem_empty s)
  have made : Passed H ∅ objects₁ w₁.heap objects₁ (w₁.heap.child s .empty).2 :=
    .child passed₁.heap fun n v found => by simp at found
  have inside := At.fresh passed₁.heap here₁.inside here₁.covered.inside
  have after : ∀ flow w₂, Finishes H w₁.heap.size objects₁ (w₁.heap.child s .empty).2 flow w₂ →
      Quiet H objects w.heap flow w₂ :=
    fun _ _ finishes => .after passed₁ (.of_branch passed₁.heap finishes)
  exact ⟨fun _ => (thenEnds _ _ _ made.heap inside).mono after,
    fun _ => (elseEnds _ _ _ made.heap inside).mono after, fun _ => trivial⟩

theorem forEach_quiet (callee : Caller.Scoped H call) {name : String} {ty : Ty} {iterable : Expr}
    {i : Typed.Expr} {body : List Stmt} (iterableOk : iterable.Elaborates H Γ i)
    (bodyEnds : ∀ (inner : ScopeId) (objects : Set ScopeId) (w : World), w.heap.Scoped H objects →
      At objects w.heap inner (Γ.inside [(name, ty)]) →
      Ends Uncaught (block call inner .nil body) w (Finishes H inner objects w.heap))
    (known : w.heap.Scoped H objects) (here : At objects w.heap s Γ) :
    Ends Uncaught (executeKind call s (.forEach name iterable body)) w
      (Quiet H objects w.heap) := by
  rw [executeKind]
  refine .bind (evaluate_scoped callee iterableOk known here) fun v w₁ yields => ?_
  obtain ⟨objects₁, passed₁, vKnown⟩ := yields
  have here₁ := here.next passed₁ (Set.notMem_empty s)
  split
  · exact (overElements_scoped bodyEnds vKnown passed₁.heap here₁).mono fun _ _ => .after passed₁
  · exact .failAt trivial

theorem returns_quiet (callee : Caller.Scoped H call) {k : Typed.StmtKind} :
    ∀ {value : Option Expr}, StmtKind.Elaborates H Γ id (.returns value) k →
      w.heap.Scoped H objects → At objects w.heap s Γ →
      Ends Uncaught (executeKind call s (.returns value)) w (Quiet H objects w.heap)
  | none, _, known, _ => by
    rw [executeKind, evaluateOption]
    exact .pure ⟨objects, .refl known, trivial⟩
  | some e, elaborates, known, here => by
    rw [StmtKind.Elaborates] at elaborates
    obtain ⟨_, _, _, _, elaborates, _⟩ := elaborates
    rw [executeKind, evaluateOption]
    exact .bind (evaluate_scoped callee elaborates known here) fun v w₁ yields => .pure yields

theorem expr_quiet (callee : Caller.Scoped H call) {e : Expr} {k : Typed.StmtKind}
    (elaborates : StmtKind.Elaborates H Γ id (.expr e) k) (known : w.heap.Scoped H objects)
    (here : At objects w.heap s Γ) :
    Ends Uncaught (executeKind call s (.expr e)) w (Quiet H objects w.heap) := by
  rw [StmtKind.Elaborates] at elaborates
  obtain ⟨_, _, elaborates⟩ := elaborates
  rw [executeKind]
  exact .bind (evaluate_scoped callee elaborates known here) fun v w₁ yields => .pure yields

theorem assign_quiet (callee : Caller.Scoped H call) {target value : Expr} {k : Typed.StmtKind}
    (elaborates : StmtKind.Elaborates H Γ id (.assign target value) k)
    (known : w.heap.Scoped H objects) (here : At objects w.heap s Γ) :
    Ends Uncaught (executeKind call s (.assign target value)) w (Quiet H objects w.heap) := by
  obtain ⟨node, kind⟩ := target
  obtain ⟨_, t, valueOk, _⟩ := elaborates.assign
  rw [executeKind]
  refine .bind (evaluate_scoped callee valueOk known here) fun v w₁ yields => ?_
  obtain ⟨objects₁, passed₁, vKnown⟩ := yields
  have here₁ := here.next passed₁ (Set.notMem_empty s)
  refine .bind (assign_scoped callee elaborates passed₁.heap here₁ vKnown) ?_
  rintro _ w₂ ⟨objects₂, passed₂⟩
  exact .pure (.after passed₁ ⟨objects₂, passed₂, passed₂.value vKnown⟩)

end

mutual

theorem execute_scoped (callee : Caller.Scoped H call) : ∀ {x : Stmt} {t : Typed.Stmt} {Γ : Env}
    {s : ScopeId} {objects : Set ScopeId} {w : World}, x.Elaborates H Γ t →
      w.heap.Scoped H objects → At objects w.heap s Γ →
      Ends Uncaught (execute call s x) w (Proceeds H s (Γ.after t.kind) objects w.heap)
  | ⟨node, kind⟩, t, Γ, s, objects, w, elaborates, known, here => by
    rw [Stmt.Elaborates] at elaborates
    rw [execute]
    exact .located (executeKind_scoped callee elaborates.2 known here)

theorem executeKind_scoped (callee : Caller.Scoped H call) {id : NodeId} : ∀ {x : StmtKind}
    {k : Typed.StmtKind} {Γ : Env} {s : ScopeId} {objects : Set ScopeId} {w : World},
      x.Elaborates H Γ id k → w.heap.Scoped H objects → At objects w.heap s Γ →
      Ends Uncaught (executeKind call s x) w (Proceeds H s (Γ.after k) objects w.heap)
  | .letVar ⟨name, ty, value⟩, k, Γ, s, objects, w, elaborates, known, here => by
    rw [StmtKind.Elaborates] at elaborates
    obtain ⟨b, rfl, bound, unbound⟩ := elaborates
    have same : b.name = name := bound.name_eq
    refine (letVar_defines callee bound unbound known here).mono fun _ _ defines => ?_
    rw [← same] at defines
    exact .of_defines here defines
  | .defFun d, k, Γ, s, objects, w, elaborates, known, here => by
    rw [StmtKind.Elaborates] at elaborates
    obtain ⟨t, rfl, defined⟩ := elaborates
    have same : t.name = d.name := defined.name_eq
    refine (defFun_defines defined known here).mono fun _ _ defines => ?_
    rw [← same] at defines
    exact .of_defines here defines
  | .ifElse condition thenBody elseBody, k, Γ, s, objects, w, elaborates, known, here => by
    rw [StmtKind.Elaborates] at elaborates
    obtain ⟨c, a, b, rfl, conditionOk, _, thenOk, elseOk⟩ := elaborates
    exact (ifElse_quiet callee conditionOk
      (fun inner objects w known here => block_scoped callee thenOk known here .nil)
      (fun inner objects w known here => block_scoped callee elseOk known here .nil)
      known here).mono fun _ _ => .of_quiet rfl here
  | .forEach name iterable body, k, Γ, s, objects, w, elaborates, known, here => by
    rw [StmtKind.Elaborates] at elaborates
    obtain ⟨ty, i, b, rfl, iterableOk, _, _, bodyOk⟩ := elaborates
    exact (forEach_quiet callee iterableOk (fun inner objects w known here =>
      block_scoped callee bodyOk known here .nil) known here).mono fun _ _ => .of_quiet rfl here
  | .returns value, k, Γ, s, objects, w, elaborates, known, here =>
    (returns_quiet callee elaborates known here).mono fun _ _ =>
      .of_quiet (elaborates.entries_eq_nil rfl) here
  | .expr e, k, Γ, s, objects, w, elaborates, known, here =>
    (expr_quiet callee elaborates known here).mono fun _ _ =>
      .of_quiet (elaborates.entries_eq_nil rfl) here
  | .assign target value, k, Γ, s, objects, w, elaborates, known, here =>
    (assign_quiet callee elaborates known here).mono fun _ _ =>
      .of_quiet (elaborates.entries_eq_nil rfl) here

theorem block_scoped (callee : Caller.Scoped H call) : ∀ {xs : List Stmt} {ts : List Typed.Stmt}
    {Γ : Env} {s : ScopeId} {objects : Set ScopeId} {w : World} {last : Value},
      Stmt.ElaborateAll H Γ xs ts → w.heap.Scoped H objects → At objects w.heap s Γ →
      last.Scoped H objects w.heap →
      Ends Uncaught (block call s last xs) w (Finishes H s objects w.heap)
  | [], ts, Γ, s, objects, w, last, _, known, _, lastKnown => by
    rw [block]
    exact .pure ⟨objects, .refl known, lastKnown⟩
  | x :: rest, ts, Γ, s, objects, w, last, elaborates, known, here, _ => by
    rw [Stmt.ElaborateAll] at elaborates
    obtain ⟨t, _, rfl, first, following⟩ := elaborates
    rw [block]
    refine .bind (execute_scoped callee first known here) fun flow w₁ proceeds => ?_
    obtain ⟨objects₁, passed₁, result, here₁⟩ := proceeds
    cases flow with
    | returned v => exact .pure ⟨objects₁, passed₁, result⟩
    | value v =>
      refine (block_scoped callee following passed₁.heap here₁ result).mono ?_
      rintro flow w₂ ⟨objects₂, passed₂, result⟩
      exact ⟨objects₂, passed₁.trans passed₂, result⟩

end

/-! ### Calls -/

theorem enter_scoped (callee : Caller.Scoped H call) : Caller.Scoped H (enter call) := by
  intro f arguments objects w known function all
  obtain ⟨inside, Γ, id, this, t, elaborates, kind, covered⟩ := function
  have own := boundNames_eq Γ kind elaborates.paramNames_eq
  have bodyOk := elaborates.body
  refine .enter (fun _ _ => trivial) (fun _ => trivial) (fun method => ?_) fun count => ?_
  · rw [← method, kind]
    exact .checkParameters elaborates
  · have long : f.boundNames.length ≤ arguments.length := by
      rw [f.length_boundNames]
      exact Nat.le_of_eq count.symm
    obtain ⟨made, here⟩ := At.body (b := .ofList (f.boundNames.zip arguments))
      (Δ := Γ.body this t) known inside covered
      (fun n v found => all v (List.of_mem_zip (Bindings.mem_of_find?_ofList found)).2)
      (fun n mem => by
        rw [Bindings.mem_names_ofList, List.map_fst_zip long, ← own]
        exact mem) rfl
    refine .child_bind (.child_bind (.bind (block_scoped callee bodyOk made.heap here .nil) ?_))
    intro flow w₁ finishes
    obtain ⟨objects₁, passed, result⟩ :=
      Finishes.of_fresh made (Nat.le_of_lt (Heap.lt_size_child ..)) finishes
    cases flow with
    | value v => exact .pure ⟨objects₁, passed, .nil⟩
    | returned v => exact .pure ⟨objects₁, passed, result⟩

theorem callClosure_scoped (H : Heap Ty) : ∀ depth, Caller.Scoped H (callClosure depth)
  | 0 => fun _ _ _ _ _ _ _ => .tooDeep trivial
  | depth + 1 => enter_scoped (callClosure_scoped H depth)

/-! ### Scripts -/

theorem statements_scoped (callee : Caller.Scoped H call) : ∀ {xs : List Stmt}
    {ts : List Typed.Stmt} {Γ : Env} {objects : Set ScopeId} {w : World} {last : Value},
      Stmt.ElaborateAll H Γ xs ts → w.heap.Scoped H objects → At objects w.heap s Γ →
      Ends Uncaught (statements call s last xs) w fun _ w' =>
        ∃ objects', Passed H {s} objects w.heap objects' w'.heap
  | [], _, _, _, _, _, _, known, _ => .pure ⟨_, .refl known⟩
  | x :: rest, ts, Γ, objects, w, last, elaborates, known, here => by
    rw [Stmt.ElaborateAll] at elaborates
    obtain ⟨t, _, rfl, first, following⟩ := elaborates
    rw [statements]
    refine .bind (execute_scoped callee first known here) fun flow w₁ proceeds => ?_
    obtain ⟨objects₁, passed₁, _, here₁⟩ := proceeds
    cases flow with
    | returned v => exact .failAt trivial
    | value v =>
      refine (statements_scoped callee following passed₁.heap here₁).mono ?_
      rintro _ w₂ ⟨objects₂, passed₂⟩
      exact ⟨objects₂, passed₁.trans passed₂⟩

end Run

/-! ## From the prelude on -/

namespace RunSession

/-- The objects of the prelude. -/
def startObjects (fixtures : Bool) : List ScopeId := if fixtures then [0, 1] else []

/-- No scope of a prelude is inside another one. -/
theorem start_parent? (fixtures : Bool) (s : ScopeId) :
    (start fixtures).heap.parent? s = none := by
  have all : ∀ s < (start fixtures).heap.size, (start fixtures).heap.parent? s = none := by
    cases fixtures <;> decide
  by_cases inside : s < (start fixtures).heap.size
  · exact all s inside
  · exact Heap.parent?_eq_none_of_ge (Nat.le_of_not_lt inside)

/-- What a prelude may hold: no closures, and no objects but its own. -/
def isStartValue (objects : List ScopeId) : Value → Bool
  | .function (.closure _) => false
  | .object _ members => objects.contains members
  | .iterable elements => elements.all fun v => v.kind == .integer
  | _ => true

theorem start_holds (fixtures : Bool) :
    (start fixtures).heap.Holds fun v => isStartValue (startObjects fixtures) v = true := by
  have values : ∀ t < (start fixtures).heap.size,
      ∀ e ∈ ((start fixtures).heap.bindings t).entries,
        isStartValue (startObjects fixtures) e.2 = true := by
    cases fixtures <;> decide
  intro t n v found
  exact values t (Heap.lt_size_of_resolveLocal found) _ (Bindings.mem_of_find? found)

/-- A sequence of the prelude holds integers. -/
theorem exists_integer_of_isStartValue {objects : List ScopeId} {elements : List Value} {v : Value}
    (start : isStartValue objects (.iterable elements) = true) (mem : v ∈ elements) :
    ∃ n, v = .integer n := by
  have integer : v.kind = .integer := by
    simp only [isStartValue, List.all_eq_true, beq_iff_eq] at start
    exact start v mem
  cases v with
  | integer n => exact ⟨n, rfl⟩
  | _ => cases integer

theorem scoped_of_isStartValue {H : Heap Ty} {h : Heap Value} {objects : List ScopeId} {v : Value}
    (start : isStartValue objects v = true) : v.Scoped H {m | m ∈ objects} h := by
  cases v with
  | function f =>
    cases f with
    | builtin f => trivial
    | closure f => cases start
  | object name members =>
    have mem : members ∈ objects := by simpa [isStartValue] using start
    exact mem
  | iterable elements =>
    exact fun v mem => exists_integer_of_isStartValue start mem
  | _ => trivial

theorem start_scoped (H : Heap Ty) (fixtures : Bool) :
    (start fixtures).heap.Scoped H {m | m ∈ startObjects fixtures} := by
  have objects_lt : ∀ m ∈ startObjects fixtures, m < (start fixtures).heap.size := by
    cases fixtures <;> decide
  exact ⟨objects_lt, fun t n v found => scoped_of_isStartValue (start_holds fixtures t n v found)⟩

/-- The two preludes bind the same names, but for those of the primitive types. -/
theorem start_at (fixtures : Bool) :
    Run.At {m | m ∈ startObjects fixtures} (start fixtures).heap (start fixtures).scope
      (Env.of (CheckSession.start fixtures).heap
        { scope := (CheckSession.start fixtures).scope }) where
  inside := by cases fixtures <;> decide
  apart := by cases fixtures <;> decide
  covered := by
    have all : ∀ e ∈ (Env.of (CheckSession.start fixtures).heap
        { scope := (CheckSession.start fixtures).scope }).bound,
        e.1 ∈ ((start fixtures).heap.bindings (start fixtures).scope).names ∨
          ∃ p ∈ Primitive.all, e = (p.name, .prim p) := by
      cases fixtures <;> decide
    intro n t found
    obtain ⟨before, after, same, _⟩ := List.lookup_eq_some_iff.mp found
    rcases all (n, t) (same ▸ by simp) with bound | ⟨p, _, same⟩
    · exact Or.inl (.of_bound bound)
    · exact Or.inr ⟨p, (Prod.mk.inj same).1, (Prod.mk.inj same).2⟩
  own := by cases fixtures <;> decide

end RunSession

/-- No run of an accepted script, however deeply its calls are nested, stops because a name is
defined twice or a function is not there. A variable that is not there is the name of a primitive
type. -/
theorem Script.uncaught_of_check (fixtures : Bool) {p : Script} {typed : List Typed.Stmt}
    (ok : (p.check fixtures).1 = .ok typed) (depth : Nat) {fault : Located EvalError} {w : World}
    (stopped : Run.script depth (RunSession.start fixtures).scope p
      ⟨(RunSession.start fixtures).heap, #[]⟩ = .error (.fault fault) w) :
    fault.cause.Uncaught := by
  have elaborates := (CheckSession.start_closed fixtures).elaborates ok
  rw [Run.script] at stopped
  exact (Run.statements_scoped (Run.callClosure_scoped _ depth) elaborates
    (RunSession.start_scoped _ fixtures) (RunSession.start_at fixtures)).of_error stopped

/-- A function that calls itself, and the name of a type where a variable is wanted. -/
def typeNameScript : Script :=
  ⟨[⟨default, .defFun ⟨"down", [⟨"n", some "Integer"⟩], some "Integer",
      [⟨default, .ifElse
        ⟨default, .binary .le ⟨default, .variable "n"⟩ ⟨default, .literal (.integer 0)⟩⟩
        [⟨default, .returns (some ⟨default, .variable "Integer"⟩)⟩]
        [⟨default, .returns (some ⟨default, .call "down" [⟨default, .binary .sub
          ⟨default, .variable "n"⟩ ⟨default, .literal (.integer 1)⟩⟩]⟩)⟩]⟩]⟩⟩,
    ⟨default, .expr ⟨default, .call "down" [⟨default, .literal (.integer 2)⟩]⟩⟩]⟩

theorem Script.uncaught_of_check_typeName :
    ∃ typed fault w, (typeNameScript.check false).1 = .ok typed ∧
      Run.script 5 (RunSession.start false).scope typeNameScript
        ⟨(RunSession.start false).heap, #[]⟩ = .error (.fault fault) w ∧
      fault.cause.Uncaught := by
  obtain ⟨fault, w, stopped, _⟩ := Run.exists_of_cause?
    (show Run.cause? (Run.script 5 (RunSession.start false).scope typeNameScript)
      ⟨(RunSession.start false).heap, #[]⟩ = some (.undefinedVariable "Integer") by decide +kernel)
  exact ⟨_, fault, w, rfl, stopped, Script.uncaught_of_check false rfl 5 stopped⟩

end GradualScript
