/-
# GradualScript.Proofs.Check.Succeeds -- what the checker has done where it succeeds

The functions of the checker, read backward: which parts were checked, in which heaps, and what was
judged about them. Proofs about accepted scripts go by these lemmas, and do not open the functions.
-/

import GradualScript.Check.Walk
import GradualScript.Proofs.Scope.Growth

namespace GradualScript

/-! ## Steps that succeed -/

namespace Check

variable {α β : Type} {h h' : Heap Ty}

/-- Steps in a row succeed if each of them does, in the heap that the one before has left. -/
@[simp] theorem bind_ok {x : Check α} {f : α → Check β} {b : β} :
    (x >>= f) h = .ok b h' ↔ ∃ a h₁, x h = .ok a h₁ ∧ f a h₁ = .ok b h' := by
  simp only [bind, EStateM.bind]
  cases x h with
  | ok a h₁ => simp
  | error fault h₁ => simp

@[simp] theorem pure_ok {a b : α} : (pure a : Check α) h = .ok b h' ↔ b = a ∧ h' = h := by
  simp only [pure, EStateM.pure, EStateM.Result.ok.injEq]
  constructor
  · rintro ⟨rfl, rfl⟩
    exact ⟨rfl, rfl⟩
  · rintro ⟨rfl, rfl⟩
    exact ⟨rfl, rfl⟩

@[simp] theorem fail_ok {cause : CheckError} {a : α} :
    (fail cause : Check α) h = .ok a h' ↔ False :=
  ⟨fun same => (by cases same), False.elim⟩

@[simp] theorem failAt_ok {node : NodeRef} {cause : CheckError} {a : α} :
    (failAt node cause : Check α) h = .ok a h' ↔ False :=
  ⟨fun same => (by cases same), False.elim⟩

/-- To a step that succeeds it does not matter where its fault would have been. -/
@[simp] theorem located_ok {node : NodeRef} {x : Check α} {a : α} :
    located node x h = .ok a h' ↔ x h = .ok a h' := by
  simp only [located]
  cases x h <;> simp

/-- A rule of typing reads the heap and leaves it as it is. -/
@[simp] theorem rule_ok {result : Heap Ty → Except CheckError α} {a : α} :
    rule result h = .ok a h' ↔ result h = .ok a ∧ h' = h := by
  simp only [rule]
  cases result h with
  | ok b => simp [eq_comm]
  | error cause => simp

/-- A new scope has the next number that is free. -/
@[simp] theorem child_ok {s t : ScopeId} {b : Bindings Ty} :
    child s b h = .ok t h' ↔ t = h.size ∧ h' = (h.child s b).2 := by
  simp [child, eq_comm]

@[simp] theorem root_ok {t : ScopeId} :
    root h = .ok t h' ↔ t = h.size ∧ h' = (h.root .empty).2 := by
  simp only [root, EStateM.Result.ok.injEq, Heap.root_fst]
  constructor
  · rintro ⟨rfl, rfl⟩
    exact ⟨rfl, rfl⟩
  · rintro ⟨rfl, rfl⟩
    exact ⟨rfl, rfl⟩

/-- A scope takes a name that it does not bind yet. -/
@[simp] theorem define_ok {s : ScopeId} {name : String} {t : Ty} {cause : CheckError} {u : Unit} :
    define s name t cause h = .ok u h' ↔ h.binds s name = false ∧ h' = h.put s name t := by
  simp only [define]
  cases h.binds s name <;> simp [eq_comm]

@[simp] theorem resolve_ok {s : ScopeId} {name : String} {t : Ty} {cause : CheckError} :
    resolve s name cause h = .ok t h' ↔ h.resolve s name = some t ∧ h' = h := by
  simp only [resolve]
  cases h.resolve s name <;> simp [eq_comm]

@[simp] theorem requireSubtype_ok {sub sup : Ty} {cause : CheckError} {u : Unit} :
    requireSubtype sub sup cause h = .ok u h' ↔ sub.isSubtype h sup = true ∧ h' = h := by
  simp only [requireSubtype]
  cases sub.isSubtype h sup <;> simp [eq_comm]

@[simp] theorem requireCount_ok {callee : String} {expected found : Nat} {u : Unit} :
    requireCount callee expected found h = .ok u h' ↔ found = expected ∧ h' = h := by
  unfold requireCount
  split <;> simp [*]

/-! ## Parts that are accepted -/

variable {ctx : Context} {id : NodeId} {target : ScopeId}

-- The equations of these functions are made here, once for all the proofs below.
attribute [local simp] expr exprKind exprs argumentList binding fields definition methods stmt
  stmtKind block

/-- An expression keeps its identity, and has the type that its kind has. -/
theorem expr_ok {e : Expr} {t : Typed.Expr} (ok : expr ctx e h = .ok t h') :
    ∃ kind ty, exprKind ctx e.kind h = .ok (kind, ty) h' ∧ t = ⟨e.node.id, ty, kind⟩ := by
  obtain ⟨node, kind⟩ := e
  rw [expr, located_ok] at ok
  simp only [bind_ok, pure_ok] at ok
  obtain ⟨⟨k, ty⟩, _, found, rfl, rfl⟩ := ok
  exact ⟨k, ty, found, rfl⟩

theorem stmt_ok {s : Stmt} {t : Typed.Stmt} (ok : stmt ctx s h = .ok t h') :
    ∃ kind, stmtKind ctx s.node.id s.kind h = .ok kind h' ∧ t = ⟨s.node.id, kind⟩ := by
  obtain ⟨node, kind⟩ := s
  rw [stmt, located_ok] at ok
  simp only [bind_ok, pure_ok] at ok
  obtain ⟨k, _, found, rfl, rfl⟩ := ok
  exact ⟨k, found, rfl⟩

/-! ### Parts in a row -/

/-- Expressions are checked from left to right, each in the heap that the ones before it have
left. -/
theorem exprs_cons_ok {e : Expr} {es : List Expr} {ts : List Typed.Expr}
    (ok : exprs ctx (e :: es) h = .ok ts h') : ∃ t more h₁, expr ctx e h = .ok t h₁ ∧
      exprs ctx es h₁ = .ok more h' ∧ ts = t :: more := by
  rw [exprs] at ok
  simp only [bind_ok, pure_ok] at ok
  obtain ⟨t, h₁, first, more, _, rest, rfl, rfl⟩ := ok
  exact ⟨t, more, h₁, first, rest, rfl⟩

/-- An argument is held against its parameter before the next one is looked at. -/
theorem argumentList_cons_ok {callee : String} {index : Nat} {p : Ty} {params : List Ty} {e : Expr}
    {es : List Expr} {ts : List Typed.Expr}
    (ok : argumentList ctx callee index (p :: params) (e :: es) h = .ok ts h') :
    ∃ t more h₁, expr ctx e h = .ok t h₁ ∧ t.ty.isSubtype h₁ p = true ∧
      argumentList ctx callee (index + 1) params es h₁ = .ok more h' ∧ ts = t :: more := by
  rw [argumentList] at ok
  simp only [bind_ok, located_ok, requireSubtype_ok, pure_ok] at ok
  obtain ⟨t, _, first, _, _, ⟨judged, rfl⟩, more, _, rest, rfl, rfl⟩ := ok
  exact ⟨t, more, _, first, judged, rest, rfl⟩

/-- A field is among the members before the next one is checked. -/
theorem fields_cons_ok {f : Field} {fs : List Field} {ts : List Typed.Binding}
    (ok : fields ctx target (f :: fs) h = .ok ts h') :
    ∃ t more h₁, binding ctx f.node.id target f.binding h = .ok t h₁ ∧
      fields ctx target fs h₁ = .ok more h' ∧ ts = t :: more := by
  obtain ⟨node, b⟩ := f
  rw [fields] at ok
  simp only [bind_ok, located_ok, pure_ok] at ok
  obtain ⟨t, h₁, first, more, _, rest, rfl, rfl⟩ := ok
  exact ⟨t, more, h₁, first, rest, rfl⟩

/-- A method is among the members before the next one is checked, which may therefore call it. -/
theorem methods_cons_ok {this : Ty} {m : Method} {ms : List Method} {ts : List Typed.Definition}
    (ok : methods ctx this (m :: ms) h = .ok ts h') :
    ∃ t more h₁, definition ctx m.node.id (some this) m.definition h = .ok t h₁ ∧
      methods ctx this ms h₁ = .ok more h' ∧ ts = t :: more := by
  obtain ⟨node, d⟩ := m
  rw [methods] at ok
  simp only [bind_ok, located_ok, pure_ok] at ok
  obtain ⟨t, h₁, first, more, _, rest, rfl, rfl⟩ := ok
  exact ⟨t, more, h₁, first, rest, rfl⟩

theorem block_cons_ok {s : Stmt} {ss : List Stmt} {ts : List Typed.Stmt}
    (ok : block ctx (s :: ss) h = .ok ts h') : ∃ t more h₁, stmt ctx s h = .ok t h₁ ∧
      block ctx ss h₁ = .ok more h' ∧ ts = t :: more := by
  rw [block] at ok
  simp only [bind_ok, pure_ok] at ok
  obtain ⟨t, h₁, first, more, _, rest, rfl, rfl⟩ := ok
  exact ⟨t, more, h₁, first, rest, rfl⟩

/-! ### Bindings and definitions -/

/-- Without a value the name has the type of its annotation, and without that it is `Dynamic`. -/
theorem binding_none_ok {name : String} {ty : Option String} {t : Typed.Binding}
    (ok : binding ctx id target ⟨name, ty, none⟩ h = .ok t h') :
    ∃ declared h₁, annotation? ctx ty h = .ok declared h₁ ∧ h₁.binds target name = false ∧
      h' = h₁.put target name (declared.getD .dynamic) ∧
      t = ⟨id, name, declared.getD .dynamic, none⟩ := by
  rw [binding] at ok
  simp only [bind_ok, define_ok, pure_ok] at ok
  obtain ⟨declared, h₁, annotated, _, _, ⟨fresh, rfl⟩, rfl, rfl⟩ := ok
  exact ⟨declared, h₁, annotated, fresh, rfl, rfl⟩

/-- The value is checked while the name is not bound yet, and its type has to be below that of the
annotation, if there is one. -/
theorem binding_some_ok {name : String} {ty : Option String} {e : Expr} {t : Typed.Binding}
    (ok : binding ctx id target ⟨name, ty, some e⟩ h = .ok t h') :
    ∃ declared h₁ v h₂, annotation? ctx ty h = .ok declared h₁ ∧ expr ctx e h₁ = .ok v h₂ ∧
      v.ty.isSubtype h₂ (declared.getD v.ty) = true ∧ h₂.binds target name = false ∧
      h' = h₂.put target name (declared.getD v.ty) ∧
      t = ⟨id, name, declared.getD v.ty, some v⟩ := by
  rw [binding] at ok
  simp only [bind_ok, located_ok, requireSubtype_ok, define_ok, pure_ok] at ok
  obtain ⟨declared, h₁, annotated, v, _, value, _, h₂, ⟨judged, rfl⟩, _, _, ⟨fresh, rfl⟩, rfl,
    rfl⟩ := ok
  exact ⟨declared, h₁, v, _, annotated, value, judged, fresh, rfl, rfl⟩

/-- A function is bound, with the types of its head, before its body is checked, so it may call
itself. The body is checked in a new scope with the parameters and has to return what the head
says. -/
theorem definition_ok {this : Option Ty} {d : Definition} {t : Typed.Definition}
    (ok : definition ctx id this d h = .ok t h') :
    ∃ result h₁ ps h₂ b h₃ body, annotationOrDynamic ctx d.returns h = .ok result h₁ ∧
      params ctx [] d.params h₁ = .ok ps h₂ ∧ h₂.binds ctx.scope d.name = false ∧
      bodyBindings this ps
        (h₂.put ctx.scope d.name (.function (ps.map Typed.Param.ty) result)) = .ok b h₃ ∧
      block { ctx with scope := h₃.size, returns := some result } d.body
        (h₃.child ctx.scope b).2 = .ok body h' ∧
      t = ⟨id, d.name, ps, result, body⟩ := by
  obtain ⟨name, list, returns, statements⟩ := d
  rw [definition] at ok
  simp only [bind_ok, define_ok, child_ok, pure_ok] at ok
  obtain ⟨result, h₁, annotated, ps, h₂, list, _, _, ⟨fresh, rfl⟩, b, h₃, bound, _, _, ⟨rfl, rfl⟩,
    body, _, checked, rfl, rfl⟩ := ok
  exact ⟨result, h₁, ps, h₂, b, h₃, body, annotated, list, fresh, bound, checked, rfl⟩

/-! ### Expressions -/

section

variable {t : Typed.ExprKind × Ty} {name : String}

theorem literal_ok {value : Literal} (ok : exprKind ctx (.literal value) h = .ok t h') :
    t = (.literal value, value.ty) ∧ h' = h := by
  rw [exprKind, pure_ok] at ok
  exact ok

theorem group_ok {inner : Expr} (ok : exprKind ctx (.group inner) h = .ok t h') :
    ∃ i, expr ctx inner h = .ok i h' ∧ t = (.group i, i.ty) := by
  rw [exprKind] at ok
  simp only [bind_ok, pure_ok] at ok
  obtain ⟨i, _, found, rfl, rfl⟩ := ok
  exact ⟨i, found, rfl⟩

/-- Both operands are checked, whatever the left one is; then the rule of the operator is asked. -/
theorem binary_ok {op : BinaryOp} {left right : Expr}
    (ok : exprKind ctx (.binary op left right) h = .ok t h') :
    ∃ l r h₁ ty, expr ctx left h = .ok l h₁ ∧ expr ctx right h₁ = .ok r h' ∧
      op.type h' l.ty r.ty = .ok ty ∧ t = (.binary op l r, ty) := by
  rw [exprKind] at ok
  simp only [bind_ok, rule_ok, pure_ok] at ok
  obtain ⟨l, h₁, first, r, _, second, ty, _, ⟨judged, rfl⟩, rfl, rfl⟩ := ok
  exact ⟨l, r, h₁, ty, first, second, judged, rfl⟩

theorem variable_ok (ok : exprKind ctx (.variable name) h = .ok t h') :
    ∃ ty, h.resolve ctx.scope name = some ty ∧ t = (.variable name, ty) ∧ h' = h := by
  rw [exprKind] at ok
  simp only [bind_ok, resolve_ok, pure_ok] at ok
  obtain ⟨ty, _, ⟨found, rfl⟩, rfl, rfl⟩ := ok
  exact ⟨ty, found, rfl, rfl⟩

/-- A property has the type of the member that the type of its receiver has. -/
theorem property_ok {receiver : Expr} (ok : exprKind ctx (.property receiver name) h = .ok t h') :
    ∃ r ty, expr ctx receiver h = .ok r h' ∧ memberType h' r.ty name .property = .ok ty ∧
      t = (.property r name, ty) := by
  rw [exprKind] at ok
  simp only [bind_ok, rule_ok, pure_ok] at ok
  obtain ⟨r, _, found, ty, _, ⟨judged, rfl⟩, rfl, rfl⟩ := ok
  exact ⟨r, ty, found, judged, rfl⟩

/-- A function is called by a name that stands for a function type with as many parameters as there
are arguments. -/
theorem call_ok {arguments : List Expr} (ok : exprKind ctx (.call name arguments) h = .ok t h') :
    ∃ params returns ts, h.resolve ctx.scope name = some (.function params returns) ∧
      arguments.length = params.length ∧ argumentList ctx name 0 params arguments h = .ok ts h' ∧
      t = (.call name ts, returns) := by
  rw [exprKind] at ok
  simp only [bind_ok, resolve_ok] at ok
  obtain ⟨callee, _, ⟨found, rfl⟩, ok⟩ := ok
  cases callee with
  | prim p => simp at ok
  | object n members => simp at ok
  | function params returns =>
    simp only [bind_ok, requireCount_ok, pure_ok] at ok
    obtain ⟨_, _, ⟨count, rfl⟩, ts, _, given, rfl, rfl⟩ := ok
    exact ⟨params, returns, ts, found, count, given, rfl⟩

/-- A member is called if it is `Dynamic`, with any arguments, or a function. -/
theorem invoke_ok {receiver : Expr} {arguments : List Expr}
    (ok : exprKind ctx (.invoke receiver name arguments) h = .ok t h') :
    ∃ r h₁ ts, expr ctx receiver h = .ok r h₁ ∧
      ((memberType h₁ r.ty name .method = .ok .dynamic ∧ exprs ctx arguments h₁ = .ok ts h' ∧
          t = (.invoke r name ts, .dynamic)) ∨
        ∃ params returns, memberType h₁ r.ty name .method = .ok (.function params returns) ∧
          arguments.length = params.length ∧
          argumentList ctx name 0 params arguments h₁ = .ok ts h' ∧
          t = (.invoke r name ts, returns)) := by
  rw [exprKind] at ok
  simp only [bind_ok, rule_ok] at ok
  obtain ⟨r, h₁, found, callee, _, ⟨member, rfl⟩, ok⟩ := ok
  split at ok
  · simp only [bind_ok, pure_ok] at ok
    obtain ⟨ts, _, given, rfl, rfl⟩ := ok
    exact ⟨r, _, ts, found, Or.inl ⟨member, given, rfl⟩⟩
  · simp only [bind_ok, requireCount_ok, pure_ok] at ok
    obtain ⟨_, _, ⟨count, rfl⟩, ts, _, given, rfl, rfl⟩ := ok
    exact ⟨r, _, ts, found, Or.inr ⟨_, _, member, count, given, rfl⟩⟩
  · simp at ok

/-- The members get a new scope that nothing is around. The fields are checked outside of it, the
methods inside, with annotations read where the object stands and no result of a function around. -/
theorem object_ok {name : Option String} {fieldList : List Field} {methodList : List Method}
    (ok : exprKind ctx (.object name fieldList methodList) h = .ok t h') :
    ∃ bs ds h₁, fields ctx h.size fieldList (h.root .empty).2 = .ok bs h₁ ∧
      methods ⟨h.size, some (ctx.annotations.getD ctx.scope), none⟩ (.object name h.size) methodList
        h₁ = .ok ds h' ∧
      t = (.object name bs ds, .object name h.size) := by
  rw [exprKind] at ok
  simp only [bind_ok, root_ok, pure_ok] at ok
  obtain ⟨_, _, ⟨rfl, rfl⟩, bs, h₁, first, ds, _, second, rfl, rfl⟩ := ok
  exact ⟨bs, ds, h₁, first, second, rfl⟩

end

/-! ### Statements -/

section

variable {t : Typed.StmtKind}

theorem letVar_ok {b : Binding} (ok : stmtKind ctx id (.letVar b) h = .ok t h') :
    ∃ b', binding ctx id ctx.scope b h = .ok b' h' ∧ t = .letVar b' := by
  rw [stmtKind] at ok
  simp only [bind_ok, pure_ok] at ok
  obtain ⟨b', _, found, rfl, rfl⟩ := ok
  exact ⟨b', found, rfl⟩

theorem defFun_ok {d : Definition} (ok : stmtKind ctx id (.defFun d) h = .ok t h') :
    ∃ d', definition ctx id none d h = .ok d' h' ∧ t = .defFun d' := by
  rw [stmtKind] at ok
  simp only [bind_ok, pure_ok] at ok
  obtain ⟨d', _, found, rfl, rfl⟩ := ok
  exact ⟨d', found, rfl⟩

/-- Each branch is checked in a new scope, the second one in the heap that the first has left. -/
theorem ifElse_ok {condition : Expr} {thenBody elseBody : List Stmt}
    (ok : stmtKind ctx id (.ifElse condition thenBody elseBody) h = .ok t h') :
    ∃ c a b h₁ h₂, expr ctx condition h = .ok c h₁ ∧ BinaryOp.isBooleanLike c.ty = true ∧
      block { ctx with scope := h₁.size } thenBody (h₁.child ctx.scope .empty).2 = .ok a h₂ ∧
      block { ctx with scope := h₂.size } elseBody (h₂.child ctx.scope .empty).2 = .ok b h' ∧
      t = .ifElse c a b := by
  rw [stmtKind] at ok
  simp only [bind_ok] at ok
  obtain ⟨c, h₁, first, ok⟩ := ok
  split at ok
  case isTrue => simp at ok
  case isFalse booleanLike =>
    simp only [bind_ok, child_ok, pure_ok] at ok
    obtain ⟨_, _, ⟨rfl, rfl⟩, a, h₂, second, _, _, ⟨rfl, rfl⟩, b, _, third, rfl, rfl⟩ := ok
    exact ⟨c, a, b, h₁, h₂, first, by simpa using booleanLike, second, third, rfl⟩

/-- The body is checked once, in a new scope with the name of the loop, which stands for an integer
unless nothing is known of the sequence. -/
theorem forEach_ok {name : String} {iterable : Expr} {body : List Stmt}
    (ok : stmtKind ctx id (.forEach name iterable body) h = .ok t h') :
    ∃ i ty b h₁, expr ctx iterable h = .ok i h₁ ∧ i.ty.isSubtype h₁ .iterable = true ∧
      ty = (if i.ty.isDynamic then Ty.dynamic else .integer) ∧
      block { ctx with scope := h₁.size } body (h₁.child ctx.scope (.ofList [(name, ty)])).2 =
        .ok b h' ∧
      t = .forEach name ty i b := by
  rw [stmtKind] at ok
  simp only [bind_ok, requireSubtype_ok, child_ok, pure_ok] at ok
  obtain ⟨i, _, first, _, h₁, ⟨judged, rfl⟩, _, _, ⟨rfl, rfl⟩, b, _, second, rfl, rfl⟩ := ok
  exact ⟨i, _, b, _, first, judged, rfl, second, rfl⟩

/-- A `RETURN` stands in a function, and one without a value returns `Nil`. -/
theorem returns_none_ok (ok : stmtKind ctx id (.returns none) h = .ok t h') :
    ∃ expected, ctx.returns = some expected ∧ Ty.nil.isSubtype h expected = true ∧
      t = .returns none ∧ h' = h := by
  rw [stmtKind] at ok
  cases result : ctx.returns with
  | none => simp [result] at ok
  | some expected =>
    simp only [result, bind_ok, requireSubtype_ok, pure_ok] at ok
    obtain ⟨_, _, ⟨judged, rfl⟩, rfl, rfl⟩ := ok
    exact ⟨expected, rfl, judged, rfl, rfl⟩

/-- The type of a returned value is below the one that the function declares. -/
theorem returns_some_ok {e : Expr} (ok : stmtKind ctx id (.returns (some e)) h = .ok t h') :
    ∃ expected v, ctx.returns = some expected ∧ expr ctx e h = .ok v h' ∧
      v.ty.isSubtype h' expected = true ∧ t = .returns (some v) := by
  rw [stmtKind] at ok
  cases result : ctx.returns with
  | none => simp [result] at ok
  | some expected =>
    simp only [result, bind_ok, requireSubtype_ok, pure_ok] at ok
    obtain ⟨v, _, found, _, _, ⟨judged, rfl⟩, rfl, rfl⟩ := ok
    exact ⟨expected, v, rfl, found, judged, rfl⟩

theorem exprStmt_ok {e : Expr} (ok : stmtKind ctx id (.expr e) h = .ok t h') :
    ∃ v, expr ctx e h = .ok v h' ∧ t = .expr v := by
  rw [stmtKind] at ok
  simp only [bind_ok, pure_ok] at ok
  obtain ⟨v, _, found, rfl, rfl⟩ := ok
  exact ⟨v, found, rfl⟩

/-- A variable keeps its type, which was looked up before the value was checked. -/
theorem assignVariable_ok {node : NodeRef} {name : String} {value : Expr}
    (ok : stmtKind ctx id (.assign ⟨node, .variable name⟩ value) h = .ok t h') :
    ∃ ty v, h.resolve ctx.scope name = some ty ∧ expr ctx value h = .ok v h' ∧
      v.ty.isSubtype h' ty = true ∧ t = .assignVariable name ty v := by
  rw [stmtKind] at ok
  simp only [bind_ok, located_ok, resolve_ok, requireSubtype_ok, pure_ok] at ok
  obtain ⟨ty, _, ⟨found, rfl⟩, v, _, second, _, _, ⟨judged, rfl⟩, rfl, rfl⟩ := ok
  exact ⟨ty, v, found, second, judged, rfl⟩

/-- A member keeps its type, which was looked up after the receiver and before the value was
checked. -/
theorem assignProperty_ok {node : NodeRef} {receiver : Expr} {name : String} {value : Expr}
    (ok : stmtKind ctx id (.assign ⟨node, .property receiver name⟩ value) h = .ok t h') :
    ∃ r ty v h₁, expr ctx receiver h = .ok r h₁ ∧ memberType h₁ r.ty name .property = .ok ty ∧
      expr ctx value h₁ = .ok v h' ∧ v.ty.isSubtype h' ty = true ∧
      t = .assignProperty r name ty v := by
  rw [stmtKind] at ok
  simp only [bind_ok, located_ok, rule_ok, requireSubtype_ok, pure_ok] at ok
  obtain ⟨r, _, first, ty, _, ⟨member, rfl⟩, v, _, second, _, _, ⟨judged, rfl⟩, rfl, rfl⟩ := ok
  exact ⟨r, ty, v, _, first, member, second, judged, rfl⟩

/-- Nothing else is assigned to. -/
theorem assign_ok {node : NodeRef} {kind : ExprKind} {value : Expr}
    (ok : stmtKind ctx id (.assign ⟨node, kind⟩ value) h = .ok t h') :
    (∃ name, kind = .variable name) ∨ ∃ receiver name, kind = .property receiver name := by
  cases kind with
  | «variable» name => exact Or.inl ⟨name, rfl⟩
  | property receiver name => exact Or.inr ⟨receiver, name, rfl⟩
  | _ =>
    rw [stmtKind] at ok
    · simp at ok
    all_goals simp

end

end Check

end GradualScript
