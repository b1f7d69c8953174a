/-
# GradualScript.Proofs.Check.Annotations -- what annotations mean inside an object

The methods of an object see its members and nothing around it, but their annotations are about the
types of the script around. The checker carries the scope that annotations are resolved in along,
through every block, loop and function of a method and through the objects that are made there,
while the active scope goes elsewhere.

`Expr.Annotated` says of an expression and its typed form that every annotation in it, at any depth,
was typed as a given meaning says. That meaning is fixed before an object is checked: it is what the
names stand for around the object. Two things are needed along the way (`Check.Sheltered`): the
scope of the annotations stays the same one, and whatever is defined is defined in scopes that are
younger than it.
-/

import GradualScript.Proofs.Check.Accepted

namespace GradualScript

/-! ## Typed as annotated -/

/-- The names of types, and what they stand for. -/
abbrev Meaning := String → Option Ty

/-- What is annotated has the type that its annotation stands for. -/
def Meaning.Types (M : Meaning) (named : Option String) (t : Ty) : Prop :=
  ∀ name, named = some name → M name = some t

/-- A parameter is typed as it is annotated. -/
def Param.Annotated (M : Meaning) (p : Param) (t : Typed.Param) : Prop :=
  t.name = p.name ∧ M.Types p.ty t.ty

mutual

/-- Every field, parameter, result and variable in the expression is typed as it is annotated. -/
def Expr.Annotated (M : Meaning) : Expr → Typed.Expr → Prop
  | ⟨_, kind⟩, t => kind.Annotated M t.kind

def ExprKind.Annotated (M : Meaning) : ExprKind → Typed.ExprKind → Prop
  | .literal value, k => k = .literal value
  | .group inner, k => ∃ t, k = .group t ∧ inner.Annotated M t
  | .binary op left right, k => ∃ l r, k = .binary op l r ∧ left.Annotated M l ∧ right.Annotated M r
  | .variable name, k => k = .variable name
  | .property receiver name, k => ∃ r, k = .property r name ∧ receiver.Annotated M r
  | .call name arguments, k => ∃ ts, k = .call name ts ∧ Expr.AllAnnotated M arguments ts
  | .invoke receiver name arguments, k => ∃ r ts, k = .invoke r name ts ∧
      receiver.Annotated M r ∧ Expr.AllAnnotated M arguments ts
  | .object name fields methods, k => ∃ bs ds, k = .object name bs ds ∧
      Field.AllAnnotated M fields bs ∧ Method.AllAnnotated M methods ds

def Expr.AllAnnotated (M : Meaning) : List Expr → List Typed.Expr → Prop
  | [], ts => ts = []
  | e :: rest, ts => ∃ t more, ts = t :: more ∧ e.Annotated M t ∧ Expr.AllAnnotated M rest more

def Binding.Annotated (M : Meaning) : Binding → Typed.Binding → Prop
  | ⟨name, ty, none⟩, b => b.name = name ∧ b.value = none ∧ M.Types ty b.ty
  | ⟨name, ty, some e⟩, b => b.name = name ∧ M.Types ty b.ty ∧
      ∃ t, b.value = some t ∧ e.Annotated M t

def Field.AllAnnotated (M : Meaning) : List Field → List Typed.Binding → Prop
  | [], bs => bs = []
  | ⟨_, binding⟩ :: rest, bs => ∃ b more, bs = b :: more ∧ binding.Annotated M b ∧
      Field.AllAnnotated M rest more

def Definition.Annotated (M : Meaning) : Definition → Typed.Definition → Prop
  | ⟨name, params, returns, body⟩, d => d.name = name ∧ M.Types returns d.returns ∧
      List.Forall₂ (Param.Annotated M) params d.params ∧ Stmt.AllAnnotated M body d.body

def Method.AllAnnotated (M : Meaning) : List Method → List Typed.Definition → Prop
  | [], ds => ds = []
  | ⟨_, definition⟩ :: rest, ds => ∃ d more, ds = d :: more ∧ definition.Annotated M d ∧
      Method.AllAnnotated M rest more

def Stmt.Annotated (M : Meaning) : Stmt → Typed.Stmt → Prop
  | ⟨_, kind⟩, t => kind.Annotated M t.kind

def StmtKind.Annotated (M : Meaning) : StmtKind → Typed.StmtKind → Prop
  | .letVar binding, k => ∃ b, k = .letVar b ∧ binding.Annotated M b
  | .defFun definition, k => ∃ d, k = .defFun d ∧ definition.Annotated M d
  | .ifElse condition thenBody elseBody, k => ∃ c a b, k = .ifElse c a b ∧ condition.Annotated M c ∧
      Stmt.AllAnnotated M thenBody a ∧ Stmt.AllAnnotated M elseBody b
  | .forEach name iterable body, k => ∃ ty i b, k = .forEach name ty i b ∧ iterable.Annotated M i ∧
      Stmt.AllAnnotated M body b
  | .returns none, k => k = .returns none
  | .returns (some e), k => ∃ t, k = .returns (some t) ∧ e.Annotated M t
  | .expr e, k => ∃ t, k = .expr t ∧ e.Annotated M t
  | .assign ⟨_, .variable name⟩ value, k => ∃ ty t, k = .assignVariable name ty t ∧
      value.Annotated M t
  | .assign ⟨_, .property receiver name⟩ value, k => ∃ r ty t, k = .assignProperty r name ty t ∧
      receiver.Annotated M r ∧ value.Annotated M t
  | .assign _ _, _ => False

def Stmt.AllAnnotated (M : Meaning) : List Stmt → List Typed.Stmt → Prop
  | [], ts => ts = []
  | x :: rest, ts => ∃ t more, ts = t :: more ∧ x.Annotated M t ∧ Stmt.AllAnnotated M rest more

end

/-! ## Where annotations are resolved -/

/-- What the names stand for in scope `s`. -/
def Heap.meaning (h : Heap Ty) (s : ScopeId) : Meaning := h.resolve s

/-- A scope that nothing was added to goes on giving names their meaning. -/
theorem Heap.Keeps.meaning_eq {h h' : Heap Ty} {s : ScopeId} (keeps : h.Keeps ∅ h')
    (inside : s < h.size) : h'.meaning s = h.meaning s := funext (keeps.resolve_eq inside)

namespace Check

/-- Annotations are resolved in the scope `a`, which is as it was in `h₀`. -/
structure Anchored (a : ScopeId) (h₀ h : Heap Ty) (ctx : Context) : Prop where
  annotations : ctx.annotations.getD ctx.scope = a
  older : a < h₀.size
  keeps : h₀.Keeps ∅ h

/-- In a method, annotations are resolved elsewhere than in the active scope, which is younger than
`h₀`. -/
structure Sheltered (a : ScopeId) (h₀ h : Heap Ty) (ctx : Context) : Prop where
  annotations : ctx.annotations = some a
  older : a < h₀.size
  keeps : h₀.Keeps ∅ h
  young : h₀.size ≤ ctx.scope

variable {a s : ScopeId} {h₀ h h' : Heap Ty} {ctx : Context}

theorem Sheltered.anchored (sheltered : Sheltered a h₀ h ctx) : Anchored a h₀ h ctx where
  annotations := by rw [sheltered.annotations, Option.getD_some]
  older := sheltered.older
  keeps := sheltered.keeps

theorem Anchored.next (anchored : Anchored a h₀ h ctx) (keeps : h.Keeps ∅ h') :
    Anchored a h₀ h' ctx :=
  ⟨anchored.annotations, anchored.older, anchored.keeps.trans keeps⟩

/-- What was made after `h₀` may be added to. -/
theorem keeps_of_young (before : h₀.Keeps ∅ h) (young : h₀.size ≤ s) (keeps : h.Keeps {s} h') :
    h₀.Keeps ∅ h' :=
  before.trans_fresh keeps fun _ same inside =>
    absurd (same ▸ inside) (Nat.not_lt.mpr young)

theorem Sheltered.next (sheltered : Sheltered a h₀ h ctx) (keeps : h.Keeps {ctx.scope} h') :
    Sheltered a h₀ h' ctx where
  annotations := sheltered.annotations
  older := sheltered.older
  keeps := keeps_of_young sheltered.keeps sheltered.young keeps
  young := sheltered.young

/-- A new scope inside the active one shelters what stands in it. -/
theorem Sheltered.inside (sheltered : Sheltered a h₀ h ctx) (b : Bindings Ty)
    (returns : Option Ty) :
    Sheltered a h₀ (h.child ctx.scope b).2 { ctx with scope := h.size, returns := returns } where
  annotations := sheltered.annotations
  older := sheltered.older
  keeps := sheltered.keeps.trans (.child ∅ h ctx.scope b)
  young := sheltered.keeps.size_le

/-- The methods of an object are checked in its members. -/
theorem Anchored.sheltered (anchored : Anchored a h₀ h ctx) (keeps : h.Keeps ∅ h') :
    Sheltered a h₀ h' ⟨h.size, some (ctx.annotations.getD ctx.scope), none⟩ where
  annotations := by rw [anchored.annotations]
  older := anchored.older
  keeps := anchored.keeps.trans keeps
  young := anchored.keeps.size_le

/-! ### Annotations and parameters -/

theorem Anchored.annotation_ok (anchored : Anchored a h₀ h ctx) {name : String} {t : Ty}
    (ok : annotation ctx name h = .ok t h') : h₀.meaning a name = some t ∧ h' = h := by
  unfold annotation at ok
  rw [resolve_ok, anchored.annotations] at ok
  rw [← anchored.keeps.meaning_eq anchored.older]
  exact ok

theorem Anchored.annotationOrDynamic_ok (anchored : Anchored a h₀ h ctx) {name : Option String}
    {t : Ty} (ok : annotationOrDynamic ctx name h = .ok t h') :
    (h₀.meaning a).Types name t ∧ h' = h := by
  cases name with
  | none =>
    rw [annotationOrDynamic, pure_ok] at ok
    exact ⟨fun _ named => (by cases named), ok.2⟩
  | some name =>
    obtain ⟨found, same⟩ := anchored.annotation_ok ok
    exact ⟨fun _ named => Option.some.inj named ▸ found, same⟩

/-- Whatever stands in for the annotation where there is none. -/
theorem Anchored.annotation?_ok (anchored : Anchored a h₀ h ctx) {name : Option String}
    {declared : Option Ty} (ok : annotation? ctx name h = .ok declared h') :
    (∀ t, (h₀.meaning a).Types name (declared.getD t)) ∧ h' = h := by
  cases name with
  | none =>
    rw [annotation?, pure_ok] at ok
    exact ⟨fun _ _ named => (by cases named), ok.2⟩
  | some name =>
    rw [annotation?, ← bind_pure_comp, bind_ok] at ok
    obtain ⟨ty, _, resolved, done⟩ := ok
    obtain ⟨rfl, rfl⟩ := pure_ok.mp done
    obtain ⟨found, rfl⟩ := anchored.annotation_ok resolved
    exact ⟨fun _ _ named => Option.some.inj named ▸ found, rfl⟩

theorem Anchored.params_ok : ∀ {list : List Param} {h h' : Heap Ty} {seen : List String}
    {ps : List Typed.Param}, Anchored a h₀ h ctx → params ctx seen list h = .ok ps h' →
      List.Forall₂ (Param.Annotated (h₀.meaning a)) list ps ∧ h' = h
  | [], _, _, seen, ps, _, ok => by
    rw [params, pure_ok] at ok
    obtain ⟨rfl, rfl⟩ := ok
    exact ⟨.nil, rfl⟩
  | p :: rest, _, _, seen, ps, anchored, ok => by
    rw [params] at ok
    split at ok
    case isTrue => simp at ok
    case isFalse =>
      simp only [bind_ok, pure_ok] at ok
      obtain ⟨ty, _, resolved, more, _, following, rfl, rfl⟩ := ok
      obtain ⟨types, rfl⟩ := anchored.annotationOrDynamic_ok resolved
      obtain ⟨all, rfl⟩ := anchored.params_ok following
      exact ⟨.cons ⟨rfl, types⟩ all, rfl⟩

/-! ### The walk -/

mutual

theorem expr_annotated : ∀ (e : Expr) {h h' : Heap Ty} {ctx : Context} {t : Typed.Expr},
    Anchored a h₀ h ctx → expr ctx e h = .ok t h' → e.Annotated (h₀.meaning a) t
  | ⟨node, kind⟩, _, _, _, _, anchored, ok => by
    obtain ⟨k, ty, checked, rfl⟩ := expr_ok ok
    rw [Expr.Annotated]
    exact exprKind_annotated kind anchored checked

theorem exprKind_annotated : ∀ (k : ExprKind) {h h' : Heap Ty} {ctx : Context}
    {t : Typed.ExprKind} {ty : Ty}, Anchored a h₀ h ctx → exprKind ctx k h = .ok (t, ty) h' →
      k.Annotated (h₀.meaning a) t
  | .literal value, _, _, _, _, _, _, ok => by
    obtain ⟨same, _⟩ := literal_ok ok
    cases same
    rw [ExprKind.Annotated]
  | .group inner, _, _, _, _, _, anchored, ok => by
    obtain ⟨i, checked, same⟩ := group_ok ok
    cases same
    rw [ExprKind.Annotated]
    exact ⟨i, rfl, expr_annotated inner anchored checked⟩
  | .binary op left right, _, _, ctx, _, _, anchored, ok => by
    obtain ⟨l, r, h₁, _, first, second, _, same⟩ := binary_ok ok
    cases same
    have anchored₁ := anchored.next ((leaves_expr ctx left).keeps first)
    rw [ExprKind.Annotated]
    exact ⟨l, r, rfl, expr_annotated left anchored first, expr_annotated right anchored₁ second⟩
  | .variable name, _, _, _, _, _, _, ok => by
    obtain ⟨_, _, same, _⟩ := variable_ok ok
    cases same
    rw [ExprKind.Annotated]
  | .property receiver name, _, _, _, _, _, anchored, ok => by
    obtain ⟨r, _, checked, _, same⟩ := property_ok ok
    cases same
    rw [ExprKind.Annotated]
    exact ⟨r, rfl, expr_annotated receiver anchored checked⟩
  | .call name arguments, _, _, _, _, _, anchored, ok => by
    obtain ⟨ps, _, ts, _, count, checked, same⟩ := call_ok ok
    cases same
    rw [ExprKind.Annotated]
    exact ⟨ts, rfl, argumentList_annotated arguments count anchored checked⟩
  | .invoke receiver name arguments, _, _, ctx, _, _, anchored, ok => by
    obtain ⟨r, h₁, ts, first, checked⟩ := invoke_ok ok
    have anchored₁ := anchored.next ((leaves_expr ctx receiver).keeps first)
    have head := expr_annotated receiver anchored first
    rw [ExprKind.Annotated]
    obtain ⟨_, second, same⟩ | ⟨ps, _, _, count, second, same⟩ := checked
    · cases same
      exact ⟨r, ts, rfl, head, exprs_annotated arguments anchored₁ second⟩
    · cases same
      exact ⟨r, ts, rfl, head, argumentList_annotated arguments count anchored₁ second⟩
  | .object name fieldList methodList, h, _, ctx, _, _, anchored, ok => by
    obtain ⟨bs, ds, h₁, first, second, same⟩ := object_ok ok
    cases same
    -- The members are younger than the annotations' scope, and so is all that the methods define.
    have made : h.Keeps ∅ (h.root .empty).2 := .root ∅ h .empty
    have filled : h.Keeps ∅ h₁ :=
      keeps_of_young made (Nat.le_refl _) ((leaves_fields ctx h.size fieldList).keeps first)
    rw [ExprKind.Annotated]
    exact ⟨bs, ds, rfl,
      fields_annotated fieldList anchored.keeps.size_le (anchored.next made) first,
      methods_annotated methodList (anchored.sheltered filled) second⟩

theorem exprs_annotated : ∀ (es : List Expr) {h h' : Heap Ty} {ctx : Context}
    {ts : List Typed.Expr}, Anchored a h₀ h ctx → exprs ctx es h = .ok ts h' →
      Expr.AllAnnotated (h₀.meaning a) es ts
  | [], _, _, _, _, _, ok => by
    rw [exprs, pure_ok] at ok
    obtain ⟨rfl, _⟩ := ok
    rw [Expr.AllAnnotated]
  | e :: rest, _, _, ctx, _, anchored, ok => by
    obtain ⟨t, more, h₁, first, following, rfl⟩ := exprs_cons_ok ok
    have anchored₁ := anchored.next ((leaves_expr ctx e).keeps first)
    rw [Expr.AllAnnotated]
    exact ⟨t, more, rfl, expr_annotated e anchored first, exprs_annotated rest anchored₁ following⟩

theorem argumentList_annotated : ∀ (es : List Expr) {h h' : Heap Ty} {ctx : Context}
    {callee : String} {index : Nat} {ps : List Ty} {ts : List Typed.Expr}, es.length = ps.length →
      Anchored a h₀ h ctx → argumentList ctx callee index ps es h = .ok ts h' →
      Expr.AllAnnotated (h₀.meaning a) es ts
  | [], _, _, _, _, _, [], _, _, _, ok => by
    rw [argumentList, pure_ok] at ok
    · obtain ⟨rfl, _⟩ := ok
      rw [Expr.AllAnnotated]
    · simp
  | e :: rest, _, _, ctx, _, _, p :: ps, _, count, anchored, ok => by
    obtain ⟨t, more, h₁, first, _, following, rfl⟩ := argumentList_cons_ok ok
    have anchored₁ := anchored.next ((leaves_expr ctx e).keeps first)
    rw [Expr.AllAnnotated]
    exact ⟨t, more, rfl, expr_annotated e anchored first,
      argumentList_annotated rest (Nat.succ.inj count) anchored₁ following⟩

theorem binding_annotated : ∀ (b : Binding) {h h' : Heap Ty} {ctx : Context} {id : NodeId}
    {target : ScopeId} {t : Typed.Binding}, Anchored a h₀ h ctx →
      binding ctx id target b h = .ok t h' → b.Annotated (h₀.meaning a) t
  | ⟨name, ty, none⟩, _, _, _, _, _, _, anchored, ok => by
    obtain ⟨declared, _, resolved, _, _, rfl⟩ := binding_none_ok ok
    rw [Binding.Annotated]
    exact ⟨rfl, rfl, (anchored.annotation?_ok resolved).1 _⟩
  | ⟨name, ty, some e⟩, _, _, _, _, _, _, anchored, ok => by
    obtain ⟨declared, _, v, _, resolved, checked, _, _, _, rfl⟩ := binding_some_ok ok
    obtain ⟨types, rfl⟩ := anchored.annotation?_ok resolved
    rw [Binding.Annotated]
    exact ⟨rfl, types _, v, rfl, expr_annotated e anchored checked⟩

theorem fields_annotated : ∀ (fs : List Field) {h h' : Heap Ty} {ctx : Context}
    {target : ScopeId} {ts : List Typed.Binding}, h₀.size ≤ target → Anchored a h₀ h ctx →
      fields ctx target fs h = .ok ts h' → Field.AllAnnotated (h₀.meaning a) fs ts
  | [], _, _, _, _, _, _, _, ok => by
    rw [fields, pure_ok] at ok
    obtain ⟨rfl, _⟩ := ok
    rw [Field.AllAnnotated]
  | ⟨node, b⟩ :: rest, _, _, ctx, target, _, young, anchored, ok => by
    obtain ⟨t, more, h₁, first, following, rfl⟩ := fields_cons_ok ok
    have added := (leaves_binding ctx node.id target b).keeps first
    have anchored₁ : Anchored a h₀ h₁ ctx :=
      ⟨anchored.annotations, anchored.older, keeps_of_young anchored.keeps young added⟩
    rw [Field.AllAnnotated]
    exact ⟨t, more, rfl, binding_annotated b anchored first,
      fields_annotated rest young anchored₁ following⟩

theorem definition_annotated : ∀ (d : Definition) {h h' : Heap Ty} {ctx : Context} {id : NodeId}
    {this : Option Ty} {t : Typed.Definition}, Sheltered a h₀ h ctx →
      definition ctx id this d h = .ok t h' → d.Annotated (h₀.meaning a) t
  | ⟨name, list, returns, statements⟩, h, _, ctx, _, this, _, sheltered, ok => by
    obtain ⟨result, _, ps, _, b, h₃, body, resolved, parameters, fresh, bound, checked, rfl⟩ :=
      definition_ok ok
    obtain ⟨types, rfl⟩ := sheltered.anchored.annotationOrDynamic_ok resolved
    obtain ⟨all, rfl⟩ := sheltered.anchored.params_ok parameters
    have sheltered₁ := sheltered.next (.put fresh (.function (ps.map Typed.Param.ty) result))
    have sheltered₂ := sheltered₁.next ((Leaves.bodyBindings this ps).keeps bound)
    rw [Definition.Annotated]
    exact ⟨rfl, types, all, block_annotated statements (sheltered₂.inside b _) checked⟩

theorem methods_annotated : ∀ (ms : List Method) {h h' : Heap Ty} {ctx : Context} {this : Ty}
    {ts : List Typed.Definition}, Sheltered a h₀ h ctx → methods ctx this ms h = .ok ts h' →
      Method.AllAnnotated (h₀.meaning a) ms ts
  | [], _, _, _, _, _, _, ok => by
    rw [methods, pure_ok] at ok
    obtain ⟨rfl, _⟩ := ok
    rw [Method.AllAnnotated]
  | ⟨node, d⟩ :: rest, _, _, ctx, this, _, sheltered, ok => by
    obtain ⟨t, more, h₁, first, following, rfl⟩ := methods_cons_ok ok
    have sheltered₁ := sheltered.next ((leaves_definition ctx node.id (some this) d).keeps first)
    rw [Method.AllAnnotated]
    exact ⟨t, more, rfl, definition_annotated d sheltered first,
      methods_annotated rest sheltered₁ following⟩

theorem stmt_annotated : ∀ (x : Stmt) {h h' : Heap Ty} {ctx : Context} {t : Typed.Stmt},
    Sheltered a h₀ h ctx → stmt ctx x h = .ok t h' → x.Annotated (h₀.meaning a) t
  | ⟨node, kind⟩, _, _, _, _, sheltered, ok => by
    obtain ⟨k, checked, rfl⟩ := stmt_ok ok
    rw [Stmt.Annotated]
    exact stmtKind_annotated kind sheltered checked

theorem stmtKind_annotated : ∀ (k : StmtKind) {h h' : Heap Ty} {ctx : Context} {id : NodeId}
    {t : Typed.StmtKind}, Sheltered a h₀ h ctx → stmtKind ctx id k h = .ok t h' →
      k.Annotated (h₀.meaning a) t
  | .letVar b, _, _, _, _, _, sheltered, ok => by
    obtain ⟨b', checked, rfl⟩ := letVar_ok ok
    rw [StmtKind.Annotated]
    exact ⟨b', rfl, binding_annotated b sheltered.anchored checked⟩
  | .defFun d, _, _, _, _, _, sheltered, ok => by
    obtain ⟨d', checked, rfl⟩ := defFun_ok ok
    rw [StmtKind.Annotated]
    exact ⟨d', rfl, definition_annotated d sheltered checked⟩
  | .ifElse condition thenBody elseBody, _, _, ctx, _, _, sheltered, ok => by
    obtain ⟨c, a, b, h₁, h₂, first, _, second, third, rfl⟩ := ifElse_ok ok
    have sheltered₁ := sheltered.next
      (((leaves_expr ctx condition).keeps first).mono (Set.empty_subset _))
    have thenKeeps := keeps_branch ctx.scope .empty ((leaves_block _ thenBody).keeps second)
    have sheltered₂ := sheltered₁.next (thenKeeps.mono (Set.empty_subset _))
    rw [StmtKind.Annotated]
    exact ⟨c, a, b, rfl, expr_annotated condition sheltered.anchored first,
      block_annotated thenBody (sheltered₁.inside .empty ctx.returns) second,
      block_annotated elseBody (sheltered₂.inside .empty ctx.returns) third⟩
  | .forEach name iterable body, _, _, ctx, _, _, sheltered, ok => by
    obtain ⟨i, ty, b, h₁, first, _, _, second, rfl⟩ := forEach_ok ok
    have sheltered₁ := sheltered.next
      (((leaves_expr ctx iterable).keeps first).mono (Set.empty_subset _))
    rw [StmtKind.Annotated]
    exact ⟨ty, i, b, rfl, expr_annotated iterable sheltered.anchored first,
      block_annotated body (sheltered₁.inside _ ctx.returns) second⟩
  | .returns none, _, _, _, _, _, _, ok => by
    obtain ⟨_, _, _, rfl, _⟩ := returns_none_ok ok
    rw [StmtKind.Annotated]
  | .returns (some e), _, _, _, _, _, sheltered, ok => by
    obtain ⟨_, v, _, checked, _, rfl⟩ := returns_some_ok ok
    rw [StmtKind.Annotated]
    exact ⟨v, rfl, expr_annotated e sheltered.anchored checked⟩
  | .expr e, _, _, _, _, _, sheltered, ok => by
    obtain ⟨v, checked, rfl⟩ := exprStmt_ok ok
    rw [StmtKind.Annotated]
    exact ⟨v, rfl, expr_annotated e sheltered.anchored checked⟩
  | .assign ⟨node, .variable name⟩ value, _, _, _, _, _, sheltered, ok => by
    obtain ⟨ty, v, _, checked, _, rfl⟩ := assignVariable_ok ok
    rw [StmtKind.Annotated]
    exact ⟨ty, v, rfl, expr_annotated value sheltered.anchored checked⟩
  | .assign ⟨node, .property receiver name⟩ value, _, _, ctx, _, _, sheltered, ok => by
    obtain ⟨r, ty, v, h₁, first, _, second, _, rfl⟩ := assignProperty_ok ok
    have anchored₁ := sheltered.anchored.next ((leaves_expr ctx receiver).keeps first)
    rw [StmtKind.Annotated]
    exact ⟨r, ty, v, rfl, expr_annotated receiver sheltered.anchored first,
      expr_annotated value anchored₁ second⟩
  | .assign ⟨node, .literal _⟩ _, _, _, _, _, _, _, ok
  | .assign ⟨node, .group _⟩ _, _, _, _, _, _, _, ok
  | .assign ⟨node, .binary _ _ _⟩ _, _, _, _, _, _, _, ok
  | .assign ⟨node, .call _ _⟩ _, _, _, _, _, _, _, ok
  | .assign ⟨node, .invoke _ _ _⟩ _, _, _, _, _, _, _, ok
  | .assign ⟨node, .object _ _ _⟩ _, _, _, _, _, _, _, ok => by
    obtain ⟨_, same⟩ | ⟨_, _, same⟩ := assign_ok ok <;> cases same

theorem block_annotated : ∀ (xs : List Stmt) {h h' : Heap Ty} {ctx : Context}
    {ts : List Typed.Stmt}, Sheltered a h₀ h ctx → block ctx xs h = .ok ts h' →
      Stmt.AllAnnotated (h₀.meaning a) xs ts
  | [], _, _, _, _, _, ok => by
    rw [block, pure_ok] at ok
    obtain ⟨rfl, _⟩ := ok
    rw [Stmt.AllAnnotated]
  | x :: rest, _, _, ctx, _, sheltered, ok => by
    obtain ⟨t, more, h₁, first, following, rfl⟩ := block_cons_ok ok
    have sheltered₁ := sheltered.next ((leaves_stmt ctx x).keeps first)
    rw [Stmt.AllAnnotated]
    exact ⟨t, more, rfl, stmt_annotated x sheltered first,
      block_annotated rest sheltered₁ following⟩

end

/-! ## Every annotation -/

/-- In every context whose annotations are resolved in a scope that exists. The expression may be an
object or have objects in it: all that is annotated in their fields and methods, and in the blocks,
functions and objects inside of these, has the type that the name of the annotation stood for before
the expression was checked, where annotations are resolved around it. And the names go on standing
for these types. -/
theorem annotations_resolve_outside {ctx : Context} {h h' : Heap Ty} {e : Expr} {t : Typed.Expr}
    (inside : ctx.annotations.getD ctx.scope < h.size) (ok : expr ctx e h = .ok t h') :
    e.Annotated (h.meaning (ctx.annotations.getD ctx.scope)) t ∧
      h'.meaning (ctx.annotations.getD ctx.scope) =
        h.meaning (ctx.annotations.getD ctx.scope) :=
  ⟨expr_annotated e ⟨rfl, inside, .refl ∅ h⟩ ok,
    ((leaves_expr ctx e).keeps ok).meaning_eq inside⟩

/-- An object whose field, and in whose method a parameter, a function, a variable and a field of an
object inside, are called as types are. -/
def namesakes : Expr :=
  ⟨default, .object (some "Integer")
    [⟨default, "Integer", some "String", some ⟨default, .literal (.string "one")⟩⟩]
    [⟨default, "scale", [⟨"String", some "Integer"⟩], some "Integer",
      [⟨default, .letVar ⟨"Boolean", some "Integer", some ⟨default, .variable "String"⟩⟩⟩,
        ⟨default, .defFun ⟨"Nil", [⟨"Integer", some "Boolean"⟩], some "Nil",
          [⟨default, .expr ⟨default, .object none
            [⟨default, "Boolean", some "Boolean", some ⟨default, .variable "Integer"⟩⟩] []⟩⟩]⟩⟩,
        ⟨default, .returns (some ⟨default, .variable "String"⟩)⟩]⟩]⟩

/-- The annotations are about the types of the prelude, whatever the members and variables are. -/
theorem annotations_resolve_outside_namesakes :
    ∃ (ctx : Context) (h : Heap Ty) (t : Typed.Expr) (h' : Heap Ty),
      ctx.annotations.getD ctx.scope < h.size ∧ expr ctx namesakes h = .ok t h' ∧
      namesakes.Annotated (h.meaning (ctx.annotations.getD ctx.scope)) t ∧
      h.meaning (ctx.annotations.getD ctx.scope) "Integer" = some .integer := by
  let session := CheckSession.start false
  let ctx : Context := { scope := session.scope }
  have inside : ctx.annotations.getD ctx.scope < session.heap.size := by decide
  have accepted : (match expr ctx namesakes session.heap with
      | .ok _ _ => true
      | .error _ _ => false) = true := by decide
  split at accepted
  case h_1 t h' ok =>
    exact ⟨ctx, session.heap, t, h', inside, ok, (annotations_resolve_outside inside ok).1,
      by decide⟩
  case h_2 => cases accepted

end Check

end GradualScript
