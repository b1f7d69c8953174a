/-
# GradualScript.Proofs.Check.Accepted -- an accepted script elaborates to its typed script

The checker's functions, run on a heap in which every type within reach is settled, leave such a
heap, and what they return elaborates what they were given, in every heap that grows from theirs.
-/

import GradualScript.Proofs.Check.Settled
import GradualScript.Session

namespace GradualScript

variable {h h' H : Heap Ty} {free pending : Set ScopeId} {s m : ScopeId} {ctx : Context}

/-! ## The walk -/

/-- What holds wherever the checker stands: the active scope exists, annotations are resolved in
an older one, and every type within reach is settled. -/
structure Check.Ready (pending : Set ScopeId) (h : Heap Ty) (ctx : Context) : Prop where
  active : ctx.scope < h.size
  annotations : ∀ a, ctx.annotations = some a → a < ctx.scope
  pending_lt : ∀ s ∈ pending, s < h.size
  types : h.Settled pending
  returns : ∀ t, ctx.returns = some t → t.Settled pending h

namespace Check

theorem Ready.next (ready : Ready pending h ctx) (keeps : h.Keeps free h')
    (types : h'.Settled pending) : Ready pending h' ctx where
  active := Nat.lt_of_lt_of_le ready.active keeps.size_le
  annotations := ready.annotations
  pending_lt s mem := Nat.lt_of_lt_of_le (ready.pending_lt s mem) keeps.size_le
  types := types
  returns t same := (ready.returns t same).keeps keeps

theorem Ready.annotations_lt (ready : Ready pending h ctx) (a : ScopeId)
    (same : ctx.annotations = some a) : a < h.size :=
  Nat.lt_trans (ready.annotations a same) ready.active

/-- A step that adds to no old scope does not change what is in scope. -/
theorem Ready.env (ready : Ready pending h ctx) (keeps : h.Keeps ∅ h') :
    Env.of h' ctx = Env.of h ctx :=
  Env.of_keeps keeps ready.active ready.annotations_lt fun t mem => absurd mem (Set.notMem_empty t)

/-- What a statement that declares nothing leaves: the names it found. -/
theorem Ready.env_after (ready : Ready pending h ctx) (keeps : h.Keeps ∅ h') {k : Typed.StmtKind}
    (nothing : k.entries = []) : Env.of h' ctx = (Env.of h ctx).after k := by
  rw [ready.env keeps, Env.after_of_entries nothing]

/-- Inside a new scope, which is now pending as well. -/
theorem Ready.child (ready : Ready pending h ctx) {b : Bindings Ty} {returns : Option Ty}
    (new : ∀ n t, b.find? n = some t → t.Settled pending h)
    (result : ∀ t, returns = some t → t.Settled pending h) :
    Ready (insert h.size pending) (h.child ctx.scope b).2
      { ctx with scope := h.size, returns := returns } where
  active := by simp
  annotations := ready.annotations_lt
  pending_lt s mem := by
    have young := Heap.lt_size_child h ctx.scope b
    rcases mem with rfl | mem
    · exact young
    · exact Nat.lt_trans (ready.pending_lt s mem) young
  types := by
    have old := (ready.types.insert_fresh (Nat.le_refl h.size)).child ctx.scope
      fun n t found => (new n t found).insert_fresh (Nat.le_refl _)
    exact old
  returns t same := ((result t same).insert_fresh (Nat.le_refl _)).keeps
    (Heap.Keeps.child ∅ h ctx.scope b)

/-- A step that has ended in `h'`: types are settled, and `P` holds of every heap that grows from
`h'` in pending scopes only. -/
structure Done (pending : Set ScopeId) (h' : Heap Ty) (P : Heap Ty → Prop) : Prop where
  types : h'.Settled pending
  lasts : ∀ H, h'.Keeps pending H → P H

theorem Ready.annotated_lt (ready : Ready pending h ctx) :
    ctx.annotations.getD ctx.scope < h.size := by
  cases same : ctx.annotations with
  | none => exact ready.active
  | some a => exact ready.annotations_lt a same

/-- The member scope of a new object is pending as well. -/
theorem Ready.root (ready : Ready pending h ctx) :
    Ready (insert h.size pending) (h.root .empty).2 ctx where
  active := Nat.lt_trans ready.active (Heap.lt_size_root h .empty)
  annotations := ready.annotations
  pending_lt := by
    rintro t (rfl | mem)
    · exact Heap.lt_size_root h .empty
    · exact Nat.lt_trans (ready.pending_lt t mem) (Heap.lt_size_root h .empty)
  types := (ready.types.insert_fresh (Nat.le_refl _)).root
  returns t same := ((ready.returns t same).insert_fresh (Nat.le_refl _)).keeps (.root ∅ h .empty)

/-- From the fields of an object to its methods, which are checked in the scope of its members. -/
theorem Ready.methods (ready : Ready pending h ctx) {m : ScopeId} (younger : ctx.scope < m)
    (inside : m < h'.size) (grown : h.size ≤ h'.size) (types : h'.Settled pending) :
    Ready pending h' ⟨m, some (ctx.annotations.getD ctx.scope), none⟩ where
  active := inside
  annotations a same := by
    obtain rfl := Option.some.inj same
    cases set : ctx.annotations with
    | none => exact younger
    | some a => exact Nat.lt_trans (ready.annotations a set) younger
  pending_lt t mem := Nat.lt_of_lt_of_le (ready.pending_lt t mem) grown
  types := types
  returns t same := by cases same

/-- What methods see: the members so far, and annotations as around the object. -/
theorem Ready.members (ready : Ready pending h ctx) (keeps : h.Keeps ∅ h') {m : ScopeId}
    {own : List (String × Ty)} (root : h'.parent? m = none)
    (entries : (h'.bindings m).entries = own) :
    Env.of h' ⟨m, some (ctx.annotations.getD ctx.scope), none⟩ = (Env.of h ctx).members own := by
  rw [Env.members, Env.annotated_of]
  simp only [Env.of, Heap.around, root, entries, Option.map_some]
  rw [keeps.visible ready.annotated_lt fun _ _ => Set.notMem_empty _]

/-- A definition has got its name. What its body binds is settled then: the scope of `this` is
pending, but it binds the method that is being checked. -/
theorem Ready.bodyBindings (ready : Ready pending h ctx) {name : String} {t : Ty} {this : Option Ty}
    (around : ∀ t, this = some t → ∃ name, t = .object name ctx.scope)
    (fresh : h.binds ctx.scope name = false) {ps : List Typed.Param}
    (parameters : ∀ p ∈ ps, p.ty.Settled pending h) {n : String} {u : Ty}
    (mem : (n, u) ∈ (this.map fun t => ("this", t)).toList ++ ps.map Typed.Param.entry) :
    u.Settled pending (h.put ctx.scope name t) := by
  rcases List.mem_append.mp mem with mem | mem
  · obtain ⟨t', same, pair⟩ := Option.map_eq_some_iff.mp (Option.mem_toList.mp mem)
    obtain ⟨_, rfl⟩ := around t' same
    obtain ⟨rfl, rfl⟩ := Prod.mk.inj pair
    intro m hm
    rw [Ty.scopes, List.mem_singleton] at hm
    rw [hm, Heap.size_put]
    refine ⟨ready.active, fun _ => ?_⟩
    rw [Heap.bindings_put_self ready.active, Bindings.isEmpty,
      Bindings.entries_insert_of_not_mem _ (Bindings.not_mem_names_of_not_contains fresh)]
    simp
  · obtain ⟨p, hp, same⟩ := List.mem_map.mp mem
    obtain ⟨rfl, rfl⟩ := Prod.mk.inj same
    exact (parameters p hp).keeps (.put fresh t)

/-! ### Annotations and parameters -/

theorem annotated_ok {name : String} {t : Ty} :
    annotation ctx name h = .ok t h' ↔ (Env.of h ctx).Denotes (some name) t ∧ h' = h := by
  unfold annotation
  rw [resolve_ok, Env.Denotes, Env.annotated_of, Heap.lookup_visible]

theorem annotationOrDynamic_ok {name : Option String} {t : Ty} :
    annotationOrDynamic ctx name h = .ok t h' ↔ (Env.of h ctx).Denotes name t ∧ h' = h := by
  cases name with
  | none => simp [annotationOrDynamic, Env.Denotes]
  | some name => exact annotated_ok

theorem annotation?_ok {name : Option String} {t : Option Ty}
    (ok : annotation? ctx name h = .ok t h') :
    h' = h ∧ (name = none ∧ t = none ∨
      name.isSome = true ∧ ∃ ty, t = some ty ∧ (Env.of h ctx).Denotes name ty) := by
  cases name with
  | none =>
    rw [annotation?, pure_ok] at ok
    exact ⟨ok.2, Or.inl ⟨rfl, ok.1⟩⟩
  | some name =>
    rw [annotation?, ← bind_pure_comp, bind_ok] at ok
    obtain ⟨ty, h₁, found, same⟩ := ok
    rw [pure_ok] at same
    obtain ⟨rfl, rfl⟩ := same
    have ⟨denotes, unchanged⟩ := annotated_ok.mp found
    exact ⟨unchanged, Or.inr ⟨rfl, ty, rfl, denotes⟩⟩

theorem Ready.denoted (ready : Ready pending h ctx) {name : Option String} {t : Ty}
    (denotes : (Env.of h ctx).Denotes name t) : t.Settled pending h := by
  cases name with
  | none =>
    obtain rfl : t = .dynamic := denotes
    exact .prim _
  | some name =>
    rw [Env.Denotes, Env.annotated_of, Heap.lookup_visible] at denotes
    exact ready.types.resolve denotes

theorem params_ok {list : List Param} : ∀ {seen : List String} {ps : List Typed.Param},
    params ctx seen list h = .ok ps h' →
      h' = h ∧ List.Forall₂ (Param.Elaborates (Env.of h ctx)) list ps ∧
        (ps.map Typed.Param.name).Nodup ∧ ∀ p ∈ ps, p.name ∉ seen := by
  induction list with
  | nil =>
    intro seen ps ok
    rw [params, pure_ok] at ok
    obtain ⟨rfl, rfl⟩ := ok
    exact ⟨rfl, .nil, by simp, by simp⟩
  | cons p rest ih =>
    intro seen ps ok
    rw [params] at ok
    split at ok
    case isTrue => simp at ok
    case isFalse fresh =>
      simp only [bind_ok, annotationOrDynamic_ok, pure_ok] at ok
      obtain ⟨ty, _, ⟨denotes, rfl⟩, more, _, following, rfl, rfl⟩ := ok
      obtain ⟨rfl, all, nodup, unseen⟩ := ih following
      refine ⟨rfl, .cons ⟨rfl, denotes⟩ all, ?_, ?_⟩
      · rw [List.map_cons, List.nodup_cons]
        refine ⟨fun mem => ?_, nodup⟩
        obtain ⟨q, hq, same⟩ := List.mem_map.mp mem
        exact unseen q hq (same ▸ List.mem_cons_self)
      · intro q hq
        rcases List.mem_cons.mp hq with rfl | hq
        · exact fresh
        · exact fun mem => unseen q hq (List.mem_cons_of_mem _ mem)

theorem exists_denotes_of_mem {Γ : Env} {list : List Param} {ps : List Typed.Param}
    (all : List.Forall₂ (Param.Elaborates Γ) list ps) : ∀ p ∈ ps, ∃ name, Γ.Denotes name p.ty := by
  induction all with
  | nil => simp
  | cons first _ ih =>
    intro p mem
    rcases List.mem_cons.mp mem with rfl | mem
    · exact ⟨_, first.2⟩
    · exact ih p mem

theorem Ready.params (ready : Ready pending h ctx) {list : List Param} {ps : List Typed.Param}
    (all : List.Forall₂ (Param.Elaborates (Env.of h ctx)) list ps) :
    ∀ p ∈ ps, p.ty.Settled pending h := by
  intro p mem
  obtain ⟨_, denotes⟩ := exists_denotes_of_mem all p mem
  exact ready.denoted denotes

/-- The scope of a body binds `this`, if there is one, and then the parameters. -/
theorem bodyBindings_ok {this : Option Ty} {ps : List Typed.Param} {b : Bindings Ty}
    (nodup : (ps.map Typed.Param.name).Nodup) (ok : bodyBindings this ps h = .ok b h') :
    h' = h ∧ b.entries = (this.map fun t => ("this", t)).toList ++ ps.map Typed.Param.entry ∧
      (this.isSome = true → "this" ∉ ps.map Typed.Param.name) := by
  have names : (ps.map Typed.Param.entry).map Prod.fst = ps.map Typed.Param.name := by
    rw [List.map_map]
    rfl
  cases this with
  | none =>
    rw [bodyBindings, pure_ok] at ok
    obtain ⟨rfl, rfl⟩ := ok
    refine ⟨rfl, Bindings.entries_ofList ?_, by simp⟩
    exact names ▸ nodup
  | some this =>
    rw [bodyBindings] at ok
    split at ok
    case isTrue => simp at ok
    case isFalse apart =>
      rw [pure_ok] at ok
      obtain ⟨rfl, rfl⟩ := ok
      have apart : "this" ∉ ps.map Typed.Param.name := by simpa using apart
      refine ⟨rfl, Bindings.entries_ofList ?_, fun _ => apart⟩
      rw [List.map_cons, List.nodup_cons]
      exact names ▸ ⟨apart, nodup⟩

/-- A name is defined in a pending scope. -/
theorem Ready.put (ready : Ready pending h ctx) {n : String} {t : Ty} (isPending : s ∈ pending)
    (fresh : h.binds s n = false) (new : t.Settled pending h) :
    (h.put s n t).Settled pending :=
  ready.types.put (ready.pending_lt s isPending) fresh (new.keeps (Heap.Keeps.put fresh t))

/-- A definition that is accepted has got its name in the active scope, and its body was checked in
a new scope inside it, which bound `b`. -/
structure Entered (pending : Set ScopeId) (h h' : Heap Ty) (ctx : Context) (id : NodeId)
    (this : Option Ty) (d : Definition) (t : Typed.Definition) (b : Bindings Ty) : Prop where
  id_eq : t.id = id
  name_eq : t.name = d.name
  fresh : h.binds ctx.scope d.name = false
  returns : (Env.of h ctx).Denotes d.returns t.returns
  params : List.Forall₂ (Param.Elaborates (Env.of h ctx)) d.params t.params
  nodup : t.paramNames.Nodup
  this_apart : this.isSome = true → "this" ∉ t.paramNames
  entries : b.entries = (this.map fun t => ("this", t)).toList ++ t.params.map Typed.Param.entry
  around : Ready pending (h.put ctx.scope d.name t.ty) ctx
  ready : Ready (insert h.size pending) ((h.put ctx.scope d.name t.ty).child ctx.scope b).2
    { ctx with scope := h.size, returns := some t.returns }
  body : block { ctx with scope := h.size, returns := some t.returns } d.body
    ((h.put ctx.scope d.name t.ty).child ctx.scope b).2 = .ok t.body h'

/-- The object around a method, if there is one, has the active scope for its members. -/
theorem Ready.entered (ready : Ready pending h ctx) (isPending : ctx.scope ∈ pending) {id : NodeId}
    {this : Option Ty} (around : ∀ t, this = some t → ∃ name, t = .object name ctx.scope) :
    ∀ {d : Definition} {t : Typed.Definition}, definition ctx id this d h = .ok t h' →
      ∃ b, Entered pending h h' ctx id this d t b
  | ⟨name, list, returns, body⟩, t, ok => by
    obtain ⟨result, _, ps, h, b, _, ts, returnsOk, paramsOk, fresh, bindingsOk, bodyOk, rfl⟩ :=
      definition_ok ok
    obtain ⟨denotes, rfl⟩ := annotationOrDynamic_ok.mp returnsOk
    obtain ⟨rfl, all, nodup, _⟩ := params_ok paramsOk
    obtain ⟨rfl, entries, apart⟩ := bodyBindings_ok nodup bindingsOk
    have parameters := ready.params all
    have settled : (Ty.function (ps.map Typed.Param.ty) result).Settled pending h := by
      refine Ty.Settled.function_iff.mpr ⟨fun t mem => ?_, ready.denoted denotes⟩
      obtain ⟨p, hp, rfl⟩ := List.mem_map.mp mem
      exact parameters p hp
    have added : h.Keeps {ctx.scope} (h.put ctx.scope name _) :=
      .put fresh (.function (ps.map Typed.Param.ty) result)
    have ready₁ := ready.next added (ready.put isPending fresh settled)
    have bound : ∀ n t, b.find? n = some t → t.Settled pending
        (h.put ctx.scope name (.function (ps.map Typed.Param.ty) result)) := by
      intro n t found
      have mem := Bindings.mem_of_find? found
      rw [entries] at mem
      exact ready.bodyBindings around fresh parameters mem
    have inside := ready₁.child bound fun t same =>
      Option.some.inj same ▸ (ready.denoted denotes).keeps added
    rw [Heap.size_put] at inside bodyOk
    exact ⟨b, rfl, rfl, fresh, denotes, all, nodup, apart, entries, ready₁, inside, bodyOk⟩

/-! ### Steps in sequence -/

theorem Done.grow {P : Heap Ty → Prop} (done : Done pending h P)
    (keeps : h.Keeps ∅ h') {H : Heap Ty} (later : h'.Keeps pending H) : P H :=
  done.lasts H ((keeps.mono (Set.empty_subset _)).trans later)

/-- The scope of a body, or of a branch, is inside the active one and pending while its block is
checked. -/
theorem Done.inside {s : ScopeId} {P : Heap Ty → Prop} (done : Done (insert s pending) h P) :
    Done pending h P where
  types := done.types.anti (Set.subset_insert _ _)
  lasts H later := done.lasts H (later.mono (Set.subset_insert _ _))

theorem keeps_branch (s : ScopeId) (b : Bindings Ty) {h' : Heap Ty}
    (keeps : (h.child s b).2.Keeps {h.size} h') : h.Keeps ∅ h' :=
  (Heap.Keeps.child ∅ h s b).trans_fresh keeps fun _ same inside =>
    absurd (same ▸ inside) (Nat.lt_irrefl _)

/-! ### Judgements about the parts of a script -/

/-- Wherever the expression is accepted, its type is settled and it elaborates. -/
def ExprAccepted (e : Expr) : Prop :=
  ∀ ⦃h h' : Heap Ty⦄ ⦃pending : Set ScopeId⦄ ⦃ctx : Context⦄ ⦃t : Typed.Expr⦄,
    Ready pending h ctx → expr ctx e h = .ok t h' →
      t.ty.Settled pending h' ∧ Done pending h' fun H => e.Elaborates H (Env.of h ctx) t

def KindAccepted (e : ExprKind) : Prop :=
  ∀ ⦃h h' : Heap Ty⦄ ⦃pending : Set ScopeId⦄ ⦃ctx : Context⦄ ⦃t : Typed.ExprKind × Ty⦄,
    Ready pending h ctx → exprKind ctx e h = .ok t h' →
      t.2.Settled pending h' ∧ Done pending h' fun H => e.Elaborates H (Env.of h ctx) t.1 t.2

def AllAccepted (es : List Expr) : Prop :=
  ∀ ⦃h h' : Heap Ty⦄ ⦃pending : Set ScopeId⦄ ⦃ctx : Context⦄ ⦃ts : List Typed.Expr⦄,
    Ready pending h ctx → exprs ctx es h = .ok ts h' →
      Done pending h' fun H => Expr.ElaborateAll H (Env.of h ctx) es ts

/-- As arguments, the expressions are accepted for parameters whose types are settled. -/
def ArgumentsAccepted (es : List Expr) : Prop :=
  ∀ ⦃h h' : Heap Ty⦄ ⦃pending : Set ScopeId⦄ ⦃ctx : Context⦄ ⦃callee : String⦄ ⦃index : Nat⦄
    ⦃params : List Ty⦄ ⦃ts : List Typed.Expr⦄, Ready pending h ctx →
      (∀ p ∈ params, p.Settled pending h) → es.length = params.length →
      argumentList ctx callee index params es h = .ok ts h' →
      Done pending h' fun H => Expr.ElaborateAll H (Env.of h ctx) es ts ∧ Accepts H params ts

/-- The fields of an object are defined in a scope younger than the active one. -/
def FieldsAccepted (fs : List Field) : Prop :=
  ∀ ⦃h h' : Heap Ty⦄ ⦃pending : Set ScopeId⦄ ⦃ctx : Context⦄ ⦃target : ScopeId⦄
    ⦃ts : List Typed.Binding⦄, Ready pending h ctx → target ∈ pending → ctx.scope < target →
      fields ctx target fs h = .ok ts h' →
      (h'.bindings target).entries = (h.bindings target).entries ++ ts.map Typed.Binding.entry ∧
        Done pending h' fun H => Field.ElaborateAll H (Env.of h ctx) fs ts

/-- The methods of an object are defined in the active scope, which has its members. -/
def MethodsAccepted (ms : List Method) : Prop :=
  ∀ ⦃h h' : Heap Ty⦄ ⦃pending : Set ScopeId⦄ ⦃ctx : Context⦄ ⦃this : Ty⦄
    ⦃ts : List Typed.Definition⦄, Ready pending h ctx → ctx.scope ∈ pending →
      (∃ name, this = .object name ctx.scope) → methods ctx this ms h = .ok ts h' →
      (h'.bindings ctx.scope).entries =
          (h.bindings ctx.scope).entries ++ ts.map Typed.Definition.entry ∧
        Done pending h' fun H => Method.ElaborateAll H (Env.of h ctx) this ms ts

/-- Wherever the statement is accepted, it elaborates and declares its names. -/
def StmtKindAccepted (s : StmtKind) : Prop :=
  ∀ ⦃h h' : Heap Ty⦄ ⦃pending : Set ScopeId⦄ ⦃ctx : Context⦄ ⦃id : NodeId⦄
    ⦃t : Typed.StmtKind⦄, Ready pending h ctx → ctx.scope ∈ pending →
      stmtKind ctx id s h = .ok t h' →
      Env.of h' ctx = (Env.of h ctx).after t ∧
        Done pending h' fun H => s.Elaborates H (Env.of h ctx) id t

def BlockAccepted (ss : List Stmt) : Prop :=
  ∀ ⦃h h' : Heap Ty⦄ ⦃pending : Set ScopeId⦄ ⦃ctx : Context⦄ ⦃ts : List Typed.Stmt⦄,
    Ready pending h ctx → ctx.scope ∈ pending → block ctx ss h = .ok ts h' →
      Env.of h' ctx = (Env.of h ctx).afterAll ts ∧
        Done pending h' fun H => Stmt.ElaborateAll H (Env.of h ctx) ss ts

/-! ### One lemma for each kind of expression

The heap that a part is checked in is one that the parts before it have grown by scopes of their
own, so the part sees the same names (`Ready.env`), and what was judged before it lasts until the
end (`Done.grow`). -/

theorem literal_accepted (value : Literal) : KindAccepted (.literal value) := by
  intro h h' pending ctx t ready ok
  obtain ⟨rfl, rfl⟩ := literal_ok ok
  refine ⟨by cases value <;> exact .prim _, ready.types, fun H _ => ?_⟩
  rw [ExprKind.Elaborates]
  exact ⟨rfl, rfl⟩

theorem group_accepted {inner : Expr} (accepted : ExprAccepted inner) :
    KindAccepted (.group inner) := by
  intro h h' pending ctx t ready ok
  obtain ⟨i, found, rfl⟩ := group_ok ok
  obtain ⟨settled, done⟩ := accepted ready found
  refine ⟨settled, done.types, fun H later => ?_⟩
  rw [ExprKind.Elaborates]
  exact ⟨i, rfl, done.lasts H later, rfl⟩

theorem binary_accepted {op : BinaryOp} {left right : Expr} (leftAccepted : ExprAccepted left)
    (rightAccepted : ExprAccepted right) : KindAccepted (.binary op left right) := by
  intro h h' pending ctx t ready ok
  obtain ⟨l, r, h₁, ty, leftOk, rightOk, judged, rfl⟩ := binary_ok ok
  have keeps₁ := (leaves_expr ctx left).keeps leftOk
  have keeps₂ := (leaves_expr ctx right).keeps rightOk
  obtain ⟨leftSettled, leftDone⟩ := leftAccepted ready leftOk
  obtain ⟨rightSettled, rightDone⟩ :=
    rightAccepted (ready.next keeps₁ leftDone.types) rightOk
  rw [ready.env keeps₁] at rightDone
  refine ⟨?_, rightDone.types, fun H later => ?_⟩
  · obtain ⟨p, rfl⟩ := BinaryOp.type_prim judged
    exact .prim _
  · rw [ExprKind.Elaborates]
    exact ⟨l, r, rfl, leftDone.grow keeps₂ later, rightDone.lasts H later,
      BinaryOp.type_of_keeps later (leftSettled.keeps keeps₂) rightSettled judged⟩

theorem variable_accepted (name : String) : KindAccepted (.variable name) := by
  intro h h' pending ctx t ready ok
  obtain ⟨ty, found, rfl, rfl⟩ := variable_ok ok
  refine ⟨ready.types.resolve found, ready.types, fun H _ => ?_⟩
  rw [ExprKind.Elaborates, Env.find?_of]
  exact ⟨rfl, found⟩

theorem property_accepted {receiver : Expr} {name : String} (accepted : ExprAccepted receiver) :
    KindAccepted (.property receiver name) := by
  intro h h' pending ctx t ready ok
  obtain ⟨r, ty, found, judged, rfl⟩ := property_ok ok
  obtain ⟨_, done⟩ := accepted ready found
  refine ⟨done.types.memberType judged, done.types, fun H later => ?_⟩
  rw [ExprKind.Elaborates]
  exact ⟨r, rfl, done.lasts H later, h', later.mono (Set.subset_univ _), judged⟩

theorem call_accepted {name : String} {arguments : List Expr}
    (accepted : ArgumentsAccepted arguments) :
    KindAccepted (.call name arguments) := by
  intro h h' pending ctx t ready ok
  obtain ⟨params, returns, ts, found, count, argumentsOk, rfl⟩ := call_ok ok
  have settled := Ty.Settled.function_iff.mp (ready.types.resolve found)
  have done := accepted ready settled.1 count argumentsOk
  have keeps := (leaves_argumentList ctx name 0 params arguments).keeps argumentsOk
  refine ⟨settled.2.keeps keeps, done.types, fun H later => ?_⟩
  rw [ExprKind.Elaborates, Env.find?_of]
  exact ⟨params, ts, rfl, found, (done.lasts H later).1, (done.lasts H later).2⟩

/-- A receiver of type `Dynamic` takes any arguments. Of any other one the method says what it
takes. -/
theorem invoke_accepted {receiver : Expr} {name : String} {arguments : List Expr}
    (receiverAccepted : ExprAccepted receiver) (allAccepted : AllAccepted arguments)
    (argumentsAccepted : ArgumentsAccepted arguments) :
    KindAccepted (.invoke receiver name arguments) := by
  intro h h' pending ctx t ready ok
  obtain ⟨r, h₁, ts, receiverOk, called⟩ := invoke_ok ok
  have keeps₁ := (leaves_expr ctx receiver).keeps receiverOk
  obtain ⟨_, receiverDone⟩ := receiverAccepted ready receiverOk
  have ready₁ := ready.next keeps₁ receiverDone.types
  rcases called with ⟨judged, argumentsOk, rfl⟩ | ⟨params, returns, judged, count, argumentsOk, rfl⟩
  · have keeps₂ := (leaves_exprs ctx arguments).keeps argumentsOk
    have done := allAccepted ready₁ argumentsOk
    rw [ready.env keeps₁] at done
    refine ⟨.prim _, done.types, fun H later => ?_⟩
    have whole := (keeps₂.mono (Set.empty_subset pending)).trans later
    rw [ExprKind.Elaborates]
    exact ⟨r, ts, rfl, receiverDone.lasts H whole, done.lasts H later,
      Or.inl ⟨⟨_, whole.mono (Set.subset_univ _), judged⟩, rfl⟩⟩
  · have settled := Ty.Settled.function_iff.mp (receiverDone.types.memberType judged)
    have done := argumentsAccepted ready₁ settled.1 count argumentsOk
    rw [ready.env keeps₁] at done
    have keeps₂ := (leaves_argumentList ctx name 0 params arguments).keeps argumentsOk
    refine ⟨settled.2.keeps keeps₂, done.types, fun H later => ?_⟩
    have whole := (keeps₂.mono (Set.empty_subset pending)).trans later
    rw [ExprKind.Elaborates]
    exact ⟨r, ts, rfl, receiverDone.lasts H whole, (done.lasts H later).1,
      Or.inr ⟨params, ⟨_, whole.mono (Set.subset_univ _), judged⟩, (done.lasts H later).2⟩⟩

/-- While its members are checked the new member scope is pending like the ones around it. -/
theorem object_accepted {name : Option String} {fieldList : List Field} {methodList : List Method}
    (fieldsAccepted : FieldsAccepted fieldList) (methodsAccepted : MethodsAccepted methodList) :
    KindAccepted (.object name fieldList methodList) := by
  intro h h' pending ctx t ready ok
  obtain ⟨bs, ds, h₂, fieldsOk, methodsOk, rfl⟩ := object_ok ok
  have keeps₁ : h.Keeps ∅ (h.root .empty).2 := .root ∅ h .empty
  have fresh : h.size ∉ pending := fun mem => Nat.lt_irrefl _ (ready.pending_lt _ mem)
  have ready₁ := ready.root
  have fieldsKeep := (leaves_fields ctx h.size fieldList).keeps fieldsOk
  obtain ⟨entries, fieldsDone⟩ := fieldsAccepted ready₁ (Set.mem_insert _ _) ready.active fieldsOk
  rw [ready.env keeps₁] at fieldsDone
  rw [Heap.bindings_root_self] at entries
  have keeps₂ : h.Keeps ∅ h₂ := keeps₁.trans_fresh fieldsKeep fun t same inside =>
    absurd (same ▸ inside) (Nat.lt_irrefl _)
  have inside₁ : h.size < (h.root .empty).2.size := Heap.lt_size_root h .empty
  have root₂ : h₂.parent? h.size = none := by
    rw [fieldsKeep.parent _ inside₁, Heap.parent?_root_self]
  have inside₂ : h.size < h₂.size := Nat.lt_of_lt_of_le inside₁ fieldsKeep.size_le
  have env₂ := ready.members keeps₂ root₂ entries
  have ready₂ := ready₁.methods ready.active inside₂ fieldsKeep.size_le fieldsDone.types
  have methodsKeep := (leaves_methods ⟨h.size, some (ctx.annotations.getD ctx.scope), none⟩
    (.object name h.size) methodList).keeps methodsOk
  obtain ⟨entries₃, methodsDone⟩ :=
    methodsAccepted ready₂ (Set.mem_insert _ _) ⟨name, rfl⟩ methodsOk
  rw [env₂] at methodsDone
  have inside₃ : h.size < h'.size := Nat.lt_of_lt_of_le inside₂ methodsKeep.size_le
  refine ⟨?_, methodsDone.inside.types, fun H later => ?_⟩
  · intro m mem
    rw [Ty.scopes, List.mem_singleton] at mem
    exact ⟨mem ▸ inside₃, fun isPending => absurd (mem ▸ isPending) fresh⟩
  · have grown := methodsKeep.mono (Set.singleton_subset_iff.mpr (Set.mem_insert h.size pending))
    rw [ExprKind.Elaborates]
    refine ⟨h.size, bs, ds, rfl, rfl, Nat.lt_of_lt_of_le inside₃ later.size_le, ?_, ?_, ?_,
      methodsDone.inside.lasts H later⟩
    · rw [later.parent _ inside₃, methodsKeep.parent _ inside₂, root₂]
    · rw [later.same _ inside₃ fresh, entries₃, entries]
      rfl
    · exact fieldsDone.lasts H (grown.trans (later.mono (Set.subset_insert _ _)))

/-- A binding ends with the definition of its name in the target. -/
theorem binding_accepted {h h' : Heap Ty} {pending : Set ScopeId} {ctx : Context}
    (ready : Ready pending h ctx) {id : NodeId} {target : ScopeId} :
    ∀ {b : Binding} {t : Typed.Binding}, (∀ e, b.value = some e → ExprAccepted e) →
      binding ctx id target b h = .ok t h' →
      ∃ h₁, h.Keeps ∅ h₁ ∧ h₁.binds target t.name = false ∧ h' = h₁.put target t.name t.ty ∧
        t.ty.Settled pending h₁ ∧
        Done pending h₁ fun H => b.Elaborates H (Env.of h ctx) id t
  | ⟨name, ty, none⟩, t, _, ok => by
    obtain ⟨declared, h, annotationOk, fresh, rfl, rfl⟩ := binding_none_ok ok
    obtain ⟨rfl, denoted⟩ := annotation?_ok annotationOk
    have denotes : (Env.of h ctx).Denotes ty (declared.getD .dynamic) := by
      rcases denoted with ⟨rfl, rfl⟩ | ⟨_, t, rfl, denotes⟩
      · rfl
      · exact denotes
    refine ⟨h, .refl ∅ h, fresh, rfl, ready.denoted denotes, ready.types, fun H _ => ?_⟩
    rw [Binding.Elaborates]
    exact ⟨rfl, rfl, rfl, denotes⟩
  | ⟨name, ty, some e⟩, t, accepted, ok => by
    obtain ⟨declared, h, v, h₁, annotationOk, valueOk, judged, fresh, rfl, rfl⟩ :=
      binding_some_ok ok
    obtain ⟨rfl, denoted⟩ := annotation?_ok annotationOk
    have keeps := (leaves_expr ctx e).keeps valueOk
    obtain ⟨valueSettled, done⟩ := accepted e rfl ready valueOk
    have settled : (declared.getD v.ty).Settled pending h₁ := by
      rcases denoted with ⟨_, rfl⟩ | ⟨_, t, rfl, denotes⟩
      · exact valueSettled
      · exact (ready.denoted denotes).keeps keeps
    refine ⟨h₁, keeps, fresh, rfl, settled, done.types, fun H later => ?_⟩
    rw [Binding.Elaborates]
    refine ⟨rfl, rfl, v, rfl, done.lasts H later, Ty.isSubtype_of_keeps later settled judged, ?_⟩
    rcases denoted with ⟨rfl, rfl⟩ | ⟨given, t, rfl, denotes⟩
    · exact Or.inl ⟨rfl, rfl⟩
    · exact Or.inr ⟨given, denotes⟩

/-- A definition binds its name in the active scope. The object around a method, if there is one,
has the active scope for its members. -/
theorem definition_accepted {h h' : Heap Ty} {pending : Set ScopeId} {ctx : Context}
    (ready : Ready pending h ctx) (isPending : ctx.scope ∈ pending)
    {id : NodeId} {this : Option Ty}
    (around : ∀ t, this = some t → ∃ name, t = .object name ctx.scope) :
    ∀ {d : Definition} {t : Typed.Definition}, BlockAccepted d.body →
      definition ctx id this d h = .ok t h' →
      Env.of h' ctx = (Env.of h ctx).declare t.name t.ty ∧
        Done pending h' fun H => d.Elaborates H (Env.of h ctx) id this t
  | ⟨name, list, returns, body⟩, t, accepted, ok => by
    obtain ⟨b, entered⟩ := ready.entered isPending around ok
    have bodyOk := entered.body
    have named : t.name = name := entered.name_eq
    -- The definition is bound before its body is checked, and the body adds nothing around itself.
    have done := (accepted entered.ready (Set.mem_insert _ _) bodyOk).2.inside
    have bodyKeeps : (h.put ctx.scope name t.ty).Keeps ∅ h' := by
      refine keeps_branch ctx.scope b ?_
      rw [Heap.size_put]
      exact (leaves_block _ body).keeps bodyOk
    have env₁ := Env.of_put ready.active ready.annotations entered.fresh t.ty
    have env₂ := Env.of_child entered.around.active entered.around.annotations_lt b (some t.returns)
    rw [Heap.size_put, env₁, entered.entries] at env₂
    rw [env₂] at done
    refine ⟨?_, done.types, fun H later => ?_⟩
    · rw [entered.around.env bodyKeeps, env₁, named]
    · rw [Definition.Elaborates]
      refine ⟨entered.id_eq, named, entered.returns, entered.params, entered.nodup,
        entered.this_apart, ?_, ?_⟩
      · exact Bindings.not_mem_names_of_not_contains entered.fresh
      · rw [Env.body, named]
        exact done.lasts H later

/-! ### One lemma for each kind of statement -/

theorem letVar_accepted {b : Binding} (accepted : ∀ e, b.value = some e → ExprAccepted e) :
    StmtKindAccepted (.letVar b) := by
  intro h h' pending ctx id t ready isPending ok
  obtain ⟨b', found, rfl⟩ := letVar_ok ok
  obtain ⟨h₁, keeps, fresh, rfl, settled, done⟩ := binding_accepted ready accepted found
  have ready₁ := ready.next keeps done.types
  have added : h₁.Keeps pending (h₁.put ctx.scope b'.name b'.ty) :=
    (Heap.Keeps.put fresh b'.ty).mono (Set.singleton_subset_iff.mpr isPending)
  refine ⟨?_, ready₁.put isPending fresh settled, fun H later => ?_⟩
  · rw [Env.of_put ready₁.active ready.annotations fresh, ready.env keeps]
    rfl
  · rw [StmtKind.Elaborates]
    refine ⟨b', rfl, done.lasts H (added.trans later), ?_⟩
    rw [← ready.env keeps]
    exact Bindings.not_mem_names_of_not_contains fresh

theorem defFun_accepted {d : Definition} (accepted : BlockAccepted d.body) :
    StmtKindAccepted (.defFun d) := by
  intro h h' pending ctx id t ready isPending ok
  obtain ⟨d', found, rfl⟩ := defFun_ok ok
  obtain ⟨env, done⟩ :=
    definition_accepted ready isPending (fun t same => by cases same) accepted found
  refine ⟨env, done.types, fun H later => ?_⟩
  rw [StmtKind.Elaborates]
  exact ⟨d', rfl, done.lasts H later⟩

/-- Each branch gets its own scope, so the second one does not see what the first one declared. -/
theorem ifElse_accepted {condition : Expr} {thenBody elseBody : List Stmt}
    (conditionAccepted : ExprAccepted condition) (thenAccepted : BlockAccepted thenBody)
    (elseAccepted : BlockAccepted elseBody) :
    StmtKindAccepted (.ifElse condition thenBody elseBody) := by
  intro h h' pending ctx id t ready isPending ok
  obtain ⟨c, a, b, h₁, h₂, conditionOk, booleanLike, thenOk, elseOk, rfl⟩ := ifElse_ok ok
  have keeps₁ := (leaves_expr ctx condition).keeps conditionOk
  have keeps₂ := keeps_branch _ _ ((leaves_block _ thenBody).keeps thenOk)
  have keeps₃ := keeps_branch _ _ ((leaves_block _ elseBody).keeps elseOk)
  have branch {h : Heap Ty} (ready : Ready pending h ctx) :=
    ready.child (b := .empty) (by simp) ready.returns
  obtain ⟨_, first⟩ := conditionAccepted ready conditionOk
  have ready₁ := ready.next keeps₁ first.types
  have second := (thenAccepted (branch ready₁) (Set.mem_insert _ _) thenOk).2.inside
  have ready₂ := ready₁.next keeps₂ second.types
  have third := (elseAccepted (branch ready₂) (Set.mem_insert _ _) elseOk).2.inside
  rw [Env.of_child ready₁.active ready₁.annotations_lt, ready.env keeps₁] at second
  rw [Env.of_child ready₂.active ready₂.annotations_lt, ready₁.env keeps₂,
    ready.env keeps₁] at third
  refine ⟨ready.env_after (keeps₁.trans (keeps₂.trans keeps₃)) rfl, third.types,
    fun H later => ?_⟩
  rw [StmtKind.Elaborates]
  exact ⟨c, a, b, rfl, first.grow (keeps₂.trans keeps₃) later, booleanLike,
    second.grow keeps₃ later, third.lasts H later⟩

theorem forEach_accepted {name : String} {iterable : Expr} {body : List Stmt}
    (iterableAccepted : ExprAccepted iterable) (bodyAccepted : BlockAccepted body) :
    StmtKindAccepted (.forEach name iterable body) := by
  intro h h' pending ctx id t ready isPending ok
  obtain ⟨i, ty, b, h₁, iterableOk, judged, element, bodyOk, rfl⟩ := forEach_ok ok
  have keeps₁ := (leaves_expr ctx iterable).keeps iterableOk
  have keeps₂ := keeps_branch _ _ ((leaves_block _ body).keeps bodyOk)
  obtain ⟨_, first⟩ := iterableAccepted ready iterableOk
  have ready₁ := ready.next keeps₁ first.types
  have primitive : ty.Settled pending h₁ := by
    rw [element]
    split <;> exact .prim _
  have ready₂ := ready₁.child (b := .ofList [(name, ty)]) (fun n t found => by
    obtain ⟨_, rfl⟩ := Bindings.eq_of_find?_single found
    exact primitive) ready₁.returns
  have second := (bodyAccepted ready₂ (Set.mem_insert _ _) bodyOk).2.inside
  rw [Env.of_child ready₁.active ready₁.annotations_lt, ready.env keeps₁,
    Bindings.entries_single] at second
  refine ⟨ready.env_after (keeps₁.trans keeps₂) rfl, second.types, fun H later => ?_⟩
  rw [StmtKind.Elaborates]
  exact ⟨ty, i, b, rfl, first.grow keeps₂ later, (Ty.isSubtype_prim _ _ _ _).trans judged,
    element, second.lasts H later⟩

theorem returns_accepted {value : Option Expr} (accepted : ∀ e, value = some e → ExprAccepted e) :
    StmtKindAccepted (.returns value) := by
  intro h h' pending ctx id t ready isPending ok
  cases value with
  | none =>
    obtain ⟨expected, result, judged, rfl, rfl⟩ := returns_none_ok ok
    refine ⟨ready.env_after (.refl ∅ _) rfl, ready.types, fun H later => ?_⟩
    rw [StmtKind.Elaborates]
    exact ⟨expected, rfl, result,
      Ty.isSubtype_of_keeps later (ready.returns expected result) judged⟩
  | some e =>
    obtain ⟨expected, v, result, found, judged, rfl⟩ := returns_some_ok ok
    have keeps := (leaves_expr ctx e).keeps found
    obtain ⟨_, done⟩ := accepted e rfl ready found
    refine ⟨ready.env_after keeps rfl, done.types, fun H later => ?_⟩
    rw [StmtKind.Elaborates]
    exact ⟨expected, v, rfl, result, done.lasts H later, Ty.isSubtype_of_keeps later
      ((ready.returns expected result).keeps keeps) judged⟩

theorem exprStmt_accepted {e : Expr} (accepted : ExprAccepted e) : StmtKindAccepted (.expr e) := by
  intro h h' pending ctx id t ready isPending ok
  obtain ⟨v, found, rfl⟩ := exprStmt_ok ok
  have keeps := (leaves_expr ctx e).keeps found
  obtain ⟨_, done⟩ := accepted ready found
  refine ⟨ready.env_after keeps rfl, done.types, fun H later => ?_⟩
  rw [StmtKind.Elaborates]
  exact ⟨v, rfl, done.lasts H later⟩

theorem assignVariable_accepted {node : NodeRef} {name : String} {value : Expr}
    (accepted : ExprAccepted value) : StmtKindAccepted (.assign ⟨node, .variable name⟩ value) := by
  intro h h' pending ctx id t ready isPending ok
  obtain ⟨ty, v, found, valueOk, judged, rfl⟩ := assignVariable_ok ok
  have keeps := (leaves_expr ctx value).keeps valueOk
  obtain ⟨_, done⟩ := accepted ready valueOk
  refine ⟨ready.env_after keeps rfl, done.types, fun H later => ?_⟩
  rw [StmtKind.Elaborates, Env.find?_of]
  exact ⟨ty, v, rfl, found, done.lasts H later,
    Ty.isSubtype_of_keeps later ((ready.types.resolve found).keeps keeps) judged⟩

theorem assignProperty_accepted {node : NodeRef} {receiver value : Expr} {name : String}
    (receiverAccepted : ExprAccepted receiver) (valueAccepted : ExprAccepted value) :
    StmtKindAccepted (.assign ⟨node, .property receiver name⟩ value) := by
  intro h h' pending ctx id t ready isPending ok
  obtain ⟨r, ty, v, h₁, receiverOk, member, valueOk, judged, rfl⟩ := assignProperty_ok ok
  have keeps₁ := (leaves_expr ctx receiver).keeps receiverOk
  have keeps₂ := (leaves_expr ctx value).keeps valueOk
  obtain ⟨_, first⟩ := receiverAccepted ready receiverOk
  have ready₁ := ready.next keeps₁ first.types
  obtain ⟨_, second⟩ := valueAccepted ready₁ valueOk
  rw [ready.env keeps₁] at second
  refine ⟨ready.env_after (keeps₁.trans keeps₂) rfl, second.types, fun H later => ?_⟩
  have whole := (keeps₂.mono (Set.empty_subset pending)).trans later
  rw [StmtKind.Elaborates]
  exact ⟨r, ty, v, rfl, first.lasts H whole, ⟨h₁, whole.mono (Set.subset_univ _), member⟩,
    second.lasts H later, Ty.isSubtype_of_keeps later
      ((first.types.memberType member).keeps keeps₂) judged⟩

/-! ### The walk itself -/

mutual

theorem expr_accepted : ∀ {e : Expr}, ExprAccepted e
  | ⟨node, kind⟩ => by
    intro h h' pending ctx t ready ok
    obtain ⟨k, ty, found, rfl⟩ := expr_ok ok
    obtain ⟨settled, done⟩ := exprKind_accepted ready found
    refine ⟨settled, done.types, fun H later => ?_⟩
    rw [Expr.Elaborates]
    exact ⟨rfl, done.lasts H later⟩

theorem exprKind_accepted : ∀ {e : ExprKind}, KindAccepted e
  | .literal value => literal_accepted value
  | .group _ => group_accepted expr_accepted
  | .binary _ _ _ => binary_accepted expr_accepted expr_accepted
  | .variable name => variable_accepted name
  | .property _ _ => property_accepted expr_accepted
  | .call _ _ => call_accepted argumentList_accepted
  | .invoke _ _ _ => invoke_accepted expr_accepted exprs_accepted argumentList_accepted
  | .object _ _ _ => object_accepted fields_accepted methods_accepted

theorem exprs_accepted : ∀ {es : List Expr}, AllAccepted es
  | [] => by
    intro h h' pending ctx ts ready ok
    rw [exprs, pure_ok] at ok
    obtain ⟨rfl, rfl⟩ := ok
    refine ⟨ready.types, fun H _ => ?_⟩
    rw [Expr.ElaborateAll]
  | e :: es => by
    intro h h' pending ctx ts ready ok
    obtain ⟨t, rest, h₁, firstOk, restOk, rfl⟩ := exprs_cons_ok ok
    have keeps₁ := (leaves_expr ctx e).keeps firstOk
    have keeps₂ := (leaves_exprs ctx es).keeps restOk
    obtain ⟨_, first⟩ := expr_accepted ready firstOk
    have following := exprs_accepted (ready.next keeps₁ first.types) restOk
    rw [ready.env keeps₁] at following
    refine ⟨following.types, fun H later => ?_⟩
    rw [Expr.ElaborateAll]
    exact ⟨t, rest, rfl, first.grow keeps₂ later, following.lasts H later⟩

theorem argumentList_accepted : ∀ {es : List Expr}, ArgumentsAccepted es
  | [] => by
    intro h h' pending ctx callee index params ts ready _ count ok
    obtain rfl := List.length_eq_zero_iff.mp count.symm
    rw [argumentList, pure_ok] at ok
    · obtain ⟨rfl, rfl⟩ := ok
      refine ⟨ready.types, fun H _ => ⟨?_, .nil⟩⟩
      rw [Expr.ElaborateAll]
    · simp
  | e :: es => by
    intro h h' pending ctx callee index params ts ready settled count ok
    obtain ⟨p, params, rfl⟩ := List.exists_cons_of_length_eq_add_one count.symm
    obtain ⟨t, rest, h₁, firstOk, judged, restOk, rfl⟩ := argumentList_cons_ok ok
    have keeps₁ := (leaves_expr ctx e).keeps firstOk
    have keeps₂ := (leaves_argumentList ctx callee (index + 1) params es).keeps restOk
    obtain ⟨_, first⟩ := expr_accepted ready firstOk
    have following := argumentList_accepted (ready.next keeps₁ first.types)
      (fun q mem => (settled q (List.mem_cons_of_mem p mem)).keeps keeps₁)
      (Nat.succ.inj count) restOk
    rw [ready.env keeps₁] at following
    refine ⟨following.types, fun H later => ?_⟩
    have whole := (keeps₂.mono (Set.empty_subset pending)).trans later
    have below := Ty.isSubtype_of_keeps whole
      ((settled p List.mem_cons_self).keeps keeps₁) judged
    rw [Expr.ElaborateAll]
    exact ⟨⟨t, rest, rfl, first.lasts H whole, (following.lasts H later).1⟩,
      .cons below (following.lasts H later).2⟩

theorem option_accepted : ∀ {value : Option Expr}, ∀ e, value = some e → ExprAccepted e
  | none, _, impossible => nomatch impossible
  | some _, _, rfl => expr_accepted

theorem fields_accepted : ∀ {fs : List Field}, FieldsAccepted fs
  | [] => by
    intro h h' pending ctx target ts ready isPending younger ok
    rw [fields, pure_ok] at ok
    obtain ⟨rfl, rfl⟩ := ok
    refine ⟨by simp, ready.types, fun H _ => ?_⟩
    rw [Field.ElaborateAll]
  | ⟨node, name, ty, value⟩ :: rest => by
    intro h h' pending ctx target ts ready isPending younger ok
    obtain ⟨t, more, _, firstOk, restOk, rfl⟩ := fields_cons_ok ok
    obtain ⟨h₁, keeps₁, fresh, rfl, settled, first⟩ :=
      binding_accepted ready option_accepted firstOk
    have inside : target < h₁.size :=
      Nat.lt_of_lt_of_le (ready.pending_lt target isPending) keeps₁.size_le
    have ready₁ := ready.next keeps₁ first.types
    have added : h₁.Keeps {target} (h₁.put target t.name t.ty) := .put fresh t.ty
    have keeps₂ := (leaves_fields ctx target rest).keeps restOk
    -- The target is younger than the active scope, so what it gets is not in scope.
    have env₂ : Env.of (h₁.put target t.name t.ty) ctx = Env.of h ctx := by
      rw [Env.of_keeps added ready₁.active ready₁.annotations_lt, ready.env keeps₁]
      rintro _ rfl
      exact ⟨younger, fun a same => Nat.lt_trans (ready.annotations a same) younger⟩
    obtain ⟨entries, following⟩ := fields_accepted
      (ready₁.next added (ready₁.put isPending fresh settled)) isPending younger restOk
    rw [env₂] at following
    refine ⟨?_, following.types, fun H later => ?_⟩
    · rw [entries, Heap.bindings_put_self inside, Bindings.entries_insert_of_not_mem _
        (Bindings.not_mem_names_of_not_contains fresh),
        keeps₁.same _ (ready.pending_lt target isPending) (Set.notMem_empty _), List.append_assoc]
      rfl
    · have grown := (added.trans keeps₂).mono (Set.singleton_subset_iff.mpr isPending)
      rw [Field.ElaborateAll]
      exact ⟨t, more, rfl, first.lasts H (grown.trans later), following.lasts H later⟩

theorem methods_accepted : ∀ {ms : List Method}, MethodsAccepted ms
  | [] => by
    intro h h' pending ctx this ts ready isPending around ok
    rw [methods, pure_ok] at ok
    obtain ⟨rfl, rfl⟩ := ok
    refine ⟨by simp, ready.types, fun H _ => ?_⟩
    rw [Method.ElaborateAll]
  | ⟨node, name, list, returns, body⟩ :: rest => by
    intro h h' pending ctx this ts ready isPending around ok
    obtain ⟨t, more, h₁, firstOk, restOk, rfl⟩ := methods_cons_ok ok
    have keeps₁ := (leaves_definition ctx node.id (some this) _).keeps firstOk
    have keeps₂ := (leaves_methods ctx this rest).keeps restOk
    obtain ⟨env₁, first⟩ := definition_accepted ready isPending
      (fun t same => Option.some.inj same ▸ around) block_accepted firstOk
    obtain ⟨entries, following⟩ :=
      methods_accepted (ready.next keeps₁ first.types) isPending around restOk
    rw [env₁] at following
    refine ⟨?_, following.types, fun H later => ?_⟩
    · have own : (h₁.bindings ctx.scope).entries = (h.bindings ctx.scope).entries ++ [t.entry] :=
        congrArg Env.own env₁
      rw [entries, own, List.append_assoc]
      rfl
    · have grown := keeps₂.mono (Set.singleton_subset_iff.mpr isPending)
      rw [Method.ElaborateAll]
      exact ⟨t, more, rfl, first.lasts H (grown.trans later), following.lasts H later⟩

theorem stmt_accepted {h h' : Heap Ty} {pending : Set ScopeId} {ctx : Context}
    (ready : Ready pending h ctx) (isPending : ctx.scope ∈ pending) :
    ∀ {s : Stmt} {t : Typed.Stmt}, stmt ctx s h = .ok t h' →
      Env.of h' ctx = (Env.of h ctx).after t.kind ∧
        Done pending h' fun H => s.Elaborates H (Env.of h ctx) t
  | ⟨node, kind⟩, t, ok => by
    obtain ⟨k, found, rfl⟩ := stmt_ok ok
    obtain ⟨env, done⟩ := stmtKind_accepted ready isPending found
    refine ⟨env, done.types, fun H later => ?_⟩
    rw [Stmt.Elaborates]
    exact ⟨rfl, done.lasts H later⟩

theorem stmtKind_accepted : ∀ {s : StmtKind}, StmtKindAccepted s
  | .letVar ⟨_, _, _⟩ => letVar_accepted option_accepted
  | .defFun ⟨_, _, _, _⟩ => defFun_accepted block_accepted
  | .ifElse _ _ _ => ifElse_accepted expr_accepted block_accepted block_accepted
  | .forEach _ _ _ => forEach_accepted expr_accepted block_accepted
  | .returns _ => returns_accepted option_accepted
  | .expr _ => exprStmt_accepted expr_accepted
  | .assign ⟨_, .variable _⟩ _ => assignVariable_accepted expr_accepted
  | .assign ⟨_, .property _ _⟩ _ => assignProperty_accepted expr_accepted expr_accepted
  | .assign ⟨_, .literal _⟩ _ | .assign ⟨_, .group _⟩ _ | .assign ⟨_, .binary _ _ _⟩ _
  | .assign ⟨_, .call _ _⟩ _ | .assign ⟨_, .invoke _ _ _⟩ _ | .assign ⟨_, .object _ _ _⟩ _ => by
    intro h h' pending ctx id t ready isPending ok
    rcases assign_ok ok with ⟨_, same⟩ | ⟨_, _, same⟩ <;> cases same

theorem block_accepted : ∀ {ss : List Stmt}, BlockAccepted ss
  | [] => by
    intro h h' pending ctx ts ready isPending ok
    rw [block, pure_ok] at ok
    obtain ⟨rfl, rfl⟩ := ok
    refine ⟨rfl, ready.types, fun H _ => ?_⟩
    rw [Stmt.ElaborateAll]
  | s :: rest => by
    intro h h' pending ctx ts ready isPending ok
    obtain ⟨t, more, h₁, firstOk, restOk, rfl⟩ := block_cons_ok ok
    have keeps₁ := (leaves_stmt ctx s).keeps firstOk
    have keeps₂ := (leaves_block ctx rest).keeps restOk
    obtain ⟨env₁, first⟩ := stmt_accepted ready isPending firstOk
    obtain ⟨env₂, following⟩ := block_accepted (ready.next keeps₁ first.types) isPending restOk
    rw [env₁] at env₂ following
    refine ⟨env₂, following.types, fun H later => ?_⟩
    have grown := keeps₂.mono (Set.singleton_subset_iff.mpr isPending)
    rw [Stmt.ElaborateAll]
    exact ⟨t, more, rfl, first.lasts H (grown.trans later), following.lasts H later⟩

end

end Check

/-! ## Sessions -/

theorem exists_eq_ok {ε α : Type} {x : Except ε α} (ok : x.isOk = true) : ∃ a, x = .ok a := by
  cases x with
  | ok a => exact ⟨a, rfl⟩
  | error e => cases ok

namespace CheckSession

/-- The scope of a session exists, and so do the member scopes that types name. A top level that
binds nothing yet is not the member scope of an object type. -/
structure Closed (s : CheckSession) : Prop where
  active : s.scope < s.heap.size
  inside : ∀ t n ty, s.heap.resolveLocal t n = some ty → ∀ m ∈ ty.scopes, m < s.heap.size
  apart : (s.heap.bindings s.scope).isEmpty = true →
    ∀ t n ty, s.heap.resolveLocal t n = some ty → s.scope ∉ ty.scopes

variable {s : CheckSession}

theorem Closed.ready (closed : s.Closed) :
    Check.Ready {s.scope} s.heap { scope := s.scope } where
  active := closed.active
  annotations a same := by cases same
  pending_lt t same := same ▸ closed.active
  types t n ty found m mem := by
    refine ⟨closed.inside t n ty found m mem, ?_⟩
    rintro rfl
    by_contra empty
    rw [Bool.not_eq_false] at empty
    exact closed.apart empty t n ty found mem
  returns t same := by cases same

theorem start_closed (fixtures : Bool) : (start fixtures).Closed := by
  have inside : ∀ t < (start fixtures).heap.size, ∀ e ∈ ((start fixtures).heap.bindings t).entries,
      ∀ m ∈ e.2.scopes, m < (start fixtures).heap.size := by
    cases fixtures <;> decide
  refine ⟨by cases fixtures <;> decide, fun t n ty found => ?_, fun empty => ?_⟩
  · exact inside t (Heap.lt_size_of_resolveLocal found) _ (Bindings.mem_of_find? found)
  · cases fixtures <;> exact absurd empty (by decide)

theorem check_eq_ok {p : Script} {typed : List Typed.Stmt} (ok : (s.check p).1 = .ok typed) :
    Check.block { scope := s.scope } p.statements s.heap = .ok typed (s.check p).2.heap := by
  unfold check at ok ⊢
  split at ok
  case h_1 found =>
    cases ok
    rw [found]
  case h_2 => cases ok

/-- An accepted script elaborates to its typed script, in the heap that checking ends with. -/
theorem Closed.elaborates (closed : s.Closed) {p : Script} {typed : List Typed.Stmt}
    (ok : (s.check p).1 = .ok typed) :
    Stmt.ElaborateAll (s.check p).2.heap (Env.of s.heap { scope := s.scope }) p.statements typed :=
  (Check.block_accepted closed.ready rfl (check_eq_ok ok)).2.lasts _ (.refl _ _)

/-- The top level of an accepted script binds what its statements declare. -/
theorem Closed.env (closed : s.Closed) {p : Script} {typed : List Typed.Stmt}
    (ok : (s.check p).1 = .ok typed) : Env.of (s.check p).2.heap { scope := s.scope } =
      (Env.of s.heap { scope := s.scope }).afterAll typed :=
  (Check.block_accepted closed.ready rfl (check_eq_ok ok)).1

/-- An accepted script leaves a session that the next script can be checked in. -/
theorem Closed.check (closed : s.Closed) {p : Script} {typed : List Typed.Stmt}
    (ok : (s.check p).1 = .ok typed) : (s.check p).2.Closed := by
  have checked := check_eq_ok ok
  have keeps := (Check.leaves_block _ p.statements).keeps checked
  have types := (Check.block_accepted closed.ready rfl checked).2.types
  have scope : (s.check p).2.scope = s.scope := by
    unfold CheckSession.check
    split <;> rfl
  rw [← scope] at types
  refine ⟨?_, fun t n ty found m mem => (types t n ty found m mem).1,
    fun empty t n ty found mem => ?_⟩
  · rw [scope]
    exact Nat.lt_of_lt_of_le closed.active keeps.size_le
  · have nonempty := (types t n ty found _ mem).2 rfl
    rw [empty] at nonempty
    exact Bool.noConfusion nonempty

end CheckSession

end GradualScript
