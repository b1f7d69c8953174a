/-
# GradualScript.Proofs.Check.Members -- what the finished objects say about recorded members

The checker asks for a member at the moment at which it walks over the use of it, and records the
answer. Objects may still be growing then: a method sees `this`, and the methods after it are not
defined yet. A later method may hide the member of a prototype that was found before, so a recorded
answer is not always the one that the finished object gives.

It is the only way in which answers change. `MembersStand` says of each use of a member in a typed
script that the finished heap gives the recorded answer, or that the answer is a method that an
object around the use defines after the method in which the use stands. For the proof, `Later`
bounds how a heap may still grow: a scope that no longer gets links (see `Prototypes`) gets names
only from such methods, and every scope that a receiver leads to is of that sort.
-/

import GradualScript.Proofs.Check.Prototypes
import GradualScript.Proofs.Check.Accepted
import Mathlib.Logic.Relation

namespace GradualScript

/-- Methods that are defined after a point of the script, each with the member scope of its
object. -/
abbrev LaterMethods := Set (ScopeId × Typed.Definition)

namespace Ty

/-- The finished heap answers `t` when an object with members `m` is asked for member `name`; or
else it answers with a later method of an object on the prototype chain. -/
def StillFinds (H : Heap Ty) (later : LaterMethods) (m : ScopeId) (name : String) (t : Ty) : Prop :=
  lookup H m name = some t ∨
    ∃ m' d, (m', d) ∈ later ∧ d.name = name ∧
      Relation.ReflTransGen (fun m p => Links H p m) m m' ∧ lookup H m name = some d.ty

/-- What a call of a method was checked against: nothing at all if the method is `Dynamic`, and
otherwise a function type that accepts the arguments and gives the type of the call. -/
def CalledFor (H : Heap Ty) (callee : Ty) (arguments : List Typed.Expr) (ty : Ty) : Prop :=
  callee = .dynamic ∧ ty = .dynamic ∨
    ∃ params, callee = .function params ty ∧ Accepts H params arguments

end Ty

/-- The methods `ds` of the object of type `this`, as later methods. -/
def methodsOf (this : Ty) (ds : List Typed.Definition) : LaterMethods :=
  {e | e.1 ∈ this.scopes ∧ e.2 ∈ ds}

/-! ## Uses of members -/

namespace Typed

mutual

def Expr.MembersStand (H : Heap Ty) (later : LaterMethods) : Expr → Prop
  | ⟨_, ty, kind⟩ => kind.MembersStand H later ty

/-- In a node of type `ty`, the members of receivers of object types still are what they were
recorded as. -/
def ExprKind.MembersStand (H : Heap Ty) (later : LaterMethods) (ty : Ty) : ExprKind → Prop
  | .literal _ => True
  | .group inner => inner.MembersStand H later
  | .binary _ left right => left.MembersStand H later ∧ right.MembersStand H later
  | .variable _ => True
  | .property receiver name => receiver.MembersStand H later ∧
      ∀ n m, receiver.ty = .object n m → Ty.StillFinds H later m name ty
  | .call _ arguments => Expr.AllMembersStand H later arguments
  | .invoke receiver name arguments => receiver.MembersStand H later ∧
      Expr.AllMembersStand H later arguments ∧
      ∀ n m, receiver.ty = .object n m →
        ∃ callee, Ty.StillFinds H later m name callee ∧ Ty.CalledFor H callee arguments ty
  | .object _ fields methods => Binding.AllMembersStand H later fields ∧
      Definition.AllMembersStand H later ty methods

def Expr.AllMembersStand (H : Heap Ty) (later : LaterMethods) : List Expr → Prop
  | [] => True
  | e :: es => e.MembersStand H later ∧ Expr.AllMembersStand H later es

def Binding.MembersStand (H : Heap Ty) (later : LaterMethods) : Binding → Prop
  | ⟨_, _, _, none⟩ => True
  | ⟨_, _, _, some value⟩ => value.MembersStand H later

def Binding.AllMembersStand (H : Heap Ty) (later : LaterMethods) : List Binding → Prop
  | [] => True
  | b :: bs => b.MembersStand H later ∧ Binding.AllMembersStand H later bs

def Definition.MembersStand (H : Heap Ty) (later : LaterMethods) : Definition → Prop
  | ⟨_, _, _, _, body⟩ => Stmt.AllMembersStand H later body

/-- Inside a method of an object of type `this` the methods after it are still to come. -/
def Definition.AllMembersStand (H : Heap Ty) (later : LaterMethods) (this : Ty) :
    List Definition → Prop
  | [] => True
  | d :: ds => d.MembersStand H (later ∪ methodsOf this ds) ∧
      Definition.AllMembersStand H later this ds

def Stmt.MembersStand (H : Heap Ty) (later : LaterMethods) : Stmt → Prop
  | ⟨_, kind⟩ => kind.MembersStand H later

def StmtKind.MembersStand (H : Heap Ty) (later : LaterMethods) : StmtKind → Prop
  | .letVar binding => binding.MembersStand H later
  | .defFun definition => definition.MembersStand H later
  | .ifElse condition thenBody elseBody => condition.MembersStand H later ∧
      Stmt.AllMembersStand H later thenBody ∧ Stmt.AllMembersStand H later elseBody
  | .forEach _ _ iterable body => iterable.MembersStand H later ∧
      Stmt.AllMembersStand H later body
  | .returns none => True
  | .returns (some value) => value.MembersStand H later
  | .expr expression => expression.MembersStand H later
  | .assignVariable _ _ value => value.MembersStand H later
  | .assignProperty receiver name ty value => receiver.MembersStand H later ∧
      (∀ n m, receiver.ty = .object n m → Ty.StillFinds H later m name ty) ∧
      value.MembersStand H later

def Stmt.AllMembersStand (H : Heap Ty) (later : LaterMethods) : List Stmt → Prop
  | [] => True
  | s :: ss => s.MembersStand H later ∧ Stmt.AllMembersStand H later ss

end

end Typed

variable {h h' H : Heap Ty} {free pending growing : Set ScopeId} {later : LaterMethods}
  {m s : ScopeId} {ctx : Context}

/-! ## How a heap may still grow -/

namespace Check

/-- `H` grows from `h` in pending scopes. In one that no longer gets links, the new names are those
of later methods. -/
structure Later (pending growing : Set ScopeId) (later : LaterMethods) (h H : Heap Ty) : Prop where
  keeps : h.Keeps pending H
  gained : ∀ s n t, s < h.size → s ∉ growing → H.resolveLocal s n = some t →
    h.resolveLocal s n = some t ∨ ∃ d, (s, d) ∈ later ∧ d.name = n ∧ d.ty = t

namespace Later

theorem of_keeps (keeps : h.Keeps pending H) (sub : pending ⊆ growing) :
    Later pending growing ∅ h H where
  keeps := keeps
  gained s n t inside fixed found := by
    rw [Heap.resolveLocal, keeps.same s inside fun mem => fixed (sub mem)] at found
    exact Or.inl found

/-- From an earlier heap on, if only scopes that may get links were added to in between. -/
theorem before (after : Later pending growing later h' H) (keeps : h.Keeps free h')
    (sub : free ⊆ pending) (grows : free ⊆ growing) : Later pending growing later h H where
  keeps := (keeps.mono sub).trans after.keeps
  gained s n t inside fixed found := by
    refine (after.gained s n t (Nat.lt_of_lt_of_le inside keeps.size_le) fixed found).imp_left
      fun earlier => ?_
    rwa [Heap.resolveLocal, keeps.same s inside fun mem => fixed (grows mem)] at earlier

theorem before_empty (after : Later pending growing later h' H) (keeps : h.Keeps ∅ h') :
    Later pending growing later h H :=
  after.before keeps (Set.empty_subset _) (Set.empty_subset _)

theorem mono {pending' growing' : Set ScopeId} (after : Later pending growing later h H)
    (pendingSub : pending ⊆ pending') (growingSub : growing ⊆ growing') :
    Later pending' growing' later h H where
  keeps := after.keeps.mono pendingSub
  gained s n t inside fixed found :=
    after.gained s n t inside (fun mem => fixed (growingSub mem)) found

/-- The scope of a body or of a branch may get links while its block is checked. -/
theorem inside (after : Later pending growing later h H) (s : ScopeId) :
    Later (insert s pending) (insert s growing) later h H :=
  after.mono (Set.subset_insert _ _) (Set.subset_insert _ _)

/-- Methods `ds` have been defined in between. -/
theorem before_methods (after : Later pending growing later h' H) {this : Ty}
    (this_scope : m ∈ this.scopes) (keeps : h.Keeps {m} h') (isPending : m ∈ pending)
    {ds : List Typed.Definition} (entries : (h'.bindings m).entries =
      (h.bindings m).entries ++ ds.map Typed.Definition.entry) :
    Later pending growing (later ∪ methodsOf this ds) h H where
  keeps := (keeps.mono (Set.singleton_subset_iff.mpr isPending)).trans after.keeps
  gained s n t inside fixed found := by
    rcases after.gained s n t (Nat.lt_of_lt_of_le inside keeps.size_le) fixed found with
      earlier | ⟨d, mem, name, ty⟩
    · by_cases same : s = m
      · subst same
        have bound := Bindings.mem_of_find? earlier
        rw [entries, List.mem_append] at bound
        refine bound.imp (fun old => Bindings.find?_eq_some_of_mem old) fun new => ?_
        obtain ⟨d, mem, pair⟩ := List.mem_map.mp new
        obtain ⟨rfl, rfl⟩ := Prod.mk.inj pair
        exact ⟨d, Or.inr ⟨this_scope, mem⟩, rfl, rfl⟩
      · rw [Heap.resolveLocal, keeps.same s inside same] at earlier
        exact Or.inl earlier
    · exact Or.inr ⟨d, Or.inl mem, name, ty⟩

/-- Along a chain of scopes that no longer get links, an answer changes only for a later method. -/
theorem lookupWithin (after : Later pending growing later h H) (founded : h.Founded growing)
    {name : String} {t : Ty} : ∀ {n k : Nat} {m : ScopeId}, n ≤ k → m < h.size → m ∉ growing →
      Ty.lookupWithin h name n m = some t →
      Ty.lookupWithin H name k m = some t ∨
        ∃ m' d, (m', d) ∈ later ∧ d.name = name ∧
          Relation.ReflTransGen (fun m p => Ty.Links H p m) m m' ∧
          Ty.lookupWithin H name k m = some d.ty
  -- By recursion along the chain that the earlier search walked. The later search may stop before
  -- that, at a method that came in the meantime, or it goes on where the earlier one went on.
  | n + 1, k + 1, m, le, inside, fixed, found => by
    rw [Ty.lookupWithin] at found ⊢
    cases own : H.resolveLocal m name with
    | some u =>
      rcases after.gained m name u inside fixed own with old | ⟨d, mem, rfl, rfl⟩
      · rw [old] at found
        exact Or.inl found
      · exact Or.inr ⟨m, d, mem, rfl, .refl, rfl⟩
    | none =>
      have unbound : h.resolveLocal m name = none := by
        cases old : h.resolveLocal m name with
        | none => rfl
        | some u => rw [after.keeps.resolveLocal old] at own; cases own
      rw [unbound] at found
      cases link : Ty.prototype? h m with
      | none => simp [link] at found
      | some p =>
        rw [Ty.prototype?_of_keeps after.keeps link]
        rw [link] at found
        cases p with
        | object other proto =>
          have apart := Ty.Apart.object_iff.mp (founded.apart m _ _ link)
          have first : Ty.Links H proto m := ⟨other, Ty.prototype?_of_keeps after.keeps link⟩
          rcases lookupWithin after founded (Nat.le_of_succ_le_succ le) apart.1 apart.2 found with
            same | ⟨m', d, mem, name, reached, answer⟩
          · exact Or.inl same
          · exact Or.inr ⟨m', d, mem, name, .head first reached, answer⟩
        | prim p =>
          cases p with
          | dynamic => exact Or.inl found
          | _ => simp at found
        | function params returns => simp at found

/-- What a receiver's type answers. -/
theorem stillFinds (after : Later pending growing later h H) (founded : h.Founded growing)
    {receiver t : Ty} (apart : receiver.Apart growing h) {name : String} {use : MemberUse}
    (judged : memberType h receiver name use = .ok t) {n : Option String} {m : ScopeId}
    (same : receiver = .object n m) : Ty.StillFinds H later m name t := by
  subst same
  obtain ⟨inside, fixed⟩ := Ty.Apart.object_iff.mp apart
  have found : Ty.lookup h m name = some t := by
    rw [memberType] at judged
    split at judged
    · cases judged
      assumption
    · cases judged
  exact after.lookupWithin founded after.keeps.size_le inside fixed found

end Later

/-! ## Where the checker stands -/

theorem Founds.of_ok {α : Type} {x : Check α} {post : α → Heap Ty → Prop}
    (founds : Founds growing h x post) {a : α} (ok : x h = .ok a h') :
    h'.Founded growing ∧ post a h' :=
  ⟨after_of_ok ok ▸ founds.founded, founds.result a h' ok⟩

/-- What holds wherever the checker stands: it is ready to go on, and prototype chains end. -/
structure Standing (pending growing : Set ScopeId) (h : Heap Ty) (ctx : Context) : Prop where
  ready : Ready pending h ctx
  founded : h.Founded growing

namespace Standing

theorem expr (standing : Standing pending growing h ctx) {e : Expr} {t : Typed.Expr}
    (ok : Check.expr ctx e h = .ok t h') :
    Standing pending growing h' ctx ∧ t.ty.Apart growing h' := by
  obtain ⟨founded, apart⟩ := (expr_founded standing.founded e).of_ok ok
  exact ⟨⟨standing.ready.next ((leaves_expr ctx e).keeps ok)
    (expr_accepted standing.ready ok).2.types, founded⟩, apart⟩

theorem stmt (standing : Standing pending growing h ctx) (isPending : ctx.scope ∈ pending)
    (grows : ctx.scope ∈ growing) {s : Stmt} {t : Typed.Stmt} (ok : Check.stmt ctx s h = .ok t h') :
    Standing pending growing h' ctx :=
  ⟨standing.ready.next ((leaves_stmt ctx s).keeps ok)
    (stmt_accepted standing.ready isPending ok).2.types,
    ((stmt_founded standing.founded grows s).of_ok ok).1⟩

theorem block (standing : Standing pending growing h ctx) (isPending : ctx.scope ∈ pending)
    (grows : ctx.scope ∈ growing) {ss : List Stmt} {ts : List Typed.Stmt}
    (ok : Check.block ctx ss h = .ok ts h') : Standing pending growing h' ctx :=
  ⟨standing.ready.next ((leaves_block ctx ss).keeps ok)
    (block_accepted standing.ready isPending ok).2.types,
    ((block_founded standing.founded grows ss).of_ok ok).1⟩

/-- Into a branch, whose bindings name no scope. -/
theorem branch (standing : Standing pending growing h ctx) {b : Bindings Ty}
    (plain : ∀ n t, b.find? n = some t → ∃ p, t = .prim p) :
    Standing (insert h.size pending) (insert h.size growing) (h.child ctx.scope b).2
      { ctx with scope := h.size } where
  ready := standing.ready.child (fun n t found => by
    obtain ⟨p, rfl⟩ := plain n t found
    exact .prim p) standing.ready.returns
  founded := standing.founded.child ctx.scope fun n t found => by
    obtain ⟨p, rfl⟩ := plain n t found
    exact .prim p

theorem binding (standing : Standing pending growing h ctx) (isPending : s ∈ pending)
    (grows : s ∈ growing) {id : NodeId} {b : Binding} {t : Typed.Binding}
    (ok : Check.binding ctx id s b h = .ok t h') : Standing pending growing h' ctx := by
  have founded := ((binding_founded standing.founded grows b).of_ok ok).1
  obtain ⟨h₁, keeps, fresh, rfl, settled, done⟩ :=
    binding_accepted standing.ready option_accepted ok
  have ready₁ := standing.ready.next keeps done.types
  exact ⟨ready₁.next (.put fresh t.ty) (ready₁.put isPending fresh settled), founded⟩

/-- After a definition. In a scope that no longer gets links it is a method. -/
theorem definition (standing : Standing pending growing h ctx) (isPending : ctx.scope ∈ pending)
    {id : NodeId} {this : Option Ty}
    (around : ∀ t, this = some t → ctx.scope ∉ growing ∧ ∃ name, t = .object name ctx.scope)
    {d : Definition} {t : Typed.Definition} (ok : Check.definition ctx id this d h = .ok t h') :
    Standing pending growing h' ctx where
  ready := standing.ready.next ((leaves_definition ctx id this d).keeps ok)
    (definition_accepted standing.ready isPending
      (fun t same => (around t same).2) block_accepted ok).2.types
  founded := by
    refine ((definition_founded standing.founded standing.ready.active (fun t same => ?_) d).of_ok
      ok).1
    obtain ⟨fixed, name, rfl⟩ := around t same
    exact Ty.Apart.object_iff.mpr ⟨standing.ready.active, fixed⟩

/-- Into the fields of an object. Its member scope may get links. -/
theorem root (standing : Standing pending growing h ctx) :
    Standing (insert h.size pending) (insert h.size growing) (h.root .empty).2 ctx where
  ready := standing.ready.root
  founded := standing.founded.root

/-- From the fields of an object to its methods. Its member scope gets no more links. -/
theorem methods (standing : Standing (insert m pending) (insert m growing) h ctx)
    (younger : ctx.scope < m) (inside : m < h.size) {fs : List Field} {ts : List Typed.Binding}
    (ok : Check.fields ctx m fs h = .ok ts h') :
    Standing (insert m pending) growing h' ⟨m, some (ctx.annotations.getD ctx.scope), none⟩ where
  ready := by
    have keeps := (leaves_fields ctx m fs).keeps ok
    exact standing.ready.methods younger (Nat.lt_of_lt_of_le inside keeps.size_le) keeps.size_le
      (fields_accepted standing.ready (Set.mem_insert _ _) younger ok).2.types
  founded := ((fields_founded standing.founded (Set.mem_insert _ _) fs).of_ok ok).1.anti
    (Set.subset_insert _ _)

/-- Out of a branch. -/
theorem leave (standing : Standing pending growing h ctx) (keeps : h.Keeps ∅ h') {ctx' : Context}
    (inside : Standing (insert s pending) (insert s growing) h' ctx') :
    Standing pending growing h' ctx where
  ready := standing.ready.next keeps (inside.ready.types.anti (Set.subset_insert _ _))
  founded := inside.founded.anti (Set.subset_insert _ _)

/-- Into the body of a definition. -/
theorem body (standing : Standing pending growing h ctx) (isPending : ctx.scope ∈ pending)
    {id : NodeId} {this : Option Ty}
    (around : ∀ t, this = some t → ctx.scope ∉ growing ∧ ∃ name, t = .object name ctx.scope)
    {d : Definition} {t : Typed.Definition} (ok : Check.definition ctx id this d h = .ok t h') :
    ∃ h₁ ctx₁ s, s = h.size ∧ ctx₁.scope = s ∧
      Standing (insert s pending) (insert s growing) h₁ ctx₁ ∧
      Check.block ctx₁ d.body h₁ = .ok t.body h' := by
  obtain ⟨b, entered⟩ := standing.ready.entered isPending (fun t same => (around t same).2) ok
  refine ⟨_, _, _, rfl, rfl, ⟨entered.ready, ?_⟩, entered.body⟩
  have denoted {name : Option String} {u : Ty} (denotes : (Env.of h ctx).Denotes name u) :
      u.Apart growing h := by
    cases name with
    | none =>
      obtain rfl : u = .dynamic := denotes
      exact .prim _
    | some name =>
      rw [Env.Denotes, Env.annotated_of, Heap.lookup_visible] at denotes
      exact standing.founded.resolve denotes
  have parameters : ∀ p ∈ t.params, p.ty.Apart growing h := by
    intro p mem
    obtain ⟨_, denotes⟩ := exists_denotes_of_mem entered.params p mem
    exact denoted denotes
  have new : t.ty.Apart growing h := by
    refine Ty.Apart.function_iff.mpr ⟨fun u mem => ?_, denoted entered.returns⟩
    obtain ⟨p, hp, rfl⟩ := List.mem_map.mp mem
    exact parameters p hp
  have founded := standing.founded.put standing.ready.active entered.fresh new
    (Or.inr fun _ _ same => by cases same)
  have whole := founded.child ctx.scope (b := b) fun n u found => ?_
  · rwa [Heap.size_put] at whole
  · refine Ty.Apart.grow ?_ (Nat.le_of_eq (Heap.size_put h ctx.scope d.name t.ty).symm)
    have mem := Bindings.mem_of_find? found
    rw [entered.entries] at mem
    rcases List.mem_append.mp mem with mem | mem
    · obtain ⟨t', same, pair⟩ := Option.map_eq_some_iff.mp (Option.mem_toList.mp mem)
      obtain ⟨fixed, _, rfl⟩ := around t' same
      obtain ⟨rfl, rfl⟩ := Prod.mk.inj pair
      exact Ty.Apart.object_iff.mpr ⟨standing.ready.active, fixed⟩
    · obtain ⟨p, hp, same⟩ := List.mem_map.mp mem
      obtain ⟨rfl, rfl⟩ := Prod.mk.inj same
      exact parameters p hp

end Standing

/-! ## The walk

By recursion on the tree. What is checked after a use of a member adds to scopes that no receiver
leads to (`Later.before`), except that a method may be followed by others of its object
(`Later.before_methods`). -/

mutual

theorem expr_membersStand {h h' : Heap Ty} {pending growing : Set ScopeId} {ctx : Context}
    (standing : Standing pending growing h ctx) {later : LaterMethods} {H : Heap Ty} :
    ∀ {e : Expr} {t : Typed.Expr}, expr ctx e h = .ok t h' → Later pending growing later h' H →
      t.MembersStand H later
  | ⟨node, kind⟩, t, ok, after => by
    obtain ⟨k, ty, found, rfl⟩ := expr_ok ok
    rw [Typed.Expr.MembersStand]
    exact exprKind_membersStand standing found after

theorem exprKind_membersStand {h h' : Heap Ty} {pending growing : Set ScopeId} {ctx : Context}
    (standing : Standing pending growing h ctx) {later : LaterMethods} {H : Heap Ty} :
    ∀ {e : ExprKind} {t : Typed.ExprKind × Ty}, exprKind ctx e h = .ok t h' →
      Later pending growing later h' H → t.1.MembersStand H later t.2
  | .literal value, t, ok, after => by
    obtain ⟨rfl, rfl⟩ := literal_ok ok
    rw [Typed.ExprKind.MembersStand]
    trivial
  | .group inner, t, ok, after => by
    obtain ⟨i, found, rfl⟩ := group_ok ok
    rw [Typed.ExprKind.MembersStand]
    exact expr_membersStand standing found after
  | .binary op left right, t, ok, after => by
    obtain ⟨l, r, h₁, ty, leftOk, rightOk, _, rfl⟩ := binary_ok ok
    have keeps := (leaves_expr ctx right).keeps rightOk
    rw [Typed.ExprKind.MembersStand]
    exact ⟨expr_membersStand standing leftOk (after.before_empty keeps),
      expr_membersStand (standing.expr leftOk).1 rightOk after⟩
  | .variable name, t, ok, after => by
    obtain ⟨ty, _, rfl, rfl⟩ := variable_ok ok
    rw [Typed.ExprKind.MembersStand]
    trivial
  | .property receiver name, t, ok, after => by
    obtain ⟨r, ty, found, judged, rfl⟩ := property_ok ok
    obtain ⟨standing₁, apart⟩ := standing.expr found
    rw [Typed.ExprKind.MembersStand]
    exact ⟨expr_membersStand standing found after,
      fun n m same => after.stillFinds standing₁.founded apart judged same⟩
  | .call name arguments, t, ok, after => by
    obtain ⟨params, returns, ts, _, _, argumentsOk, rfl⟩ := call_ok ok
    rw [Typed.ExprKind.MembersStand]
    exact argumentList_membersStand standing argumentsOk after
  | .invoke receiver name arguments, t, ok, after => by
    obtain ⟨r, h₁, ts, receiverOk, called⟩ := invoke_ok ok
    obtain ⟨standing₁, apart⟩ := standing.expr receiverOk
    rcases called with ⟨judged, argumentsOk, rfl⟩ | ⟨params, returns, judged, count,
      argumentsOk, rfl⟩
    · have after₁ := after.before_empty ((leaves_exprs ctx arguments).keeps argumentsOk)
      rw [Typed.ExprKind.MembersStand]
      refine ⟨expr_membersStand standing receiverOk after₁,
        exprs_membersStand standing₁ argumentsOk after, fun n m same => ?_⟩
      exact ⟨.dynamic, after₁.stillFinds standing₁.founded apart judged same, Or.inl ⟨rfl, rfl⟩⟩
    · have settled := Ty.Settled.function_iff.mp (standing₁.ready.types.memberType judged)
      have accepts := ((argumentList_accepted standing₁.ready settled.1 count argumentsOk).lasts H
        after.keeps).2
      have after₁ := after.before_empty
        ((leaves_argumentList ctx name 0 params arguments).keeps argumentsOk)
      rw [Typed.ExprKind.MembersStand]
      refine ⟨expr_membersStand standing receiverOk after₁,
        argumentList_membersStand standing₁ argumentsOk after, fun n m same => ?_⟩
      exact ⟨.function params returns, after₁.stillFinds standing₁.founded apart judged same,
        Or.inr ⟨params, rfl, accepts⟩⟩
  | .object name fieldList methodList, t, ok, after => by
    obtain ⟨bs, ds, h₂, fieldsOk, methodsOk, rfl⟩ := object_ok ok
    have fieldsKeep := (leaves_fields ctx h.size fieldList).keeps fieldsOk
    have methodsKeep := (leaves_methods ⟨h.size, some (ctx.annotations.getD ctx.scope), none⟩
      (.object name h.size) methodList).keeps methodsOk
    have own := Set.mem_insert h.size pending
    have methodsStanding := standing.root.methods standing.ready.active
      (Heap.lt_size_root h .empty) fieldsOk
    -- A field may still give the object its prototype; the methods find the chain as it stays.
    have fixed : h.size ∉ growing := fun mem =>
      Nat.lt_irrefl _ (standing.founded.growing_lt _ mem)
    rw [Typed.ExprKind.MembersStand]
    constructor
    · refine fields_membersStand standing.root own (Set.mem_insert _ _) fieldsOk
        ((after.inside h.size).before methodsKeep ?_ ?_)
      · exact Set.singleton_subset_iff.mpr own
      · exact Set.singleton_subset_iff.mpr (Set.mem_insert _ _)
    · exact methods_membersStand methodsStanding own fixed ⟨name, rfl⟩ methodsOk
        (after.mono (Set.subset_insert _ _) (Set.Subset.refl _))

theorem exprs_membersStand {h h' : Heap Ty} {pending growing : Set ScopeId} {ctx : Context}
    (standing : Standing pending growing h ctx) {later : LaterMethods} {H : Heap Ty} :
    ∀ {es : List Expr} {ts : List Typed.Expr}, exprs ctx es h = .ok ts h' →
      Later pending growing later h' H → Typed.Expr.AllMembersStand H later ts
  | [], ts, ok, after => by
    rw [exprs, pure_ok] at ok
    obtain ⟨rfl, rfl⟩ := ok
    rw [Typed.Expr.AllMembersStand]
    trivial
  | e :: es, ts, ok, after => by
    obtain ⟨t, rest, h₁, firstOk, restOk, rfl⟩ := exprs_cons_ok ok
    rw [Typed.Expr.AllMembersStand]
    exact ⟨expr_membersStand standing firstOk
        (after.before_empty ((leaves_exprs ctx es).keeps restOk)),
      exprs_membersStand (standing.expr firstOk).1 restOk after⟩

theorem argumentList_membersStand {h h' : Heap Ty} {pending growing : Set ScopeId} {ctx : Context}
    (standing : Standing pending growing h ctx) {later : LaterMethods} {H : Heap Ty}
    {callee : String} :
    ∀ {es : List Expr} {index : Nat} {params : List Ty} {ts : List Typed.Expr},
      argumentList ctx callee index params es h = .ok ts h' →
      Later pending growing later h' H → Typed.Expr.AllMembersStand H later ts
  | e :: es, index, p :: params, ts, ok, after => by
    obtain ⟨t, rest, h₁, firstOk, _, restOk, rfl⟩ := argumentList_cons_ok ok
    rw [Typed.Expr.AllMembersStand]
    exact ⟨expr_membersStand standing firstOk (after.before_empty
        ((leaves_argumentList ctx callee (index + 1) params es).keeps restOk)),
      argumentList_membersStand (standing.expr firstOk).1 restOk after⟩
  | [], index, params, ts, ok, after => by
    rw [argumentList, pure_ok] at ok
    · obtain ⟨rfl, rfl⟩ := ok
      rw [Typed.Expr.AllMembersStand]
      trivial
    · simp
  | _ :: _, index, [], ts, ok, after => by
    rw [argumentList, pure_ok] at ok
    · obtain ⟨rfl, rfl⟩ := ok
      rw [Typed.Expr.AllMembersStand]
      trivial
    · simp

theorem binding_membersStand {h h' : Heap Ty} {pending growing : Set ScopeId} {ctx : Context}
    (standing : Standing pending growing h ctx) {later : LaterMethods} {H : Heap Ty} {id : NodeId}
    {target : ScopeId} (isPending : target ∈ pending) (grows : target ∈ growing) :
    ∀ {b : Binding} {t : Typed.Binding}, binding ctx id target b h = .ok t h' →
      Later pending growing later h' H → t.MembersStand H later
  | ⟨name, ty, none⟩, t, ok, after => by
    obtain ⟨declared, h, _, _, rfl, rfl⟩ := binding_none_ok ok
    rw [Typed.Binding.MembersStand]
    trivial
  | ⟨name, ty, some e⟩, t, ok, after => by
    obtain ⟨declared, h, v, h₁, annotationOk, valueOk, _, fresh, rfl, rfl⟩ := binding_some_ok ok
    obtain ⟨rfl, _⟩ := annotation?_ok annotationOk
    rw [Typed.Binding.MembersStand]
    refine expr_membersStand standing valueOk (after.before (.put fresh _) ?_ ?_)
    · exact Set.singleton_subset_iff.mpr isPending
    · exact Set.singleton_subset_iff.mpr grows

theorem fields_membersStand {h h' : Heap Ty} {pending growing : Set ScopeId} {ctx : Context}
    (standing : Standing pending growing h ctx) {later : LaterMethods} {H : Heap Ty}
    {target : ScopeId} (isPending : target ∈ pending) (grows : target ∈ growing) :
    ∀ {fs : List Field} {ts : List Typed.Binding}, fields ctx target fs h = .ok ts h' →
      Later pending growing later h' H → Typed.Binding.AllMembersStand H later ts
  | [], ts, ok, after => by
    rw [fields, pure_ok] at ok
    obtain ⟨rfl, rfl⟩ := ok
    rw [Typed.Binding.AllMembersStand]
    trivial
  | ⟨node, b⟩ :: rest, ts, ok, after => by
    obtain ⟨t, more, h₁, firstOk, restOk, rfl⟩ := fields_cons_ok ok
    have after₁ := after.before ((leaves_fields ctx target rest).keeps restOk)
      (Set.singleton_subset_iff.mpr isPending) (Set.singleton_subset_iff.mpr grows)
    rw [Typed.Binding.AllMembersStand]
    exact ⟨binding_membersStand standing isPending grows firstOk after₁,
      fields_membersStand (standing.binding isPending grows firstOk) isPending grows restOk after⟩

theorem definition_membersStand {h h' : Heap Ty} {pending growing : Set ScopeId} {ctx : Context}
    (standing : Standing pending growing h ctx) {later : LaterMethods} {H : Heap Ty} {id : NodeId}
    (isPending : ctx.scope ∈ pending) {this : Option Ty}
    (around : ∀ t, this = some t → ctx.scope ∉ growing ∧ ∃ name, t = .object name ctx.scope) :
    ∀ {d : Definition} {t : Typed.Definition}, definition ctx id this d h = .ok t h' →
      Later pending growing later h' H → t.MembersStand H later
  | ⟨name, list, returns, body⟩, ⟨_, _, _, _, _⟩, ok, after => by
    obtain ⟨h₁, ctx₁, s, rfl, active, standing₁, bodyOk⟩ := standing.body isPending around ok
    rw [Typed.Definition.MembersStand]
    exact block_membersStand standing₁ (active ▸ Set.mem_insert _ _) (active ▸ Set.mem_insert _ _)
      bodyOk (after.inside _)

/-- The methods of an object, whose member scope gets no more links. -/
theorem methods_membersStand {h h' : Heap Ty} {pending growing : Set ScopeId} {ctx : Context}
    (standing : Standing pending growing h ctx) {later : LaterMethods} {H : Heap Ty}
    (isPending : ctx.scope ∈ pending) (fixed : ctx.scope ∉ growing)
    {this : Ty} (around : ∃ name, this = .object name ctx.scope) :
    ∀ {ms : List Method} {ts : List Typed.Definition}, methods ctx this ms h = .ok ts h' →
      Later pending growing later h' H → Typed.Definition.AllMembersStand H later this ts
  | [], ts, ok, after => by
    rw [methods, pure_ok] at ok
    obtain ⟨rfl, rfl⟩ := ok
    rw [Typed.Definition.AllMembersStand]
    trivial
  | ⟨node, d⟩ :: rest, ts, ok, after => by
    obtain ⟨t, more, h₁, firstOk, restOk, rfl⟩ := methods_cons_ok ok
    have method : ∀ t, some this = some t → ctx.scope ∉ growing ∧
        ∃ name, t = .object name ctx.scope :=
      fun t same => ⟨fixed, Option.some.inj same ▸ around⟩
    have standing₁ := standing.definition isPending method firstOk
    have entries := (methods_accepted standing₁.ready isPending around restOk).1
    have own : ctx.scope ∈ this.scopes := by
      obtain ⟨name, rfl⟩ := around
      exact List.mem_singleton_self _
    -- What this scope gets from here on are the methods that follow in the object.
    have after₁ := after.before_methods own ((leaves_methods ctx this rest).keeps restOk)
      isPending entries
    rw [Typed.Definition.AllMembersStand]
    exact ⟨definition_membersStand standing isPending method firstOk after₁,
      methods_membersStand standing₁ isPending fixed around restOk after⟩

theorem stmt_membersStand {h h' : Heap Ty} {pending growing : Set ScopeId} {ctx : Context}
    (standing : Standing pending growing h ctx) {later : LaterMethods} {H : Heap Ty}
    (isPending : ctx.scope ∈ pending) (grows : ctx.scope ∈ growing) :
    ∀ {s : Stmt} {t : Typed.Stmt}, stmt ctx s h = .ok t h' → Later pending growing later h' H →
      t.MembersStand H later
  | ⟨node, kind⟩, t, ok, after => by
    obtain ⟨k, found, rfl⟩ := stmt_ok ok
    rw [Typed.Stmt.MembersStand]
    exact stmtKind_membersStand standing isPending grows found after

theorem stmtKind_membersStand {h h' : Heap Ty} {pending growing : Set ScopeId} {ctx : Context}
    (standing : Standing pending growing h ctx) {later : LaterMethods} {H : Heap Ty} {id : NodeId}
    (isPending : ctx.scope ∈ pending) (grows : ctx.scope ∈ growing) :
    ∀ {s : StmtKind} {t : Typed.StmtKind}, stmtKind ctx id s h = .ok t h' →
      Later pending growing later h' H → t.MembersStand H later
  | .letVar b, t, ok, after => by
    obtain ⟨b', found, rfl⟩ := letVar_ok ok
    rw [Typed.StmtKind.MembersStand]
    exact binding_membersStand standing isPending grows found after
  | .defFun d, t, ok, after => by
    obtain ⟨d', found, rfl⟩ := defFun_ok ok
    rw [Typed.StmtKind.MembersStand]
    exact definition_membersStand standing isPending (fun t same => by cases same) found after
  | .ifElse condition thenBody elseBody, t, ok, after => by
    obtain ⟨c, a, b, h₁, h₂, conditionOk, _, thenOk, elseOk, rfl⟩ := ifElse_ok ok
    have keeps₂ := keeps_branch _ _ ((leaves_block _ thenBody).keeps thenOk)
    have keeps₃ := keeps_branch _ _ ((leaves_block _ elseBody).keeps elseOk)
    have standing₁ := (standing.expr conditionOk).1
    have thenStanding := standing₁.branch (b := .empty) (by simp)
    have standing₂ := standing₁.leave keeps₂
      (thenStanding.block (Set.mem_insert _ _) (Set.mem_insert _ _) thenOk)
    have elseStanding := standing₂.branch (b := .empty) (by simp)
    have after₂ := after.before_empty keeps₃
    rw [Typed.StmtKind.MembersStand]
    exact ⟨expr_membersStand standing conditionOk (after₂.before_empty keeps₂),
      block_membersStand thenStanding (Set.mem_insert _ _) (Set.mem_insert _ _) thenOk
        (after₂.inside _),
      block_membersStand elseStanding (Set.mem_insert _ _) (Set.mem_insert _ _) elseOk
        (after.inside _)⟩
  | .forEach name iterable body, t, ok, after => by
    obtain ⟨i, ty, b, h₁, iterableOk, _, element, bodyOk, rfl⟩ := forEach_ok ok
    have keeps₂ := keeps_branch _ _ ((leaves_block _ body).keeps bodyOk)
    have inside := (standing.expr iterableOk).1.branch (b := .ofList [(name, ty)])
      fun n t found => by
      obtain ⟨_, rfl⟩ := Bindings.eq_of_find?_single found
      rw [element]
      split <;> exact ⟨_, rfl⟩
    rw [Typed.StmtKind.MembersStand]
    exact ⟨expr_membersStand standing iterableOk (after.before_empty keeps₂),
      block_membersStand inside (Set.mem_insert _ _) (Set.mem_insert _ _) bodyOk (after.inside _)⟩
  | .returns none, t, ok, after => by
    obtain ⟨_, _, _, rfl, rfl⟩ := returns_none_ok ok
    rw [Typed.StmtKind.MembersStand]
    trivial
  | .returns (some e), t, ok, after => by
    obtain ⟨_, v, _, found, _, rfl⟩ := returns_some_ok ok
    rw [Typed.StmtKind.MembersStand]
    exact expr_membersStand standing found after
  | .expr e, t, ok, after => by
    obtain ⟨v, found, rfl⟩ := exprStmt_ok ok
    rw [Typed.StmtKind.MembersStand]
    exact expr_membersStand standing found after
  | .assign ⟨target, kind⟩ value, t, ok, after => by
    cases kind with
    | «variable» name =>
      obtain ⟨ty, v, _, valueOk, _, rfl⟩ := assignVariable_ok ok
      rw [Typed.StmtKind.MembersStand]
      exact expr_membersStand standing valueOk after
    | property receiver name =>
      obtain ⟨r, ty, v, h₁, receiverOk, member, valueOk, _, rfl⟩ := assignProperty_ok ok
      obtain ⟨standing₁, apart⟩ := standing.expr receiverOk
      have after₁ := after.before_empty ((leaves_expr ctx value).keeps valueOk)
      rw [Typed.StmtKind.MembersStand]
      exact ⟨expr_membersStand standing receiverOk after₁,
        fun n m same => after₁.stillFinds standing₁.founded apart member same,
        expr_membersStand standing₁ valueOk after⟩
    | _ => rcases assign_ok ok with ⟨_, same⟩ | ⟨_, _, same⟩ <;> cases same

theorem block_membersStand {h h' : Heap Ty} {pending growing : Set ScopeId} {ctx : Context}
    (standing : Standing pending growing h ctx) {later : LaterMethods} {H : Heap Ty}
    (isPending : ctx.scope ∈ pending) (grows : ctx.scope ∈ growing) :
    ∀ {ss : List Stmt} {ts : List Typed.Stmt}, block ctx ss h = .ok ts h' →
      Later pending growing later h' H → Typed.Stmt.AllMembersStand H later ts
  | [], ts, ok, after => by
    rw [block, pure_ok] at ok
    obtain ⟨rfl, rfl⟩ := ok
    rw [Typed.Stmt.AllMembersStand]
    trivial
  | s :: rest, ts, ok, after => by
    obtain ⟨t, more, h₁, firstOk, restOk, rfl⟩ := block_cons_ok ok
    have after₁ := after.before ((leaves_block ctx rest).keeps restOk)
      (Set.singleton_subset_iff.mpr isPending) (Set.singleton_subset_iff.mpr grows)
    rw [Typed.Stmt.AllMembersStand]
    exact ⟨stmt_membersStand standing isPending grows firstOk after₁,
      block_membersStand (standing.stmt isPending grows firstOk) isPending grows restOk after⟩

end

end Check

/-! ## Sessions -/

namespace CheckSession

variable {s : CheckSession} {p : Script} {typed : List Typed.Stmt}

theorem Founded.ready (founded : s.Founded) :
    Check.Ready {s.scope} s.heap { scope := s.scope } where
  active := founded.growing_lt s.scope rfl
  annotations a same := by cases same
  pending_lt := founded.growing_lt
  types t n ty found m mem :=
    ⟨(founded.apart t n ty found m mem).1,
      fun top => absurd top (founded.apart t n ty found m mem).2⟩
  returns t same := by cases same

/-- In an accepted script the heap that checking ends with gives the recorded member of every use of
a member, or the method that hides it: one that an object around the use defines after the method in
which the use stands. -/
theorem Founded.membersStand (founded : s.Founded) (ok : (s.check p).1 = .ok typed) :
    Typed.Stmt.AllMembersStand (s.check p).2.heap ∅ typed :=
  Check.block_membersStand ⟨founded.ready, founded⟩ rfl rfl (check_eq_ok ok)
    (.of_keeps (.refl _ _) (Set.Subset.refl _))

end CheckSession

/-! ## A member that is hidden later -/

/-- The second object uses two members of its prototype in a method and defines methods of these
names after it. -/
def hidingScript : Script :=
  ⟨[⟨default, .letVar ⟨"a", none, some ⟨default, .object (some "A")
      [⟨default, "x", some "Integer", some ⟨default, .literal (.integer 1)⟩⟩]
      [⟨default, "m", [], some "Integer",
        [⟨default, .returns (some ⟨default, .literal (.integer 1)⟩)⟩]⟩]⟩⟩⟩,
    ⟨default, .letVar ⟨"b", none, some ⟨default, .object (some "B")
      [⟨default, "prototype", none, some ⟨default, .variable "a"⟩⟩]
      [⟨default, "use", [], some "Integer",
        [⟨default, .assign ⟨default, .property ⟨default, .variable "this"⟩ "x"⟩
            ⟨default, .literal (.integer 2)⟩⟩,
          ⟨default, .returns (some ⟨default, .binary .add
            ⟨default, .property ⟨default, .variable "this"⟩ "x"⟩
            ⟨default, .invoke ⟨default, .variable "this"⟩ "m" []⟩⟩)⟩]⟩,
        ⟨default, "x", [], some "Integer",
          [⟨default, .returns (some ⟨default, .literal (.integer 0)⟩)⟩]⟩,
        ⟨default, "m", [], some "String",
          [⟨default, .returns (some ⟨default, .literal (.string "m")⟩)⟩]⟩]⟩⟩⟩]⟩

/-- The receiver of the uses: `this`, of the type with the members in scope 3. -/
def hidingThis : Typed.Expr := ⟨default, .object (some "B") 3, .variable "this"⟩

/-- The uses as they are recorded. Each of them takes the member for an integer, or for a method
that gives one. -/
def hidingUses : List Typed.Stmt :=
  [⟨default, .assignProperty hidingThis "x" .integer ⟨default, .integer, .literal (.integer 2)⟩⟩,
    ⟨default, .returns (some ⟨default, .integer, .binary .add
      ⟨default, .integer, .property hidingThis "x"⟩
      ⟨default, .integer, .invoke hidingThis "m" []⟩⟩)⟩]

/-- The script is accepted, and the finished object has a function for `x` and a method `m` with
another result. -/
theorem hidingScript_hides :
    (∃ first fields later, (hidingScript.check false).1 = .ok [first,
      ⟨default, .letVar ⟨default, "b", .object (some "B") 3,
        some ⟨default, .object (some "B") 3, .object (some "B") fields
          (⟨default, "use", [], .integer, hidingUses⟩ :: later)⟩⟩⟩]) ∧
    Ty.lookup (hidingScript.check false).2 3 "x" ≠ some .integer ∧
    ∀ callee, Ty.lookup (hidingScript.check false).2 3 "m" = some callee →
      ¬Ty.CalledFor (hidingScript.check false).2 callee [] .integer := by
  refine ⟨⟨_, _, _, rfl⟩, by decide, fun callee found called => ?_⟩
  have method : Ty.lookup (hidingScript.check false).2 3 "m" = some (.function [] .string) := by
    decide
  obtain rfl := Option.some.inj (found.symm.trans method)
  rcases called with ⟨same, _⟩ | ⟨_, same, _⟩ <;> cases same

theorem CheckSession.membersStand_hidingScript : ∃ typed,
    ((CheckSession.start false).check hidingScript).1 = .ok typed ∧
      Typed.Stmt.AllMembersStand ((CheckSession.start false).check hidingScript).2.heap ∅ typed :=
  ⟨_, rfl, (CheckSession.start_founded false).membersStand rfl⟩

end GradualScript
