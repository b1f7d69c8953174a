/-
# GradualScript.Proofs.Check.Residue -- what a check leaves behind

A session goes on after a script that is refused, with what the scopes hold then. A check leaves no
trace in its context, and in the scopes that were there before it leaves little. An expression
leaves nothing. A statement that succeeds leaves what it defines, in the active scope. A statement
that fails leaves nothing, with one exception: a definition is bound before its body is checked, so
its name stays if the body is refused (`Check.Refuses`).

The steps before that point are judged with `Check.Comes`, which says of a step what it comes to
where it succeeds, and what heap it leaves where it fails.
-/

import GradualScript.Proofs.Check.Accepted
import GradualScript.Proofs.Check.Tour

namespace GradualScript

/-- The scope `s` is the same in two heaps: inside the same scope, with the same bindings. -/
def Heap.Alike {α : Type} (s : ScopeId) (h h' : Heap α) : Prop :=
  h'.parent? s = h.parent? s ∧ h'.bindings s = h.bindings s

theorem Heap.Keeps.alike {α : Type} {free : Set ScopeId} {h h' : Heap α} {s : ScopeId}
    (keeps : h.Keeps free h') (old : s < h.size) (kept : s ∉ free) : h.Alike s h' :=
  ⟨keeps.parent s old, keeps.same s old kept⟩

namespace Check

variable {α β : Type} {x : Check α} {f : α → Check β} {h h' : Heap Ty} {ctx : Context}
  {free : Set ScopeId}

/-! ## Success and failure -/

/-- From `h` on the step comes to a result as `Q` says, or fails and leaves a heap as `E` says. -/
def Comes (x : Check α) (h : Heap Ty) (Q : α → Heap Ty → Prop) (E : Heap Ty → Prop) : Prop :=
  match x h with
  | .ok a h' => Q a h'
  | .error _ h' => E h'

namespace Comes

variable {Q R : α → Heap Ty → Prop} {S : β → Heap Ty → Prop} {E : Heap Ty → Prop}

theorem of_ok (comes : Comes x h Q E) {a : α} (ok : x h = .ok a h') : Q a h' := by
  unfold Comes at comes
  rw [ok] at comes
  exact comes

theorem of_error (comes : Comes x h Q E) {fault : Located CheckError}
    (error : x h = .error fault h') : E h' := by
  unfold Comes at comes
  rw [error] at comes
  exact comes

theorem mono (comes : Comes x h Q E) (imp : ∀ a h', Q a h' → R a h') : Comes x h R E := by
  unfold Comes at comes ⊢
  split at comes
  · exact imp _ _ comes
  · exact comes

theorem weaken {F : Heap Ty → Prop} (comes : Comes x h Q E) (imp : ∀ h', E h' → F h') :
    Comes x h Q F := by
  unfold Comes at comes ⊢
  split at comes
  · exact comes
  · exact imp _ comes

theorem pure {a : α} (post : Q a h) : Comes (Pure.pure a) h Q E := post

theorem bind (first : Comes x h Q E) (second : ∀ a h', Q a h' → Comes (f a) h' S E) :
    Comes (x >>= f) h S E := by
  unfold Comes
  simp only [Bind.bind, EStateM.bind]
  cases result : x h with
  | ok a h' => exact second a h' (first.of_ok result)
  | error fault h' => exact first.of_error result

theorem located {node : NodeRef} (comes : Comes x h Q E) : Comes (Check.located node x) h Q E := by
  unfold Comes Check.located
  cases result : x h with
  | ok a h' => exact comes.of_ok result
  | error fault h' => exact comes.of_error result

/-- What a step leaves alone it leaves alone either way. -/
theorem of_leaves (leaves : Leaves free x)
    (ok : ∀ a h', x h = .ok a h' → h.Keeps free h' → Q a h')
    (error : ∀ fault h', x h = .error fault h' → h.Keeps free h' → E h') : Comes x h Q E := by
  have keeps := leaves h
  unfold after at keeps
  unfold Comes
  cases result : x h with
  | ok a h' =>
    rw [result] at keeps
    exact ok a h' result keeps
  | error fault h' =>
    rw [result] at keeps
    exact error fault h' result keeps

theorem child_bind {s : ScopeId} {b : Bindings Ty} {f : ScopeId → Check β}
    (next : Comes (f h.size) (h.child s b).2 S E) : Comes (Check.child s b >>= f) h S E := by
  rw [← Heap.child_fst h s b] at next
  exact next

theorem define {s : ScopeId} {name : String} {t : Ty} {cause : CheckError}
    {Q : Unit → Heap Ty → Prop} (error : h.binds s name = true → E h)
    (ok : h.binds s name = false → Q () (h.put s name t)) :
    Comes (Check.define s name t cause) h Q E := by
  unfold Comes Check.define
  cases bound : h.binds s name with
  | true => exact error bound
  | false => exact ok bound

end Comes

/-! ## Bindings -/

/-- The scope `s` has got these entries, and no other scope that was there has changed. -/
structure Adds (s : ScopeId) (entries : List (String × Ty)) (h h' : Heap Ty) : Prop where
  keeps : h.Keeps {s} h'
  entries : (h'.bindings s).entries = (h.bindings s).entries ++ entries

theorem Adds.of_keeps {s : ScopeId} (keeps : h.Keeps ∅ h') (inside : s < h.size) :
    Adds s [] h h' where
  keeps := keeps.mono (Set.empty_subset _)
  entries := by rw [keeps.same s inside (Set.notMem_empty s), List.append_nil]

theorem Adds.put {s : ScopeId} {h₁ : Heap Ty} {name : String} {t : Ty} (keeps : h.Keeps ∅ h₁)
    (inside : s < h.size) (unbound : h₁.binds s name = false) :
    Adds s [(name, t)] h (h₁.put s name t) where
  keeps := (keeps.mono (Set.empty_subset _)).trans (.put unbound t)
  entries := by
    rw [Heap.bindings_put_self (Nat.lt_of_lt_of_le inside keeps.size_le),
      Bindings.entries_insert_of_not_mem t (Bindings.not_mem_names_of_not_contains unbound),
      keeps.same s inside (Set.notMem_empty s)]

theorem Adds.trans {s : ScopeId} {entries more : List (String × Ty)} {h₁ : Heap Ty}
    (first : Adds s entries h h₁) (second : Adds s more h₁ h') : Adds s (entries ++ more) h h' where
  keeps := first.keeps.trans second.keeps
  entries := by rw [second.entries, first.entries, List.append_assoc]

/-- A step that adds to new scopes alone. -/
theorem Adds.keeps_trans {s : ScopeId} {entries : List (String × Ty)} {h₁ : Heap Ty}
    (adds : Adds s entries h h₁) (keeps : h₁.Keeps ∅ h') (inside : s < h.size) :
    Adds s entries h h' where
  keeps := adds.keeps.trans (keeps.mono (Set.empty_subset _))
  entries := by
    rw [keeps.same s (Nat.lt_of_lt_of_le inside adds.keeps.size_le) (Set.notMem_empty s),
      adds.entries]

/-- A binding that is refused leaves nothing behind. -/
theorem binding_comes (id : NodeId) {target : ScopeId} (inside : target < h.size) (b : Binding) :
    Comes (binding ctx id target b) h
      (fun t h' => t.name = b.name ∧ Adds target [t.entry] h h') (h.Keeps ∅) := by
  obtain ⟨name, ty, value⟩ := b
  cases value with
  | none =>
    rw [binding]
    refine .bind (Q := fun _ h₁ => h.Keeps ∅ h₁) (.of_leaves (.annotated? ctx ty)
      (fun _ _ _ keeps => keeps) fun _ _ _ keeps => keeps) fun declared h₁ keeps => ?_
    refine .bind (Q := fun _ h₂ => Adds target [(name, declared.getD .dynamic)] h h₂)
      (.define (fun _ => keeps) fun unbound => .put keeps inside unbound) fun _ h₂ adds => ?_
    exact .pure ⟨rfl, adds⟩
  | some e =>
    rw [binding]
    refine .bind (Q := fun _ h₁ => h.Keeps ∅ h₁) (.of_leaves (.annotated? ctx ty)
      (fun _ _ _ keeps => keeps) fun _ _ _ keeps => keeps) fun declared h₁ keeps₁ => ?_
    refine .bind (Q := fun _ h₂ => h.Keeps ∅ h₂) (.of_leaves (leaves_expr ctx e)
      (fun _ _ _ keeps => keeps₁.trans keeps) fun _ _ _ keeps => keeps₁.trans keeps)
      fun v h₂ keeps₂ => ?_
    refine .bind (Q := fun _ h₃ => h.Keeps ∅ h₃) (.of_leaves (.located _ (.requireSubtype _ _ _))
      (fun _ _ _ keeps => keeps₂.trans keeps) fun _ _ _ keeps => keeps₂.trans keeps)
      fun _ h₃ keeps₃ => ?_
    refine .bind (Q := fun _ h₄ => Adds target [(name, declared.getD v.ty)] h h₄)
      (.define (fun _ => keeps₃) fun unbound => .put keeps₃ inside unbound) fun _ h₄ adds => ?_
    exact .pure ⟨rfl, adds⟩

/-! ## Definitions -/

/-- A definition whose name is free gets as far as its body, and the body is refused. By then its
function is bound, as `entry` says. -/
def Refuses (ctx : Context) (h : Heap Ty) (d : Definition) (entry : String × Ty) : Prop :=
  ∃ returns ps, annotationOrDynamic ctx d.returns h = .ok returns h ∧
    params ctx [] d.params h = .ok ps h ∧ h.binds ctx.scope d.name = false ∧
    entry = (d.name, .function (ps.map Typed.Param.ty) returns) ∧
    ∃ fault h', block { ctx with scope := h.size, returns := some returns } d.body
      ((h.put ctx.scope entry.1 entry.2).child ctx.scope
        (.ofList (ps.map fun p => (p.name, p.ty)))).2 = .error fault h'

/-- A definition that is refused leaves its function behind if it is its body that is refused, and
else nothing. -/
theorem definition_comes (id : NodeId) (inside : ctx.scope < h.size) (d : Definition) :
    Comes (definition ctx id none d) h
      (fun t h' => t.name = d.name ∧ Adds ctx.scope [t.entry] h h') fun h' =>
        h.Keeps ∅ h' ∧ (∀ entry, ¬Refuses ctx h d entry) ∨
        ∃ entry, Refuses ctx h d entry ∧ Adds ctx.scope [entry] h h' := by
  obtain ⟨name, list, result, body⟩ := d
  rw [definition]
  -- Step by step. A definition that is refused before its name is bound has left nothing, and it
  -- was not refused for its body, which comes last.
  have quiet : Leaves ∅ (annotationOrDynamic ctx result) := .annotationOrDynamic ctx result
  refine .bind (Q := fun t h₁ => annotationOrDynamic ctx result h = .ok t h ∧ h = h₁)
    (.of_leaves quiet ?_ ?_) ?_
  · intro t h₁ ok _
    obtain rfl := (annotationOrDynamic_ok.mp ok).2
    exact ⟨ok, rfl⟩
  · intro fault h₁ error keeps
    refine Or.inl ⟨keeps, ?_⟩
    rintro entry ⟨_, _, annotated, _⟩
    rw [error] at annotated
    cases annotated
  rintro returns _ ⟨annotated, rfl⟩
  have quiet : Leaves ∅ (params ctx [] list) := .params ctx list []
  refine .bind (Q := fun ps h₁ => params ctx [] list h = .ok ps h ∧ h = h₁)
    (.of_leaves quiet ?_ ?_) ?_
  · intro ps h₁ ok _
    obtain rfl := (params_ok ok).1
    exact ⟨ok, rfl⟩
  · intro fault h₁ error keeps
    refine Or.inl ⟨keeps, ?_⟩
    rintro entry ⟨_, _, _, listed, _⟩
    rw [error] at listed
    cases listed
  rintro ps _ ⟨listed, rfl⟩
  let entry : String × Ty := (name, .function (ps.map Typed.Param.ty) returns)
  refine .bind (Q := fun _ h₁ => h.binds ctx.scope name = false ∧ h₁ = h.put ctx.scope name entry.2)
    (.define (fun bound => Or.inl ⟨.refl ∅ h, ?_⟩) fun unbound => ⟨unbound, rfl⟩) ?_
  · rintro entry ⟨_, _, _, _, unbound, _⟩
    rw [bound] at unbound
    cases unbound
  rintro _ _ ⟨unbound, rfl⟩
  -- From here on the function is bound, whatever becomes of its body.
  have put : Adds ctx.scope [entry] h (h.put ctx.scope name entry.2) :=
    .put (.refl ∅ h) inside unbound
  refine .bind (Q := fun b h₁ => b = .ofList (ps.map fun p => (p.name, p.ty)) ∧
    h₁ = h.put ctx.scope name entry.2) (.pure ⟨rfl, rfl⟩) ?_
  rintro _ _ ⟨rfl, rfl⟩
  refine .child_bind (.bind (Q := fun _ h' => Adds ctx.scope [entry] h h')
    (.of_leaves (leaves_block _ body) ?_ ?_) fun ts h' adds => .pure ⟨rfl, adds⟩)
  · exact fun ts h' _ keeps => put.keeps_trans (keeps_branch _ _ keeps) inside
  · intro fault h' error keeps
    refine Or.inr ⟨entry, ⟨returns, ps, annotated, listed, unbound, rfl, fault, h', ?_⟩, ?_⟩
    · rw [← error, Heap.size_put]
    · exact put.keeps_trans (keeps_branch _ _ keeps) inside

/-! ## Statements -/

/-- Only a `LET` or `DEF` has something to define. -/
theorem entries_of_declares_none {id : NodeId} {x : StmtKind} {t : Typed.StmtKind}
    (none : x.declares? = none) (ok : stmtKind ctx id x h = .ok t h') : t.entries = [] := by
  cases x with
  | letVar b => cases none
  | defFun d => cases none
  | ifElse condition thenBody elseBody =>
    obtain ⟨_, _, _, _, _, _, _, _, _, rfl⟩ := ifElse_ok ok
    rfl
  | forEach name iterable body =>
    obtain ⟨_, _, _, _, _, _, _, _, rfl⟩ := forEach_ok ok
    rfl
  | returns value =>
    cases value with
    | none =>
      obtain ⟨_, _, _, rfl, _⟩ := returns_none_ok ok
      rfl
    | some e =>
      obtain ⟨_, _, _, _, _, rfl⟩ := returns_some_ok ok
      rfl
  | expr e =>
    obtain ⟨_, _, rfl⟩ := exprStmt_ok ok
    rfl
  | assign target value =>
    obtain ⟨node, kind⟩ := target
    rcases assign_ok ok with ⟨name, rfl⟩ | ⟨receiver, name, rfl⟩
    · obtain ⟨_, _, _, _, _, rfl⟩ := assignVariable_ok ok
      rfl
    · obtain ⟨_, _, _, _, _, _, _, _, rfl⟩ := assignProperty_ok ok
      rfl

/-- The statement is a `DEF` whose body is refused, with its function bound as `entry` says. -/
def RefusesBody (ctx : Context) (h : Heap Ty) (x : StmtKind) (entry : String × Ty) : Prop :=
  ∃ d, x = .defFun d ∧ Refuses ctx h d entry

theorem stmtKind_comes (id : NodeId) (inside : ctx.scope < h.size) (x : StmtKind) :
    Comes (stmtKind ctx id x) h
      (fun t h' => t.entries.map Prod.fst = x.declares?.toList ∧ Adds ctx.scope t.entries h h')
      fun h' => h.Keeps ∅ h' ∧ (∀ entry, ¬RefusesBody ctx h x entry) ∨
        ∃ entry, RefusesBody ctx h x entry ∧ Adds ctx.scope [entry] h h' := by
  cases declares : x.declares? with
  | none =>
    have quiet : Leaves ∅ (stmtKind ctx id x) := (leaves_stmtKind ctx id x).mono fun _ mem => by
      rw [declares] at mem
      cases mem.2
    refine .of_leaves quiet (fun t h' ok keeps => ?_) fun fault h' _ keeps => Or.inl ⟨keeps, ?_⟩
    · rw [entries_of_declares_none declares ok]
      exact ⟨rfl, .of_keeps keeps inside⟩
    · rintro entry ⟨d, rfl, _⟩
      cases declares
  | some name =>
    cases x with
    | letVar b =>
      rw [stmtKind]
      have none : ∀ entry, ¬RefusesBody ctx h (.letVar b) entry := by
        rintro entry ⟨d, same, _⟩
        cases same
      refine .bind ((binding_comes id inside b).weaken fun h' keeps => Or.inl ⟨keeps, none⟩) ?_
      rintro t h' ⟨same, adds⟩
      exact .pure ⟨by rw [← declares]; exact congrArg (fun n => [n]) same, adds⟩
    | defFun d =>
      rw [stmtKind]
      have refused : ∀ {entry}, RefusesBody ctx h (.defFun d) entry ↔ Refuses ctx h d entry := by
        intro entry
        constructor
        · rintro ⟨_, ⟨⟩, refuses⟩
          exact refuses
        · exact fun refuses => ⟨d, rfl, refuses⟩
      simp only [refused]
      refine .bind (definition_comes id inside d) ?_
      rintro t h' ⟨same, adds⟩
      exact .pure ⟨by rw [← declares]; exact congrArg (fun n => [n]) same, adds⟩
    | _ => cases declares

theorem stmt_comes (inside : ctx.scope < h.size) (x : Stmt) :
    Comes (stmt ctx x) h
      (fun t h' => t.kind.entries.map Prod.fst = x.declares?.toList ∧
        Adds ctx.scope t.kind.entries h h')
      fun h' => h.Keeps ∅ h' ∧ (∀ entry, ¬RefusesBody ctx h x.kind entry) ∨
        ∃ entry, RefusesBody ctx h x.kind entry ∧ Adds ctx.scope [entry] h h' := by
  obtain ⟨node, kind⟩ := x
  rw [stmt]
  exact .located (.bind (stmtKind_comes node.id inside kind) fun t h' post => .pure post)

/-- Statements that succeed leave what they define, in their order. -/
theorem block_adds : ∀ {xs : List Stmt} {h h' : Heap Ty} {ts : List Typed.Stmt},
    ctx.scope < h.size → block ctx xs h = .ok ts h' →
      (ts.flatMap fun t => t.kind.entries).map Prod.fst = Stmt.allDeclared xs ∧
        Adds ctx.scope (ts.flatMap fun t => t.kind.entries) h h'
  | [], h, h', ts, inside, ok => by
    rw [block, pure_ok] at ok
    obtain ⟨rfl, rfl⟩ := ok
    exact ⟨rfl, .of_keeps (.refl ∅ h') inside⟩
  | x :: rest, h, h', ts, inside, ok => by
    obtain ⟨t, more, h₁, first, following, rfl⟩ := block_cons_ok ok
    obtain ⟨names, adds⟩ := (stmt_comes inside x).of_ok first
    have inside₁ := Nat.lt_of_lt_of_le inside adds.keeps.size_le
    obtain ⟨names', adds'⟩ := block_adds inside₁ following
    rw [List.flatMap_cons]
    exact ⟨by rw [List.map_append, names, names', Stmt.allDeclared_cons], adds.trans adds'⟩

end Check

/-! ## The frame -/

namespace Toured

open Check

variable {h : Heap Ty} {ctx : Context}

/-- In every context whose scope exists, and whether the check succeeds or fails: it is done by the
checker that keeps its context in its state, and the context is the same afterwards. An expression
leaves all scopes that were there as they were. A statement leaves all but the active one as they
were. Where it succeeds, the active scope has got what is defined, for a `LET` or `DEF` the name
with the type that it has been given, for others nothing. Where it fails, nothing, unless it is a
`DEF` of a free name whose body is refused; then the scope has got the function. -/
theorem leaves_context_and_scopes (inside : ctx.scope < h.size) :
    (∀ e : Expr,
      forget (expr e (.start ctx h)) = Check.expr ctx e h ∧
      (after (expr e) (.start ctx h)).context = ctx ∧
      ∀ s < h.size, h.Alike s (after (expr e) (.start ctx h)).heap) ∧
    (∀ x : Stmt,
      forget (stmt x (.start ctx h)) = Check.stmt ctx x h ∧
      (after (stmt x) (.start ctx h)).context = ctx ∧
      (∀ s < h.size, s ≠ ctx.scope → h.Alike s (after (stmt x) (.start ctx h)).heap) ∧
      (after (stmt x) (.start ctx h)).heap.parent? ctx.scope = h.parent? ctx.scope ∧
      Comes (Check.stmt ctx x) h
        (fun t h' => t.kind.entries.map Prod.fst = x.declares?.toList ∧
          (h'.bindings ctx.scope).entries = (h.bindings ctx.scope).entries ++ t.kind.entries)
        fun h' => h.Alike ctx.scope h' ∧ (∀ entry, ¬RefusesBody ctx h x.kind entry) ∨
          ∃ entry, RefusesBody ctx h x.kind entry ∧
            (h'.bindings ctx.scope).entries = (h.bindings ctx.scope).entries ++ [entry]) := by
  have ready := Tour.ready_start inside
  refine ⟨fun e => ?_, fun x => ?_⟩
  · have tours := expr_tours e ready
    refine ⟨tours.forget, tours.passes.context, fun s old => ?_⟩
    rw [tours.after_heap]
    exact (leaves_expr ctx e h).alike old (Set.notMem_empty s)
  · have tours := stmt_tours x ready
    have keeps : h.Keeps {ctx.scope} (after (stmt x) (.start ctx h)).heap := by
      rw [tours.after_heap]
      exact leaves_stmt ctx x h
    refine ⟨tours.forget, tours.passes.context, fun s old other => keeps.alike old other,
      keeps.parent _ inside, ?_⟩
    refine ((stmt_comes inside x).mono fun t h' post => ⟨post.1, post.2.entries⟩).weaken ?_
    rintro h' (⟨same, none⟩ | ⟨entry, refuses, adds⟩)
    · exact Or.inl ⟨same.alike inside (Set.notMem_empty _), none⟩
    · exact Or.inr ⟨entry, refuses, adds.entries⟩

/-- A definition whose body reads a variable that is not there. -/
def refusedDefinition : Stmt :=
  ⟨default, .defFun ⟨"outer", [], none, [⟨default, .expr ⟨default, .variable "missing"⟩⟩]⟩⟩

/-- After the prelude the definition is refused. The context is as before, and the function
stays. -/
theorem leaves_context_and_scopes_refusedDefinition :
    ∃ (ctx : Context) (h : Heap Ty) (fault : Located CheckError) (h' : Heap Ty)
      (entry : String × Ty), ctx.scope < h.size ∧
      Check.stmt ctx refusedDefinition h = .error fault h' ∧
      (after (stmt refusedDefinition) (.start ctx h)).context = ctx ∧
      RefusesBody ctx h refusedDefinition.kind entry ∧
      (h'.bindings ctx.scope).entries = (h.bindings ctx.scope).entries ++ [entry] := by
  let session := CheckSession.start false
  let ctx : Context := { scope := session.scope }
  have inside : ctx.scope < session.heap.size := by decide
  have judged : (match Check.stmt ctx refusedDefinition session.heap with
      | .ok _ _ => false
      | .error _ h' => h'.binds ctx.scope "outer") = true := by decide
  obtain ⟨_, context, _, _, comes⟩ := (leaves_context_and_scopes inside).2 refusedDefinition
  split at judged
  case h_1 => cases judged
  case h_2 fault h' refused =>
    refine ⟨ctx, session.heap, fault, h', ?_⟩
    rcases comes.of_error refused with ⟨same, _⟩ | ⟨entry, refuses, entries⟩
    · -- The function is bound now and has not been before.
      have before : session.heap.binds ctx.scope "outer" = false := by decide
      rw [Heap.binds, same.2] at judged
      rw [Heap.binds, judged] at before
      cases before
    · exact ⟨entry, inside, refused, context, refuses, entries⟩

end Toured

end GradualScript
