/-
# GradualScript.Proofs.Run.Results -- functions yield what they are declared to yield

The checker judges each `RETURN` of a body on its own, against the declared result. What a call
yields is decided by the run: a `RETURN` may leave the body from inside any branch and any loop, and
a body may run off its end, in which case the call yields `Nil` whatever was declared. That is the
only way for a result to be of another kind, in accepted scripts whose types are concrete and that
are steady. Up to the first call that strays like this every call yields data of the kind that its
function declares, and after it every call yields such data or `Nil`.

The proof follows the traced evaluator along the elaboration of the script.
-/

import GradualScript.Proofs.Run.Names
import GradualScript.Proofs.Run.Planned
import Mathlib.Data.List.Forall2

namespace GradualScript

variable {D : List (Definition × Typed.Definition)} {H : Heap Ty} {G G' : Plan Ty}
  {h h' : Heap Value} {events events' : List Event} {s : ScopeId} {v : Value} {t : Ty} {Γ : Env}
  {U C held : List String}

namespace Traced

/-- A part of a run that found the heap `h` has yielded `v`, of type `t`. -/
def Obeying (D : List (Definition × Typed.Definition)) (H : Heap Ty) (G : Plan Ty)
    (h : Heap Value) (events : List Event) (t : Ty) (v : Value) (h' : Heap Value)
    (events' : List Event) : Prop :=
  ∃ G', Leads D H ∅ G h events G' h' events' ∧ v.Obeys D H G' h'.size events' t

def ObeyingAll (D : List (Definition × Typed.Definition)) (H : Heap Ty) (G : Plan Ty)
    (h : Heap Value) (events : List Event) (ts : List Ty) (vs : List Value) (h' : Heap Value)
    (events' : List Event) : Prop :=
  ∃ G', Leads D H ∅ G h events G' h' events' ∧
    List.Forall₂ (fun v t => v.Obeys D H G' h'.size events' t) vs ts

/-- A step after which all calls so far have yielded what was declared, also where it is stopped. -/
abbrev Honours {α : Type} (D : List (Definition × Typed.Definition)) (x : Traced α)
    (h : Heap Value) (events : List Event) (Q : α → Heap Value → List Event → Prop) : Prop :=
  Ends (fun _ events => Honoured D events) x h events Q

/-- Closures that are called as they were checked yield what they are declared to yield. -/
def Caller.Obeys (D : List (Definition × Typed.Definition)) (H : Heap Ty) (call : Caller) : Prop :=
  ∀ (f : Closure) (arguments : List Value) (Γ : Env) (d : Typed.Definition) (G : Plan Ty)
    (h : Heap Value) (events : List Event), h.Obeys D H G events → f.Planned D H G h.size Γ d →
      List.Forall₂ (fun v t => v.Obeys D H G h.size events t) arguments
        (d.params.map Typed.Param.ty) →
      Honours D (call f arguments) h events (Obeying D H G h events d.returns)

theorem Obeying.after (leads : Leads D H ∅ G h events G' h' events') {h'' : Heap Value}
    {events'' : List Event} (obeying : Obeying D H G' h' events' t v h'' events'') :
    Obeying D H G h events t v h'' events'' := by
  obtain ⟨G'', second, obeys⟩ := obeying
  exact ⟨G'', leads.trans second, obeys⟩

/-! ## Calls -/

theorem builtin_obeys {f : Builtin} {arguments : List Value} {w : World} {size : Nat}
    (all : List.Forall₂ (fun v t => v.Obeys D H G size events t) arguments f.params) :
    Run.Ends (fun _ => True) (f.apply arguments) w fun v _ =>
      v.Obeys D H G size events f.returns := by
  cases f with
  | log =>
    obtain ⟨v, _, _, noMore, rfl⟩ := List.forall₂_cons_right_iff.mp all
    obtain rfl := List.forall₂_nil_right_iff.mp noMore
    exact .read_bind (.write_bind (.pure fun dynamic => by cases dynamic))
  | debug | print =>
    obtain ⟨v, _, _, noMore, rfl⟩ := List.forall₂_cons_right_iff.mp all
    obtain rfl := List.forall₂_nil_right_iff.mp noMore
    exact .read_bind (.write_bind (.pure (.of_hasType rfl)))
  | range =>
    obtain ⟨a, _, _, rest, rfl⟩ := List.forall₂_cons_right_iff.mp all
    obtain ⟨b, _, _, noMore, rfl⟩ := List.forall₂_cons_right_iff.mp rest
    obtain rfl := List.forall₂_nil_right_iff.mp noMore
    cases a with
    | integer start =>
      cases b with
      | integer stop =>
        refine .pure (.of_hasType ⟨rfl, fun v mem => ?_⟩)
        obtain ⟨k, _, same⟩ := List.mem_map.mp mem
        exact ⟨_, same.symm⟩
      | _ => exact .fail trivial
    | _ => exact .fail trivial
  | function =>
    obtain rfl := List.forall₂_nil_right_iff.mp all
    exact .pure (.of_hasType rfl)
  | functionAny | functionString =>
    obtain ⟨v, _, obeys, noMore, rfl⟩ := List.forall₂_cons_right_iff.mp all
    obtain rfl := List.forall₂_nil_right_iff.mp noMore
    exact .pure obeys
  -- Methods find no receiver among these arguments.
  | inheritedMethod | method =>
    obtain rfl := List.forall₂_nil_right_iff.mp all
    exact .fail trivial
  | methodAny | methodString =>
    obtain ⟨v, _, _, noMore, rfl⟩ := List.forall₂_cons_right_iff.mp all
    obtain rfl := List.forall₂_nil_right_iff.mp noMore
    exact .fail trivial

variable {call : Caller}

theorem invoke_obeys (callee : Caller.Obeys D H call) {f : Callable} {arguments : List Value}
    {params : List Ty} {result : Ty} (obeys : h.Obeys D H G events)
    (callable : f.Obeys D H G h.size params result)
    (all : List.Forall₂ (fun v t => v.Obeys D H G h.size events t) arguments params) :
    Honours D (invoke call f arguments) h events (Obeying D H G h events result) := by
  cases f with
  | closure f =>
    obtain ⟨Γ, d, planned, rfl, rfl⟩ := callable
    exact callee f arguments Γ d G h events obeys planned all
  | builtin f =>
    obtain ⟨rfl, rfl⟩ := callable
    exact .lift (.builtin f arguments)
      (fun v output w ok => ⟨G, .refl obeys, (builtin_obeys all).of_ok ok⟩) obeys.results

/-- Arguments that were accepted are of the types of the parameters. -/
theorem obeys_accepted {size : Nat} :
    ∀ {vs : List Value} {ts : List Typed.Expr} {params : List Ty},
      List.Forall₂ (fun v t => v.Obeys D H G size events t) vs (ts.map Typed.Expr.ty) →
      Accepts H params ts → Typed.Expr.allConcrete ts = true →
      List.Forall₂ (fun v t => v.Obeys D H G size events t) vs params
  | _, [], _, all, .nil, _ => all
  | _, t :: ts, _, all, .cons below rest, concrete => by
    rw [Typed.Expr.allConcrete, Bool.and_eq_true, Typed.Expr.isConcrete_iff] at concrete
    obtain ⟨v, vs, first, following, rfl⟩ := List.forall₂_cons_right_iff.mp all
    exact .cons (first.of_isSubtype concrete.1.1 below)
      (obeys_accepted following rest concrete.2)

/-! ## Expressions -/

section Kinds

/-- Where the names in `U` mean what they were checked with, the expression yields a value of its
type. -/
def ExprHonours (D : List (Definition × Typed.Definition)) (H : Heap Ty) (call : Caller)
    (s : ScopeId) (Γ : Env) (U : List String) (e : Expr) (t : Typed.Expr) : Prop :=
  ∀ ⦃G : Plan Ty⦄ ⦃h : Heap Value⦄ ⦃events : List Event⦄, h.Obeys D H G events →
    G.Sees h s Γ.find? U →
    Honours D (evaluate call s e) h events (Obeying D H G h events t.ty)

def ExprsHonour (D : List (Definition × Typed.Definition)) (H : Heap Ty) (call : Caller)
    (s : ScopeId) (Γ : Env) (U : List String) (es : List Expr) (ts : List Typed.Expr) : Prop :=
  ∀ ⦃G : Plan Ty⦄ ⦃h : Heap Value⦄ ⦃events : List Event⦄, h.Obeys D H G events →
    G.Sees h s Γ.find? U →
    Honours D (evaluateAll call s es) h events
      (ObeyingAll D H G h events (ts.map Typed.Expr.ty))

/-- The left operand may decide, or have no place in the operation; otherwise the two are combined
at the types that they were checked with. -/
theorem binary_obeys {op : BinaryOp} {left right : Expr} {l r : Typed.Expr} {ty : Ty}
    (checked : op.type H l.ty r.ty = .ok ty) (leftConcrete : l.ty.isConcrete = true)
    (rightConcrete : r.ty.isConcrete = true) (leftHonours : ExprHonours D H call s Γ U left l)
    (rightHonours : ExprHonours D H call s Γ U right r) (obeys : h.Obeys D H G events)
    (here : G.Sees h s Γ.find? U) :
    Honours D (evaluateKind call s (.binary op left right)) h events
      (Obeying D H G h events ty) := by
  rw [evaluateKind]
  refine .bind (leftHonours obeys here) fun a h₁ events₁ first => ?_
  obtain ⟨G₁, leads₁, obeysLeft⟩ := first
  cases accepted : op.leftFault? a with
  | some cause => exact .failAt leads₁.obeys.results
  | none =>
    cases decided : op.decided? a with
    | some v =>
      obtain ⟨other, typed⟩ := BinaryOp.decided?_boolean decided
      rw [BinaryOp.type_eq_boolean checked other]
      exact .pure ⟨G₁, leads₁, .of_hasType typed⟩
    | none =>
      refine .bind (rightHonours leads₁.obeys (here.next leads₁.toMoves))
        fun b h₂ events₂ second => ?_
      obtain ⟨G₂, leads₂, obeysRight⟩ := second
      refine .lift (.located (.rule _)) (fun v output w ok => ⟨G₂, leads₁.trans leads₂, ?_⟩)
        leads₂.obeys.results
      have typed : v.HasType ty := BinaryOp.combine_hasType leftConcrete rightConcrete checked
        ((leads₂.typed obeysLeft).data leftConcrete) (obeysRight.data rightConcrete) accepted
        (Run.Ends.eq_ok_of_located_rule ok)
      exact .of_hasType typed

theorem variable_obeys {name : String} {ty : Ty} (found : Γ.find? name = some ty)
    (used : name ∈ U) (obeys : h.Obeys D H G events) (here : G.Sees h s Γ.find? U) :
    Honours D (evaluateKind call s (.variable name)) h events (Obeying D H G h events ty) := by
  rw [evaluateKind]
  refine .read_bind ?_
  cases result : h.resolve s name with
  | none => exact .fail obeys.results
  | some v => exact .pure ⟨G, .refl obeys, here.resolve obeys.toFollows used found result⟩

/-- The callee is looked up before the arguments are evaluated, and is what it is planned to be. -/
theorem call_obeys (callee : Caller.Obeys D H call) {name : String} {arguments : List Expr}
    {ts : List Typed.Expr} {params : List Ty} {ty : Ty}
    (found : Γ.find? name = some (.function params ty)) (used : name ∈ U)
    (accepts : Accepts H params ts) (concrete : Typed.Expr.allConcrete ts = true)
    (argumentsHonour : ExprsHonour D H call s Γ U arguments ts) (obeys : h.Obeys D H G events)
    (here : G.Sees h s Γ.find? U) :
    Honours D (evaluateKind call s (.call name arguments)) h events
      (Obeying D H G h events ty) := by
  rw [evaluateKind]
  refine .read_bind ?_
  cases result : h.resolve s name with
  | none => exact .fail obeys.results
  | some v =>
    have callable : v.Obeys D H G h.size events (.function params ty) :=
      here.resolve obeys.toFollows used found result
    cases v with
    | function f =>
      refine .bind (argumentsHonour obeys here) fun vs h₁ events₁ all => ?_
      obtain ⟨G₁, leads₁, all⟩ := all
      exact (invoke_obeys callee leads₁.obeys (leads₁.typed callable).callable
        (obeys_accepted all accepts concrete)).mono fun _ _ _ => .after leads₁
    | _ => exact .fail obeys.results

end Kinds

mutual

theorem evaluate_obeys (callee : Caller.Obeys D H call) :
    ∀ {e : Expr} {t : Typed.Expr} {Γ : Env}, e.Elaborates H Γ t → t.isConcrete = true →
      t.uses ⊆ U → ExprHonours D H call s Γ U e t
  | ⟨node, kind⟩, t, Γ, elaborates, concrete, used => by
    rw [Expr.Elaborates] at elaborates
    rw [Typed.Expr.isConcrete_iff] at concrete
    rw [Typed.Expr.uses_eq] at used
    intro G h events obeys here
    rw [evaluate]
    exact .located (evaluateKind_obeys callee elaborates.2 concrete.1 concrete.2 used obeys here)

theorem evaluateKind_obeys (callee : Caller.Obeys D H call) :
    ∀ {e : ExprKind} {k : Typed.ExprKind} {ty : Ty} {Γ : Env} {G : Plan Ty} {h : Heap Value}
      {events : List Event}, e.Elaborates H Γ k ty → ty.isConcrete = true → k.isConcrete = true →
      k.uses ⊆ U → h.Obeys D H G events → G.Sees h s Γ.find? U →
      Honours D (evaluateKind call s e) h events (Obeying D H G h events ty)
  | .literal value, k, ty, Γ, G, h, events, elaborates, _, _, _, obeys, _ => by
    rw [ExprKind.Elaborates] at elaborates
    obtain ⟨_, rfl⟩ := elaborates
    rw [evaluateKind]
    refine .pure ⟨G, .refl obeys, ?_⟩
    cases value <;> exact .of_hasType rfl
  | .group inner, k, ty, Γ, G, h, events, elaborates, _, concrete, used, obeys, here => by
    rw [ExprKind.Elaborates] at elaborates
    obtain ⟨t, rfl, elaborates, rfl⟩ := elaborates
    rw [Typed.ExprKind.isConcrete] at concrete
    rw [Typed.ExprKind.uses] at used
    rw [evaluateKind]
    exact evaluate_obeys callee elaborates concrete used obeys here
  | .binary op left right, k, ty, Γ, G, h, events, elaborates, _, concrete, used, obeys,
      here => by
    rw [ExprKind.Elaborates] at elaborates
    obtain ⟨l, r, rfl, leftOk, rightOk, checked⟩ := elaborates
    rw [Typed.ExprKind.isConcrete, Bool.and_eq_true] at concrete
    rw [Typed.ExprKind.uses, List.append_subset] at used
    exact binary_obeys checked (Typed.Expr.isConcrete_iff.mp concrete.1).1
      (Typed.Expr.isConcrete_iff.mp concrete.2).1
      (evaluate_obeys callee leftOk concrete.1 used.1)
      (evaluate_obeys callee rightOk concrete.2 used.2) obeys here
  | .variable name, k, ty, Γ, G, h, events, elaborates, _, _, used, obeys, here => by
    rw [ExprKind.Elaborates] at elaborates
    obtain ⟨rfl, found⟩ := elaborates
    rw [Typed.ExprKind.uses, List.cons_subset] at used
    exact variable_obeys found used.1 obeys here
  | .property receiver name, k, ty, Γ, G, h, events, elaborates, _, concrete, _, _, _ => by
    rw [ExprKind.Elaborates] at elaborates
    obtain ⟨r, rfl, _, has⟩ := elaborates
    rw [Typed.ExprKind.isConcrete, Typed.Expr.isConcrete_iff] at concrete
    -- A receiver of concrete type has no members, so the checker refuses this.
    exact absurd has (Ty.not_hasMember_of_concrete concrete.1)
  | .call name arguments, k, ty, Γ, G, h, events, elaborates, _, concrete, used, obeys, here => by
    rw [ExprKind.Elaborates] at elaborates
    obtain ⟨params, ts, rfl, found, argumentsOk, accepts⟩ := elaborates
    rw [Typed.ExprKind.isConcrete] at concrete
    rw [Typed.ExprKind.uses, List.cons_subset] at used
    exact call_obeys callee found used.1 accepts concrete
      (evaluateAll_obeys callee argumentsOk concrete used.2) obeys here
  | .invoke receiver name arguments, k, ty, Γ, G, h, events, elaborates, _, concrete, _, _, _ => by
    rw [ExprKind.Elaborates] at elaborates
    obtain ⟨r, ts, rfl, _, _, judged⟩ := elaborates
    rw [Typed.ExprKind.isConcrete, Bool.and_eq_true, Typed.Expr.isConcrete_iff] at concrete
    rcases judged with ⟨has, _⟩ | ⟨params, has, _⟩
    · exact absurd has (Ty.not_hasMember_of_concrete concrete.1.1)
    · exact absurd has (Ty.not_hasMember_of_concrete concrete.1.1)
  | .object name fields methods, k, ty, Γ, G, h, events, elaborates, _, concrete, _, _, _ => by
    rw [ExprKind.Elaborates] at elaborates
    obtain ⟨members, bs, ds, rfl, _⟩ := elaborates
    cases concrete

theorem evaluateAll_obeys (callee : Caller.Obeys D H call) :
    ∀ {es : List Expr} {ts : List Typed.Expr} {Γ : Env}, Expr.ElaborateAll H Γ es ts →
      Typed.Expr.allConcrete ts = true → Typed.Expr.allUses ts ⊆ U →
      ExprsHonour D H call s Γ U es ts
  | [], ts, Γ, elaborates, _, _ => by
    rw [Expr.ElaborateAll] at elaborates
    intro G h events obeys _
    rw [elaborates, evaluateAll]
    exact .pure ⟨G, .refl obeys, .nil⟩
  | e :: rest, ts, Γ, elaborates, concrete, used => by
    rw [Expr.ElaborateAll] at elaborates
    obtain ⟨t, more, rfl, first, following⟩ := elaborates
    rw [Typed.Expr.allConcrete, Bool.and_eq_true] at concrete
    rw [Typed.Expr.allUses, List.append_subset] at used
    intro G h events obeys here
    rw [evaluateAll]
    refine .bind (evaluate_obeys callee first concrete.1 used.1 obeys here)
      fun v h₁ events₁ yields => ?_
    obtain ⟨G₁, leads₁, obeysFirst⟩ := yields
    refine .bind (evaluateAll_obeys callee following concrete.2 used.2 leads₁.obeys
      (here.next leads₁.toMoves)) fun vs h₂ events₂ yields => ?_
    obtain ⟨G₂, leads₂, all⟩ := yields
    exact .pure ⟨G₂, leads₁.trans leads₂, .cons (leads₂.typed obeysFirst) all⟩

end

/-! ## Statements -/

/-- What is on its way out of a function is of the type of its result. -/
def FlowObeys (D : List (Definition × Typed.Definition)) (H : Heap Ty) (G : Plan Ty) (size : Nat)
    (events : List Event) (returns : Option Ty) : Flow → Prop
  | .value _ => True
  | .returned v => ∃ t, returns = some t ∧ v.Obeys D H G size events t

/-- How a block in `s` ends. -/
def Finished (D : List (Definition × Typed.Definition)) (H : Heap Ty) (s : ScopeId)
    (returns : Option Ty) (G : Plan Ty) (h : Heap Value) (events : List Event) (flow : Flow)
    (h' : Heap Value) (events' : List Event) : Prop :=
  ∃ G', Leads D H {s} G h events G' h' events' ∧ FlowObeys D H G' h'.size events' returns flow

/-- How a statement of the kind `k` ends in `s`: what follows it may run in `s`, and may use what
`k` declares. -/
def Proceeded (D : List (Definition × Typed.Definition)) (H : Heap Ty) (s : ScopeId) (Γ : Env)
    (U C held : List String) (k : Typed.StmtKind) (G : Plan Ty) (h : Heap Value)
    (events : List Event) (flow : Flow) (h' : Heap Value) (events' : List Event) : Prop :=
  ∃ G', Leads D H {s} G h events G' h' events' ∧
    FlowObeys D H G' h'.size events' Γ.returns flow ∧
    Stands G' h' s (Γ.after k) (k.names ++ U) (k.names ++ C) (k.captures ++ held)

/-- A block that was checked in `Γ` ends well wherever it may run. -/
def BlockHonours (D : List (Definition × Typed.Definition)) (H : Heap Ty) (call : Caller) (Γ : Env)
    (U C held : List String) (xs : List Stmt) : Prop :=
  ∀ (s : ScopeId) (last : Value) (G : Plan Ty) (h : Heap Value) (events : List Event),
    h.Obeys D H G events → Stands G h s Γ U C held →
      Honours D (block call s last xs) h events (Finished D H s Γ.returns G h events)

/-- A statement that declares nothing. -/
theorem Proceeded.of_stands {k : Typed.StmtKind} {flow : Flow} (nothing : k.entries = [])
    (leads : Leads D H {s} G h events G' h' events')
    (obeys : FlowObeys D H G' h'.size events' Γ.returns flow)
    (here : Stands G' h' s Γ U C (k.captures ++ held)) :
    Proceeded D H s Γ U C held k G h events flow h' events' := by
  refine ⟨G', leads, obeys, ?_⟩
  rw [Env.after_of_entries nothing, Typed.StmtKind.names, nothing]
  exact here

/-- What ends like an expression ends like a statement that declares nothing. -/
theorem Proceeded.of_leads {k : Typed.StmtKind} {flow : Flow} (nothing : k.entries = [])
    (here : Stands G h s Γ U C held) (leads : Leads D H ∅ G h events G' h' events')
    (obeys : FlowObeys D H G' h'.size events' Γ.returns flow) :
    Proceeded D H s Γ U C held k G h events flow h' events' :=
  .of_stands nothing leads.widen obeys ((here.next leads).mono (List.Subset.refl _)
    (List.Subset.refl _) (List.subset_append_right _ _))

/-- A block in a scope that was made for it. -/
theorem Finished.of_fresh {returns : Option Ty} {flow : Flow} {fresh : ScopeId}
    {h'' : Heap Value} {events'' : List Event} (made : Leads D H ∅ G h events G' h' events')
    (young : h.size ≤ fresh)
      (finished : Finished D H fresh returns G' h' events' flow h'' events'') :
    ∃ G'', Leads D H ∅ G h events G'' h'' events'' ∧
      FlowObeys D H G'' h''.size events'' returns flow := by
  obtain ⟨G'', leads, obeys⟩ := finished
  refine ⟨G'', made.trans_fresh leads ?_, obeys⟩
  intro t mem old
  rw [Set.mem_singleton_iff.mp mem] at old
  exact absurd old (Nat.not_lt.mpr young)

/-! ### One lemma for each kind of statement -/

/-- A variable gets its value, and may be used with its type from then on. -/
theorem letVar_obeys (callee : Caller.Obeys D H call) {id : NodeId} {name : String}
    {ty : Option String} {e : Expr} {k : Typed.StmtKind}
    (elaborates : (StmtKind.letVar ⟨name, ty, some e⟩).Elaborates H Γ id k)
    (concrete : k.isConcrete = true) (steady : k.isSteady Γ held = true) (used : k.uses ⊆ U)
    (obeys : h.Obeys D H G events) (here : Stands G h s Γ U C held) :
    Honours D (executeKind call s (.letVar ⟨name, ty, some e⟩)) h events
      (Proceeded D H s Γ U C held k G h events) := by
  rw [StmtKind.Elaborates] at elaborates
  obtain ⟨b, rfl, bound, fresh⟩ := elaborates
  obtain ⟨_, t', value', concrete⟩ := Typed.StmtKind.isConcrete_letVar concrete
  rw [Binding.Elaborates] at bound
  obtain ⟨_, same, t, value, elaborates, below, _⟩ := bound
  obtain rfl := Option.some.inj (value'.symm.trans value)
  rw [Typed.StmtKind.isSteady] at steady
  rw [Typed.StmtKind.uses, Typed.Binding.uses_of_value value] at used
  rw [executeKind, evaluateOption]
  refine .bind (evaluate_obeys callee elaborates concrete used obeys here.toSees)
    fun v h₁ events₁ yields => ?_
  obtain ⟨G₁, leads₁, typed⟩ := yields
  have here₁ := here.next leads₁
  have typed := typed.of_isSubtype (Typed.Expr.isConcrete_iff.mp concrete).1 below
  rw [← same]
  refine .declare_bind leads₁.obeys.results fun unbound => ?_
  have planned := here₁.eq_of_admits unbound fresh steady
  obtain ⟨leads₂, here₂⟩ := here₁.declare leads₁.obeys fresh planned
    (typed.mono (.declare planned) (Nat.le_refl _) fun strayed => strayed)
  exact .pure ⟨_, (leads₁.widen.trans leads₂).tell trivial, trivial,
    here₂.mono (List.Subset.refl _) (List.Subset.refl _) (List.subset_append_right _ _)⟩

/-- What a function uses is planned when it is defined, so that its body may run at any time. -/
theorem defFun_obeys {id : NodeId} {d : Definition} {k : Typed.StmtKind}
    (elaborates : (StmtKind.defFun d).Elaborates H Γ id k) (concrete : k.isConcrete = true)
    (steady : k.isSteady Γ held = true) (listed : (StmtKind.defFun d).definitions k ⊆ D)
    (used : k.uses ⊆ U) (captured : k.captures ⊆ C) (obeys : h.Obeys D H G events)
    (here : Stands G h s Γ U C held) :
    Honours D (executeKind call s (.defFun d)) h events
      (Proceeded D H s Γ U C held k G h events) := by
  rw [StmtKind.Elaborates] at elaborates
  obtain ⟨t, rfl, defined⟩ := elaborates
  rw [Typed.StmtKind.isConcrete] at concrete
  rw [Typed.StmtKind.isSteady, Bool.and_eq_true] at steady
  rw [StmtKind.definitions_defFun, List.cons_subset] at listed
  have same : t.name = d.name := defined.name_eq
  have fresh : t.name ∉ Γ.own.map Prod.fst := same ▸ defined.fresh
  rw [executeKind]
  refine .lift_bind (.checkParameters false d) obeys.results fun _ => ?_
  -- What the function uses is planned, but for itself: it is declared next.
  obtain ⟨G₁, leads₁, here₁, promises⟩ := here.promise obeys
    (List.Subset.trans (Typed.StmtKind.captures_subset _) used) captured
  rw [Typed.StmtKind.captures] at promises
  have apart : t.name ∉ t.uses.removeAll [t.name] := by simp [List.removeAll]
  have admits := Meanings.admits_append steady.1 apart
  rw [← same]
  refine .declare_bind leads₁.obeys.results fun unbound => ?_
  have agreed := here₁.eq_of_admits unbound fresh admits
  have planned : (⟨d, s, false⟩ : Closure).Planned D H (G₁.declare s t.name t.ty) h.size Γ t :=
    ⟨here.inside, rfl, ⟨id, defined⟩, listed.1, listed.2, concrete, steady.2,
      promises.declare (Env.find?_declare_self fresh t.ty) fun _ ne =>
        Env.find?_declare_of_ne ne⟩
  have typed : (Value.function (.closure ⟨d, s, false⟩)).Obeys D H (G₁.declare s t.name t.ty)
      h.size events t.ty := Or.inr ⟨_, rfl, Γ, t, planned, rfl, rfl⟩
  obtain ⟨leads₂, here₂⟩ := here₁.declare leads₁.obeys fresh agreed typed
  exact .pure ⟨_, (leads₁.trans leads₂).tell trivial, trivial, here₂⟩

/-- What the branches capture is planned before either runs, so it is planned after both. -/
theorem ifElse_obeys (callee : Caller.Obeys D H call) {condition : Expr}
    {thenBody elseBody : List Stmt} {c : Typed.Expr} {a b : List Typed.Stmt}
    (elaborates : condition.Elaborates H Γ c) (concrete : c.isConcrete = true)
    (used : (Typed.StmtKind.ifElse c a b).uses ⊆ U)
    (captured : (Typed.StmtKind.ifElse c a b).captures ⊆ C)
    (thenEnds : BlockHonours D H call (Γ.inside []) (Typed.Stmt.allUses a)
      (Typed.Stmt.allCaptures a) [] thenBody)
    (elseEnds : BlockHonours D H call (Γ.inside []) (Typed.Stmt.allUses b)
      (Typed.Stmt.allCaptures b) [] elseBody)
    (obeys : h.Obeys D H G events) (here : Stands G h s Γ U C held) :
    Honours D (executeKind call s (.ifElse condition thenBody elseBody)) h events
      (Proceeded D H s Γ U C held (.ifElse c a b) G h events) := by
  have within := List.Subset.trans (Typed.StmtKind.captures_subset (.ifElse c a b)) used
  have parts : (Typed.StmtKind.ifElse c a b).captures =
      Typed.Stmt.allCaptures a ++ Typed.Stmt.allCaptures b := by rw [Typed.StmtKind.captures]
  rw [Typed.StmtKind.uses, List.append_subset, List.append_subset] at used
  rw [executeKind]
  refine .bind (evaluate_obeys callee elaborates concrete used.1.1 obeys here.toSees)
    fun v h₁ events₁ yields => ?_
  obtain ⟨G₁, leads₁, _⟩ := yields
  obtain ⟨G₂, leads₂, here₂, promises⟩ := (here.next leads₁).promise leads₁.obeys within captured
  obtain ⟨made, inside⟩ := Stands.fresh here₂.toSees leads₂.obeys promises here.returns
  have ended : ∀ flow h₃ events₃, Finished D H h₁.size Γ.returns
      (G₂.lay h₁.size fun _ => none) (h₁.child s .empty).2 events₁ flow h₃ events₃ →
      Proceeded D H s Γ U C held (.ifElse c a b) G h events flow h₃ events₃ := by
    intro flow h₃ events₃ finished
    obtain ⟨G₃, leads₃, flowObeys⟩ := Finished.of_fresh made (Nat.le_refl _) finished
    exact .of_stands rfl (leads₁.widen.trans (leads₂.trans leads₃.widen)) flowObeys
      (here₂.next leads₃)
  rw [parts] at inside
  cases v with
  | boolean value =>
    cases value with
    | true =>
      exact .child_bind ((thenEnds _ _ _ _ _ made.obeys (inside.mono used.1.2
        (List.subset_append_left _ _) (List.Subset.refl _))).mono ended)
    | false =>
      exact .child_bind ((elseEnds _ _ _ _ _ made.obeys (inside.mono used.2
        (List.subset_append_right _ _) (List.Subset.refl _))).mono ended)
  | _ => exact .failAt leads₁.obeys.results

theorem overElements_obeys {name : String} {body : List Stmt} {uses captures : List String}
    (returns : ∀ t, Γ.returns = some t → t.isConcrete = true)
    (bodyEnds : BlockHonours D H call (Γ.inside [(name, .integer)]) uses captures [] body)
    (used : uses ⊆ name :: U) (captured : captures ⊆ name :: C) :
    ∀ {elements : List Value} {G : Plan Ty} {h : Heap Value} {events : List Event},
      (∀ v ∈ elements, ∃ n, v = .integer n) → h.Obeys D H G events → G.Sees h s Γ.find? U →
      G.Promises s Γ.find? C →
      Honours D (overElements s name (fun inner => block call inner .nil body) elements) h events
        fun flow h' events' => ∃ G', Leads D H ∅ G h events G' h' events' ∧
          FlowObeys D H G' h'.size events' Γ.returns flow := by
  intro elements
  induction elements with
  | nil => exact fun _ obeys _ _ => .pure ⟨_, .refl obeys, trivial⟩
  | cons v rest ih =>
    intro G h events integers obeys here promises
    obtain ⟨n, rfl⟩ := integers v List.mem_cons_self
    obtain ⟨G₁, made, inside⟩ := Stands.body (Γ.inside [(name, .integer)]) [(name, .integer)]
      (b := .ofList [(name, .integer n)]) here obeys promises
      (fun m => by rw [Bindings.mem_names_ofList]; simp)
      (fun m u found => by
        obtain ⟨rfl, rfl⟩ := Bindings.eq_of_find?_single found
        exact ⟨.integer, List.lookup_cons_self, .of_hasType rfl⟩)
      (fun _ => rfl) used captured returns
    rw [overElements]
    refine .child_bind (.child_bind (.bind (bodyEnds _ _ G₁ _ _ made.obeys inside) ?_))
    intro flow h₁ events₁ finished
    obtain ⟨G₂, leads, flowObeys⟩ :=
      Finished.of_fresh made (Nat.le_of_lt (Heap.lt_size_child ..)) finished
    cases flow with
    | returned v => exact .pure ⟨G₂, leads, flowObeys⟩
    | value v =>
      refine (ih (fun v mem => integers v (List.mem_cons_of_mem _ mem)) leads.obeys
        (here.next leads.toMoves) (promises.next here.inside leads.toMoves)).mono ?_
      rintro flow h₂ events₂ ⟨G₃, second, flowObeys⟩
      exact ⟨G₃, leads.trans second, flowObeys⟩

/-- What the body captures is planned before the loop, so that every round finds it planned. -/
theorem forEach_obeys (callee : Caller.Obeys D H call) {name : String} {iterable : Expr}
    {body : List Stmt} {i : Typed.Expr} {b : List Typed.Stmt}
    (elaborates : iterable.Elaborates H Γ i) (concrete : i.isConcrete = true)
    (sort : i.ty = .iterable) (used : (Typed.StmtKind.forEach name .integer i b).uses ⊆ U)
    (captured : (Typed.StmtKind.forEach name .integer i b).captures ⊆ C)
    (bodyEnds : BlockHonours D H call (Γ.inside [(name, .integer)]) (Typed.Stmt.allUses b)
      (Typed.Stmt.allCaptures b) [] body)
    (obeys : h.Obeys D H G events) (here : Stands G h s Γ U C held) :
    Honours D (executeKind call s (.forEach name iterable body)) h events
      (Proceeded D H s Γ U C held (.forEach name .integer i b) G h events) := by
  have within := List.Subset.trans
    (Typed.StmtKind.captures_subset (.forEach name .integer i b)) used
  have part : (Typed.StmtKind.forEach name .integer i b).captures =
      (Typed.Stmt.allCaptures b).removeAll [name] := by rw [Typed.StmtKind.captures]
  have captures :
      Typed.Stmt.allCaptures b ⊆ [name] ++ (Typed.Stmt.allCaptures b).removeAll [name] :=
    removeAll_subset_iff.mp (List.Subset.refl _)
  rw [Typed.StmtKind.uses, List.append_subset] at used
  rw [executeKind]
  refine .bind (evaluate_obeys callee elaborates concrete used.1 obeys here.toSees)
    fun v h₁ events₁ yields => ?_
  obtain ⟨G₁, leads₁, typed⟩ := yields
  rw [sort] at typed
  obtain ⟨G₂, leads₂, here₂, promises⟩ := (here.next leads₁).promise leads₁.obeys within captured
  rw [part] at promises
  cases v with
  | iterable elements =>
    refine (overElements_obeys here.returns bodyEnds (removeAll_subset_iff.mp used.2) captures
      (Value.Obeys.elements typed) leads₂.obeys here₂.toSees promises).mono ?_
    rintro flow h₃ events₃ ⟨G₃, leads₃, flowObeys⟩
    exact .of_stands rfl (leads₁.widen.trans (leads₂.trans leads₃.widen)) flowObeys
      (here₂.next leads₃)
  | _ => exact .failAt leads₁.obeys.results

theorem returns_obeys (callee : Caller.Obeys D H call) {id : NodeId} {e : Option Expr}
    {k : Typed.StmtKind} (elaborates : (StmtKind.returns e).Elaborates H Γ id k)
    (concrete : k.isConcrete = true) (used : k.uses ⊆ U) (obeys : h.Obeys D H G events)
    (here : Stands G h s Γ U C held) :
    Honours D (executeKind call s (.returns e)) h events
      (Proceeded D H s Γ U C held k G h events) := by
  cases e with
  | none =>
    rw [StmtKind.Elaborates] at elaborates
    obtain ⟨expected, rfl, same, below⟩ := elaborates
    have nil : Value.nil.Obeys D H G h.size events .nil := .of_hasType rfl
    rw [executeKind, evaluateOption]
    exact .pure (.of_leads rfl here (.refl obeys) ⟨expected, same, nil.of_isSubtype rfl below⟩)
  | some e =>
    rw [StmtKind.Elaborates] at elaborates
    obtain ⟨expected, t, rfl, same, elaborates, below⟩ := elaborates
    rw [Typed.StmtKind.isConcrete] at concrete
    rw [Typed.StmtKind.uses] at used
    rw [executeKind, evaluateOption]
    refine .bind (evaluate_obeys callee elaborates concrete used obeys here.toSees)
      fun v h₁ events₁ yields => ?_
    obtain ⟨G₁, leads₁, typed⟩ := yields
    exact .pure (.of_leads rfl here leads₁ ⟨expected, same,
      typed.of_isSubtype (Typed.Expr.isConcrete_iff.mp concrete).1 below⟩)

theorem assignVariable_obeys {node : NodeRef} {name : String} (found : Γ.find? name = some t)
    (used : name ∈ U) (obeys : h.Obeys D H G events) (here : G.Sees h s Γ.find? U)
    (typed : v.Obeys D H G h.size events t) :
    Honours D (assign call s ⟨node, .variable name⟩ v) h events fun _ h' events' =>
      Leads D H ∅ G h events G h' events' := by
  unfold assign
  refine .read_bind ?_
  cases owner : h.owner? s name with
  | none => exact .failAt obeys.results
  | some o =>
    have bound := Heap.binds_iff.mp (Heap.binds_of_owner? owner)
    have planned := here.agrees name used t found
    rw [Heap.reach_of_owner? owner] at planned
    exact .put (.put obeys bound planned typed)

/-- No object has a concrete type, so only variables are assigned. -/
theorem assign_obeys (callee : Caller.Obeys D H call) {id : NodeId} {target : Expr} {value : Expr}
    {k : Typed.StmtKind} (elaborates : (StmtKind.assign target value).Elaborates H Γ id k)
    (concrete : k.isConcrete = true) (used : k.uses ⊆ U) (obeys : h.Obeys D H G events)
    (here : Stands G h s Γ U C held) :
    Honours D (executeKind call s (.assign target value)) h events
      (Proceeded D H s Γ U C held k G h events) := by
  obtain ⟨node, kind⟩ := target
  obtain ⟨ty, t, valueOk, below, target⟩ := elaborates.assign
  rw [executeKind]
  rcases target with ⟨name, rfl, rfl, found⟩ | ⟨receiver, name, r, rfl, rfl, _, has⟩
  · rw [Typed.StmtKind.isConcrete, Bool.and_eq_true] at concrete
    rw [Typed.StmtKind.uses, List.cons_subset] at used
    refine .bind (evaluate_obeys callee valueOk concrete.2 used.2 obeys here.toSees)
      fun v h₁ events₁ yields => ?_
    obtain ⟨G₁, leads₁, typed⟩ := yields
    have here₁ := here.next leads₁
    refine .bind (assignVariable_obeys found used.1 leads₁.obeys here₁.toSees
      (typed.of_isSubtype (Typed.Expr.isConcrete_iff.mp concrete.2).1 below)) ?_
    intro _ h₂ events₂ leads₂
    exact .pure (.of_leads rfl here (leads₁.trans leads₂) trivial)
  · rw [Typed.StmtKind.isConcrete, Bool.and_eq_true, Bool.and_eq_true,
      Typed.Expr.isConcrete_iff] at concrete
    exact absurd has (Ty.not_hasMember_of_concrete concrete.1.1.1)

/-! ### The walk -/

mutual

theorem execute_obeys (callee : Caller.Obeys D H call) :
    ∀ {x : Stmt} {t : Typed.Stmt} {Γ : Env} {s : ScopeId} {U C held : List String} {G : Plan Ty}
      {h : Heap Value} {events : List Event}, x.Elaborates H Γ t → t.isConcrete = true →
      t.isSteady Γ held = true → x.definitions t ⊆ D → t.uses ⊆ U → t.captures ⊆ C →
      h.Obeys D H G events → Stands G h s Γ U C held →
      Honours D (execute call s x) h events (Proceeded D H s Γ U C held t.kind G h events)
  | ⟨node, kind⟩, t, Γ, s, U, C, held, G, h, events, elaborates, concrete, steady, listed, used,
      captured, obeys, here => by
    rw [Stmt.Elaborates] at elaborates
    rw [Typed.Stmt.isConcrete_eq] at concrete
    rw [Typed.Stmt.isSteady_eq] at steady
    rw [Stmt.definitions] at listed
    rw [Typed.Stmt.uses_eq] at used
    rw [Typed.Stmt.captures_eq] at captured
    rw [execute]
    exact .located (executeKind_obeys callee elaborates.2 concrete steady listed used captured
      obeys here)

theorem executeKind_obeys (callee : Caller.Obeys D H call) {id : NodeId} :
    ∀ {x : StmtKind} {k : Typed.StmtKind} {Γ : Env} {s : ScopeId} {U C held : List String}
      {G : Plan Ty} {h : Heap Value} {events : List Event}, x.Elaborates H Γ id k →
      k.isConcrete = true → k.isSteady Γ held = true → x.definitions k ⊆ D → k.uses ⊆ U →
      k.captures ⊆ C → h.Obeys D H G events → Stands G h s Γ U C held →
      Honours D (executeKind call s x) h events (Proceeded D H s Γ U C held k G h events)
  | .letVar ⟨name, ty, none⟩, k, Γ, s, U, C, held, G, h, events, elaborates, concrete, _, _, _, _,
      _, _ => by
    rw [StmtKind.Elaborates] at elaborates
    obtain ⟨b, rfl, bound, _⟩ := elaborates
    obtain ⟨_, t, value, _⟩ := Typed.StmtKind.isConcrete_letVar concrete
    rw [Binding.Elaborates, value] at bound
    cases bound.2.2.1
  | .letVar ⟨name, ty, some e⟩, k, Γ, s, U, C, held, G, h, events, elaborates, concrete, steady, _,
      used, _, obeys, here =>
    letVar_obeys callee elaborates concrete steady used obeys here
  | .defFun d, k, Γ, s, U, C, held, G, h, events, elaborates, concrete, steady, listed, used,
      captured, obeys, here =>
    defFun_obeys elaborates concrete steady listed used captured obeys here
  | .ifElse condition thenBody elseBody, k, Γ, s, U, C, held, G, h, events, elaborates, concrete,
      steady, listed, used, captured, obeys, here => by
    rw [StmtKind.Elaborates] at elaborates
    obtain ⟨c, a, b, rfl, conditionOk, _, thenOk, elseOk⟩ := elaborates
    rw [Typed.StmtKind.isConcrete, Bool.and_eq_true, Bool.and_eq_true] at concrete
    rw [Typed.StmtKind.isSteady, Bool.and_eq_true] at steady
    rw [StmtKind.definitions, List.append_subset] at listed
    exact ifElse_obeys callee conditionOk concrete.1.1 used captured
      (block_obeys callee thenOk concrete.1.2 steady.1 listed.1 (List.Subset.refl _)
        (List.Subset.refl _))
      (block_obeys callee elseOk concrete.2 steady.2 listed.2 (List.Subset.refl _)
        (List.Subset.refl _)) obeys here
  | .forEach name iterable body, k, Γ, s, U, C, held, G, h, events, elaborates, concrete, steady,
      listed, used, captured, obeys, here => by
    rw [StmtKind.Elaborates] at elaborates
    obtain ⟨ty, i, b, rfl, iterableOk, below, element, bodyOk⟩ := elaborates
    rw [Typed.StmtKind.isConcrete, Bool.and_eq_true, Bool.and_eq_true] at concrete
    rw [Typed.StmtKind.isSteady] at steady
    rw [StmtKind.definitions] at listed
    have sort : i.ty = .iterable :=
      Ty.eq_of_isSubtype_concrete (Typed.Expr.isConcrete_iff.mp concrete.1.2).1 rfl below
    obtain rfl : ty = .integer := by
      rw [element, sort]
      rfl
    exact forEach_obeys callee iterableOk concrete.1.2 sort used captured
      (block_obeys callee bodyOk concrete.2 steady listed (List.Subset.refl _)
        (List.Subset.refl _)) obeys here
  | .returns e, k, Γ, s, U, C, held, G, h, events, elaborates, concrete, _, _, used, _, obeys,
      here =>
    returns_obeys callee elaborates concrete used obeys here
  | .expr e, k, Γ, s, U, C, held, G, h, events, elaborates, concrete, _, _, used, _, obeys,
      here => by
    rw [StmtKind.Elaborates] at elaborates
    obtain ⟨t, rfl, elaborates⟩ := elaborates
    rw [Typed.StmtKind.isConcrete] at concrete
    rw [Typed.StmtKind.uses] at used
    rw [executeKind]
    refine .bind (evaluate_obeys callee elaborates concrete used obeys here.toSees)
      fun v h₁ events₁ yields => ?_
    obtain ⟨G₁, leads₁, _⟩ := yields
    exact .pure (.of_leads rfl here leads₁ trivial)
  | .assign target value, k, Γ, s, U, C, held, G, h, events, elaborates, concrete, _, _, used, _,
      obeys, here =>
    assign_obeys callee elaborates concrete used obeys here

theorem block_obeys (callee : Caller.Obeys D H call) :
    ∀ {xs : List Stmt} {ts : List Typed.Stmt} {Γ : Env} {U C held : List String},
      Stmt.ElaborateAll H Γ xs ts → Typed.Stmt.allConcrete ts = true →
      Typed.Stmt.allSteady Γ held ts = true → Stmt.allDefinitions xs ts ⊆ D →
      Typed.Stmt.allUses ts ⊆ U → Typed.Stmt.allCaptures ts ⊆ C →
      BlockHonours D H call Γ U C held xs
  | [], ts, Γ, U, C, held, _, _, _, _, _, _, s, last, G, h, events, obeys, _ => by
    rw [block]
    exact .pure ⟨G, .refl obeys, trivial⟩
  | x :: rest, ts, Γ, U, C, held, elaborates, concrete, steady, listed, used, captured, s, last, G,
      h, events, obeys, here => by
    rw [Stmt.ElaborateAll] at elaborates
    obtain ⟨t, more, rfl, first, following⟩ := elaborates
    rw [Typed.Stmt.allConcrete, Bool.and_eq_true] at concrete
    rw [Typed.Stmt.allSteady, Bool.and_eq_true] at steady
    rw [Stmt.allDefinitions, List.append_subset] at listed
    rw [Typed.Stmt.allUses, List.append_subset] at used
    rw [Typed.Stmt.allCaptures, List.append_subset] at captured
    rw [block]
    refine .bind (execute_obeys callee first concrete.1 steady.1 listed.1 used.1 captured.1 obeys
      here) fun flow h₁ events₁ proceeds => ?_
    obtain ⟨G₁, leads₁, flowObeys, here₁⟩ := proceeds
    cases flow with
    | returned v => exact .pure ⟨G₁, leads₁, flowObeys⟩
    | value v =>
      rw [← Typed.Stmt.captures_eq] at here₁
      refine (block_obeys callee following concrete.2 steady.2 listed.2
        (removeAll_subset_iff.mp used.2) (removeAll_subset_iff.mp captured.2) s v G₁ h₁ events₁
        leads₁.obeys here₁).mono ?_
      rintro flow h₂ events₂ ⟨G₂, leads₂, flowObeys⟩
      exact ⟨G₂, leads₁.trans leads₂, flowObeys⟩

end

/-! ## Calls of closures -/

/-- What a call yields is of the declared type, but for the `Nil` of a body that has run off its
end. -/
theorem yielded_obeys {f : Closure} {d : Typed.Definition} {flow : Flow} {size : Nat}
    (listed : (f.definition, d) ∈ D)
    (obeys : FlowObeys D H G size events (some d.returns) flow) :
    flow.yielded.Obeys D H G size (events ++ [.completed f flow flow.yielded]) d.returns := by
  cases flow with
  | value v =>
    cases returns : d.returns with
    | prim p =>
      intro _
      by_cases nil : p = .nil
      · exact Or.inl (nil ▸ rfl)
      · exact Or.inr ⟨rfl, _, List.mem_append_right _ List.mem_cons_self, d, p,
          listed, returns, nil⟩
    | function params result => exact Or.inl rfl
    | object name members => trivial
  | returned v =>
    obtain ⟨t, same, obeys⟩ := obeys
    obtain rfl := Option.some.inj same
    exact obeys.mono (.refl ∅ size G) (Nat.le_refl _) fun strayed => strayed.append _

theorem completed_honoured {f : Closure} {d : Typed.Definition} {flow : Flow} {size : Nat}
    (listed : (f.definition, d) ∈ D) (concrete : d.returns.isConcrete = true)
    (obeys : flow.yielded.Obeys D H G size (events ++ [.completed f flow flow.yielded])
      d.returns) : (Event.completed f flow flow.yielded).Honoured D events := by
  refine ⟨d, listed, rfl, fun p returns => ?_⟩
  rw [returns] at concrete obeys
  exact (obeys concrete).imp_left Value.HasType.kind

/-- A body may run in the scopes that a call makes for it. -/
theorem Stands.called {f : Closure} {arguments : List Value} {d : Typed.Definition} {id : NodeId}
    (planned : f.Planned D H G h.size Γ d) (elaborates : f.definition.Elaborates H Γ id none d)
    (obeys : h.Obeys D H G events)
    (all : List.Forall₂ (fun v t => v.Obeys D H G h.size events t) arguments
      (d.params.map Typed.Param.ty)) :
    let bound := (h.child f.captured (.ofList (f.boundNames.zip arguments))).2
    ∃ G', Leads D H ∅ G h events G' (bound.child h.size .empty).2 events ∧
      Stands G' (bound.child h.size .empty).2 bound.size (Γ.body none d)
        (Typed.Stmt.allUses d.body) (Typed.Stmt.allCaptures d.body) [] := by
  have function : f.isMethod = (none : Option Ty).isSome := planned.function
  have names := Run.boundNames_eq Γ function elaborates.paramNames_eq
  have typed : List.Forall₂ (fun v t => v.Obeys D H G h.size events t) arguments
      ((Γ.body none d).own.map Prod.snd) := by
    rw [Run.boundTypes_eq]
    exact all
  have long : f.boundNames.length ≤ arguments.length := by
    rw [typed.length_eq, ← names, List.length_map, List.length_map]
  have kept : G.Promises f.captured (Γ.declare d.name d.ty).find? d.uses := planned.kept
  have uses := d.allUses_subset Γ none
  refine Stands.body (Γ.body none d) (Γ.body none d).own
    (.of_promises obeys.toFollows planned.inside kept) obeys kept ?_ ?_ (fun _ => rfl) uses
    (List.Subset.trans (Typed.Stmt.allCaptures_subset _) uses) ?_
  · intro n
    rw [Bindings.mem_names_ofList, List.map_fst_zip long, names]
  · intro n v found
    have mem := Bindings.mem_of_find?_ofList found
    rw [← names] at mem
    exact Run.exists_lookup_of_mem_zip elaborates.nodup_own typed mem
  · intro t same
    obtain rfl : d.returns = t := Option.some.inj same
    exact (Typed.Definition.isConcrete_iff.mp planned.concrete).2.1

theorem enter_obeys (callee : Caller.Obeys D H call) : Caller.Obeys D H (enter call) := by
  intro f arguments Γ d G h events obeys planned all
  obtain ⟨id, elaborates⟩ := planned.elaborates
  obtain ⟨_, returns, body⟩ := Typed.Definition.isConcrete_iff.mp planned.concrete
  have steady := planned.steady
  rw [Typed.Definition.isSteady_eq] at steady
  have told : Leads D H ∅ G h events G h (events ++ [.called f arguments h]) :=
    .tell (.refl obeys) trivial
  obtain ⟨G₁, made, here⟩ := Stands.called planned elaborates told.obeys
    (all.imp fun v t obeys => told.typed obeys)
  unfold enter
  refine .tell_bind (.lift_bind (.checkCall f arguments) told.obeys.results fun _ => ?_)
  refine .child_bind (.child_bind (.bind (block_obeys callee elaborates.body body steady
    planned.nested (List.Subset.refl _) (List.Subset.refl _) _ _ _ _ _ made.obeys here)
    fun flow h₁ events₁ finished => ?_))
  obtain ⟨G₂, leads, flowObeys⟩ :=
    Finished.of_fresh made (Nat.le_of_lt (Heap.lt_size_child ..)) finished
  have yielded := yielded_obeys planned.listed flowObeys
  have honoured := completed_honoured planned.listed returns yielded
  exact .tell_bind (.pure ⟨G₂, told.trans (leads.tell honoured), yielded⟩)

theorem callClosure_obeys : ∀ depth, Caller.Obeys D H (callClosure depth)
  | 0 => fun _ _ _ _ _ _ _ obeys _ _ => .tooDeep obeys.results
  | depth + 1 => enter_obeys (callClosure_obeys depth)

theorem statements_obeys (callee : Caller.Obeys D H call) :
    ∀ {xs : List Stmt} {ts : List Typed.Stmt} {Γ : Env} {U C held : List String} {G : Plan Ty}
      {h : Heap Value} {events : List Event} (last : Value), Stmt.ElaborateAll H Γ xs ts →
      Typed.Stmt.allConcrete ts = true → Typed.Stmt.allSteady Γ held ts = true →
      Stmt.allDefinitions xs ts ⊆ D → Typed.Stmt.allUses ts ⊆ U →
      Typed.Stmt.allCaptures ts ⊆ C → h.Obeys D H G events → Stands G h s Γ U C held →
      Honours D (statements call s last xs) h events fun _ _ events' => Honoured D events'
  | [], _, _, _, _, _, _, _, _, _, _, _, _, _, _, _, obeys, _ => .pure obeys.results
  | x :: rest, ts, Γ, U, C, held, G, h, events, last, elaborates, concrete, steady, listed, used,
      captured, obeys, here => by
    rw [Stmt.ElaborateAll] at elaborates
    obtain ⟨t, more, rfl, first, following⟩ := elaborates
    rw [Typed.Stmt.allConcrete, Bool.and_eq_true] at concrete
    rw [Typed.Stmt.allSteady, Bool.and_eq_true] at steady
    rw [Stmt.allDefinitions, List.append_subset] at listed
    rw [Typed.Stmt.allUses, List.append_subset] at used
    rw [Typed.Stmt.allCaptures, List.append_subset] at captured
    rw [statements]
    refine .bind (execute_obeys callee first concrete.1 steady.1 listed.1 used.1 captured.1 obeys
      here) fun flow h₁ events₁ proceeds => ?_
    obtain ⟨G₁, leads₁, _, here₁⟩ := proceeds
    cases flow with
    | returned v => exact .failAt leads₁.obeys.results
    | value v =>
      rw [← Typed.Stmt.captures_eq] at here₁
      exact statements_obeys callee v following concrete.2 steady.2 listed.2
        (removeAll_subset_iff.mp used.2) (removeAll_subset_iff.mp captured.2) leads₁.obeys here₁

end Traced

/-! ## From the prelude on -/

namespace RunSession

/-- The names of the prelude are planned with the types that it says, whatever they are bound to. -/
def startTypes (fixtures : Bool) : Plan Ty := fun s n =>
  (CheckSession.start fixtures).heap.resolveLocal s n

/-- What a prelude may bind to a name of type `t`. -/
def startsWith (v : Value) (t : Ty) : Bool :=
  match v, t with
  | .function (.builtin f), t => t == .function f.params f.returns
  | .iterable elements, .iterable => elements.all fun v => v.kind == .integer
  | .object _ _, .object _ _ => true
  | v, .prim p => !(Ty.prim p).isConcrete || (Ty.prim p).kind? == some v.kind && p != .iterable
  | _, _ => false

theorem obeys_of_startsWith {size : Nat} (starts : startsWith v t = true) :
    v.Obeys D H G size events t := by
  unfold startsWith at starts
  split at starts
  case h_1 f =>
    obtain rfl := eq_of_beq starts
    exact Or.inr ⟨.builtin f, rfl, rfl, rfl⟩
  case h_2 elements =>
    refine .of_hasType ⟨rfl, fun u mem => ?_⟩
    have integer := List.all_eq_true.mp starts u mem
    cases u with
    | integer n => exact ⟨n, rfl⟩
    | _ => cases integer
  case h_3 => trivial
  case h_4 p _ _ =>
    intro concrete
    left
    rw [concrete, Bool.not_true, Bool.false_or, Bool.and_eq_true] at starts
    revert starts
    cases p <;> cases v <;> first | (intro _; rfl) | decide | simp [Ty.kind?, Value.kind]
  case h_5 => cases starts

theorem start_startsWith (fixtures : Bool) : ∀ s < (start fixtures).heap.size,
    ∀ e ∈ ((start fixtures).heap.bindings s).entries,
      ((CheckSession.start fixtures).heap.resolveLocal s e.1).any (startsWith e.2) = true := by
  cases fixtures <;> decide

theorem startTypes_obeys (fixtures : Bool) :
    (start fixtures).heap.Obeys D H (startTypes fixtures) [] where
  results := .nil
  values s n v found := by
    have inside := Heap.lt_size_of_resolveLocal found
    have starts := start_startsWith fixtures s inside (n, v) (Bindings.mem_of_find? found)
    obtain ⟨t, known, starts⟩ := (Option.any_eq_true ..).mp starts
    exact ⟨t, known, obeys_of_startsWith starts⟩
  around s p n t link _ _ := by
    rw [start_parent?] at link
    cases link

/-- Names of types are not bound, and no accepted script looks them up. -/
theorem startTypes_stands (fixtures : Bool) (U C : List String) :
    Traced.Stands (startTypes fixtures) (start fixtures).heap (start fixtures).scope
      (Env.of (CheckSession.start fixtures).heap { scope := (CheckSession.start fixtures).scope })
      U C [] := by
  have same : (CheckSession.start fixtures).scope = (start fixtures).scope := by
    cases fixtures <;> decide
  have top : (CheckSession.start fixtures).heap.parent? (start fixtures).scope = none := by
    cases fixtures <;> decide
  have means (n : String) : (Env.of (CheckSession.start fixtures).heap
      { scope := (CheckSession.start fixtures).scope }).find? n =
      startTypes fixtures (start fixtures).scope n := by
    rw [Env.find?_of, same, Heap.resolve_eq, top, Option.or_none]
    rfl
  refine ⟨⟨⟨by cases fixtures <;> decide, ?_⟩, ?_, ?_⟩, ?_⟩
  · intro n _ t found
    rw [Heap.reach_of_no_parent (start_parent? fixtures _)]
    exact (means n).symm.trans found
  · intro n t known _
    have named := Bindings.isSome_find?.mp (Option.isSome_of_eq_some known)
    rw [← same] at named
    exact ⟨(means n).trans known, Or.inl named⟩
  · intro n _ t p _ _ link
    rw [start_parent?] at link
    cases link
  · intro t impossible
    cases impossible

end RunSession

/-! ## Declared results -/

/-- In a run of a script of concrete types that is steady: a call that has come to its end yields
what its body has ended with, and that is data of the kind that its function declares, or it is
`Nil` and a call has strayed, this one or one that came to its end before it. -/
theorem Script.results_of_check (fixtures : Bool) {p : Script} {typed : List Typed.Stmt}
    (ok : (p.check fixtures).1 = .ok typed) (concrete : Typed.Stmt.allConcrete typed = true)
    (steady : Typed.Stmt.allSteady (Env.of (CheckSession.start fixtures).heap
      { scope := (CheckSession.start fixtures).scope }) [] typed = true) (depth : Nat)
    {before after : List Event} {f : Closure} {flow : Flow} {result : Value}
    (trace : p.trace fixtures depth = before ++ .completed f flow result :: after) :
    Traced.forget (p.tracedWithin fixtures depth) = p.runWithin fixtures depth ∧
      ∃ d, (f.definition, d) ∈ Stmt.allDefinitions p.statements typed ∧ result = flow.yielded ∧
        ∀ R, d.returns = .prim R → (Ty.prim R).kind? = some result.kind ∨
          result = .nil ∧ Strayed (Stmt.allDefinitions p.statements typed)
            (before ++ [.completed f flow result]) := by
  have elaborates := (CheckSession.start_closed fixtures).elaborates ok
  have ends := Traced.statements_obeys (Traced.callClosure_obeys depth) .nil elaborates
    concrete steady (List.Subset.refl _) (List.Subset.refl _) (List.Subset.refl _)
    (RunSession.startTypes_obeys fixtures) (RunSession.startTypes_stands fixtures _ _)
  obtain ⟨_, honoured⟩ := ends.exists_events (fun _ _ _ honoured => honoured) #[]
  exact ⟨p.forget_tracedWithin fixtures depth, honoured before _ after trace⟩

/-- A function that leaves a loop and a branch with its result, or goes on to its end. -/
def searchScript : Script :=
  ⟨[⟨default, .letVar ⟨"limit", none, some ⟨default, .literal (.integer 3)⟩⟩⟩,
    ⟨default, .defFun ⟨"search", [⟨"n", some "Integer"⟩], some "Integer",
      [⟨default, .forEach "i" ⟨default, .call "range"
          [⟨default, .literal (.integer 0)⟩, ⟨default, .variable "n"⟩]⟩
        [⟨default, .ifElse ⟨default, .binary .gt
            ⟨default, .binary .mul ⟨default, .variable "i"⟩ ⟨default, .variable "i"⟩⟩
            ⟨default, .variable "limit"⟩⟩
          [⟨default, .returns (some ⟨default, .variable "i"⟩)⟩] []⟩]⟩]⟩⟩,
    ⟨default, .expr ⟨default, .call "search" [⟨default, .literal (.integer 5)⟩]⟩⟩]⟩

/-- Whether the fourth and last event is the end of a call that yields an integer. -/
def endsInInteger : List Event → Bool
  | [_, _, _, .completed _ _ result] => decide (result.kind = .integer)
  | _ => false

theorem Script.results_of_check_searchScript : ∃ typed before f flow result after,
    (searchScript.check false).1 = .ok typed ∧ Typed.Stmt.allConcrete typed = true ∧
      Typed.Stmt.allSteady (Env.of (CheckSession.start false).heap
        { scope := (CheckSession.start false).scope }) [] typed = true ∧
      searchScript.trace false 1 = before ++ .completed f flow result :: after ∧
      result.kind = .integer ∧
      ∃ d, (f.definition, d) ∈ Stmt.allDefinitions searchScript.statements typed ∧
        result = flow.yielded ∧
        ∀ R, d.returns = .prim R → (Ty.prim R).kind? = some result.kind ∨
          result = .nil ∧ Strayed (Stmt.allDefinitions searchScript.statements typed)
            (before ++ [.completed f flow result]) := by
  have accepted : (searchScript.check false).1.isOk = true := by decide
  obtain ⟨typed, ok⟩ := exists_eq_ok accepted
  have judged : (searchScript.check false).1.toOption.any (fun typed =>
      Typed.Stmt.allConcrete typed && Typed.Stmt.allSteady (Env.of (CheckSession.start false).heap
        { scope := (CheckSession.start false).scope }) [] typed) = true := by
    decide
  rw [ok] at judged
  obtain ⟨concrete, steady⟩ := Bool.and_eq_true_iff.mp judged
  have traced : endsInInteger (searchScript.trace false 1) = true := by decide +kernel
  unfold endsInInteger at traced
  split at traced
  case h_1 a b c f flow result trace =>
    have ends : searchScript.trace false 1 = [a, b, c] ++ .completed f flow result :: [] := trace
    exact ⟨typed, [a, b, c], f, flow, result, [], ok, concrete, steady, ends,
      of_decide_eq_true traced, (Script.results_of_check false ok concrete steady 1 ends).2⟩
  case h_2 => cases traced

/-! ## Scripts that break a declaration -/

/-- A function that is declared to give an integer, and runs off its end. -/
def strayingScript : Script :=
  ⟨[⟨default, .defFun ⟨"f", [], some "Integer", []⟩⟩, ⟨default, .expr ⟨default, .call "f" []⟩⟩]⟩

/-- A function gives back a variable around the block in which it is defined. The block then
declares the variable anew, with another type, and calls the function. -/
def retypingScript : Script :=
  ⟨[⟨default, .letVar ⟨"x", none, some ⟨default, .literal (.integer 1)⟩⟩⟩,
    ⟨default, .ifElse ⟨default, .literal (.boolean true)⟩
      [⟨default, .defFun ⟨"g", [], some "Integer",
          [⟨default, .returns (some ⟨default, .variable "x"⟩)⟩]⟩⟩,
        ⟨default, .letVar ⟨"x", none, some ⟨default, .literal (.string "s")⟩⟩⟩,
        ⟨default, .expr ⟨default, .call "g" []⟩⟩] []⟩]⟩

/-- Accepted, with concrete types throughout, and a call yields something else than its function
declares. -/
def Script.BreaksResult (p : Script) : Prop :=
  ∃ typed before f flow result after d R, (p.check false).1 = .ok typed ∧
    Typed.Stmt.allConcrete typed = true ∧
    p.trace false 1 = before ++ .completed f flow result :: after ∧
    (f.definition, d) ∈ Stmt.allDefinitions p.statements typed ∧ d.returns = .prim R ∧
    (Ty.prim R).kind? ≠ some result.kind

/-- Whether the last event is the end of a call of the function of `strayingScript`, with `Nil`. -/
def straysToNil : List Event → Bool
  | [_, _, .completed ⟨⟨name, params, returns, []⟩, _, _⟩ _ result] =>
    decide (name = "f" ∧ params = [] ∧ returns = some "Integer" ∧ result.kind = .nil)
  | _ => false

theorem strayingScript_breaksResult : strayingScript.BreaksResult := by
  have traced : straysToNil (strayingScript.trace false 1) = true := by decide +kernel
  unfold straysToNil at traced
  split at traced
  case h_1 a b name params returns captured isMethod flow result trace =>
    obtain ⟨rfl, rfl, rfl, kind⟩ := of_decide_eq_true traced
    refine ⟨_, [a, b], _, flow, result, [], _, .integer, rfl, by decide, trace, List.mem_cons_self,
      rfl, ?_⟩
    rw [kind]
    decide
  case h_2 => cases traced

/-- Whether the last event is the end of a call of the function of `retypingScript`, with a
string. -/
def returnsString : List Event → Bool
  | [_, _, _, _, .completed ⟨⟨name, params, returns,
      [⟨first, .returns (some ⟨second, .variable x⟩)⟩]⟩, _, _⟩ _ result] =>
    decide ((name = "g" ∧ params = [] ∧ returns = some "Integer" ∧ first = default ∧
      second = default ∧ x = "x") ∧ result.kind = .string)
  | _ => false

theorem retypingScript_breaksResult : retypingScript.BreaksResult := by
  have traced : returnsString (retypingScript.trace false 1) = true := by decide +kernel
  unfold returnsString at traced
  split at traced
  case h_1 a b c d name params returns first second x captured isMethod flow result trace =>
    obtain ⟨⟨rfl, rfl, rfl, rfl, rfl, rfl⟩, kind⟩ := of_decide_eq_true traced
    refine ⟨_, [a, b, c, d], _, flow, result, [], _, .integer, rfl, by decide, trace,
      List.mem_cons_self, rfl, ?_⟩
    rw [kind]
    decide
  case h_2 => cases traced

/-- A body may run off its end, and a captured name may be declared anew with another type. -/
theorem scripts_breakResults : strayingScript.BreaksResult ∧ retypingScript.BreaksResult :=
  ⟨strayingScript_breaksResult, retypingScript_breaksResult⟩

end GradualScript
