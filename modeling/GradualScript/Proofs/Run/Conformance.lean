/-
# GradualScript.Proofs.Run.Conformance -- the values of the prelude have its types

The prelude is two tables, one for the checker and one for the evaluator, and every check of a
script starts from the first while every run starts from the second. That the names agree does not
say that the tables do: a builtin checks its arguments itself, a sample method counts its receiver
as an argument while its type does not, and part of the sample object stands in its prototype.

What it is for a value to conform to a type is said for whatever the value may be. A function
conforms if it can be called as its type says, and in no other way; an object conforms if its
members do. Members may lead back to the object, so objects are opened to a depth, and a value
conforms when it does so at every depth (`Value.Conforms`).
-/

import GradualScript.Proofs.Run.Arity
import GradualScript.Proofs.Run.Ground

namespace GradualScript

/-! ## Conforming -/

/-- Values of this kind may stand where the primitive is wanted: it is `Any` or `Dynamic`, or it is
the type that the kind belongs to or above that in the table of primitives. -/
def Primitive.admits (p : Primitive) (k : Kind) : Bool :=
  p == .any || p == .dynamic ||
    Primitive.all.any fun q => (Ty.prim q).kind? == some k && (q == p || q.below p)

namespace Value

theorem exists_integer_of_admits {v : Value} (admits : Primitive.integer.admits v.kind = true) :
    ∃ n, v = .integer n := by
  cases v with
  | integer n => exact ⟨n, rfl⟩
  | _ => cases admits

section

variable (call : Run.Caller) (objects : Heap Value → ScopeId → ScopeId → Prop)

mutual

/-- A value of the heap `h` conforms to a type, if it is called with `receiver` before its
arguments; `objects` says which members conform to which ones. Where the type is that of a function,
every call with as many arguments as there are parameters, all of which conform, comes to a value
that conforms; a call with more or fewer arguments fails for its types and changes nothing, so it
writes nothing either. -/
def ConformsBy (receiver : List Value) (h : Heap Value) (v : Value) : Ty → Prop
  | .prim p => p.admits v.kind = true
  | .function params returns => ∃ f, v = .function f ∧
      (∀ (arguments : List Value) (w : World), AllConformBy w.heap arguments params →
        ∃ u w', Run.invoke call f (receiver ++ arguments) w = .ok u w' ∧
          ConformsBy [] w'.heap u returns) ∧
      ∀ (arguments : List Value) (w : World),
        arguments.length ≠ receiver.length + params.length →
          ∃ fault, Run.invoke call f arguments w = .error (.fault fault) w ∧
            fault.cause.kind = .type
  | .object _ members' => ∃ name members, v = .object name members ∧ objects h members members'

def AllConformBy (h : Heap Value) : List Value → List Ty → Prop
  | [], [] => True
  | v :: vs, t :: ts => ConformsBy [] h v t ∧ AllConformBy h vs ts
  | _, _ => False

end

end

theorem AllConformBy.eq_nil {call : Run.Caller} {objects : Heap Value → ScopeId → ScopeId → Prop}
    {h : Heap Value} {vs : List Value} (all : AllConformBy call objects h vs []) : vs = [] := by
  cases vs with
  | nil => rfl
  | cons v vs => exact all.elim

theorem AllConformBy.eq_cons {call : Run.Caller} {objects : Heap Value → ScopeId → ScopeId → Prop}
    {h : Heap Value} {vs : List Value} {t : Ty} {ts : List Ty}
    (all : AllConformBy call objects h vs (t :: ts)) : ∃ v rest, vs = v :: rest ∧
      ConformsBy call objects [] h v t ∧ AllConformBy call objects h rest ts := by
  cases vs with
  | nil => exact all.elim
  | cons v vs => exact ⟨v, vs, rfl, all.1, all.2⟩

/-- Every member of the object type with the members `members'` is a member of the object too and
conforms, whatever object it is called on. Objects in objects are opened to the depth `depth`. -/
def MembersConform (call : Run.Caller) (H : Heap Ty) :
    Nat → Heap Value → ScopeId → ScopeId → Prop
  | 0, _, _, _ => True
  | depth + 1, h, members, members' => ∀ n t, H.resolveLocal members' n = some t →
      ∃ v, h.resolveLocal members n = some v ∧
        ∀ receiver, ConformsBy call (MembersConform call H depth) [receiver] h v t

/-- A value of the heap `h` conforms to a type of the heap `H`. -/
def Conforms (call : Run.Caller) (H : Heap Ty) (h : Heap Value) (v : Value) (t : Ty) : Prop :=
  ∀ depth, ConformsBy call (MembersConform call H depth) [] h v t

end Value

/-! ## Builtins -/

namespace Builtin

variable {call : Run.Caller} {objects : Heap Value → ScopeId → ScopeId → Prop} {f : Builtin}
  {receiver arguments : List Value} {w : World}

theorem length_params (f : Builtin) : f.params.length = f.argumentCount := by cases f <;> rfl

/-- A builtin complains about any other number of arguments than it takes. -/
theorem apply_of_length_ne (wrong : arguments.length ≠ f.receiverCount + f.argumentCount) :
    f.apply arguments =
      Run.fail (.argumentCount f.name f.argumentCount (arguments.length - f.receiverCount)) := by
  unfold apply
  split
  case h_13 => rfl
  all_goals exact absurd rfl wrong

/-- A builtin that is given what it takes yields what its type says. -/
theorem apply_conforms (count : receiver.length = f.receiverCount)
    (all : Value.AllConformBy call objects w.heap arguments f.params) :
    ∃ u w', f.apply (receiver ++ arguments) w = .ok u w' ∧
      Value.ConformsBy call objects [] w'.heap u f.returns := by
  -- The builtins are grouped by how many receivers and arguments they take, and which they return.
  cases f with
  | log | debug | print =>
    obtain rfl := List.length_eq_zero_iff.mp count
    obtain ⟨v, _, rfl, _, noMore⟩ := all.eq_cons
    obtain rfl := noMore.eq_nil
    exact ⟨_, _, rfl, rfl⟩
  | range =>
    obtain rfl := List.length_eq_zero_iff.mp count
    obtain ⟨a, _, rfl, first, rest⟩ := all.eq_cons
    obtain ⟨b, _, rfl, second, noMore⟩ := rest.eq_cons
    obtain rfl := noMore.eq_nil
    obtain ⟨start, rfl⟩ := Value.exists_integer_of_admits first
    obtain ⟨stop, rfl⟩ := Value.exists_integer_of_admits second
    exact ⟨_, _, rfl, rfl⟩
  | function =>
    obtain rfl := List.length_eq_zero_iff.mp count
    obtain rfl := all.eq_nil
    exact ⟨_, _, rfl, rfl⟩
  | functionAny | functionString =>
    obtain rfl := List.length_eq_zero_iff.mp count
    obtain ⟨v, _, rfl, conforms, noMore⟩ := all.eq_cons
    obtain rfl := noMore.eq_nil
    exact ⟨v, w, rfl, conforms⟩
  | inheritedMethod | method =>
    obtain ⟨r, rfl⟩ := List.length_eq_one_iff.mp count
    obtain rfl := all.eq_nil
    exact ⟨_, _, rfl, rfl⟩
  | methodAny | methodString =>
    obtain ⟨r, rfl⟩ := List.length_eq_one_iff.mp count
    obtain ⟨v, _, rfl, conforms, noMore⟩ := all.eq_cons
    obtain rfl := noMore.eq_nil
    exact ⟨v, w, rfl, conforms⟩

/-- A builtin conforms to its type, after as many receivers as it takes. -/
theorem conforms (f : Builtin) (count : receiver.length = f.receiverCount) (h : Heap Value) :
    Value.ConformsBy call objects receiver h (.function (.builtin f))
      (.function f.params f.returns) := by
  refine ⟨.builtin f, rfl, fun arguments w all => apply_conforms count all, ?_⟩
  intro arguments w wrong
  rw [count, length_params] at wrong
  exact ⟨_, congrFun (apply_of_length_ne wrong) w, rfl⟩

end Builtin

/-! ## The two tables -/

namespace Prelude

/-- What the table of values may have for a type, among the objects `objects`, whose scopes have the
same numbers in both tables. A function counts `receivers` receivers. -/
def matchesType (objects : List ScopeId) (receivers : Nat) (v : Value) (t : Ty) : Bool :=
  match t, v with
  | .prim p, v => p.admits v.kind
  | .function params returns, .function (.builtin f) =>
    params == f.params && returns == f.returns && f.receiverCount == receivers
  | .object _ members', .object _ members => members == members' && objects.contains members
  | _, _ => false

theorem values_match (fixtures : Bool) :
    let s := RunSession.start fixtures
    ∀ e ∈ (s.heap.bindings s.scope).entries,
      ((CheckSession.start fixtures).heap.resolve (CheckSession.start fixtures).scope e.1).any
        (matchesType (RunSession.startObjects fixtures) 0 e.2) = true := by
  cases fixtures <;> decide

theorem members_match (fixtures : Bool) : ∀ m ∈ RunSession.startObjects fixtures,
    ∀ e ∈ ((CheckSession.start fixtures).heap.bindings m).entries,
      ((RunSession.start fixtures).heap.resolveLocal m e.1).any
        (matchesType (RunSession.startObjects fixtures) 1 · e.2) = true := by
  cases fixtures <;> decide

/-- What the table check has found conforms, if the objects do. -/
theorem conforms_of_matchesType {objects : Heap Value → ScopeId → ScopeId → Prop}
    {known : List ScopeId} {h : Heap Value} {receiver : List Value} {v : Value} {t : Ty}
    (conform : ∀ m ∈ known, objects h m m)
    (found : matchesType known receiver.length v t = true) :
    Value.ConformsBy call objects receiver h v t := by
  unfold matchesType at found
  split at found
  case h_1 p => exact found
  case h_2 params returns f =>
    simp only [Bool.and_eq_true, beq_iff_eq] at found
    obtain ⟨⟨rfl, rfl⟩, count⟩ := found
    exact f.conforms count.symm h
  case h_3 name' members' name members =>
    rw [Bool.and_eq_true, beq_iff_eq, List.contains_iff_mem] at found
    obtain ⟨rfl, mem⟩ := found
    exact ⟨name, members, rfl, conform members mem⟩
  case h_4 => cases found

/-- The members of the sample object and of its prototype conform. -/
theorem members_conform (call : Run.Caller) (fixtures : Bool) : ∀ (depth : Nat),
    ∀ m ∈ RunSession.startObjects fixtures,
      Value.MembersConform call (CheckSession.start fixtures).heap depth
        (RunSession.start fixtures).heap m m
  | 0, _, _ => trivial
  | depth + 1, m, mem => by
    -- The tables have been compared for every member. Only the objects among them are left, and
    -- they are opened one level less.
    intro n t bound
    have found := members_match fixtures m mem (n, t) (Bindings.mem_of_find? bound)
    obtain ⟨v, member, found⟩ := (Option.any_eq_true _ _).mp found
    exact ⟨v, member, fun receiver =>
      conforms_of_matchesType (members_conform call fixtures depth) found⟩

/-- Whatever the prelude binds a name to conforms to the type that the checker knows for it. -/
theorem values_conform (fixtures : Bool) (call : Run.Caller) {n : String} {v : Value} :
    let s := RunSession.start fixtures
    let c := CheckSession.start fixtures
    s.heap.resolve s.scope n = some v →
      ∃ t, c.heap.resolve c.scope n = some t ∧ v.Conforms call c.heap s.heap t := by
  intro s c bound
  rw [Heap.resolve_eq, RunSession.start_parent?, Option.or_none] at bound
  have found := values_match fixtures (n, v) (Bindings.mem_of_find? bound)
  obtain ⟨t, known, found⟩ := (Option.any_eq_true _ _).mp found
  exact ⟨t, known, fun depth => conforms_of_matchesType (members_conform call fixtures depth) found⟩

/-- The sample object has the type of the sample object. -/
theorem sample_object_conforms :
    let s := RunSession.start true
    let c := CheckSession.start true
    s.heap.resolve s.scope "object" = some (.object (some "Object") 1) ∧
      ∃ t, c.heap.resolve c.scope "object" = some t ∧
        (Value.object (some "Object") 1).Conforms (Run.callClosure callDepth) c.heap s.heap t :=
  ⟨rfl, values_conform true (Run.callClosure callDepth) rfl⟩

end Prelude

end GradualScript
