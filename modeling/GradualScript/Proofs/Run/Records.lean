/-
# GradualScript.Proofs.Run.Records -- members on both sides of a record

A record is an object expression whose fields have literals or records for their initial values. The
checker gives it a scope of types, the evaluator a scope of values, and each has a search of its own
for members: along prototypes that are object types, with an answer of its own where a prototype is
`Dynamic`, and along prototypes that are objects. On the objects that a record makes the two
searches agree, name by name and step by step.

`Typed.Expr.Describes` says what the two passes have made of a record: two scopes with the same
names in the same order, in which each field's value is described by the typed expression in its
binding. That a record comes to such a value is shown by a walk over its tree; the searches are then
followed along the chain of prototypes, which ends because that of the type does.
-/

import GradualScript.Proofs.Check.Accepted
import GradualScript.Proofs.Check.Prototypes
import GradualScript.Proofs.Run.Writes
import GradualScript.Proofs.Ty.Inheritance

namespace GradualScript

/-! ## Records -/

mutual

/-- The expression is a literal, or an object all of whose fields start from such expressions. A
field that is called `prototype` has no annotation. -/
def Expr.isRecord : Expr → Bool
  | ⟨_, kind⟩ => kind.isRecord

def ExprKind.isRecord : ExprKind → Bool
  | .literal _ => true
  | .object _ fields _ => Field.allRecords fields
  | _ => false

def Field.allRecords : List Field → Bool
  | [] => true
  | ⟨_, ⟨name, ty, some e⟩⟩ :: rest =>
    (name != prototypeName || ty.isNone) && e.isRecord && Field.allRecords rest
  | ⟨_, ⟨_, _, none⟩⟩ :: _ => false

end

/-! ## Members, one field after the other -/

/-- The initial value of a field of an object expression. -/
def Typed.Expr.field? (t : Typed.Expr) (name : String) : Option Typed.Expr :=
  match t.kind with
  | .object _ fields _ => (fields.find? fun b => b.name == name).bind Typed.Binding.value
  | _ => none

/-- The expression that one comes to through the fields `path`. -/
def Typed.Expr.follow (t : Typed.Expr) (path : List String) : Option Typed.Expr :=
  path.foldlM Typed.Expr.field? t

/-- What an object binds itself. -/
def Value.field? (h : Heap Value) (v : Value) (name : String) : Option Value :=
  match v with
  | .object _ members => h.resolveLocal members name
  | _ => none

/-- The value that one comes to through the fields `path`. -/
def Value.follow (h : Heap Value) (v : Value) (path : List String) : Option Value :=
  path.foldlM (Value.field? h) v

/-- `find k` searches the first `k` objects of a chain. It finds `a` in the object that is `depth`
prototypes on, and nothing in those before. -/
structure FoundAt {α : Type} (find : Nat → Option α) (depth : Nat) (a : α) : Prop where
  found : ∀ k, depth < k → find k = some a
  before : ∀ k, k ≤ depth → find k = none

/-- The searches for `name` on both sides of an object, which has the typed expression `t` and the
value `v`: the one among the types, which begins with the members `m`, and the one among the values,
which begins with the members `s`. -/
inductive MembersAgree (H : Heap Ty) (h : Heap Value) (t : Typed.Expr) (v : Value)
    (m s : ScopeId) (name : String) : Prop
  /-- Neither finds a member. -/
  | missing (type : Ty.lookup H m name = none) (value : Value.lookup h s name = none)
  /-- Both find a field equally far on. It holds a literal or an object, and the type of the literal
  or of the object is below the type that is found. -/
  | field (depth : Nat) (found : Ty) (held : Value) (initial : Typed.Expr)
      (type : Ty.lookup H m name = some found) (value : Value.lookup h s name = some held)
      (typeAt : FoundAt (fun k => Ty.lookupWithin H name k m) depth found)
      (valueAt : FoundAt (fun k => Value.lookupWithin h name k s) depth held)
      (typed : t.follow (List.replicate depth prototypeName ++ [name]) = some initial)
      (holds : v.follow h (List.replicate depth prototypeName ++ [name]) = some held)
      (shape : (∃ l, held = .ofLiteral l ∧ initial.ty = l.ty) ∨
        ∃ own p q, held = .object own p ∧ initial.ty = .object own q)
      (below : initial.ty.isSubtype H found = true)
  /-- Both find a method equally far on. -/
  | method (depth : Nat) (params : List Ty) (returns : Ty) (f : Callable)
      (type : Ty.lookup H m name = some (.function params returns))
      (value : Value.lookup h s name = some (.function f))
      (typeAt : FoundAt (fun k => Ty.lookupWithin H name k m) depth (.function params returns))
      (valueAt : FoundAt (fun k => Value.lookupWithin h name k s) depth (.function f))

/-! ## What the two passes make of a record -/

mutual

/-- In the heaps `H` and `h` the value is what the typed expression of a record says. The objects in
it have their members in scopes from `low` on. -/
def Typed.Expr.Describes (H : Heap Ty) (h : Heap Value) (low : ScopeId) :
    Typed.Expr → Value → Prop
  | ⟨_, ty, .literal l⟩, v => ty = l.ty ∧ v = .ofLiteral l
  | ⟨_, ty, .object name bs ds⟩, v => ∃ m s vs fs, ty = .object name m ∧ v = .object name s ∧
      low ≤ s ∧ s < h.size ∧
      (H.bindings m).entries = bs.map Typed.Binding.entry ++ ds.map Typed.Definition.entry ∧
      (h.bindings s).entries = vs ++ fs ∧ Typed.Binding.AllDescribe H h low bs vs ∧
      List.Forall₂ (fun d f => f.1 = d.name ∧ ∃ callee, f.2 = .function callee) ds fs
  | _, _ => False

def Typed.Binding.AllDescribe (H : Heap Ty) (h : Heap Value) (low : ScopeId) :
    List Typed.Binding → List (String × Value) → Prop
  | [], vs => vs = []
  | ⟨_, name, ty, some t⟩ :: rest, vs => ∃ v more, vs = (name, v) :: more ∧
      t.Describes H h low v ∧ t.ty.isSubtype H ty = true ∧ (name = prototypeName → ty = t.ty) ∧
      Typed.Binding.AllDescribe H h low rest more
  | ⟨_, _, _, none⟩ :: _, _ => False

end

section Describes

variable {H : Heap Ty} {h h' : Heap Value} {low low' m s : ScopeId} {name : String}

mutual

/-- The description is about scopes from `low` on, which may be the same in another heap. -/
theorem Typed.Expr.Describes.mono (le : low' ≤ low) (size_le : h.size ≤ h'.size)
    (same : ∀ s, low ≤ s → s < h.size → h'.bindings s = h.bindings s) :
    ∀ {t : Typed.Expr} {v : Value}, t.Describes H h low v → t.Describes H h' low' v
  | ⟨_, _, .literal _⟩, _, describes => by
    rw [Typed.Expr.Describes] at describes ⊢
    exact describes
  | ⟨_, _, .object _ bs _⟩, _, describes => by
    rw [Typed.Expr.Describes] at describes ⊢
    obtain ⟨m, s, vs, fs, ty, value, young, inside, types, values, all, functions⟩ := describes
    exact ⟨m, s, vs, fs, ty, value, Nat.le_trans le young, Nat.lt_of_lt_of_le inside size_le, types,
      by rw [same s young inside, values], all.mono le size_le same, functions⟩
  | ⟨_, _, .group _⟩, _, describes
  | ⟨_, _, .binary _ _ _⟩, _, describes
  | ⟨_, _, .variable _⟩, _, describes
  | ⟨_, _, .property _ _⟩, _, describes
  | ⟨_, _, .call _ _⟩, _, describes
  | ⟨_, _, .invoke _ _ _⟩, _, describes => by
    rw [Typed.Expr.Describes] at describes
    · exact describes.elim
    all_goals simp

theorem Typed.Binding.AllDescribe.mono (le : low' ≤ low) (size_le : h.size ≤ h'.size)
    (same : ∀ s, low ≤ s → s < h.size → h'.bindings s = h.bindings s) :
    ∀ {bs : List Typed.Binding} {vs : List (String × Value)},
      Typed.Binding.AllDescribe H h low bs vs → Typed.Binding.AllDescribe H h' low' bs vs
  | [], _, all => by
    rw [Typed.Binding.AllDescribe] at all ⊢
    exact all
  | ⟨_, _, _, some t⟩ :: rest, _, all => by
    rw [Typed.Binding.AllDescribe] at all ⊢
    obtain ⟨v, more, entries, describes, below, exactly, following⟩ := all
    exact ⟨v, more, entries, describes.mono le size_le same, below, exactly,
      following.mono le size_le same⟩
  | ⟨_, _, _, none⟩ :: _, _, all => by
    rw [Typed.Binding.AllDescribe] at all
    exact all.elim

end

/-- The fields are defined under the names that they have in the script. -/
theorem Typed.Binding.AllDescribe.names :
    ∀ {bs : List Typed.Binding} {vs : List (String × Value)},
      Typed.Binding.AllDescribe H h low bs vs → vs.map Prod.fst = bs.map Typed.Binding.name
  | [], _, all => by
    rw [Typed.Binding.AllDescribe] at all
    rw [all]
    rfl
  | ⟨_, _, _, some _⟩ :: _, _, all => by
    rw [Typed.Binding.AllDescribe] at all
    obtain ⟨_, _, rfl, _, _, _, following⟩ := all
    rw [List.map_cons, List.map_cons, following.names]
  | ⟨_, _, _, none⟩ :: _, _, all => by
    rw [Typed.Binding.AllDescribe] at all
    exact all.elim

/-- A described value is a literal or an object, and its typed expression has the type of it. -/
theorem Typed.Expr.Describes.shape : ∀ {t : Typed.Expr} {v : Value}, t.Describes H h low v →
    (∃ l, v = .ofLiteral l ∧ t.ty = l.ty) ∨
      ∃ own p q, v = .object own p ∧ t.ty = .object own q
  | ⟨_, _, .literal l⟩, _, describes => by
    rw [Typed.Expr.Describes] at describes
    exact .inl ⟨l, describes.2, describes.1⟩
  | ⟨_, _, .object own _ _⟩, _, describes => by
    rw [Typed.Expr.Describes] at describes
    obtain ⟨m, s, _, _, ty, value, _⟩ := describes
    exact .inr ⟨own, s, m, value, ty⟩
  | ⟨_, _, .group _⟩, _, describes
  | ⟨_, _, .binary _ _ _⟩, _, describes
  | ⟨_, _, .variable _⟩, _, describes
  | ⟨_, _, .property _ _⟩, _, describes
  | ⟨_, _, .call _ _⟩, _, describes
  | ⟨_, _, .invoke _ _ _⟩, _, describes => by
    rw [Typed.Expr.Describes] at describes
    · exact describes.elim
    all_goals simp

theorem Value.ofLiteral_ne_object {l : Literal} {own : Option String} {p : ScopeId} :
    Value.ofLiteral l ≠ .object own p := by
  cases l <;> nofun

/-- Where the value is an object, the typed expression is one as well. -/
theorem Typed.Expr.Describes.object {t : Typed.Expr} {own : Option String}
    (describes : t.Describes H h low (.object own s)) :
    ∃ m bs ds vs fs, t.ty = .object own m ∧ t.kind = .object own bs ds ∧
      (H.bindings m).entries = bs.map Typed.Binding.entry ++ ds.map Typed.Definition.entry ∧
      (h.bindings s).entries = vs ++ fs ∧ Typed.Binding.AllDescribe H h low bs vs ∧
      List.Forall₂ (fun d f => f.1 = d.name ∧ ∃ callee, f.2 = .function callee) ds fs := by
  obtain ⟨id, ty, kind⟩ := t
  cases kind with
  | literal l =>
    rw [Typed.Expr.Describes] at describes
    exact absurd describes.2.symm Value.ofLiteral_ne_object
  | object name bs ds =>
    rw [Typed.Expr.Describes] at describes
    obtain ⟨m, s', vs, fs, rfl, value, _, _, types, values, all, functions⟩ := describes
    obtain ⟨rfl, rfl⟩ := Value.object.inj value
    exact ⟨m, bs, ds, vs, fs, rfl, rfl, types, values, all, functions⟩
  | _ =>
    rw [Typed.Expr.Describes] at describes
    · exact describes.elim
    all_goals simp

/-! ### One object -/

/-- What an object has itself under a name, on both sides. -/
inductive OwnMember (H : Heap Ty) (h : Heap Value) (low : ScopeId) (t : Typed.Expr) (m s : ScopeId)
    (name : String) : Prop
  | missing (type : H.resolveLocal m name = none) (value : h.resolveLocal s name = none)
  | field (found : Ty) (held : Value) (initial : Typed.Expr)
      (type : H.resolveLocal m name = some found) (value : h.resolveLocal s name = some held)
      (typed : t.field? name = some initial) (describes : initial.Describes H h low held)
      (below : initial.ty.isSubtype H found = true)
      (exactly : name = prototypeName → found = initial.ty)
  | method (params : List Ty) (returns : Ty) (f : Callable)
      (type : H.resolveLocal m name = some (.function params returns))
      (value : h.resolveLocal s name = some (.function f))

theorem Typed.Binding.AllDescribe.lookup (name : String) :
    ∀ {bs : List Typed.Binding} {vs : List (String × Value)},
      Typed.Binding.AllDescribe H h low bs vs →
      ((bs.map Typed.Binding.entry).lookup name = none ∧ vs.lookup name = none) ∨
      ∃ b held initial, (bs.map Typed.Binding.entry).lookup name = some b.ty ∧
        vs.lookup name = some held ∧ bs.find? (fun b => b.name == name) = some b ∧
        b.value = some initial ∧ initial.Describes H h low held ∧
        initial.ty.isSubtype H b.ty = true ∧ (name = prototypeName → b.ty = initial.ty)
  | [], _, all => by
    rw [Typed.Binding.AllDescribe] at all
    rw [all]
    exact .inl ⟨rfl, rfl⟩
  | ⟨id, bound, ty, some t⟩ :: rest, _, all => by
    rw [Typed.Binding.AllDescribe] at all
    obtain ⟨v, more, rfl, describes, below, exactly, following⟩ := all
    rw [List.map_cons, Typed.Binding.entry, List.lookup_cons, List.lookup_cons, List.find?_cons]
    by_cases same : name = bound
    · subst same
      simp only [beq_self_eq_true]
      exact .inr ⟨_, v, t, rfl, rfl, rfl, rfl, describes, below, exactly⟩
    · rw [beq_false_of_ne same, beq_false_of_ne (Ne.symm same)]
      exact following.lookup name
  | ⟨_, _, _, none⟩ :: _, _, all => by
    rw [Typed.Binding.AllDescribe] at all
    exact all.elim

theorem lookup_functions (name : String) {ds : List Typed.Definition} {fs : List (String × Value)}
    (functions : List.Forall₂ (fun d f => f.1 = d.name ∧ ∃ callee, f.2 = .function callee) ds fs) :
    ((ds.map Typed.Definition.entry).lookup name = none ∧ fs.lookup name = none) ∨
      ∃ params returns f, (ds.map Typed.Definition.entry).lookup name =
        some (.function params returns) ∧ fs.lookup name = some (.function f) := by
  induction functions with
  | nil => exact .inl ⟨rfl, rfl⟩
  | @cons d f ds fs first _ ih =>
    obtain ⟨bound, v⟩ := f
    obtain ⟨rfl, callee, rfl⟩ := first
    rw [List.map_cons, Typed.Definition.entry, List.lookup_cons, List.lookup_cons]
    cases name == d.name with
    | true => exact .inr ⟨_, _, callee, rfl, rfl⟩
    | false => exact ih

/-- The two scopes of a described object bind the same names, and each to what goes together. -/
theorem Typed.Expr.Describes.ownMember {t : Typed.Expr} {own own' : Option String}
    (describes : t.Describes H h low (.object own s)) (ty : t.ty = .object own' m) (name : String) :
    OwnMember H h low t m s name := by
  obtain ⟨m', bs, ds, vs, fs, ty', kind, types, values, all, functions⟩ := describes.object
  obtain ⟨rfl, rfl⟩ := Ty.object.inj (ty.symm.trans ty')
  have onTypes : H.resolveLocal m name = ((bs.map Typed.Binding.entry).lookup name).or
      ((ds.map Typed.Definition.entry).lookup name) := by
    rw [Heap.resolveLocal, Bindings.find?, types, List.lookup_append]
  have onValues : h.resolveLocal s name = (vs.lookup name).or (fs.lookup name) := by
    rw [Heap.resolveLocal, Bindings.find?, values, List.lookup_append]
  obtain ⟨noType, noValue⟩ |
      ⟨b, held, initial, type, value, found, starts, described, below, exactly⟩ :=
    all.lookup name
  · rw [noType, Option.none_or] at onTypes
    rw [noValue, Option.none_or] at onValues
    obtain ⟨none, none'⟩ | ⟨params, returns, f, type, value⟩ := lookup_functions name functions
    · exact .missing (onTypes.trans none) (onValues.trans none')
    · exact .method params returns f (onTypes.trans type) (onValues.trans value)
  · rw [type, Option.some_or] at onTypes
    rw [value, Option.some_or] at onValues
    refine .field b.ty held initial onTypes onValues ?_ described below exactly
    rw [Typed.Expr.field?, kind]
    simp only [found, Option.bind_some, starts]

/-- Through the fields of a described object one comes to described objects. -/
theorem Typed.Expr.Describes.follow {own' : Option String} {p : ScopeId} :
    ∀ {path : List String} {t : Typed.Expr} {v : Value}, t.Describes H h low v →
      v.follow h path = some (.object own' p) →
      ∃ o, t.follow path = some o ∧ o.Describes H h low (.object own' p)
  | [], t, v, describes, reached => by
    obtain rfl := Option.some.inj reached
    exact ⟨t, rfl, describes⟩
  | name :: rest, t, v, describes, reached => by
    rw [Value.follow, List.foldlM_cons, Option.bind_eq_bind, Option.bind_eq_some_iff] at reached
    obtain ⟨w, member, further⟩ := reached
    obtain ⟨l, rfl, _⟩ | ⟨own, s, m, rfl, ty⟩ := describes.shape
    · cases l <;> cases member
    · obtain ⟨_, none⟩ | ⟨_, held, initial, _, value, typed, described, _, _⟩ |
          ⟨_, _, f, _, value⟩ := describes.ownMember ty name
      · cases none.symm.trans member
      · obtain rfl := Option.some.inj (value.symm.trans member)
        obtain ⟨o, followed, reached⟩ := described.follow further
        refine ⟨o, ?_, reached⟩
        rw [Typed.Expr.follow, List.foldlM_cons, Option.bind_eq_bind, typed, Option.bind_some]
        exact followed
      · -- A method has no members, and is no object itself.
        obtain rfl := Option.some.inj (value.symm.trans member)
        cases rest <;> cases further

/-! ### Along prototypes -/

theorem FoundAt.here {α : Type} {find : Nat → Option α} {a : α} (start : find 0 = none)
    (found : ∀ k, find (k + 1) = some a) : FoundAt find 0 a where
  found
    | 0, lt => absurd lt (Nat.lt_irrefl 0)
    | k + 1, _ => found k
  before k le := by rw [Nat.le_zero.mp le, start]

theorem FoundAt.further {α : Type} {find next : Nat → Option α} {depth : Nat} {a : α}
    (foundAt : FoundAt next depth a) (start : find 0 = none)
    (step : ∀ k, find (k + 1) = next k) : FoundAt find (depth + 1) a where
  found
    | 0, lt => absurd lt (Nat.not_lt_zero _)
    | k + 1, lt => (step k).trans (foundAt.found k (Nat.lt_of_succ_lt_succ lt))
  before
    | 0, _ => start
    | k + 1, le => (step k).trans (foundAt.before k (Nat.le_of_succ_le_succ le))

/-- A described object has a prototype for the one search exactly if it has one for the other, and
this is again a described object. A literal or a method under this name ends both. -/
theorem Typed.Expr.Describes.prototype {t : Typed.Expr} {own own' : Option String}
    (describes : t.Describes H h low (.object own s)) (ty : t.ty = .object own' m) :
    (Ty.nextObject? H m = none ∧ Ty.lastMember H m = none ∧ Value.prototype? h s = none) ∨
      ∃ name p q o, Ty.prototype? H m = some (.object name q) ∧
        h.resolveLocal s prototypeName = some (.object name p) ∧
        t.field? prototypeName = some o ∧ o.Describes H h low (.object name p) ∧
        o.ty = .object name q := by
  obtain ⟨type, value⟩ | ⟨found, held, o, type, value, typed, described, _, exactly⟩ |
      ⟨_, _, f, type, value⟩ := describes.ownMember ty prototypeName
  · left
    rw [Ty.nextObject?, Ty.lastMember, Value.prototype?, Ty.prototype?, type, value]
    exact ⟨rfl, rfl, rfl⟩
  · obtain rfl := exactly rfl
    obtain ⟨l, rfl, literal⟩ | ⟨name, p, q, rfl, object⟩ := described.shape
    · left
      rw [Ty.nextObject?, Ty.lastMember, Value.prototype?, Ty.prototype?, type, value, literal]
      cases l <;> exact ⟨rfl, rfl, rfl⟩
    · exact .inr ⟨name, p, q, o, by rw [Ty.prototype?, type, object], value, typed,
        described, object⟩
  · left
    rw [Ty.nextObject?, Ty.lastMember, Value.prototype?, Ty.prototype?, type, value]
    exact ⟨rfl, rfl, rfl⟩

/-- The chain of a described object ends where the chain of its type does. -/
theorem Typed.Expr.Describes.ends (links : Acc (Ty.Links H) m) :
    ∀ {s : ScopeId} {t : Typed.Expr} {own own' : Option String},
      t.Describes H h low (.object own s) → t.ty = .object own' m →
      Walk.Ends (Value.prototype? h) s := by
  induction links with
  | intro m _ ih =>
    intro s t own own' describes ty
    refine .intro s fun p link => ?_
    obtain ⟨_, _, none⟩ | ⟨name, p', q, o, type, value, _, described, ty'⟩ :=
      describes.prototype ty
    · cases none.symm.trans link
    · obtain rfl := Option.some.inj ((Value.prototype?_eq_some_iff.mpr ⟨_, value⟩).symm.trans link)
      exact ih q ⟨name, type⟩ described ty'

/-- On a described object the searches agree. -/
theorem Typed.Expr.Describes.membersAgree (name : String) (links : Acc (Ty.Links H) m) :
    ∀ {s : ScopeId} {t : Typed.Expr} {own own' : Option String},
      t.Describes H h low (.object own s) → t.ty = .object own' m →
      MembersAgree H h t (.object own s) m s name := by
  have onTypes := Ty.searches_lookup H name
  have onValues := Value.searches_lookup h name
  induction links with
  | intro m chain ih =>
    intro s t own own' describes ty
    have links : Acc (Ty.Links H) m := .intro m chain
    obtain ⟨type, value⟩ | ⟨found, held, initial, type, value, typed, described, below, _⟩ |
        ⟨params, returns, f, type, value⟩ := describes.ownMember ty name
    · obtain ⟨next, last, next'⟩ | ⟨own'', p, q, o, proto, member, typed, described, ty'⟩ :=
        describes.prototype ty
      -- Neither has it and neither chain goes on.
      · exact .missing ((onTypes.ended type next).trans last) (onValues.ended value next')
      · -- Neither has the member itself, so both searches go on from the prototype.
        have next := Ty.nextObject?_eq_some_iff.mpr ⟨own'', proto⟩
        have next' := Value.prototype?_eq_some_iff.mpr ⟨own'', member⟩
        have here := onTypes.further (Ty.ends_nextObject?_iff.mpr links) type next
        have here' := onValues.further (describes.ends links ty) value next'
        have step (k : Nat) : Ty.lookupWithin H name (k + 1) m = Ty.lookupWithin H name k q := by
          rw [Ty.lookupWithin, type, proto]
        have step' (k : Nat) :
            Value.lookupWithin h name (k + 1) s = Value.lookupWithin h name k p := by
          rw [Value.lookupWithin, value, next']
        obtain ⟨type', value'⟩ |
            ⟨depth, found, held, initial, type', value', typeAt, valueAt, typed', holds, shape,
              below⟩ |
            ⟨depth, params, returns, f, type', value', typeAt, valueAt⟩ :=
          ih q ⟨own'', proto⟩ described ty'
        · exact .missing (here.trans type') (here'.trans value')
        · refine .field (depth + 1) found held initial (here.trans type') (here'.trans value')
            (typeAt.further rfl step) (valueAt.further rfl step') ?_ ?_ shape below
          · rw [List.replicate_succ, List.cons_append, Typed.Expr.follow, List.foldlM_cons, typed]
            exact typed'
          · rw [List.replicate_succ, List.cons_append, Value.follow, List.foldlM_cons, Value.field?,
              member]
            exact holds
        · exact .method (depth + 1) params returns f (here.trans type') (here'.trans value')
            (typeAt.further rfl step) (valueAt.further rfl step')
    -- Both objects have the member themselves, so both searches end where they start.
    · refine .field 0 found held initial (onTypes.bound type) (onValues.bound value)
        (.here rfl fun k => ?_) (.here rfl fun k => ?_) ?_ ?_ described.shape below
      · rw [Ty.lookupWithin, type]
      · rw [Value.lookupWithin, value]
      · rw [List.replicate_zero, List.nil_append, Typed.Expr.follow, List.foldlM_cons, typed]
        rfl
      · rw [List.replicate_zero, List.nil_append, Value.follow, List.foldlM_cons,
          Value.field?, value]
        rfl
    · refine .method 0 params returns f (onTypes.bound type) (onValues.bound value)
        (.here rfl fun k => ?_) (.here rfl fun k => ?_)
      · rw [Ty.lookupWithin, type]
      · rw [Value.lookupWithin, value]

end Describes

/-! ## Running a record -/

namespace Run

variable {H : Heap Ty} {Γ : Env} {call : Caller} {s m : ScopeId} {w : World}

theorem define_eq_ok {name : String} {v : Value} {cause : EvalError}
    (fresh : w.heap.binds s name = false) :
    define s name v cause w = .ok () { w with heap := w.heap.put s name v } := by
  rw [define]
  show (if w.heap.binds s name = true then fail cause else put s name v) w = _
  rw [if_neg (by rw [fresh]; exact Bool.false_ne_true), put]

theorem located_of_ok {α : Type} {x : Run α} {a : α} {w' : World} (ok : x w = .ok a w')
    (node : NodeRef) : located node x w = .ok a w' := by
  rw [located, ok]

/-- What a step does that fills the new scope `m`: the entries are added there, and nothing else
that was there is changed. -/
structure Fills (x : Run Unit) (w : World) (m : ScopeId) (h : Heap Value)
    (added : List (String × Value)) : Prop where
  ok : x w = .ok () ⟨h, w.output⟩
  keeps : w.heap.Keeps {m} h
  entries : (h.bindings m).entries = (w.heap.bindings m).entries ++ added

theorem fills_define {name : String} (inside : m < w.heap.size)
    (fresh : name ∉ (w.heap.bindings m).names) (node : NodeRef) (v : Value) (cause : EvalError) :
    Fills (located node (define m name v cause)) w m (w.heap.put m name v) [(name, v)] := by
  have free : w.heap.binds m name = false := by
    rw [Bool.eq_false_iff]
    exact fun bound => fresh (Heap.binds_iff.mp bound)
  refine ⟨located_of_ok (define_eq_ok free) node, .put free v, ?_⟩
  rw [Heap.bindings_put_self inside, Bindings.entries_insert_of_not_mem v fresh]

theorem Fills.names {x : Run Unit} {h : Heap Value} {added : List (String × Value)}
    (fills : Fills x w m h added) :
    (h.bindings m).names = (w.heap.bindings m).names ++ added.map Prod.fst := by
  rw [Bindings.names, fills.entries, List.map_append]
  rfl

theorem Fills.trans {x y : Run Unit} {h h' : Heap Value} {added more : List (String × Value)}
    (first : Fills x w m h added) (second : Fills y ⟨h, w.output⟩ m h' more) :
    Fills (x >>= fun _ => y) w m h' (added ++ more) where
  ok := (bind_of_ok first.ok).trans second.ok
  keeps := first.keeps.trans second.keeps
  entries := by rw [second.entries, first.entries, List.append_assoc]

/-- Methods with different names are all defined. -/
theorem defineMethods_fills {this : Ty} :
    ∀ {methods : List Method} {ds : List Typed.Definition} {Γ : Env} {w : World},
      Method.ElaborateAll H Γ this methods ds → m < w.heap.size →
      ((w.heap.bindings m).names ++ ds.map Typed.Definition.name).Nodup →
      ∃ h fs, Fills (defineMethods m methods) w m h fs ∧
        List.Forall₂ (fun d f => f.1 = d.name ∧ ∃ callee, f.2 = .function callee) ds fs
  | [], _, _, w, elaborate, _, _ => by
    rw [Method.ElaborateAll] at elaborate
    rw [elaborate]
    exact ⟨w.heap, [], ⟨rfl, .refl _ _, (List.append_nil _).symm⟩, .nil⟩
  | ⟨node, d⟩ :: rest, _, _, w, elaborate, inside, nodup => by
    rw [Method.ElaborateAll] at elaborate
    obtain ⟨t, more, rfl, defined, following⟩ := elaborate
    rw [List.map_cons, defined.name_eq] at nodup
    have fresh : d.name ∉ (w.heap.bindings m).names := fun mem =>
      (List.nodup_append.mp nodup).2.2 _ mem d.name List.mem_cons_self rfl
    have first := fills_define inside fresh node (.function (.closure ⟨d, m, true⟩))
      (.methodDefined d.name)
    have inside' := Nat.lt_of_lt_of_le inside first.keeps.size_le
    have names := first.names
    rw [← List.singleton_append, ← List.append_assoc] at nodup
    obtain ⟨h, fs, fills, functions⟩ := defineMethods_fills
      (w := ⟨w.heap.put m d.name (.function (.closure ⟨d, m, true⟩)), w.output⟩) following inside'
      (by rw [names]; exact nodup)
    exact ⟨h, _, first.trans fills, .cons ⟨defined.name_eq.symm, _, rfl⟩ functions⟩

mutual

/-- A record whose names the checker found different comes to a value, and the typed expression
describes it. -/
theorem evaluate_record : ∀ {e : Expr} {t : Typed.Expr} {w : World}, e.isRecord = true →
    e.Elaborates H Γ t → ∃ v h, evaluate call s e w = .ok v ⟨h, w.output⟩ ∧
      w.heap.Keeps ∅ h ∧ t.Describes H h w.heap.size v
  | ⟨node, kind⟩, ⟨_, _, _⟩, w, record, elaborates => by
    rw [Expr.isRecord] at record
    rw [Expr.Elaborates] at elaborates
    obtain ⟨v, h, ok, keeps, describes⟩ := evaluateKind_record record elaborates.2
    exact ⟨v, h, located_of_ok ok node, keeps, describes _⟩

theorem evaluateKind_record : ∀ {e : ExprKind} {k : Typed.ExprKind} {ty : Ty} {w : World},
    e.isRecord = true → e.Elaborates H Γ k ty →
    ∃ v h, evaluateKind call s e w = .ok v ⟨h, w.output⟩ ∧
      w.heap.Keeps ∅ h ∧ ∀ id, Typed.Expr.Describes H h w.heap.size ⟨id, ty, k⟩ v
  | .literal l, _, _, w, _, elaborates => by
    rw [ExprKind.Elaborates] at elaborates
    obtain ⟨rfl, rfl⟩ := elaborates
    refine ⟨.ofLiteral l, w.heap, rfl, .refl _ _, fun id => ?_⟩
    rw [Typed.Expr.Describes]
    exact ⟨rfl, rfl⟩
  | .object name fields methods, _, _, w, record, elaborates => by
    rw [ExprKind.isRecord] at record
    rw [ExprKind.Elaborates] at elaborates
    obtain ⟨members, bs, ds, rfl, rfl, _, _, types, starts, defined⟩ := elaborates
    have nodup : (bs.map Typed.Binding.name ++ ds.map Typed.Definition.name).Nodup := by
      have distinct := (H.bindings members).names_nodup
      rw [types, List.map_append, List.map_map, List.map_map] at distinct
      exact distinct
    -- The scope of the members is new and empty; the fields come first, then the methods.
    let made : World := ⟨(w.heap.root .empty).2, w.output⟩
    have inside : w.heap.size < made.heap.size := Heap.lt_size_root w.heap .empty
    have empty : made.heap.bindings w.heap.size = .empty := Heap.bindings_root_self ..
    obtain ⟨h₁, vs, first, described⟩ :=
      defineFields_record (m := w.heap.size) (w := made) record starts inside
      (by rw [empty]; exact (List.nodup_append.mp nodup).1)
    have bound : (h₁.bindings w.heap.size).names = bs.map Typed.Binding.name := by
      rw [first.names, empty, described.names]
      rfl
    obtain ⟨h₂, fs, second, functions⟩ := defineMethods_fills (w := ⟨h₁, w.output⟩) defined
      (Nat.lt_of_lt_of_le inside first.keeps.size_le) (by rw [bound]; exact nodup)
    have filled := first.trans second
    have apart (t : ScopeId) (young : made.heap.size ≤ t) (old : t < h₁.size) :
        h₂.bindings t = h₁.bindings t :=
      second.keeps.same t old fun same => absurd (same ▸ inside) (Nat.not_lt.mpr young)
    refine ⟨.object name w.heap.size, h₂, ?_, ?_, fun id => ?_⟩
    · have rooted : root w = .ok w.heap.size made := rfl
      rw [evaluateKind, bind_of_ok rooted, bind_of_ok first.ok, bind_of_ok second.ok]
      rfl
    · exact (Heap.Keeps.root ∅ w.heap .empty).trans_fresh filled.keeps fun t same old =>
        absurd (same ▸ old) (Nat.lt_irrefl _)
    · rw [Typed.Expr.Describes]
      refine ⟨members, w.heap.size, vs, fs, rfl, rfl, Nat.le_refl _,
        Nat.lt_of_lt_of_le inside filled.keeps.size_le, types, ?_, ?_, functions⟩
      · rw [filled.entries, empty]
        rfl
      · exact described.mono (Nat.le_of_lt inside) second.keeps.size_le apart
  | .group _, _, _, _, record, _
  | .binary _ _ _, _, _, _, record, _
  | .variable _, _, _, _, record, _
  | .property _ _, _, _, _, record, _
  | .call _ _, _, _, _, record, _
  | .invoke _ _ _, _, _, _, record, _ => by cases record

theorem defineFields_record : ∀ {fields : List Field} {bs : List Typed.Binding} {m : ScopeId}
    {w : World}, Field.allRecords fields = true → Field.ElaborateAll H Γ fields bs →
    m < w.heap.size → ((w.heap.bindings m).names ++ bs.map Typed.Binding.name).Nodup →
    ∃ h vs, Fills (defineFields call s m fields) w m h vs ∧
      Typed.Binding.AllDescribe H h w.heap.size bs vs
  | [], _, _, w, _, elaborate, _, _ => by
    rw [Field.ElaborateAll] at elaborate
    rw [elaborate]
    refine ⟨w.heap, [], ⟨rfl, .refl _ _, (List.append_nil _).symm⟩, ?_⟩
    rw [Typed.Binding.AllDescribe]
  | ⟨node, ⟨_, annotation, some e⟩⟩ :: rest, _, m, w, records, elaborate, inside, nodup => by
    rw [Field.allRecords, Bool.and_eq_true, Bool.and_eq_true] at records
    obtain ⟨⟨unannotated, record⟩, records⟩ := records
    rw [Field.ElaborateAll] at elaborate
    obtain ⟨⟨id, name, ty, value⟩, more, rfl, first, following⟩ := elaborate
    rw [Binding.Elaborates] at first
    obtain ⟨_, (rfl : name = _), t, (rfl : value = _), elaborates, below, exactly⟩ := first
    obtain ⟨v, h₁, ok, keeps, describes⟩ := evaluate_record (w := w) record elaborates
    -- The value is made without a change to the members, which get it then.
    have members : h₁.bindings m = w.heap.bindings m := keeps.same m inside (Set.notMem_empty m)
    have inside₁ : m < h₁.size := Nat.lt_of_lt_of_le inside keeps.size_le
    rw [List.map_cons] at nodup
    have fresh : name ∉ (h₁.bindings m).names := by
      rw [members]
      exact fun mem => (List.nodup_append.mp nodup).2.2 _ mem name List.mem_cons_self rfl
    have put := fills_define (w := ⟨h₁, w.output⟩) inside₁ fresh node v (.fieldDefined name)
    have one : Fills (evaluateOption call s (some e) >>= fun v =>
        located node (define m name v (.fieldDefined name))) w m (h₁.put m name v) [(name, v)] :=
      ⟨(bind_of_ok ok).trans put.ok, (keeps.mono (Set.empty_subset _)).trans put.keeps,
        by rw [put.entries, members]⟩
    have names := one.names
    rw [← List.singleton_append, ← List.append_assoc] at nodup
    obtain ⟨h, vs, fills, all⟩ := defineFields_record (m := m) (w := ⟨h₁.put m name v, w.output⟩)
      records following (Nat.lt_of_lt_of_le inside one.keeps.size_le) (by rw [names]; exact nodup)
    have later : h₁.Keeps {m} h := put.keeps.trans fills.keeps
    have apart (t : ScopeId) (young : w.heap.size ≤ t) (old : t < h₁.size) :
        h.bindings t = h₁.bindings t :=
      later.same t old fun same => absurd (same ▸ inside) (Nat.not_lt.mpr young)
    have both := one.trans fills
    rw [bind_assoc] at both
    refine ⟨h, _, both, ?_⟩
    rw [List.singleton_append, Typed.Binding.AllDescribe]
    refine ⟨v, vs, rfl, describes.mono (Nat.le_refl _) later.size_le apart, below, fun same => ?_,
      all.mono one.keeps.size_le (Nat.le_refl _) fun _ _ _ => rfl⟩
    -- A prototype has no annotation, so the field has the type of its initial value.
    obtain ⟨_, inferred⟩ | ⟨annotated, _⟩ := exactly
    · exact inferred
    · rw [same, bne_self_eq_false, Bool.false_or, Option.isNone_iff_eq_none] at unannotated
      rw [unannotated] at annotated
      cases annotated
  | ⟨_, ⟨_, _, none⟩⟩ :: _, _, _, _, records, _, _, _ => by
    rw [Field.allRecords] at records
    cases records

end

end Run

/-! ## Both sides -/

namespace CheckSession

/-- An object expression of records that the checker accepts after the prelude. It comes to an
object wherever it is evaluated, and adds nothing to the output. From this object, and from every
object that one comes to through fields, the two searches for a member agree under all names. -/
theorem members_agree (fixtures : Bool) {node : NodeRef} {name : Option String}
    {fields : List Field} {methods : List Method} {t : Typed.Expr} {H : Heap Ty}
    (records : Field.allRecords fields = true)
    (ok : Check.expr { scope := (start fixtures).scope } ⟨node, .object name fields methods⟩
      (start fixtures).heap = .ok t H)
    (call : Run.Caller) (s : ScopeId) (w : World) :
    ∃ members h, Run.evaluate call s ⟨node, .object name fields methods⟩ w =
        .ok (.object name members) ⟨h, w.output⟩ ∧
      ∀ path own p, (Value.object name members).follow h path = some (.object own p) →
        ∃ o m, t.follow path = some o ∧ o.ty = .object own m ∧
          ∀ n, MembersAgree H h o (.object own p) m p n := by
  have elaborates := (Check.expr_accepted (start_closed fixtures).ready ok).2.lasts H (.refl _ _)
  have links : WellFounded (Ty.Links H) := by
    rw [← Check.after_of_ok ok]
    exact (Check.expr_founded (start_founded fixtures) _).founded.links
  have record : Expr.isRecord ⟨node, .object name fields methods⟩ = true := records
  obtain ⟨v, h, evaluated, _, describes⟩ :
      ∃ v h, Run.evaluate call s ⟨node, .object name fields methods⟩ w = .ok v ⟨h, w.output⟩ ∧
        w.heap.Keeps ∅ h ∧ t.Describes H h w.heap.size v := Run.evaluate_record record elaborates
  have made : ∃ members, v = .object name members := by
    rw [Expr.Elaborates, ExprKind.Elaborates] at elaborates
    obtain ⟨_, _, bs, ds, kind, _⟩ := elaborates
    obtain ⟨id, ty, _⟩ := t
    obtain rfl := kind
    rw [Typed.Expr.Describes] at describes
    obtain ⟨_, members, _, _, _, value, _⟩ := describes
    exact ⟨members, value⟩
  obtain ⟨members, rfl⟩ := made
  refine ⟨members, h, evaluated, fun path own p reached => ?_⟩
  obtain ⟨o, followed, described⟩ := describes.follow reached
  obtain ⟨m, _, _, _, _, ty, _⟩ := described.object
  exact ⟨o, m, followed, ty, fun n => described.membersAgree n (links.apply m) ty⟩

/-- An object with a field that holds another one. The inner object has a prototype, which has a
method and a field that is called `prototype` itself and holds no object. -/
def nestedRecord : List Field :=
  [⟨default, "inner", some "Any", some ⟨default, .object (some "Inner")
    [⟨default, "prototype", none, some ⟨default, .object (some "Base")
        [⟨default, "prototype", none, some ⟨default, .literal (.integer 1)⟩⟩,
          ⟨default, "x", some "Comparable", some ⟨default, .literal (.string "x")⟩⟩]
        [⟨default, "show", [], some "Comparable", [⟨default, .returns (some ⟨default,
          .property ⟨default, .variable "this"⟩ "x"⟩)⟩]⟩]⟩⟩]
    []⟩⟩]

/-- One comes to the inner object, and from it both searches find `x` in its prototype. -/
theorem members_agree_nestedRecord :
    ∃ (t : Typed.Expr) (H : Heap Ty) (members : ScopeId) (h : Heap Value) (o : Typed.Expr)
      (own : Option String) (m p : ScopeId), Field.allRecords nestedRecord = true ∧
      Check.expr { scope := (start false).scope } ⟨default, .object none nestedRecord []⟩
        (start false).heap = .ok t H ∧
      (Value.object none members).follow h ["inner"] = some (.object own p) ∧
      t.follow ["inner"] = some o ∧ o.ty = .object own m ∧
      MembersAgree H h o (.object own p) m p "x" ∧ (Value.lookup h p "x").isSome = true := by
  obtain ⟨t, H, ok⟩ : ∃ t H, Check.expr { scope := (start false).scope }
      ⟨default, .object none nestedRecord []⟩ (start false).heap = .ok t H := ⟨_, _, rfl⟩
  obtain ⟨members, h, evaluated, agree⟩ := members_agree false (by decide) ok
    (Run.callClosure 0) (RunSession.start false).scope ⟨(RunSession.start false).heap, #[]⟩
  obtain ⟨_, _, own, p, run, reached, found⟩ : ∃ m h own p,
      Run.evaluate (Run.callClosure 0) (RunSession.start false).scope
          ⟨default, .object none nestedRecord []⟩ ⟨(RunSession.start false).heap, #[]⟩ =
        .ok (.object none m) ⟨h, #[]⟩ ∧
      (Value.object none m).follow h ["inner"] = some (.object own p) ∧
      (Value.lookup h p "x").isSome = true := ⟨_, _, _, _, rfl, rfl, rfl⟩
  rw [run] at evaluated
  cases evaluated
  obtain ⟨o, m, followed, ty, searches⟩ := agree ["inner"] own p reached
  exact ⟨t, H, members, h, o, own, m, p, by decide, ok, reached, followed, ty, searches "x", found⟩

end CheckSession

end GradualScript
