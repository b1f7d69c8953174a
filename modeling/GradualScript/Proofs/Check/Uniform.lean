/-
# GradualScript.Proofs.Check.Uniform -- scripts that use every name in one way

A type says more about a function than its calls need. What they need is its *shape*: how many
arguments it takes, and the shapes of those. Object types that are linked by prototypes form a
*family*: an object of one may turn up where one of another is expected.

The checker accepts scripts in which one name leads to functions of different shapes. An object may
hide a member of its prototype behind one that takes other arguments, a block may do the same to a
function around it that it has already used in another one (`Typed.Stmt.captures`), and methods
share their types with functions although only methods are given a receiver. A script is *uniform*
if it does none of this. The families are given from outside (`Families`); whether a script is
uniform with respect to them is computed from its typed form.
-/

import GradualScript.Proofs.Check.Uses

namespace GradualScript

/-! ## Shapes -/

/-- What matters of a type to calls. -/
inductive Shape where
  /-- Anything at all. -/
  | any
  /-- Neither a function nor an object. -/
  | plain
  | object (family : Option Nat)
  /-- A function that takes no more arguments. -/
  | returns (result : Shape)
  /-- A function that takes an argument, and then what `rest` takes. -/
  | takes (param rest : Shape)
deriving DecidableEq

/-- The shape of a function. -/
def Shape.function (params : List Shape) (result : Shape) : Shape :=
  params.foldr .takes (.returns result)

theorem Shape.function_inj {ps qs : List Shape} {r s : Shape} :
    function ps r = function qs s ↔ ps = qs ∧ r = s := by
  induction ps generalizing qs with
  | nil => cases qs <;> simp [function]
  | cons p ps ih =>
    cases qs with
    | nil => simp [function]
    | cons q qs =>
      show takes p (function ps r) = takes q (function qs s) ↔ _
      rw [Shape.takes.injEq, ih, List.cons.injEq, and_assoc]

theorem Shape.function_ne_any (ps : List Shape) (r : Shape) : function ps r ≠ any := by
  cases ps <;> simp [function]

theorem Shape.function_ne_object (ps : List Shape) (r : Shape) (family : Option Nat) :
    function ps r ≠ object family := by
  cases ps <;> simp [function]

def Ty.isFunction : Ty → Bool
  | .function _ _ => true
  | _ => false

/-- The shapes that names stand for. -/
abbrev Shapes := Meanings Shape

/-- Object types by families. All members of one name that a family has are of one shape. -/
structure Families where
  /-- The family of an object type, which is known by the scope of its members. -/
  family? : ScopeId → Option Nat
  member? : Nat → Shapes
  /-- Which members are methods. -/
  isMethod : Nat → String → Bool

namespace Families

variable (K : Families)

mutual

def shape : Ty → Shape
  | .prim .any | .prim .dynamic => .any
  | .prim _ => .plain
  | .function params returns => signature (shape returns) params
  | .object _ members => .object (K.family? members)

def signature (result : Shape) : List Ty → Shape
  | [] => .returns result
  | t :: ts => .takes (shape t) (signature result ts)

end

theorem shape_function (params : List Ty) (returns : Ty) :
    K.shape (.function params returns) = .function (params.map K.shape) (K.shape returns) := by
  have all : ∀ ts : List Ty,
      K.signature (K.shape returns) ts = .function (ts.map K.shape) (K.shape returns) := by
    intro ts
    induction ts with
    | nil => rfl
    | cons t ts ih => rw [signature, ih]; rfl
  rw [shape, all]

/-- The family of an object type. -/
def familyOf? : Ty → Option Nat
  | .object _ members => K.family? members
  | _ => none

/-- Whether objects of type `t` have `name` as a method, or as a field. -/
def has (isMethod : Bool) (t : Ty) (name : String) : Bool :=
  (K.familyOf? t).any fun family => K.isMethod family name == isMethod

theorem shape_of_familyOf? {t : Ty} {family : Nat} (known : K.familyOf? t = some family) :
    K.shape t = .object (some family) := by
  cases t with
  | object name members =>
    rw [shape]
    exact congrArg Shape.object known
  | _ => cases known

theorem exists_of_has {t : Ty} {isMethod : Bool} {name : String}
    (has : K.has isMethod t name = true) :
    ∃ family, K.familyOf? t = some family ∧ K.isMethod family name = isMethod := by
  unfold Families.has at has
  cases known : K.familyOf? t with
  | none =>
    rw [known] at has
    cases has
  | some family =>
    rw [known, Option.any_some] at has
    exact ⟨family, rfl, eq_of_beq has⟩

/-- The members of a family, as functions that a method call reaches. A method takes its receiver
first. -/
def members (family : Nat) : Shapes := fun name =>
  if K.isMethod family name then (K.member? family name).map (.takes (.object (some family)))
  else K.member? family name

/-- More names, which hide others. -/
def overlay (σ : Shapes) (entries : List (String × Ty)) : Shapes := fun name =>
  ((entries.lookup name).map K.shape).or (σ name)

/-- Whether a name may be declared in a block where `held` are the names that functions defined
before capture: it is not visible, or it keeps its shape, or none of them captures it. -/
def admits (σ : Shapes) (held : List String) (entry : String × Ty) : Bool :=
  Meanings.admits σ held entry.1 (K.shape entry.2)

/-- The object types that `H` ends with are made as their families say. A prototype is of the same
family as the object, if it may be an object at all. -/
structure Describes (H : Heap Ty) : Prop where
  members : ∀ m family n t, K.family? m = some family → H.resolveLocal m n = some t →
    K.member? family n = some (K.shape t)
  prototypes : ∀ family s, K.member? family prototypeName = some s →
    s ≠ .any ∧ ∀ f, s = .object f → f = some family

variable {K} {H : Heap Ty} {family : Nat}

/-! ### Judgements about object types -/

/-- Prototypes lead to object types of the same family, and never to `Dynamic`. -/
theorem Describes.prototype (describes : K.Describes H) {m : ScopeId} {t : Ty}
    (known : K.family? m = some family) (link : Ty.prototype? H m = some t) :
    t ≠ .dynamic ∧ ∀ name proto, t = .object name proto → K.family? proto = some family := by
  obtain ⟨someShape, same⟩ := describes.prototypes family _ (describes.members _ _ _ _ known link)
  refine ⟨?_, ?_⟩
  · rintro rfl
    exact someShape rfl
  · rintro name proto rfl
    exact same _ rfl

/-- A member, own or inherited, is shaped as its family says. -/
theorem Describes.member (describes : K.Describes H) {receiver t : Ty} {name : String}
    {use : MemberUse} (known : K.familyOf? receiver = some family)
    (has : HasMember H receiver name use t) : K.member? family name = some (K.shape t) := by
  obtain ⟨h, keeps, found⟩ := has
  cases receiver with
  | object objectName m =>
    simp only [Check.memberType] at found
    split at found
    case h_1 looked =>
      obtain rfl := Except.ok.inj found
      -- All objects on the chain are of the family, and none of them has a `Dynamic` prototype.
      obtain ⟨s, inFamily, own | ⟨_, link⟩⟩ := Ty.exists_of_lookupWithin
        (P := fun m => K.family? m = some family)
        (fun m own p link known =>
          (describes.prototype known (keeps.resolveLocal link)).2 own p rfl) known looked
      · exact describes.members s family name _ inFamily (keeps.resolveLocal own)
      · exact absurd rfl (describes.prototype inFamily (keeps.resolveLocal link)).1
    case h_2 => cases found
  | _ => cases known

/-- What is reached by following prototypes is of the same family. -/
theorem Describes.inherits (describes : K.Describes H) {m : ScopeId}
    {upper : Option String × ScopeId} (known : K.family? m = some family)
    (inherits : Ty.inherits H m upper = true) : K.family? upper.2 = some family := by
  have within : ∀ (n : Nat) (m : ScopeId), K.family? m = some family →
      Ty.inheritsWithin H upper n m = true → K.family? upper.2 = some family := by
    intro n
    induction n with
    | zero =>
      intro m _ reached
      cases reached
    | succ n ih =>
      intro m known reached
      rw [Ty.inheritsWithin] at reached
      split at reached
      case h_1 name proto link =>
        have next := (describes.prototype known link).2 _ _ rfl
        rcases Bool.or_eq_true_iff.mp reached with same | further
        · rw [← eq_of_beq same]
          exact next
        · exact ih proto next further
      case h_2 link => exact absurd rfl (describes.prototype known link).1
      case h_3 => cases reached
  exact within _ m known inherits

/-- A type below another has its shape, unless the other one has room for anything or there are no
objects of the type. -/
theorem Describes.shape_of_isSubtype (describes : K.Describes H) {t u : Ty} (static : t ≠ .dynamic)
    (below : t.isSubtype H u = true) :
    K.shape u = .any ∨ K.shape t = K.shape u ∨ K.shape t = .object none := by
  simp only [Ty.isSubtype, Bool.or_eq_true, beq_iff_eq] at below
  rcases below with (((rfl | rfl) | rfl) | rfl) | below
  · exact Or.inr (Or.inl rfl)
  · exact Or.inl rfl
  · exact Or.inl rfl
  · exact absurd rfl static
  · cases t with
    | prim p =>
      cases u with
      | prim q => cases p <;> cases q <;> first | (cases below; done) | simp [shape]
      | _ => cases below
    | function params returns => cases u <;> cases below
    | object name m =>
      cases u with
      | object upperName upper =>
        cases known : K.family? m with
        | none =>
          right; right
          rw [shape, known]
        | some family =>
          right; left
          rw [shape, shape, known, describes.inherits known below]
      | _ => cases below

end Families

/-! ## Static scripts -/

namespace Typed

mutual

/-- No expression, parameter, binding or result is of type `Dynamic`. -/
def Expr.isStatic : Expr → Bool
  | ⟨_, ty, kind⟩ => ty != .dynamic && kind.isStatic

def ExprKind.isStatic : ExprKind → Bool
  | .literal _ | .variable _ => true
  | .group inner => inner.isStatic
  | .binary _ left right => left.isStatic && right.isStatic
  | .property receiver _ => receiver.isStatic
  | .call _ arguments => Expr.allStatic arguments
  | .invoke receiver _ arguments => receiver.isStatic && Expr.allStatic arguments
  | .object _ fields methods => Binding.allStatic fields && Definition.allStatic methods

def Expr.allStatic : List Expr → Bool
  | [] => true
  | e :: es => e.isStatic && Expr.allStatic es

def Binding.isStatic : Binding → Bool
  | ⟨_, _, ty, none⟩ => ty != .dynamic
  | ⟨_, _, ty, some value⟩ => ty != .dynamic && value.isStatic

def Binding.allStatic : List Binding → Bool
  | [] => true
  | b :: bs => b.isStatic && Binding.allStatic bs

def Definition.isStatic : Definition → Bool
  | ⟨_, _, params, returns, body⟩ =>
    params.all (fun p => p.ty != .dynamic) && returns != .dynamic && Stmt.allStatic body

def Definition.allStatic : List Definition → Bool
  | [] => true
  | d :: ds => d.isStatic && Definition.allStatic ds

def Stmt.isStatic : Stmt → Bool
  | ⟨_, kind⟩ => kind.isStatic

def StmtKind.isStatic : StmtKind → Bool
  | .letVar binding => binding.isStatic
  | .defFun definition => definition.isStatic
  | .ifElse condition thenBody elseBody =>
    condition.isStatic && Stmt.allStatic thenBody && Stmt.allStatic elseBody
  | .forEach _ ty iterable body => ty != .dynamic && iterable.isStatic && Stmt.allStatic body
  | .returns none => true
  | .returns (some value) => value.isStatic
  | .expr expression => expression.isStatic
  | .assignVariable _ _ value => value.isStatic
  | .assignProperty receiver _ _ value => receiver.isStatic && value.isStatic

def Stmt.allStatic : List Stmt → Bool
  | [] => true
  | s :: ss => s.isStatic && Stmt.allStatic ss

end

/-! ## Uniform scripts -/

mutual

/-- `σ` gives the shapes of the names that may stand on their own. -/
def Expr.isUniform (K : Families) (σ : Shapes) : Expr → Bool
  | ⟨_, ty, kind⟩ => kind.isUniform K σ ty

/-- A method is called through a receiver and used in no other way, and a field is never called
through one. -/
def ExprKind.isUniform (K : Families) (σ : Shapes) (ty : Ty) : ExprKind → Bool
  | .literal _ => true
  | .group inner => inner.isUniform K σ
  | .binary _ left right => left.isUniform K σ && right.isUniform K σ
  | .variable name => (σ name).isSome
  | .property receiver name => receiver.isUniform K σ && K.has false receiver.ty name
  | .call name arguments => (σ name).isSome && Expr.allUniform K σ arguments
  | .invoke receiver name arguments =>
    receiver.isUniform K σ && K.has true receiver.ty name && Expr.allUniform K σ arguments
  | .object _ fields methods =>
    match K.familyOf? ty with
    | none => false
    | some family => Binding.allUniform K σ family fields &&
      Definition.allUniform K (K.overlay (fun _ => none) (fields.map Binding.entry))
        family ty methods

def Expr.allUniform (K : Families) (σ : Shapes) : List Expr → Bool
  | [] => true
  | e :: es => e.isUniform K σ && Expr.allUniform K σ es

def Binding.isUniform (K : Families) (σ : Shapes) : Binding → Bool
  | ⟨_, _, _, none⟩ => true
  | ⟨_, _, _, some value⟩ => value.isUniform K σ

/-- The fields of an object of `family`. -/
def Binding.allUniform (K : Families) (σ : Shapes) (family : Nat) : List Binding → Bool
  | [] => true
  | b :: bs => !K.isMethod family b.name && b.isUniform K σ && Binding.allUniform K σ family bs

/-- `this` is the type of the object around a method. -/
def Definition.isUniform (K : Families) (σ : Shapes) (this : Option Ty) : Definition → Bool
  | ⟨_, _, params, _, body⟩ =>
    Stmt.allUniform K
      (K.overlay σ ((this.map fun t => ("this", t)).toList ++ params.map Typed.Param.entry)) [] body

/-- The methods of an object of `family`, whose type is `this`. Of the members of the object they
call only its own fields by their names alone: `σ`. -/
def Definition.allUniform (K : Families) (σ : Shapes) (family : Nat) (this : Ty) :
    List Definition → Bool
  | [] => true
  | d :: ds => K.isMethod family d.name && d.isUniform K σ (some this) &&
    Definition.allUniform K σ family this ds

/-- `held` are the names that functions defined before in the block capture. -/
def Stmt.isUniform (K : Families) (σ : Shapes) (held : List String) : Stmt → Bool
  | ⟨_, kind⟩ => kind.isUniform K σ held

/-- A block does not give another shape to a name around it that its functions already use. -/
def StmtKind.isUniform (K : Families) (σ : Shapes) (held : List String) : StmtKind → Bool
  | .letVar binding => binding.isUniform K σ && K.admits σ held binding.entry
  | .defFun definition => K.admits σ held definition.entry &&
    definition.isUniform K (K.overlay σ [definition.entry]) none
  | .ifElse condition thenBody elseBody => condition.isUniform K σ &&
    Stmt.allUniform K σ [] thenBody && Stmt.allUniform K σ [] elseBody
  | .forEach name ty iterable body =>
    iterable.isUniform K σ && Stmt.allUniform K (K.overlay σ [(name, ty)]) [] body
  | .returns none => true
  | .returns (some value) => value.isUniform K σ
  | .expr expression => expression.isUniform K σ
  | .assignVariable name _ value => (σ name).isSome && value.isUniform K σ
  | .assignProperty receiver name _ value =>
    receiver.isUniform K σ && K.has false receiver.ty name && value.isUniform K σ

def Stmt.allUniform (K : Families) (σ : Shapes) (held : List String) : List Stmt → Bool
  | [] => true
  | s :: ss => s.isUniform K σ held &&
    Stmt.allUniform K (K.overlay σ s.kind.entries) (s.captures ++ held) ss

end

/-! ### Nodes -/

theorem Expr.isStatic_iff {t : Expr} :
    t.isStatic = true ↔ t.ty ≠ .dynamic ∧ t.kind.isStatic = true := by
  obtain ⟨id, ty, kind⟩ := t
  simp [isStatic]

theorem Expr.isUniform_eq (K : Families) (σ : Shapes) (t : Expr) :
    t.isUniform K σ = t.kind.isUniform K σ t.ty := by
  obtain ⟨id, ty, kind⟩ := t
  rw [isUniform]

theorem Binding.isStatic_of_value {b : Binding} {t : Expr} (initial : b.value = some t)
    (static : b.isStatic = true) : t.isStatic = true := by
  obtain ⟨id, name, ty, value⟩ := b
  subst initial
  rw [isStatic, Bool.and_eq_true] at static
  exact static.2

theorem Binding.isUniform_of_value {K : Families} {σ : Shapes} {b : Binding} {t : Expr}
    (initial : b.value = some t) (uniform : b.isUniform K σ = true) :
    t.isUniform K σ = true := by
  obtain ⟨id, name, ty, value⟩ := b
  subst initial
  rw [isUniform] at uniform
  exact uniform

/-- The fields of an object are no methods of its family. -/
theorem Binding.isMethod_of_allUniform {K : Families} {σ : Shapes} {family : Nat} :
    ∀ {bs : List Binding}, Binding.allUniform K σ family bs = true → ∀ b ∈ bs,
      K.isMethod family b.name = false
  | [], _ => List.forall_mem_nil _
  | b :: bs, uniform => by
    rw [allUniform, Bool.and_eq_true, Bool.and_eq_true, Bool.not_eq_true'] at uniform
    exact List.forall_mem_cons.mpr ⟨uniform.1.1, isMethod_of_allUniform uniform.2⟩

theorem Definition.isStatic_body {d : Definition} (static : d.isStatic = true) :
    Stmt.allStatic d.body = true := by
  obtain ⟨id, name, params, returns, body⟩ := d
  rw [isStatic, Bool.and_eq_true] at static
  exact static.2

theorem Definition.isUniform_eq (K : Families) (σ : Shapes) (this : Option Ty) (d : Definition) :
    d.isUniform K σ this = Stmt.allUniform K
      (K.overlay σ ((this.map fun t => ("this", t)).toList ++ d.params.map Param.entry)) []
      d.body := by
  obtain ⟨id, name, params, returns, body⟩ := d
  rw [isUniform]

theorem Stmt.isStatic_eq (s : Stmt) : s.isStatic = s.kind.isStatic := by
  obtain ⟨id, kind⟩ := s
  rw [isStatic]

theorem Stmt.isUniform_eq (K : Families) (σ : Shapes) (held : List String) (s : Stmt) :
    s.isUniform K σ held = s.kind.isUniform K σ held := by
  obtain ⟨id, kind⟩ := s
  rw [isUniform]

end Typed

end GradualScript
