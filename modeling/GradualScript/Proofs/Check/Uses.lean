/-
# GradualScript.Proofs.Check.Uses -- the names that functions capture

A definition is checked once, with the meanings that names have where it stands. Its calls find the
names from the scope that it captures, and the block around the definition may have declared some of
them anew by then. This module says of typed scripts which names are looked up where (`uses`), and
which of them belong to functions that may be called later (`captures`).

Names are counted where they are free: not what a body binds to its parameters, a loop to its
elements or a block to what it has declared before. A method has only the members of its object
around it, so the methods of an object expression are left out.
-/

import GradualScript.Proofs.Check.Elaboration

namespace GradualScript

/-- What is left of the names in `used` is in `U`, if all of them are in `U` or were taken away. -/
theorem removeAll_subset_iff {used names U : List String} :
    used.removeAll names ⊆ U ↔ used ⊆ names ++ U := by
  constructor
  · intro sub n mem
    by_cases taken : n ∈ names
    · exact List.mem_append_left U taken
    · exact List.mem_append_right names (sub (List.mem_filter.mpr ⟨mem, by simpa using taken⟩))
  · intro sub n mem
    obtain ⟨mem, left⟩ := List.mem_filter.mp mem
    exact (List.mem_append.mp (sub mem)).resolve_left (by simpa using left)

theorem removeAll_subset_removeAll {used used' names : List String} (sub : used ⊆ used') :
    used.removeAll names ⊆ used'.removeAll names :=
  removeAll_subset_iff.mpr (List.Subset.trans sub (removeAll_subset_iff.mp (List.Subset.refl _)))

/-! ## Meanings -/

/-- What is known of names, such as their types. -/
abbrev Meanings (α : Type) := String → Option α

/-- Whether a name may be declared with the meaning `x` in a block where `held` are the names that
functions defined before capture: it has no meaning around, or the same one, or none of the
functions captures it. -/
def Meanings.admits {α : Type} [BEq α] (σ : Meanings α) (held : List String) (name : String)
    (x : α) : Bool :=
  match σ name with
  | none => true
  | some y => y == x || !held.contains name

theorem Meanings.admits_iff {α : Type} [BEq α] [LawfulBEq α] {σ : Meanings α} {held : List String}
    {name : String} {x : α} :
    σ.admits held name x = true ↔ ∀ y, σ name = some y → name ∈ held → y = x := by
  unfold admits
  cases σ name with
  | none => simp
  | some y => simp [or_iff_not_imp_right]

/-- More functions before are no hindrance, if they do not capture the name. -/
theorem Meanings.admits_append {α : Type} [BEq α] [LawfulBEq α] {σ : Meanings α}
    {K held : List String} {name : String} {x : α} (admits : σ.admits held name x = true)
    (apart : name ∉ K) : σ.admits (K ++ held) name x = true :=
  admits_iff.mpr fun y found mem =>
    admits_iff.mp admits y found ((List.mem_append.mp mem).resolve_left apart)

namespace Typed

/-- The names that a statement adds to the active scope. -/
def StmtKind.names (k : StmtKind) : List String := k.entries.map Prod.fst

/-! ## Used names -/

mutual

/-- The names that are looked up when the expression is evaluated. -/
def Expr.uses : Expr → List String
  | ⟨_, _, kind⟩ => kind.uses

def ExprKind.uses : ExprKind → List String
  | .literal _ => []
  | .group inner => inner.uses
  | .binary _ left right => left.uses ++ right.uses
  | .variable name => [name]
  | .property receiver _ => receiver.uses
  | .call name arguments => name :: Expr.allUses arguments
  | .invoke receiver _ arguments => receiver.uses ++ Expr.allUses arguments
  | .object _ fields _ => Binding.allUses fields

def Expr.allUses : List Expr → List String
  | [] => []
  | e :: es => e.uses ++ Expr.allUses es

def Binding.uses : Binding → List String
  | ⟨_, _, _, none⟩ => []
  | ⟨_, _, _, some value⟩ => value.uses

def Binding.allUses : List Binding → List String
  | [] => []
  | b :: bs => b.uses ++ Binding.allUses bs

end

mutual

/-- The names that are looked up outside of the statement, when it is executed or when a function
that it defines is called. -/
def Stmt.uses : Stmt → List String
  | ⟨_, kind⟩ => kind.uses

def StmtKind.uses : StmtKind → List String
  | .letVar binding => binding.uses
  | .defFun definition => definition.uses.removeAll [definition.name]
  | .ifElse condition thenBody elseBody =>
    condition.uses ++ Stmt.allUses thenBody ++ Stmt.allUses elseBody
  | .forEach name _ iterable body => iterable.uses ++ (Stmt.allUses body).removeAll [name]
  | .returns none => []
  | .returns (some value) => value.uses
  | .expr expression => expression.uses
  | .assignVariable name _ value => name :: value.uses
  | .assignProperty receiver _ _ value => receiver.uses ++ value.uses

/-- What the body looks up, but for the parameters. -/
def Definition.uses : Definition → List String
  | ⟨_, _, params, _, body⟩ => (Stmt.allUses body).removeAll (params.map Param.name)

def Stmt.allUses : List Stmt → List String
  | [] => []
  | s :: ss => s.uses ++ (Stmt.allUses ss).removeAll s.kind.names

end

mutual

/-- The names that the functions use which a statement defines, itself or inside a branch or a
loop. -/
def Stmt.captures : Stmt → List String
  | ⟨_, kind⟩ => kind.captures

def StmtKind.captures : StmtKind → List String
  | .defFun definition => definition.uses.removeAll [definition.name]
  | .ifElse _ thenBody elseBody => Stmt.allCaptures thenBody ++ Stmt.allCaptures elseBody
  | .forEach name _ _ body => (Stmt.allCaptures body).removeAll [name]
  | _ => []

def Stmt.allCaptures : List Stmt → List String
  | [] => []
  | s :: ss => s.captures ++ (Stmt.allCaptures ss).removeAll s.kind.names

end

/-! ### Nodes -/

theorem Expr.uses_eq (t : Expr) : t.uses = t.kind.uses := by
  obtain ⟨id, ty, kind⟩ := t
  rw [uses]

theorem Binding.uses_of_value {b : Binding} {t : Expr} (value : b.value = some t) :
    b.uses = t.uses := by
  obtain ⟨id, name, ty, initial⟩ := b
  obtain rfl : initial = some t := value
  rw [uses]

theorem Definition.uses_eq (d : Definition) :
    d.uses = (Stmt.allUses d.body).removeAll (d.params.map Param.name) := by
  obtain ⟨id, name, params, returns, body⟩ := d
  rw [uses]

/-- A body finds its names in the scope of its parameters or outside. -/
theorem Definition.allUses_subset (Γ : Env) (this : Option Ty) (d : Definition) :
    Stmt.allUses d.body ⊆ (Γ.body this d).own.map Prod.fst ++ d.uses := by
  have own : d.params.map Param.name ⊆ (Γ.body this d).own.map Prod.fst := by
    have names : d.params.map Param.name = (d.params.map Param.entry).map Prod.fst := by
      rw [List.map_map]
      rfl
    rw [names, Env.body, Env.inside, List.map_append]
    exact List.subset_append_right _ _
  have found : Stmt.allUses d.body ⊆ d.params.map Param.name ++ d.uses := by
    rw [← removeAll_subset_iff, ← d.uses_eq]
    exact List.Subset.refl _
  exact List.Subset.trans found (List.append_subset.mpr
    ⟨List.subset_append_of_subset_left _ own, List.subset_append_right _ _⟩)

theorem Stmt.uses_eq (s : Stmt) : s.uses = s.kind.uses := by
  obtain ⟨id, kind⟩ := s
  rw [uses]

theorem Stmt.captures_eq (s : Stmt) : s.captures = s.kind.captures := by
  obtain ⟨id, kind⟩ := s
  rw [captures]

mutual

/-- What a function uses is used where it is defined. -/
theorem Stmt.captures_subset : ∀ s : Stmt, s.captures ⊆ s.uses
  | ⟨id, kind⟩ => by
    rw [Stmt.captures, Stmt.uses]
    exact StmtKind.captures_subset kind

theorem StmtKind.captures_subset : ∀ k : StmtKind, k.captures ⊆ k.uses
  | .defFun d => by
    rw [StmtKind.captures, StmtKind.uses]
    exact List.Subset.refl _
  | .ifElse c a b => by
    rw [StmtKind.captures, StmtKind.uses, List.append_assoc]
    refine List.Subset.trans ?_ (List.subset_append_right _ _)
    exact List.append_subset.mpr
      ⟨List.subset_append_of_subset_left _ (Stmt.allCaptures_subset a),
        List.subset_append_of_subset_right _ (Stmt.allCaptures_subset b)⟩
  | .forEach name ty i b => by
    rw [StmtKind.captures, StmtKind.uses]
    exact List.subset_append_of_subset_right _
      (removeAll_subset_removeAll (Stmt.allCaptures_subset b))
  | .letVar _ | .returns _ | .expr _ | .assignVariable _ _ _ | .assignProperty _ _ _ _ => by
    rw [StmtKind.captures]
    · exact List.nil_subset _
    all_goals simp

theorem Stmt.allCaptures_subset : ∀ ss : List Stmt, Stmt.allCaptures ss ⊆ Stmt.allUses ss
  | [] => by
    rw [Stmt.allCaptures]
    exact List.nil_subset _
  | s :: ss => by
    rw [Stmt.allCaptures, Stmt.allUses]
    exact List.append_subset.mpr
      ⟨List.subset_append_of_subset_left _ (Stmt.captures_subset s),
        List.subset_append_of_subset_right _
          (removeAll_subset_removeAll (Stmt.allCaptures_subset ss))⟩

end

end Typed

end GradualScript
