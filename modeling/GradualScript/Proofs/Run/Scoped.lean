/-
# GradualScript.Proofs.Run.Scoped -- the names that a run can count on

The checker resolves the body of a definition once, where it is defined. A run resolves it at each
call, in the scope that the closure captured, which has changed since. What carries over is a fact
about names: everything that was in scope when the definition was checked can be seen from the
captured scope (`Env.Covered`), and goes on being seen, since no name is ever taken away. The names
of the primitive types are the exception. Only the checker knows them.

That no definition of a run meets its own name needs the reverse: a scope in which statements run
binds no name that the checker did not put there. Only assigning a property adds names to scopes
from far away, and only to those of objects. So `objects`, the scopes of the objects that a run has
made so far, are part of the invariant, and no statement runs in one of them.
-/

import GradualScript.Proofs.Check.Elaboration
import GradualScript.Proofs.Run.Operands
import GradualScript.Proofs.Run.Extends

namespace GradualScript

/-! ## Environments that a scope covers -/

/-- Every name of the environment can be seen from `s`, unless it is that of a primitive type. -/
def Env.Covered (Γ : Env) (h : Heap Value) (s : ScopeId) : Prop :=
  ∀ n t, Γ.find? n = some t → h.Sees s n ∨ ∃ p : Primitive, n = p.name ∧ t = .prim p

namespace Env

variable {Γ Δ : Env} {h h' : Heap Value} {free : Set ScopeId} {s : ScopeId} {n : String} {t : Ty}

namespace Covered

theorem mono (covered : Γ.Covered h s) (inside : s < h.size) (grows : h.Extends free h') :
    Γ.Covered h' s :=
  fun n t found => (covered n t found).imp_left (grows.sees inside)

/-- The environment inside a new scope that binds what the environment adds. -/
theorem child (covered : Γ.Covered h s) (inside : s < h.size) {b : Bindings Value}
    (own : ∀ n ∈ Δ.own.map Prod.fst, n ∈ b.names) (outer : Δ.outer = Γ.bound) :
    Δ.Covered (h.child s b).2 h.size := by
  intro n t found
  rw [Heap.sees_child inside]
  rcases mem_own_or_outer found with mem | around
  · exact Or.inl (Or.inl (own n mem))
  · rw [outer] at around
    exact (covered n t around).imp_left Or.inr

/-- A new scope that binds nothing sees what is around it. -/
theorem child_empty (covered : Γ.Covered h s) (inside : s < h.size) :
    Γ.Covered (h.child s .empty).2 h.size := by
  intro n t found
  rw [Heap.sees_child inside]
  exact (covered n t found).imp_left Or.inr

/-- A branch sees what is around it. -/
theorem inside (covered : Γ.Covered h s) : (Γ.inside []).Covered h s := covered

theorem declare (covered : Γ.Covered h s) (bound : n ∈ (h.bindings s).names) (t : Ty) :
    (Γ.declare n t).Covered h s := by
  intro m u found
  by_cases same : m = n
  · exact Or.inl (.of_bound (same ▸ bound))
  · rw [find?_declare_of_ne same] at found
    exact covered m u found

/-- An environment without surroundings. -/
theorem of_own (outer : Γ.outer = []) (own : ∀ n ∈ Γ.own.map Prod.fst, n ∈ (h.bindings s).names) :
    Γ.Covered h s := by
  intro n t found
  rcases mem_own_or_outer found with mem | around
  · exact Or.inl (.of_bound (own n mem))
  · rw [outer] at around
    cases around

end Covered

end Env

/-! ## Values -/

/-- The body of a closure was checked, and the captured scope covers what it was checked in. -/
def Closure.Scoped (H : Heap Ty) (h : Heap Value) (f : Closure) : Prop :=
  f.captured < h.size ∧ ∃ Γ id this d, f.definition.Elaborates H Γ id this d ∧
    f.isMethod = this.isSome ∧ (Γ.declare d.name d.ty).Covered h f.captured

/-- The closures in a value are scoped, and its object is known. Only integers are walked over. -/
def Value.Scoped (H : Heap Ty) (objects : Set ScopeId) (h : Heap Value) : Value → Prop
  | .function (.closure f) => f.Scoped H h
  | .object _ members => members ∈ objects
  | .iterable elements => ∀ v ∈ elements, ∃ n, v = .integer n
  | _ => True

/-- Every value in the heap is scoped. -/
structure Heap.Scoped (h : Heap Value) (H : Heap Ty) (objects : Set ScopeId) : Prop where
  objects_lt : ∀ m ∈ objects, m < h.size
  values : ∀ s n v, h.resolveLocal s n = some v → v.Scoped H objects h

/-- A part of a run that found the heap `h` and left `h'`. In between it made objects, and bound
names in old scopes only if they are objects or in `free`. -/
structure Run.Passed (H : Heap Ty) (free objects : Set ScopeId) (h : Heap Value)
    (objects' : Set ScopeId) (h' : Heap Value) : Prop where
  heap : h'.Scoped H objects'
  older : objects ⊆ objects'
  fresh : ∀ m ∈ objects', m < h.size → m ∈ objects
  grows : h.Extends (objects ∪ free) h'

variable {H : Heap Ty} {h h' h'' : Heap Value} {free free' objects objects' objects'' : Set ScopeId}
  {s m : ScopeId} {n : String} {v : Value} {Γ Δ : Env}

theorem Closure.Scoped.mono {f : Closure} (known : f.Scoped H h) (grows : h.Extends free h') :
    f.Scoped H h' := by
  obtain ⟨inside, Γ, id, this, d, elaborates, kind, covered⟩ := known
  exact ⟨Nat.lt_of_lt_of_le inside grows.size_le, Γ, id, this, d, elaborates, kind,
    covered.mono inside grows⟩

theorem Value.Scoped.nil : Value.nil.Scoped H objects h := trivial

theorem Value.Scoped.mono (known : v.Scoped H objects h) (sub : objects ⊆ objects')
    (grows : h.Extends free h') : v.Scoped H objects' h' := by
  cases v with
  | function f =>
    cases f with
    | builtin f => trivial
    | closure f => exact Closure.Scoped.mono known grows
  | object name members => exact sub known
  | iterable elements => exact known
  | _ => trivial

namespace Heap.Scoped

theorem resolve (known : h.Scoped H objects) (found : h.resolve s n = some v) :
    v.Scoped H objects h := by
  obtain ⟨t, _, found⟩ := Heap.exists_resolveLocal_of_resolve found
  exact known.values t n v found

theorem lookup (known : h.Scoped H objects) {members : ScopeId}
    (found : Value.lookup h members n = some v) : v.Scoped H objects h := by
  obtain ⟨t, bound⟩ := Value.exists_resolveLocal_of_lookup found
  exact known.values t n v bound

/-- The scope of a new object is known from when its members are complete. -/
theorem publish (known : h.Scoped H objects) (inside : m < h.size) :
    h.Scoped H (insert m objects) where
  objects_lt := by
    rintro t (rfl | mem)
    · exact inside
    · exact known.objects_lt t mem
  values s n v found :=
    (known.values s n v found).mono (Set.subset_insert _ _) (.refl ∅ h)

end Heap.Scoped

/-! ## Parts of a run -/

namespace Run.Passed

theorem refl (known : h.Scoped H objects) : Passed H free objects h objects h :=
  ⟨known, subset_rfl, fun _ mem _ => mem, .refl _ h⟩

/-- The second part may add to scopes that the first one has made. -/
theorem trans_fresh (first : Passed H free objects h objects' h')
    (second : Passed H free' objects' h' objects'' h'')
    (old : ∀ s ∈ free', s < h.size → s ∈ free) : Passed H free objects h objects'' h'' where
  heap := second.heap
  older := first.older.trans second.older
  fresh m mem inside :=
    first.fresh m (second.fresh m mem (Nat.lt_of_lt_of_le inside first.grows.size_le)) inside
  grows := first.grows.trans_fresh second.grows fun s mem inside =>
    mem.imp (fun mem => first.fresh s mem inside) fun mem => old s mem inside

theorem trans (first : Passed H free objects h objects' h')
    (second : Passed H free objects' h' objects'' h'') : Passed H free objects h objects'' h'' :=
  first.trans_fresh second fun _ mem _ => mem

theorem mono (passed : Passed H free objects h objects' h') (sub : free ⊆ free') :
    Passed H free' objects h objects' h' :=
  ⟨passed.heap, passed.older, passed.fresh,
    passed.grows.of_old fun _ mem _ => mem.imp_right fun mem => sub mem⟩

/-- A scope that is no object and not free keeps its names. -/
theorem names (passed : Passed H free objects h objects' h') (inside : s < h.size)
    (apart : s ∉ objects) (kept : s ∉ free) : (h'.bindings s).names = (h.bindings s).names :=
  passed.grows.same s inside fun mem => mem.elim apart kept

theorem apart (passed : Passed H free objects h objects' h') (inside : s < h.size)
    (apart : s ∉ objects) : s ∉ objects' :=
  fun mem => apart (passed.fresh s mem inside)

theorem value (passed : Passed H free objects h objects' h') (known : v.Scoped H objects h) :
    v.Scoped H objects' h' := known.mono passed.older passed.grows

private theorem push {b : Bindings Value} (known : h.Scoped H objects) (grows : h.Extends ∅ h')
    (size : h'.size = h.size + 1) (same : ∀ t < h.size, h'.bindings t = h.bindings t)
    (new : h'.bindings h.size = b) (bound : ∀ n v, b.find? n = some v → v.Scoped H objects h) :
    Passed H free objects h objects h' where
  heap := by
    refine ⟨fun m mem => Nat.lt_of_lt_of_le (known.objects_lt m mem) grows.size_le, ?_⟩
    intro t n v found
    have below := Heap.lt_size_of_resolveLocal found
    rcases Nat.lt_or_ge t h.size with old | ge
    · rw [Heap.resolveLocal, same t old] at found
      exact (known.values t n v found).mono subset_rfl grows
    · rw [size, Nat.lt_succ_iff] at below
      have here : t = h.size := Nat.le_antisymm below ge
      rw [here, Heap.resolveLocal, new] at found
      exact (bound n v found).mono subset_rfl grows
  older := subset_rfl
  fresh _ mem _ := mem
  grows := grows.of_old fun s mem _ => absurd mem (Set.notMem_empty s)

theorem child (known : h.Scoped H objects) {b : Bindings Value}
    (bound : ∀ n v, b.find? n = some v → v.Scoped H objects h) :
    Passed H free objects h objects (h.child s b).2 :=
  push known (.child ∅ h s b) (Heap.size_child h s b)
    (fun _ old => Heap.bindings_child_of_lt s b old) (Heap.bindings_child_self h s b) bound

theorem root (known : h.Scoped H objects) : Passed H free objects h objects (h.root .empty).2 :=
  push known (.root ∅ h .empty) (Heap.size_root h .empty)
    (fun _ old => Heap.bindings_root_of_lt .empty old) (Heap.bindings_root_self h .empty)
    fun n v found => by simp at found

/-- A name gets a value: one that is bound already, or any in an object or a free scope. -/
theorem put (known : h.Scoped H objects) (inside : s < h.size)
    (may : n ∈ (h.bindings s).names ∨ s ∈ objects ∪ free)
    (new : v.Scoped H objects (h.put s n v)) :
    Passed H free objects h objects (h.put s n v) where
  heap := by
    refine ⟨fun m mem => by rw [Heap.size_put]; exact known.objects_lt m mem, ?_⟩
    intro t n' v' found
    rw [Heap.resolveLocal_put inside] at found
    split at found
    · obtain rfl := Option.some.inj found
      exact new
    · exact (known.values t n' v' found).mono subset_rfl (Heap.Extends.put h s n v)
  older := subset_rfl
  fresh _ mem _ := mem
  grows := by
    rcases may with bound | mem
    · exact .put_bound _ bound v
    · exact (Heap.Extends.put h s n v).of_old fun t here _ => here ▸ mem

/-- The members of a new object are complete. -/
theorem publish (passed : Passed H free objects h objects' h') (young : h.size ≤ m)
    (inside : m < h'.size) : Passed H free objects h (insert m objects') h' where
  heap := passed.heap.publish inside
  older := passed.older.trans (Set.subset_insert _ _)
  fresh t mem old := by
    rcases mem with rfl | mem
    · exact absurd old (Nat.not_lt.mpr young)
    · exact passed.fresh t mem old
  grows := passed.grows

end Run.Passed

/-! ## Where statements run -/

/-- Statements that were checked in `Γ` may run in `s`. -/
structure Run.At (objects : Set ScopeId) (h : Heap Value) (s : ScopeId) (Γ : Env) : Prop where
  inside : s < h.size
  apart : s ∉ objects
  covered : Γ.Covered h s
  own : ∀ n ∈ (h.bindings s).names, n ∈ Γ.own.map Prod.fst

namespace Run.At

theorem next (here : At objects h s Γ) (passed : Passed H free objects h objects' h')
    (kept : s ∉ free) : At objects' h' s Γ where
  inside := Nat.lt_of_lt_of_le here.inside passed.grows.size_le
  apart := passed.apart here.inside here.apart
  covered := here.covered.mono here.inside passed.grows
  own n bound := here.own n (passed.names here.inside here.apart kept ▸ bound)

/-- In a new scope that binds nothing yet, inside one that covers the environment. -/
theorem fresh (known : h.Scoped H objects) (inside : s < h.size) (covered : Γ.Covered h s) :
    At objects (h.child s .empty).2 h.size Γ where
  inside := Heap.lt_size_child h s .empty
  apart mem := Nat.lt_irrefl _ (known.objects_lt _ mem)
  covered := covered.child_empty inside
  own n bound := by simp at bound

/-- In the scopes of a body: one that binds what the environment adds, and a new one inside it. -/
theorem body (known : h.Scoped H objects) (inside : s < h.size) (covered : Γ.Covered h s)
    {b : Bindings Value} (values : ∀ n v, b.find? n = some v → v.Scoped H objects h)
    (own : ∀ n ∈ Δ.own.map Prod.fst, n ∈ b.names) (outer : Δ.outer = Γ.bound) :
    Passed H ∅ objects h objects ((h.child s b).2.child h.size .empty).2 ∧
      At objects ((h.child s b).2.child h.size .empty).2 (h.child s b).2.size Δ := by
  have first : Passed H ∅ objects h objects (h.child s b).2 := .child known values
  refine ⟨first.trans (.child first.heap fun n v found => by simp at found), ?_⟩
  exact .fresh first.heap (Heap.lt_size_child h s b) (covered.child inside own outer)

/-- After a definition in the active scope. -/
theorem put (here : At objects h s Γ) (n : String) (t : Ty) (v : Value) :
    At objects (h.put s n v) s (Γ.declare n t) := by
  have bound : n ∈ ((h.put s n v).bindings s).names :=
    (Heap.mem_names_put here.inside n v s n).mpr (Or.inl ⟨rfl, rfl⟩)
  refine ⟨by rw [Heap.size_put]; exact here.inside, here.apart, ?_, ?_⟩
  · exact (here.covered.mono here.inside (Heap.Extends.put h s n v)).declare bound t
  · intro k mem
    rw [Heap.mem_names_put here.inside] at mem
    rw [Env.declare, List.map_append, List.mem_append]
    rcases mem with ⟨_, rfl⟩ | mem
    · exact Or.inr (by simp)
    · exact Or.inl (here.own k mem)

end Run.At

end GradualScript
