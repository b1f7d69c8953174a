/-
# GradualScript.Proofs.Run.Shaped -- scopes in which every name keeps its shape

Beside the heap of a run the proofs keep a `FamilyPlan`: the family of each object, and a plan of
the shapes that lookups have to find. The scope of an object is planned with all members of its
family when it is made, and keeps this plan. `Heap.Shaped` says that a heap follows it.

A closure is shaped if its body was found uniform, with shapes that are planned for the names that
it uses in the scope that it captured (`Closure.Accepts`).
-/

import GradualScript.Proofs.Check.Uniform
import GradualScript.Proofs.Run.Operands
import GradualScript.Proofs.Run.Plans

namespace GradualScript

/-! ## Plans of families -/

/-- What is known of the scopes of a run. -/
structure FamilyPlan where
  /-- The family of an object, by the scope of its members. -/
  family? : ScopeId → Option Nat
  /-- The shapes that lookups have to find. -/
  shapes : Plan Shape

namespace FamilyPlan

/-- An object of a family is made, whose members are in `m`. -/
def make (L : FamilyPlan) (K : Families) (m : ScopeId) (family : Nat) : FamilyPlan where
  family? := Function.update L.family? m (some family)
  shapes := L.shapes.lay m (K.members family)

variable (L : FamilyPlan) (K : Families) (family : Nat) {m t : ScopeId}

@[simp] theorem family?_make_self : (L.make K m family).family? m = some family :=
  Function.update_self ..

theorem family?_make_of_ne (ne : t ≠ m) : (L.make K m family).family? t = L.family? t :=
  Function.update_of_ne ne ..

end FamilyPlan

namespace Families

/-- Where both know a name, they agree about it. -/
def Matches (K : Families) (σ : Shapes) (Γ : Env) : Prop :=
  ∀ n t x, Γ.find? n = some t → σ n = some x → x = K.shape t

variable {K : Families} {σ : Shapes} {Γ : Env}

theorem overlay_self (σ : Shapes) (n : String) (t : Ty) :
    K.overlay σ [(n, t)] n = some (K.shape t) := by
  rw [overlay, List.lookup_cons_self, Option.map_some, Option.some_or]

theorem overlay_of_not_mem (σ : Shapes) {own : List (String × Ty)} {n : String}
    (unbound : n ∉ own.map Prod.fst) : K.overlay σ own n = σ n := by
  rw [overlay, lookup_eq_none_of_not_mem unbound, Option.map_none, Option.none_or]

theorem overlay_of_ne (σ : Shapes) {m n : String} (ne : m ≠ n) (t : Ty) :
    K.overlay σ [(n, t)] m = σ m :=
  overlay_of_not_mem σ (by simpa using ne)

theorem Matches.declare (known : K.Matches σ Γ) {n : String} {t : Ty}
    (fresh : n ∉ Γ.own.map Prod.fst) : K.Matches (K.overlay σ [(n, t)]) (Γ.declare n t) := by
  intro m u x found shaped
  by_cases same : m = n
  · subst same
    rw [Env.find?_declare_self fresh] at found
    obtain rfl := Option.some.inj found
    rw [overlay_self] at shaped
    exact (Option.some.inj shaped).symm
  · rw [Env.find?_declare_of_ne same] at found
    rw [overlay_of_ne σ same] at shaped
    exact known m u x found shaped

/-- Inside a new scope both know the same names more. -/
theorem Matches.inside (known : K.Matches σ Γ) (own : List (String × Ty)) :
    K.Matches (K.overlay σ own) (Γ.inside own) := by
  intro m u x found shaped
  unfold overlay at shaped
  rw [Env.find?_inside] at found
  cases here : own.lookup m with
  | none =>
    rw [here, Option.none_or] at found
    rw [here, Option.map_none, Option.none_or] at shaped
    exact known m u x found shaped
  | some t =>
    rw [here, Option.some_or] at found
    rw [here, Option.map_some, Option.some_or] at shaped
    obtain rfl := Option.some.inj found
    exact (Option.some.inj shaped).symm

theorem overlay_nil (σ : Shapes) : K.overlay σ [] = σ := by
  funext n
  exact overlay_of_not_mem σ List.not_mem_nil

end Families

/-! ## Values -/

section

variable (K : Families) (H : Heap Ty) (G : Plan Shape) (size : Nat)

/-- The closure runs the definition that was checked as `d` in `Γ` and found uniform with `σ`. The
names that it uses are planned with the shapes that they had there. -/
structure Closure.Checked (f : Closure) (Γ : Env) (σ : Shapes) (this : Option Ty)
    (d : Typed.Definition) : Prop where
  inside : f.captured < size
  elaborates : ∃ id, f.definition.Elaborates H Γ id this d
  kind : f.isMethod = this.isSome
  static : d.isStatic = true
  uniform : d.isUniform K σ this = true
  known : K.Matches σ (Γ.declare d.name d.ty)
  kept : G.Promises f.captured σ d.uses

/-- A call of the closure with arguments of these shapes, the receiver of a method among them, gives
something of shape `result`. -/
def Closure.Accepts (f : Closure) (params : List Shape) (result : Shape) : Prop :=
  ∃ Γ σ this d, f.Checked K H G size Γ σ this d ∧
    params = (this.map K.shape).toList ++ d.params.map (fun p => K.shape p.ty) ∧
    result = K.shape d.returns

def Callable.Accepts : Callable → List Shape → Shape → Prop
  | .builtin f, params, result => result = K.shape f.returns ∧
      ∃ receiver, receiver.length = f.receiverCount ∧ params = receiver ++ f.params.map K.shape
  | .closure f, params, result => f.Accepts K H G size params result

/-- What can be called accepts what its shape says, and an object is of the family that its shape
says. -/
def Value.Fits (family? : ScopeId → Option Nat) : Value → Shape → Prop
  | .function f, x => x = .any ∨ ∃ params result, x = .function params result ∧
      f.Accepts K H G size params result
  | .object _ m, x => x = .any ∨ ∃ family, x = .object (some family) ∧ m < size ∧
      family? m = some family
  | .iterable elements, _ => ∀ v ∈ elements, ∃ n, v = .integer n
  | _, _ => True

end

variable {K : Families} {H : Heap Ty} {G G' : Plan Shape} {L L' L'' : FamilyPlan}
  {family? family?' : ScopeId → Option Nat} {h h' h'' : Heap Value} {size size' : Nat}
  {free free' : Set ScopeId} {s m : ScopeId} {n : String} {v : Value} {x : Shape} {σ : Shapes}

theorem Closure.Accepts.mono {f : Closure} {params : List Shape} {result : Shape}
    (accepts : f.Accepts K H G size params result) (grows : G.Grows free size G')
    (le : size ≤ size') : f.Accepts K H G' size' params result := by
  obtain ⟨Γ, σ, this, d, checked, same⟩ := accepts
  exact ⟨Γ, σ, this, d, { checked with
    inside := Nat.lt_of_lt_of_le checked.inside le
    kept := fun n used x found =>
      grows.names _ checked.inside n x (checked.kept n used x found) }, same⟩

namespace Value.Fits

theorem of_plain (plain : v.IsPlain) : v.Fits K H G size family? x := by
  cases v <;> trivial

theorem mono (fits : v.Fits K H G size family? x) (grows : G.Grows free size G')
    (le : size ≤ size') (families : ∀ m < size, family?' m = family? m) :
    v.Fits K H G' size' family?' x := by
  cases v with
  | function f =>
    rcases fits with any | ⟨params, result, rfl, accepts⟩
    · exact Or.inl any
    · refine Or.inr ⟨params, result, rfl, ?_⟩
      cases f with
      | builtin f => exact accepts
      | closure f => exact Closure.Accepts.mono accepts grows le
  | object name m =>
    rcases fits with any | ⟨family, rfl, inside, known⟩
    · exact Or.inl any
    · exact Or.inr ⟨family, rfl, Nat.lt_of_lt_of_le inside le, (families m inside).trans known⟩
  | iterable elements => exact fits
  | _ => trivial

theorem any (fits : v.Fits K H G size family? x) : v.Fits K H G size family? .any := by
  cases v with
  | function f => exact Or.inl rfl
  | object name m => exact Or.inl rfl
  | iterable elements => exact fits
  | _ => trivial

/-- Nothing is an object without a family. -/
theorem of_no_family (fits : v.Fits K H G size family? (.object none)) :
    v.Fits K H G size family? x := by
  cases v with
  | function f =>
    rcases fits with any | ⟨params, result, same, _⟩
    · cases any
    · exact absurd same.symm (Shape.function_ne_object params result none)
  | object name m =>
    rcases fits with any | ⟨family, same, _⟩
    · cases any
    · cases same
  | iterable elements => exact fits
  | _ => trivial

/-- What fits a type fits the types above it. -/
theorem of_isSubtype (describes : K.Describes H) {t u : Ty} (static : t ≠ .dynamic)
    (below : t.isSubtype H u = true) (fits : v.Fits K H G size family? (K.shape t)) :
    v.Fits K H G size family? (K.shape u) := by
  rcases describes.shape_of_isSubtype static below with some | same | none
  · rw [some]
    exact fits.any
  · rw [← same]
    exact fits
  · rw [none] at fits
    exact fits.of_no_family

theorem callable {f : Callable} {params : List Shape} {result : Shape}
    (fits : (Value.function f).Fits K H G size family? (.function params result)) :
    f.Accepts K H G size params result := by
  rcases fits with any | ⟨ps, r, same, accepts⟩
  · exact absurd any (Shape.function_ne_any params result)
  · obtain ⟨rfl, rfl⟩ := Shape.function_inj.mp same
    exact accepts

theorem object {name : Option String} {family : Option Nat}
    (fits : (Value.object name m).Fits K H G size family? (.object family)) :
    m < size ∧ ∃ known, family = some known ∧ family? m = some known := by
  rcases fits with any | ⟨known, same, inside, here⟩
  · cases any
  · exact ⟨inside, known, by injection same, here⟩

end Value.Fits

/-! ## Heaps -/

/-- Values fit the shapes that are planned for them. -/
def shaping (K : Families) (H : Heap Ty) (family? : ScopeId → Option Nat) :
    Judgement Value Shape where
  fits G size v x := v.Fits K H G size family? x
  mono fits grows le := fits.mono grows le fun _ _ => rfl

/-- The heap is as the plan says. An object is planned with the members of its family, and nothing
is around them. -/
structure Heap.Shaped (h : Heap Value) (K : Families) (H : Heap Ty) (L : FamilyPlan) : Prop
    extends h.Follows (shaping K H L.family?) L.shapes where
  objects : ∀ m family, L.family? m = some family → m < h.size ∧ h.parent? m = none ∧
    L.shapes m = K.members family

namespace Heap.Shaped

/-- The prototype of a member of a family is a member too. What fits its shape is of the family, if
it is an object. -/
theorem prototype (shaped : h.Shaped K H L) (describes : K.Describes H) {family : Nat}
    {m p : ScopeId} (link : Value.prototype? h m = some p) (known : L.family? m = some family) :
    L.family? p = some family := by
  unfold Value.prototype? at link
  split at link
  case h_2 => cases link
  case h_1 name next bound =>
    obtain rfl := Option.some.inj link
    obtain ⟨x, planned, fits⟩ := shaped.values m prototypeName _ bound
    rw [(shaped.objects m family known).2.2, Families.members] at planned
    split at planned
    case isTrue =>
      -- If the family has a method of this name, a function is planned here, and no object fits it.
      obtain ⟨y, _, rfl⟩ := Option.map_eq_some_iff.mp planned
      rcases fits with any | ⟨_, same, _⟩
      · cases any
      · cases same
    case isFalse =>
      obtain ⟨someShape, same⟩ := describes.prototypes family x planned
      rcases fits with any | ⟨other, rfl, _, here⟩
      · exact absurd any someShape
      · rw [same (some other) rfl] at here
        exact here

/-- A member, own or inherited, has the shape that it has in the family. -/
theorem lookup (shaped : h.Shaped K H L) (describes : K.Describes H) {family : Nat}
    (known : L.family? m = some family) (found : Value.lookup h m n = some v) :
    ∃ x, K.members family n = some x ∧ v.Fits K H L.shapes h.size L.family? x := by
  obtain ⟨t, known, own⟩ := Value.exists_resolveLocal_of_lookup_of
    (fun _ _ => shaped.prototype describes) known found
  rw [← (shaped.objects t family known).2.2]
  exact shaped.values t n v own

end Heap.Shaped

/-! ## Parts of a run -/

namespace Run

/-- A part of a run that found the heap `h`, laid out as `L`, and left `h'`, laid out as `L'`. -/
structure Leads (K : Families) (H : Heap Ty) (free : Set ScopeId) (L : FamilyPlan) (h : Heap Value)
    (L' : FamilyPlan) (h' : Heap Value) : Prop extends L.shapes.Moves free h L'.shapes h' where
  shaped : h'.Shaped K H L'
  families : ∀ m < h.size, L'.family? m = L.family? m

namespace Leads

theorem refl (shaped : h.Shaped K H L) : Leads K H free L h L h :=
  ⟨.refl free L.shapes h, shaped, fun _ _ => rfl⟩

/-- A step that makes no object and adds to no object. -/
theorem of_moves (shaped : h.Shaped K H L) (moves : L.shapes.Moves free h G h')
    (follows : h'.Follows (shaping K H L.family?) G) (blocks : ∀ m ∈ free, L.family? m = none) :
    Leads K H free L h ⟨L.family?, G⟩ h' where
  toMoves := moves
  families _ _ := rfl
  shaped := ⟨follows, fun m family known => by
    obtain ⟨inside, root, planned⟩ := shaped.objects m family known
    have kept : m ∉ free := fun mem => by
      rw [blocks m mem] at known
      cases known
    exact ⟨Nat.lt_of_lt_of_le inside moves.size_le, (moves.keeps.parent m inside).trans root,
      (moves.grows.same m inside kept).trans planned⟩⟩

/-- The second part may add to scopes that the first one has made. -/
theorem trans_fresh (first : Leads K H free L h L' h') (second : Leads K H free' L' h' L'' h'')
    (old : ∀ s ∈ free', s < h.size → s ∈ free) : Leads K H free L h L'' h'' where
  toMoves := first.toMoves.trans_fresh second.toMoves old
  shaped := second.shaped
  families m inside := (second.families m (Nat.lt_of_lt_of_le inside first.size_le)).trans
    (first.families m inside)

theorem trans (first : Leads K H free L h L' h') (second : Leads K H free L' h' L'' h'') :
    Leads K H free L h L'' h'' :=
  first.trans_fresh second fun _ mem _ => mem

theorem widen (leads : Leads K H ∅ L h L' h') : Leads K H free L h L' h' :=
  ⟨leads.toMoves.widen, leads.shaped, leads.families⟩

theorem fits (leads : Leads K H free L h L' h') (fits : v.Fits K H L.shapes h.size L.family? x) :
    v.Fits K H L'.shapes h'.size L'.family? x :=
  fits.mono leads.grows leads.size_le leads.families

/-- What an object is does not change. -/
theorem object (leads : Leads K H free L h L' h') (shaped : h.Shaped K H L) {family : Nat}
    (known : L.family? m = some family) : L'.family? m = some family :=
  (leads.families m (shaped.objects m family known).1).trans known

/-- A variable gets another value of its shape. -/
theorem put (shaped : h.Shaped K H L) (bound : n ∈ (h.bindings s).names)
    (known : L.shapes s n = some x) (fits : v.Fits K H L.shapes h.size L.family? x) :
    Leads K H ∅ L h L (h.put s n v) :=
  .of_moves shaped (.put bound)
    (shaped.toFollows.put (Heap.lt_size_of_binds (Heap.binds_iff.mpr bound)) known fits)
    fun _ mem => absurd mem (Set.notMem_empty _)

/-- An object gets a member of its family, whether it has had it before or not. -/
theorem put_member (shaped : h.Shaped K H L) {family : Nat} (known : L.family? m = some family)
    (planned : K.members family n = some x) (fits : v.Fits K H L.shapes h.size L.family? x) :
    Leads K H ∅ L h L (h.put m n v) := by
  obtain ⟨inside, root, members⟩ := shaped.objects m family known
  exact .of_moves shaped (.put_root root)
    (shaped.toFollows.put inside ((congrFun members n).trans planned) fits)
    fun _ mem => absurd mem (Set.notMem_empty _)

/-- A new object, which has no members yet. -/
theorem root (shaped : h.Shaped K H L) (family : Nat) :
    Leads K H ∅ L h (L.make K h.size family) (h.root .empty).2 := by
  have families : ∀ m < h.size, (L.make K h.size family).family? m = L.family? m :=
    fun m inside => L.family?_make_of_ne K family (Nat.ne_of_lt inside)
  have follows : h.Follows (shaping K H (L.make K h.size family).family?) L.shapes :=
    shaped.toFollows.imp fun v x fits =>
      Value.Fits.mono fits (.refl ∅ h.size L.shapes) (Nat.le_refl _) families
  refine ⟨.root h, ⟨follows.root (K.members family), fun m f known => ?_⟩, families⟩
  by_cases new : m = h.size
  · subst new
    rw [L.family?_make_self] at known
    obtain rfl := Option.some.inj known
    exact ⟨Heap.lt_size_root h .empty, Heap.parent?_root_self .., Plan.lay_self ..⟩
  · rw [L.family?_make_of_ne K family new] at known
    obtain ⟨inside, root, planned⟩ := shaped.objects m f known
    exact ⟨Nat.lt_trans inside (Heap.lt_size_root h .empty),
      (Heap.parent?_root_of_lt .empty inside).trans root,
      (Plan.lay_of_ne _ _ (Nat.ne_of_lt inside)).trans planned⟩

end Leads

/-! ### What is seen -/

variable {Γ : Env} {U U' C C' held held' N : List String}

/-- Statements that were found uniform with `σ`, and checked in `Γ`, may run in `s`, which is no
object. -/
structure Stands (K : Families) (L : FamilyPlan) (h : Heap Value) (s : ScopeId)
    (σ : Shapes) (Γ : Env) (U C held : List String) : Prop
    extends L.shapes.Stands h s σ (Γ.own.map Prod.fst) U C held where
  block : L.family? s = none
  known : K.Matches σ Γ

namespace Stands

theorem next (here : Stands K L h s σ Γ U C held) (leads : Leads K H ∅ L h L' h') :
    Stands K L' h' s σ Γ U C held :=
  ⟨here.toStands.next leads.toMoves, (leads.families s here.inside).trans here.block, here.known⟩

theorem mono (here : Stands K L h s σ Γ U C held) (used : U' ⊆ U) (captured : C' ⊆ C)
    (more : held ⊆ held') : Stands K L h s σ Γ U' C' held' :=
  ⟨here.toStands.mono (List.Subset.refl _) used captured more, here.block, here.known⟩

/-- A scope that the heap does not have yet is no object. -/
theorem block_of_fresh (shaped : h.Shaped K H L) (fresh : h.size ≤ s) : L.family? s = none := by
  cases known : L.family? s with
  | none => rfl
  | some family => exact absurd (shaped.objects s family known).1 (Nat.not_lt.mpr fresh)

/-- In a new scope that binds nothing yet. -/
theorem fresh (around : L.shapes.Sees h s σ U) (shaped : h.Shaped K H L)
    (promises : L.shapes.Promises s σ C) (known : K.Matches σ Γ) :
    let L' : FamilyPlan := ⟨L.family?, L.shapes.lay h.size fun _ => none⟩
    Leads K H ∅ L h L' (h.child s .empty).2 ∧
      Stands K L' (h.child s .empty).2 h.size σ (Γ.inside []) U C [] := by
  obtain ⟨moves, follows, stands⟩ := Plan.Stands.fresh around shaped.toFollows promises
  have block : L.family? h.size = none := block_of_fresh shaped (Nat.le_refl _)
  exact ⟨.of_moves shaped moves follows fun _ mem => absurd mem (Set.notMem_empty _), stands, block,
    known⟩

/-- In the scopes of a body: one that binds names, and a new one inside it. -/
theorem body (Γ' : Env) (own : List (String × Ty)) (around : L.shapes.Sees h s σ U)
    (shaped : h.Shaped K H L) (promises : L.shapes.Promises s σ C) {b : Bindings Value}
    (names : ∀ n, n ∈ b.names ↔ n ∈ own.map Prod.fst)
    (bound : ∀ n v, b.find? n = some v →
      ∃ t, own.lookup n = some t ∧ v.Fits K H L.shapes h.size L.family? (K.shape t))
    (used : U' ⊆ own.map Prod.fst ++ U) (captured : C' ⊆ own.map Prod.fst ++ C)
    (known : K.Matches (K.overlay σ own) Γ') :
    ∃ L', Leads K H ∅ L h L' ((h.child s b).2.child h.size .empty).2 ∧
      Stands K L' ((h.child s b).2.child h.size .empty).2 (h.child s b).2.size
        (K.overlay σ own) Γ' U' C' [] := by
  have named : ∀ n, n ∈ b.names ↔ ((own.lookup n).map K.shape).isSome := fun n => by
    rw [Option.isSome_map, lookup_isSome_iff_mem]
    exact names n
  obtain ⟨G, moves, follows, stands⟩ := Plan.Stands.body around shaped.toFollows promises named
    (fun n v found => by
      obtain ⟨t, own, fits⟩ := bound n v found
      exact ⟨K.shape t, congrArg (Option.map K.shape) own, fits⟩)
    (fun _ => rfl)
    (fun n mem => (List.mem_append.mp (used mem)).imp_left (names n).mpr)
    (fun n mem => (List.mem_append.mp (captured mem)).imp_left (names n).mpr)
  have block : L.family? (h.child s b).2.size = none :=
    block_of_fresh shaped (Nat.le_of_lt (Heap.lt_size_child h s b))
  exact ⟨⟨L.family?, G⟩,
    .of_moves shaped moves follows fun _ mem => absurd mem (Set.notMem_empty _),
    stands.mono (List.nil_subset _) (List.Subset.refl _) (List.Subset.refl _)
      (List.Subset.refl _), block, known⟩

/-- A function is going to be defined that uses these names: they are planned. -/
theorem promise (here : Stands K L h s σ Γ U C held) (shaped : h.Shaped K H L) (used : N ⊆ U)
    (captured : N ⊆ C) : ∃ L', Leads K H {s} L h L' h ∧
      Stands K L' h s σ Γ U C (N ++ held) ∧ L'.shapes.Promises s σ N := by
  obtain ⟨moves, follows, stands, promises⟩ :=
    here.toStands.promise shaped.toFollows used captured
  exact ⟨⟨L.family?, _⟩, .of_moves shaped moves follows fun _ mem => mem ▸ here.block,
    ⟨stands, here.block, here.known⟩, promises⟩

theorem eq_of_admits (here : Stands K L h s σ Γ U C held) {t : Ty}
    (unbound : n ∉ (h.bindings s).names) (fresh : n ∉ Γ.own.map Prod.fst)
    (admits : K.admits σ held (n, t) = true) : ∀ x, L.shapes s n = some x → x = K.shape t :=
  here.toStands.eq_of_admits unbound fresh admits

/-- After a declaration in the active scope. -/
theorem declare (here : Stands K L h s σ Γ U C held) (shaped : h.Shaped K H L) {t : Ty}
    (fresh : n ∉ Γ.own.map Prod.fst) (planned : ∀ x, L.shapes s n = some x → x = K.shape t)
    (fits : v.Fits K H (L.shapes.declare s n (K.shape t)) h.size L.family? (K.shape t)) :
    let L' : FamilyPlan := ⟨L.family?, L.shapes.declare s n (K.shape t)⟩
    Leads K H {s} L h L' (h.put s n v) ∧
      Stands K L' (h.put s n v) s (K.overlay σ [(n, t)]) (Γ.declare n t) (n :: U) (n :: C)
        held := by
  obtain ⟨moves, follows, stands⟩ := here.toStands.declare shaped.toFollows planned
    (Families.overlay_self σ n t) (fun k ne => Families.overlay_of_ne σ ne t) fits
  refine ⟨.of_moves shaped moves follows fun _ mem => mem ▸ here.block,
    stands.mono ?_ (List.Subset.refl _) (List.Subset.refl _) (List.Subset.refl _), here.block,
    here.known.declare fresh⟩
  rw [Env.declare, List.map_append]
  exact List.subset_append_left _ _

end Stands

end Run

end GradualScript
