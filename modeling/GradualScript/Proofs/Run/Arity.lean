/-
# GradualScript.Proofs.Run.Arity -- how many arguments functions get

The checker counts the arguments of every call, and it does not count for the run. Scripts in which
no type is `Dynamic` are accepted and stop, some for the number of arguments of a call, some for a
method that is given no receiver (`callFaultScripts`). None of them is uniform: they use one name in
two ways, or find a member through a prototype that may be anything. A run of a uniform script never
stops for a call.
-/

import GradualScript.Proofs.Run.Calls
import GradualScript.Proofs.Run.Names
import Mathlib.Data.List.Basic

namespace GradualScript

/-! ## From the prelude on -/

namespace Families

variable {K : Families}

/-- The names of the prelude. -/
def start (K : Families) (fixtures : Bool) : Shapes := fun name =>
  ((CheckSession.start fixtures).heap.resolve (CheckSession.start fixtures).scope name).map K.shape

/-- The objects of the prelude have families, with the functions among their members as methods. -/
def sortsPrelude (K : Families) (fixtures : Bool) : Bool :=
  (RunSession.startObjects fixtures).all fun m =>
    match K.family? m with
    | none => false
    | some family => ((CheckSession.start fixtures).heap.bindings m).entries.all fun e =>
      K.isMethod family e.1 == e.2.isFunction

theorem sorted_of_mem {fixtures : Bool} (sorts : K.sortsPrelude fixtures = true) {m : ScopeId}
    (mem : m ∈ RunSession.startObjects fixtures) : ∃ family, K.family? m = some family ∧
      ∀ e ∈ ((CheckSession.start fixtures).heap.bindings m).entries,
        K.isMethod family e.1 = e.2.isFunction := by
  have sorted := List.all_eq_true.mp sorts m mem
  cases known : K.family? m with
  | none =>
    rw [known] at sorted
    cases sorted
  | some family =>
    rw [known] at sorted
    exact ⟨family, rfl, fun e mem => eq_of_beq (List.all_eq_true.mp sorted e mem)⟩

/-- The plan of the prelude. Whatever its names are bound to, they are planned with the shapes of
their types. -/
def startPlan (K : Families) (fixtures : Bool) : FamilyPlan where
  family? m := if m ∈ RunSession.startObjects fixtures then K.family? m else none
  shapes m :=
    if m ∈ RunSession.startObjects fixtures then
      match K.family? m with
      | none => fun _ => none
      | some family => K.members family
    else K.start fixtures

theorem startPlan_family?_of_mem {fixtures : Bool} {m : ScopeId}
    (mem : m ∈ RunSession.startObjects fixtures) :
    (K.startPlan fixtures).family? m = K.family? m := if_pos mem

theorem startPlan_family?_of_not_mem {fixtures : Bool} {m : ScopeId}
    (top : m ∉ RunSession.startObjects fixtures) : (K.startPlan fixtures).family? m = none :=
  if_neg top

theorem startPlan_shapes_of_mem {fixtures : Bool} {m : ScopeId} {family : Nat}
    (mem : m ∈ RunSession.startObjects fixtures) (known : K.family? m = some family) :
    (K.startPlan fixtures).shapes m = K.members family := by
  unfold startPlan
  dsimp only
  rw [if_pos mem, known]

theorem startPlan_shapes_of_not_mem {fixtures : Bool} {m : ScopeId}
    (top : m ∉ RunSession.startObjects fixtures) :
    (K.startPlan fixtures).shapes m = K.start fixtures := if_neg top

end Families

namespace RunSession

/-- What a prelude may bind to a name of type `t`. Its methods have `receivers` receivers. -/
def startsAs (objects : List ScopeId) (receivers : Nat) : Value → Ty → Bool
  | .function (.builtin f), t => t == .function f.params f.returns && f.receiverCount == receivers
  | .function (.closure _), _ => false
  | .object _ m, .object _ m' => m == m' && objects.contains m
  | .object _ _, _ => false
  | .iterable elements, _ => elements.all fun v => v.kind == .integer
  | _, _ => true

variable {K : Families} {H : Heap Ty} {G : Plan Shape} {family? : ScopeId → Option Nat} {size : Nat}
  {objects : List ScopeId} {v : Value} {t : Ty}

theorem fits_of_startsAs (receiver : List Shape)
    (starts : startsAs objects receiver.length v t = true)
    (known : ∀ m ∈ objects, m < size ∧ ∃ family, K.family? m = some family ∧
      family? m = some family)
    (data : t.isFunction = false → receiver = []) :
    v.Fits K H G size family? (receiver.foldr .takes (K.shape t)) := by
  cases v with
  | function f =>
    cases f with
    | closure f => cases starts
    | builtin f =>
      unfold startsAs at starts
      rw [Bool.and_eq_true, beq_iff_eq, beq_iff_eq] at starts
      obtain ⟨rfl, count⟩ := starts
      refine Or.inr ⟨receiver ++ f.params.map K.shape, K.shape f.returns, ?_, rfl, receiver,
        count.symm, rfl⟩
      rw [Families.shape_function, Shape.function, Shape.function, List.foldr_append]
  | object name m =>
    cases t with
    | object name' m' =>
      unfold startsAs at starts
      rw [Bool.and_eq_true, beq_iff_eq, List.contains_iff_mem] at starts
      obtain ⟨rfl, mem⟩ := starts
      obtain ⟨inside, family, labelled, planned⟩ := known m mem
      rw [data rfl, List.foldr_nil, Families.shape, labelled]
      exact Or.inr ⟨family, rfl, inside, planned⟩
    | _ => cases starts
  | iterable elements =>
    intro u mem
    unfold startsAs at starts
    have integer := List.all_eq_true.mp starts u mem
    cases u with
    | integer n => exact ⟨n, rfl⟩
    | _ => cases integer
  | _ => trivial

/-- The two preludes bind values of the types that they say. -/
theorem start_typed (fixtures : Bool) : ∀ s < (start fixtures).heap.size,
    ∀ e ∈ ((start fixtures).heap.bindings s).entries,
      ((CheckSession.start fixtures).heap.resolveLocal s e.1).any (fun t =>
        startsAs (startObjects fixtures) (if s ∈ startObjects fixtures ∧ t.isFunction then 1 else 0)
          e.2 t) = true := by
  cases fixtures <;> decide

/-- The objects of the prelude are there from the start, and planned as what they are. -/
theorem start_objects {fixtures : Bool} (sorts : K.sortsPrelude fixtures = true) :
    ∀ m ∈ startObjects fixtures, m < (start fixtures).heap.size ∧
      ∃ family, K.family? m = some family ∧ (K.startPlan fixtures).family? m = some family := by
  intro m mem
  have inside : ∀ m ∈ startObjects fixtures, m < (start fixtures).heap.size := by
    cases fixtures <;> decide
  obtain ⟨family, known, _⟩ := Families.sorted_of_mem sorts mem
  exact ⟨inside m mem, family, known, (Families.startPlan_family?_of_mem mem).trans known⟩

/-- A member of an object of the prelude fits what is planned. Its functions are methods. -/
theorem start_fits_member {fixtures : Bool} {s : ScopeId} {n : String} (describes : K.Describes H)
    (keeps : (CheckSession.start fixtures).heap.Keeps Set.univ H)
    (sorts : K.sortsPrelude fixtures = true) (mem : s ∈ startObjects fixtures)
    (bound : (CheckSession.start fixtures).heap.resolveLocal s n = some t)
    (typed : startsAs (startObjects fixtures) (if t.isFunction = true then 1 else 0) v t = true) :
    ∃ x, (K.startPlan fixtures).shapes s n = some x ∧
      v.Fits K H (K.startPlan fixtures).shapes (start fixtures).heap.size
        (K.startPlan fixtures).family? x := by
  obtain ⟨family, known, sorted⟩ := Families.sorted_of_mem sorts mem
  have member := describes.members s family n t known (keeps.resolveLocal bound)
  have isMethod := sorted (n, t) (Bindings.mem_of_find? bound)
  rw [Families.startPlan_shapes_of_mem mem known, Families.members, isMethod, member]
  cases function : t.isFunction with
  | true =>
    rw [function, if_pos rfl] at typed
    refine ⟨_, rfl, fits_of_startsAs [.object (some family)] typed (start_objects sorts) ?_⟩
    intro data
    rw [function] at data
    cases data
  | false =>
    rw [function, if_neg Bool.false_ne_true] at typed
    exact ⟨_, rfl, fits_of_startsAs [] typed (start_objects sorts) fun _ => rfl⟩

/-- A name of the prelude fits what is planned. -/
theorem start_fits_name {fixtures : Bool} {s : ScopeId} {n : String}
    (sorts : K.sortsPrelude fixtures = true) (inside : s < (start fixtures).heap.size)
    (top : s ∉ startObjects fixtures)
    (bound : (CheckSession.start fixtures).heap.resolveLocal s n = some t)
    (typed : startsAs (startObjects fixtures) 0 v t = true) :
    ∃ x, (K.startPlan fixtures).shapes s n = some x ∧
      v.Fits K H (K.startPlan fixtures).shapes (start fixtures).heap.size
        (K.startPlan fixtures).family? x := by
  -- Besides the objects there is the top level alone.
  have only : ∀ s < (start fixtures).heap.size, s ∉ startObjects fixtures →
      s = (CheckSession.start fixtures).scope := by
    cases fixtures <;> decide
  have planned : (K.startPlan fixtures).shapes s n = some (K.shape t) := by
    rw [Families.startPlan_shapes_of_not_mem top, Families.start, Heap.resolve_eq,
      ← only s inside top, bound, Option.some_or, Option.map_some]
  exact ⟨_, planned, fits_of_startsAs [] typed (start_objects sorts) fun _ => rfl⟩

theorem start_shaped {fixtures : Bool} (describes : K.Describes H)
    (keeps : (CheckSession.start fixtures).heap.Keeps Set.univ H)
    (sorts : K.sortsPrelude fixtures = true) :
    (start fixtures).heap.Shaped K H (K.startPlan fixtures) where
  objects m family known := by
    by_cases mem : m ∈ startObjects fixtures
    · rw [Families.startPlan_family?_of_mem mem] at known
      exact ⟨(start_objects sorts m mem).1, start_parent? fixtures m,
        Families.startPlan_shapes_of_mem mem known⟩
    · rw [Families.startPlan_family?_of_not_mem mem] at known
      cases known
  values s n v found := by
    have inside := Heap.lt_size_of_resolveLocal found
    have typed := start_typed fixtures s inside (n, v) (Bindings.mem_of_find? found)
    obtain ⟨t, bound, typed⟩ := (Option.any_eq_true ..).mp typed
    by_cases mem : s ∈ startObjects fixtures
    · simp only [mem, true_and] at typed
      exact start_fits_member describes keeps sorts mem bound typed
    · simp only [mem, false_and, if_false] at typed
      exact start_fits_name sorts inside mem bound typed
  around s p n x link _ _ := by
    rw [start_parent?] at link
    cases link

theorem start_stands (fixtures : Bool) (U C : List String) :
    Run.Stands K (K.startPlan fixtures) (start fixtures).heap (start fixtures).scope
      (K.start fixtures) (Env.of (CheckSession.start fixtures).heap
        { scope := (CheckSession.start fixtures).scope }) U C [] := by
  have apart : (start fixtures).scope ∉ startObjects fixtures := by
    cases fixtures <;> decide
  have planned : (K.startPlan fixtures).shapes (start fixtures).scope = K.start fixtures :=
    Families.startPlan_shapes_of_not_mem apart
  have top :
      (CheckSession.start fixtures).heap.parent? (CheckSession.start fixtures).scope = none := by
    cases fixtures <;> decide
  refine ⟨⟨⟨by cases fixtures <;> decide, ?_⟩, ?_, ?_⟩,
    Families.startPlan_family?_of_not_mem apart, ?_⟩
  · intro n _ x found
    rw [Heap.reach_of_no_parent (start_parent? fixtures _), planned]
    exact found
  · intro n x known _
    rw [planned] at known
    refine ⟨known, Or.inl ?_⟩
    -- What the prelude plans at the top level is declared there.
    obtain ⟨t, found, _⟩ := Option.map_eq_some_iff.mp known
    rw [Heap.resolve_eq, top, Option.or_none] at found
    exact Bindings.isSome_find?.mp (Option.isSome_of_eq_some found)
  · intro n _ x p _ _ link
    rw [start_parent?] at link
    cases link
  · intro n t x found planned
    rw [Env.find?_of] at found
    rw [Families.start, found] at planned
    exact (Option.some.inj planned).symm

end RunSession

/-! ## Uniform scripts -/

/-- No run of an accepted script that is static and uniform stops because a function got the wrong
number of arguments, or a method no receiver. -/
theorem Script.not_ofCall_of_check (fixtures : Bool) {p : Script} {typed : List Typed.Stmt}
    (ok : (p.check fixtures).1 = .ok typed) (static : Typed.Stmt.allStatic typed = true)
    {K : Families} (describes : K.Describes (p.check fixtures).2)
    (sorts : K.sortsPrelude fixtures = true)
    (uniform : Typed.Stmt.allUniform K (K.start fixtures) [] typed = true) (depth : Nat)
    {fault : Located EvalError} {w : World}
    (stopped : Run.script depth (RunSession.start fixtures).scope p
      ⟨(RunSession.start fixtures).heap, #[]⟩ = .error (.fault fault) w) :
    ¬fault.cause.OfCall := by
  have elaborates := (CheckSession.start_closed fixtures).elaborates ok
  have keeps := (Check.leaves_block _ p.statements).keeps (CheckSession.check_eq_ok ok)
  have shaped := RunSession.start_shaped describes (keeps.mono (Set.subset_univ _)) sorts
  rw [Run.script] at stopped
  exact (Run.statements_shaped describes (Run.callClosure_shaped describes depth) elaborates static
    uniform (List.Subset.refl _) (List.Subset.refl _) shaped
    (RunSession.start_stands fixtures _ _)).of_error stopped

/-- A square overrides the area of a shape and inherits its share, which is asked for the area in
three, one and no parts. Inside the area of a shape there is a function by the name of a field of
the square, and inside the loop a number by the name of a function. -/
def shapesScript : Script :=
  ⟨[⟨default, .letVar ⟨"shape", none, some ⟨default, .object (some "Shape") []
      [⟨default, "area", [], some "Integer",
          [⟨default, .defFun ⟨"side", [], some "Integer",
            [⟨default, .returns (some ⟨default, .literal (.integer 0)⟩)⟩]⟩⟩,
            ⟨default, .returns (some ⟨default, .call "side" []⟩)⟩]⟩,
        ⟨default, "share", [⟨"n", some "Integer"⟩], some "Integer",
          [⟨default, .returns (some ⟨default, .binary .div
            ⟨default, .invoke ⟨default, .variable "this"⟩ "area" []⟩
              ⟨default, .variable "n"⟩⟩)⟩]⟩]⟩⟩⟩,
    ⟨default, .letVar ⟨"square", none, some ⟨default, .object (some "Square")
      [⟨default, "prototype", none, some ⟨default, .variable "shape"⟩⟩,
        ⟨default, "side", none, some ⟨default, .literal (.integer 3)⟩⟩]
      [⟨default, "area", [], some "Integer", [⟨default, .returns (some ⟨default, .binary .mul
        ⟨default, .variable "side"⟩ ⟨default, .variable "side"⟩⟩)⟩]⟩]⟩⟩⟩,
    ⟨default, .defFun ⟨"report", [⟨"s", some "shape"⟩, ⟨"n", some "Integer"⟩], some "Nil",
      [⟨default, .expr ⟨default, .call "print"
        [⟨default, .invoke ⟨default, .variable "s"⟩ "share" [⟨default, .variable "n"⟩]⟩]⟩⟩]⟩⟩,
    ⟨default, .letVar ⟨"tell", none, some ⟨default, .variable "report"⟩⟩⟩,
    ⟨default, .forEach "i" ⟨default, .call "range"
        [⟨default, .literal (.integer 0)⟩, ⟨default, .literal (.integer 3)⟩]⟩
      [⟨default, .letVar ⟨"report", none, some
          ⟨default, .binary .sub ⟨default, .literal (.integer 1)⟩ ⟨default, .variable "i"⟩⟩⟩⟩,
        ⟨default, .expr ⟨default, .call "tell"
          [⟨default, .variable "square"⟩, ⟨default, .variable "report"⟩]⟩⟩]⟩]⟩

/-- The two objects of `shapesScript` are of one family. -/
def shapesFamilies : Families where
  family? m := if m = 1 ∨ m = 5 then some 0 else none
  member? family name :=
    if family ≠ 0 then none
    else if name = prototypeName then some (.object (some 0))
    else if name = "side" then some .plain
    else if name = "area" then some (.returns .plain)
    else if name = "share" then some (.takes .plain (.returns .plain))
    else none
  isMethod _ name := name = "area" || name = "share"

theorem shapesFamilies_describes : shapesFamilies.Describes (shapesScript.check false).2 where
  members m family n t known bound := by
    have all : ∀ m ∈ [1, 5], ∀ e ∈ ((shapesScript.check false).2.bindings m).entries,
        shapesFamilies.member? 0 e.1 = some (shapesFamilies.shape e.2) := by
      decide +kernel
    have labelled : m ∈ [1, 5] ∧ family = 0 := by
      unfold shapesFamilies at known
      dsimp only at known
      split at known
      case isTrue one => exact ⟨by simpa using one, (Option.some.inj known).symm⟩
      case isFalse => cases known
    rw [labelled.2]
    exact all m labelled.1 (n, t) (Bindings.mem_of_find? bound)
  prototypes family s known := by
    unfold shapesFamilies at known
    dsimp only at known
    split at known
    case isTrue => cases known
    case isFalse same =>
      rw [if_pos rfl] at known
      obtain rfl := Option.some.inj known
      refine ⟨by simp, fun f here => ?_⟩
      rw [← Shape.object.inj here, Decidable.not_not.mp same]

theorem Script.not_ofCall_of_check_shapes : ∃ typed fault w,
    (shapesScript.check false).1 = .ok typed ∧ Typed.Stmt.allStatic typed = true ∧
      Typed.Stmt.allUniform shapesFamilies (shapesFamilies.start false) [] typed = true ∧
      Run.script 3 (RunSession.start false).scope shapesScript
        ⟨(RunSession.start false).heap, #[]⟩ = .error (.fault fault) w ∧
      ¬fault.cause.OfCall := by
  have accepted : (shapesScript.check false).1.isOk = true := by decide +kernel
  obtain ⟨typed, ok⟩ := exists_eq_ok accepted
  have judged : (shapesScript.check false).1.toOption.any (fun typed =>
      Typed.Stmt.allStatic typed &&
        Typed.Stmt.allUniform shapesFamilies (shapesFamilies.start false) [] typed) = true := by
    decide +kernel
  rw [ok] at judged
  obtain ⟨static, uniform⟩ := Bool.and_eq_true_iff.mp judged
  obtain ⟨fault, w, stopped, _⟩ := Run.exists_of_cause?
    (show Run.cause? (Run.script 3 (RunSession.start false).scope shapesScript)
      ⟨(RunSession.start false).heap, #[]⟩ = some .divisionByZero by decide +kernel)
  exact ⟨typed, fault, w, ok, static, uniform, stopped, Script.not_ofCall_of_check false ok static
    shapesFamilies_describes (by decide) uniform 3 stopped⟩

/-! ## Scripts that are not uniform -/

/-- A definition of `name` that gives back an integer. -/
def integerMethod (name : String) (params : List Param) (result : Expr) : Method :=
  ⟨default, name, params, some "Integer", [⟨default, .returns (some result)⟩]⟩

/-- Scripts that each break one condition on uniform scripts. -/
def callFaultScripts : List Script :=
  [ -- A method calls another one by its name alone.
    ⟨[⟨default, .letVar ⟨"o", none, some ⟨default, .object none []
        [integerMethod "b" [] ⟨default, .literal (.integer 1)⟩,
          integerMethod "a" [] ⟨default, .call "b" []⟩]⟩⟩⟩,
      ⟨default, .expr ⟨default, .invoke ⟨default, .variable "o"⟩ "a" []⟩⟩]⟩,
    -- A method is taken out of its object.
    ⟨[⟨default, .letVar ⟨"o", none, some ⟨default, .object none []
        [integerMethod "b" [] ⟨default, .literal (.integer 1)⟩]⟩⟩⟩,
      ⟨default, .letVar ⟨"f", none, some ⟨default, .property ⟨default, .variable "o"⟩ "b"⟩⟩⟩,
      ⟨default, .expr ⟨default, .call "f" []⟩⟩]⟩,
    -- A function in a field is called through its object.
    ⟨[⟨default, .letVar ⟨"o", none, some ⟨default, .object none
        [⟨default, "f", none, some ⟨default, .variable "print"⟩⟩] []⟩⟩⟩,
      ⟨default, .expr ⟨default, .invoke ⟨default, .variable "o"⟩ "f"
        [⟨default, .literal (.integer 1)⟩]⟩⟩]⟩,
    -- A method takes fewer arguments than the one that it hides.
    ⟨[⟨default, .letVar ⟨"a", none, some ⟨default, .object (some "A") []
        [integerMethod "m" [⟨"x", some "Integer"⟩] ⟨default, .variable "x"⟩]⟩⟩⟩,
      ⟨default, .letVar ⟨"b", none, some ⟨default, .object (some "B")
        [⟨default, "prototype", none, some ⟨default, .variable "a"⟩⟩]
        [integerMethod "m" [] ⟨default, .literal (.integer 1)⟩]⟩⟩⟩,
      ⟨default, .letVar ⟨"c", some "a", some ⟨default, .variable "b"⟩⟩⟩,
      ⟨default, .expr ⟨default, .invoke ⟨default, .variable "c"⟩ "m"
        [⟨default, .literal (.integer 1)⟩]⟩⟩]⟩,
    -- A field hides a method, and is given the receiver that the method would take.
    ⟨[⟨default, .defFun ⟨"f", [⟨"x", some "Integer"⟩], some "Integer",
        [⟨default, .returns (some ⟨default, .variable "x"⟩)⟩]⟩⟩,
      ⟨default, .letVar ⟨"a", none, some ⟨default, .object (some "A") []
        [integerMethod "m" [⟨"x", some "Integer"⟩] ⟨default, .variable "x"⟩]⟩⟩⟩,
      ⟨default, .letVar ⟨"b", none, some ⟨default, .object (some "B")
        [⟨default, "prototype", none, some ⟨default, .variable "a"⟩⟩,
          ⟨default, "m", none, some ⟨default, .variable "f"⟩⟩] []⟩⟩⟩,
      ⟨default, .letVar ⟨"c", some "a", some ⟨default, .variable "b"⟩⟩⟩,
      ⟨default, .expr ⟨default, .invoke ⟨default, .variable "c"⟩ "m"
        [⟨default, .literal (.integer 1)⟩]⟩⟩]⟩,
    -- A method comes from a prototype of type `Any`, to which the type of the receiver does not
    -- lead.
    ⟨[⟨default, .letVar ⟨"x", none, some ⟨default, .object none []
        [integerMethod "m" [] ⟨default, .literal (.integer 0)⟩]⟩⟩⟩,
      ⟨default, .letVar ⟨"a", none, some ⟨default, .object (some "A") []
        [integerMethod "m" [⟨"n", some "Integer"⟩] ⟨default, .variable "n"⟩]⟩⟩⟩,
      ⟨default, .letVar ⟨"c", none, some ⟨default, .object (some "C")
        [⟨default, "prototype", some "Any", some ⟨default, .variable "x"⟩⟩] []⟩⟩⟩,
      ⟨default, .letVar ⟨"upper", none, some ⟨default, .object (some "Upper")
        [⟨default, "p", none, some ⟨default, .variable "a"⟩⟩] []⟩⟩⟩,
      ⟨default, .letVar ⟨"lower", none, some ⟨default, .object (some "Lower")
        [⟨default, "prototype", none, some ⟨default, .variable "upper"⟩⟩,
          ⟨default, "p", none, some ⟨default, .variable "c"⟩⟩] []⟩⟩⟩,
      ⟨default, .letVar ⟨"o", some "upper", some ⟨default, .variable "lower"⟩⟩⟩,
      ⟨default, .expr ⟨default, .invoke ⟨default, .property ⟨default, .variable "o"⟩ "p"⟩ "m"
        [⟨default, .literal (.integer 1)⟩]⟩⟩]⟩,
    -- A function is hidden in a block after another one in the block has called it.
    ⟨[⟨default, .defFun ⟨"f", [⟨"x", some "Integer"⟩], some "Integer",
        [⟨default, .returns (some ⟨default, .variable "x"⟩)⟩]⟩⟩,
      ⟨default, .ifElse ⟨default, .literal (.boolean true)⟩
        [⟨default, .defFun ⟨"g", [], some "Integer",
            [⟨default, .returns (some ⟨default, .call "f"
              [⟨default, .literal (.integer 1)⟩]⟩)⟩]⟩⟩,
          ⟨default, .defFun ⟨"f", [⟨"x", some "Integer"⟩, ⟨"y", some "Integer"⟩], some "Integer",
            [⟨default, .returns (some ⟨default, .variable "x"⟩)⟩]⟩⟩,
          ⟨default, .expr ⟨default, .call "g" []⟩⟩] []⟩]⟩]

/-- The script is accepted and static, and a call in it goes wrong. -/
def Script.StopsForCall (p : Script) : Prop :=
  ∃ typed fault w, (p.check false).1 = .ok typed ∧ Typed.Stmt.allStatic typed = true ∧
    Run.script 3 (RunSession.start false).scope p ⟨(RunSession.start false).heap, #[]⟩ =
      .error (.fault fault) w ∧
    fault.cause.OfCall

theorem callFaultScripts_stop : callFaultScripts.Forall Script.StopsForCall := by
  rw [List.forall_iff_forall_mem]
  intro p mem
  have judged : ∀ p ∈ callFaultScripts,
      (p.check false).1.toOption.any (fun typed => Typed.Stmt.allStatic typed) = true ∧
        (Run.cause? (Run.script 3 (RunSession.start false).scope p)
          ⟨(RunSession.start false).heap, #[]⟩).any (fun cause => decide cause.OfCall) = true := by
    decide +kernel
  obtain ⟨static, stops⟩ := judged p mem
  cases checked : (p.check false).1 with
  | error diagnostic =>
    rw [checked] at static
    cases static
  | ok typed =>
    rw [checked] at static
    cases stopped : Run.cause? (Run.script 3 (RunSession.start false).scope p)
        ⟨(RunSession.start false).heap, #[]⟩ with
    | none =>
      rw [stopped] at stops
      cases stops
    | some cause =>
      rw [stopped] at stops
      obtain ⟨fault, w, run, rfl⟩ := Run.exists_of_cause? stopped
      exact ⟨typed, fault, w, checked, static, run, of_decide_eq_true stops⟩

end GradualScript
