/-
# GradualScript.Proofs.Run.Calls -- uniform scripts call functions as they were checked

A call is checked against the type of what its name stands for, and it runs whatever the name has
come to stand for. In an accepted script that is static and uniform the two agree about the shape:
no run stops because a function got the wrong number of arguments, or a method no receiver. The
proof follows the evaluator along the elaboration of the script. What an expression yields fits the
shape of its type, and a statement leaves a heap that is as planned.
-/

import GradualScript.Proofs.Run.Shaped
import Mathlib.Data.List.Forall2

namespace GradualScript

/-- A call went wrong for the number of its arguments, or for want of a receiver. -/
def EvalError.OfCall : EvalError → Prop
  | .noReceiver _ | .argumentCount _ _ _ => True
  | _ => False

instance : DecidablePred EvalError.OfCall := fun cause => by
  cases cause <;> unfold EvalError.OfCall <;> infer_instance

theorem EvalError.OfOperator.not_ofCall {cause : EvalError} (operator : cause.OfOperator) :
    ¬cause.OfCall := by
  cases cause <;> first | exact id | exact absurd operator id

namespace Run

/-- What a run may be stopped for; it may also be stopped for its depth. -/
def NoCallFault : Option EvalError → Prop
  | none => True
  | some cause => ¬cause.OfCall

variable {K : Families} {H : Heap Ty} {L L' : FamilyPlan} {h h' : Heap Value}
  {s : ScopeId} {v : Value} {x : Shape} {w : World} {call : Caller} {σ : Shapes} {Γ : Env}
  {U C held : List String}

/-- A part of a run that found the heap `h` has yielded `v`, which fits `x`. -/
def Fitting (K : Families) (H : Heap Ty) (L : FamilyPlan) (h : Heap Value) (x : Shape) (v : Value)
    (w : World) : Prop :=
  ∃ L', Leads K H ∅ L h L' w.heap ∧ v.Fits K H L'.shapes w.heap.size L'.family? x

def FittingAll (K : Families) (H : Heap Ty) (L : FamilyPlan) (h : Heap Value) (xs : List Shape)
    (vs : List Value) (w : World) : Prop :=
  ∃ L', Leads K H ∅ L h L' w.heap ∧
    List.Forall₂ (fun v x => v.Fits K H L'.shapes w.heap.size L'.family? x) vs xs

/-- Closures, called as their shapes say, yield what their shapes say. -/
def Caller.Shaped (K : Families) (H : Heap Ty) (call : Caller) : Prop :=
  ∀ (f : Closure) (arguments : List Value) (params : List Shape) (result : Shape) (L : FamilyPlan)
    (w : World), w.heap.Shaped K H L → f.Accepts K H L.shapes w.heap.size params result →
      List.Forall₂ (fun v x => v.Fits K H L.shapes w.heap.size L.family? x) arguments params →
      Ends NoCallFault (call f arguments) w (Fitting K H L w.heap result)

theorem Fitting.after {w' : World} (leads : Leads K H ∅ L h L' w.heap)
    (fitting : Fitting K H L' w.heap x v w') : Fitting K H L h x v w' := by
  obtain ⟨L'', second, fits⟩ := fitting
  exact ⟨L'', leads.trans second, fits⟩

theorem Fitting.plain (shaped : w.heap.Shaped K H L) (plain : v.IsPlain) :
    Fitting K H L w.heap x v w := ⟨L, .refl shaped, .of_plain plain⟩

/-! ## Calls -/

/-- A builtin that is called with as many arguments as it takes. -/
theorem builtin_shaped {G : Plan Shape} {family? : ScopeId → Option Nat} {f : Builtin}
    {arguments : List Value} {receiver : List Shape} (count : receiver.length = f.receiverCount)
    (all : List.Forall₂ (fun v x => v.Fits K H G w.heap.size family? x) arguments
      (receiver ++ f.params.map K.shape)) :
    Ends NoCallFault (f.apply arguments) w fun v w' =>
      w'.heap = w.heap ∧ v.Fits K H G w.heap.size family? (K.shape f.returns) := by
  -- The receiver does not matter, so what is left of it is one argument of whatever shape.
  cases f with
  | log | debug | print =>
    obtain rfl := List.length_eq_zero_iff.mp count
    obtain ⟨v, _, fits, noMore, rfl⟩ := List.forall₂_cons_right_iff.mp all
    obtain rfl := List.forall₂_nil_right_iff.mp noMore
    refine .read_bind (.write_bind (.pure ⟨rfl, ?_⟩))
    first
      | exact fits.any
      | exact .of_plain trivial
  | range =>
    obtain rfl := List.length_eq_zero_iff.mp count
    obtain ⟨a, _, _, rest, rfl⟩ := List.forall₂_cons_right_iff.mp all
    obtain ⟨b, _, _, noMore, rfl⟩ := List.forall₂_cons_right_iff.mp rest
    obtain rfl := List.forall₂_nil_right_iff.mp noMore
    cases a with
    | integer start =>
      cases b with
      | integer stop =>
        refine .pure ⟨rfl, fun v mem => ?_⟩
        obtain ⟨k, _, same⟩ := List.mem_map.mp mem
        exact ⟨_, same.symm⟩
      | _ => exact .fail id
    | _ => exact .fail id
  | function =>
    obtain rfl := List.length_eq_zero_iff.mp count
    obtain rfl := List.forall₂_nil_right_iff.mp all
    exact .pure ⟨rfl, .of_plain trivial⟩
  | functionAny | functionString =>
    obtain rfl := List.length_eq_zero_iff.mp count
    obtain ⟨v, _, fits, noMore, rfl⟩ := List.forall₂_cons_right_iff.mp all
    obtain rfl := List.forall₂_nil_right_iff.mp noMore
    exact .pure ⟨rfl, fits⟩
  | inheritedMethod | method =>
    obtain ⟨r, rfl⟩ := List.length_eq_one_iff.mp count
    obtain ⟨v, _, _, noMore, rfl⟩ := List.forall₂_cons_right_iff.mp all
    obtain rfl := List.forall₂_nil_right_iff.mp noMore
    exact .pure ⟨rfl, .of_plain trivial⟩
  | methodAny | methodString =>
    obtain ⟨r, rfl⟩ := List.length_eq_one_iff.mp count
    obtain ⟨o, _, _, rest, rfl⟩ := List.forall₂_cons_right_iff.mp all
    obtain ⟨v, _, fits, noMore, rfl⟩ := List.forall₂_cons_right_iff.mp rest
    obtain rfl := List.forall₂_nil_right_iff.mp noMore
    exact .pure ⟨rfl, fits⟩

theorem invoke_shaped (callee : Caller.Shaped K H call) {f : Callable} {arguments : List Value}
    {params : List Shape} {result : Shape} (shaped : w.heap.Shaped K H L)
    (accepts : f.Accepts K H L.shapes w.heap.size params result)
    (all : List.Forall₂ (fun v x => v.Fits K H L.shapes w.heap.size L.family? x) arguments params) :
    Ends NoCallFault (invoke call f arguments) w (Fitting K H L w.heap result) := by
  cases f with
  | closure f => exact callee f arguments params result L w shaped accepts all
  | builtin f =>
    obtain ⟨rfl, receiver, count, rfl⟩ := accepts
    refine .mono (builtin_shaped count all) ?_
    rintro v w' ⟨same, fits⟩
    rw [← same] at shaped fits ⊢
    exact ⟨L, .refl shaped, fits⟩

/-- Arguments that were accepted fit the parameters. -/
theorem fits_accepted (describes : K.Describes H) {size : Nat} :
    ∀ {vs : List Value} {ts : List Typed.Expr} {params : List Ty},
      List.Forall₂ (fun v x => v.Fits K H L.shapes size L.family? x) vs
        (ts.map fun t => K.shape t.ty) →
      Accepts H params ts → Typed.Expr.allStatic ts = true →
      List.Forall₂ (fun v x => v.Fits K H L.shapes size L.family? x) vs (params.map K.shape)
  | _, [], _, fits, .nil, _ => by
    rw [List.map_nil] at fits ⊢
    exact fits
  | _, t :: ts, _, fits, .cons below rest, static => by
    rw [Typed.Expr.allStatic, Bool.and_eq_true, Typed.Expr.isStatic_iff] at static
    obtain ⟨v, vs, first, following, rfl⟩ := List.forall₂_cons_right_iff.mp fits
    rw [List.map_cons]
    exact .cons (first.of_isSubtype describes static.1.1 below)
      (fits_accepted describes following rest static.2)

/-! ## Members -/

/-- The receiver of a member is an object of the family that its type says. -/
theorem membersOf_shaped {node : NodeRef} {t : Ty} {family : Nat}
    (known : K.familyOf? t = some family)
    (fits : v.Fits K H L.shapes w.heap.size L.family? (K.shape t)) :
    Ends NoCallFault (membersOf node v) w fun m w' => w' = w ∧ L.family? m = some family := by
  unfold membersOf
  split
  · cases t with
    | object name members =>
      rw [Families.shape] at fits
      obtain ⟨_, f, same, here⟩ := fits.object
      have same' : K.family? members = some family := known
      rw [same'] at same
      obtain rfl := Option.some.inj same
      exact .pure ⟨rfl, here⟩
    | _ => cases known
  · exact .failAt id

/-- What a member of an object fits, by the family of the object and the type of the member. -/
theorem member_fits (describes : K.Describes H) (shaped : h.Shaped K H L) {r t : Ty}
    {family : Nat} {m : ScopeId} {name : String} {use : MemberUse}
    (known : K.familyOf? r = some family) (here : L.family? m = some family)
    (has : HasMember H r name use t) (found : Value.lookup h m name = some v) :
    v.Fits K H L.shapes h.size L.family?
      (if K.isMethod family name then .takes (.object (some family)) (K.shape t)
        else K.shape t) := by
  obtain ⟨x, planned, fits⟩ := shaped.lookup describes here found
  rw [Families.members, describes.member known has] at planned
  split at planned
  case isTrue method =>
    rw [if_pos method]
    obtain rfl := Option.some.inj planned
    exact fits
  case isFalse field =>
    rw [if_neg field]
    obtain rfl := Option.some.inj planned
    exact fits

/-- A method is bound in the scope that it captures. Its receivers are of the family of the object,
and by their names alone it calls what `σ` says. -/
theorem method_fits {this : Ty} {family : Nat} {members : ScopeId} {node : NodeRef}
    {d : Definition} {t : Typed.Definition} (known : K.familyOf? this = some family)
    (elaborates : d.Elaborates H Γ node.id (some this) t) (static : t.isStatic = true)
    (uniform : t.isUniform K σ (some this) = true)
    (agrees : K.Matches σ (Γ.declare t.name t.ty))
    (planned : ∀ n x, σ n = some x → K.members family n = some x)
    (shaped : h.Shaped K H L) (object : L.family? members = some family) :
    (Value.function (.closure ⟨d, members, true⟩)).Fits K H L.shapes h.size L.family?
      (.takes (.object (some family)) (K.shape t.ty)) := by
  obtain ⟨inside, _, plan⟩ := shaped.objects members family object
  have checked : (⟨d, members, true⟩ : Closure).Checked K H L.shapes h.size Γ σ (some this) t :=
    ⟨inside, ⟨node.id, elaborates⟩, rfl, static, uniform, agrees, fun n _ x found =>
      (congrFun plan n).trans (planned n x found)⟩
  refine Or.inr ⟨.object (some family) :: t.params.map (fun p => K.shape p.ty), K.shape t.returns,
    ?_, Γ, σ, some this, t, checked, ?_, rfl⟩
  · rw [Typed.Definition.ty, Families.shape_function, List.map_map]
    rfl
  · rw [Option.map_some, K.shape_of_familyOf? known]
    rfl

/-- The methods of an object are bound. By their names alone they call the fields of the object. -/
theorem defineMethods_shaped {this : Ty} {family : Nat} {members : ScopeId}
    (known : K.familyOf? this = some family)
    (fields : ∀ n x, σ n = some x → K.members family n = some x ∧ K.member? family n = some x) :
    ∀ {ms : List Method} {ds : List Typed.Definition} {Γ : Env} {w : World},
      Method.ElaborateAll H Γ this ms ds → Typed.Definition.allStatic ds = true →
      Typed.Definition.allUniform K σ family this ds = true →
      (∀ n t, Γ.find? n = some t → K.member? family n = some (K.shape t)) →
      (∀ d ∈ ds, K.member? family d.name = some (K.shape d.ty)) →
      w.heap.Shaped K H L → L.family? members = some family →
      Ends NoCallFault (defineMethods members ms) w fun _ w' => Leads K H ∅ L w.heap L w'.heap
  | [], ds, Γ, w, _, _, _, _, _, shaped, _ => .pure (.refl shaped)
  | ⟨node, d⟩ :: rest, ds, Γ, w, elaborates, static, uniform, seen, named, shaped, object => by
    rw [Method.ElaborateAll] at elaborates
    obtain ⟨t, more, rfl, first, following⟩ := elaborates
    rw [Typed.Definition.allStatic, Bool.and_eq_true] at static
    rw [Typed.Definition.allUniform, Bool.and_eq_true, Bool.and_eq_true] at uniform
    obtain ⟨⟨method, uniform⟩, uniformRest⟩ := uniform
    have declared : ∀ n u, (Γ.declare t.name t.ty).find? n = some u →
        K.member? family n = some (K.shape u) := by
      intro n u found
      rcases Env.find?_declare_cases found with old | ⟨rfl, rfl⟩
      · exact seen n u old
      · exact named t List.mem_cons_self
    have agrees : K.Matches σ (Γ.declare t.name t.ty) := fun n u x found field =>
      Option.some.inj ((fields n x field).2.symm.trans (declared n u found))
    have planned : K.members family t.name =
        some (.takes (.object (some family)) (K.shape t.ty)) := by
      rw [Families.members, if_pos method, named t List.mem_cons_self, Option.map_some]
    have put : Leads K H ∅ L w.heap L
        (w.heap.put members d.name (.function (.closure ⟨d, members, true⟩))) :=
      .put_member shaped object (first.name_eq ▸ planned) (method_fits known first static.1 uniform
        agrees (fun n x field => (fields n x field).1) shaped object)
    rw [defineMethods]
    refine .bind (.located (.define_or_fail id)) ?_
    rintro _ _ ⟨_, rfl⟩
    exact (defineMethods_shaped known fields following static.2 uniformRest declared
      (fun d mem => named d (List.mem_cons_of_mem _ mem)) put.shaped object).mono
        fun _ _ more => put.trans more

/-! ## Expressions -/

section

variable (K : Families) (H : Heap Ty) (call : Caller) (s : ScopeId) (σ : Shapes) (U : List String)

/-- Wherever the names in `U` are as `σ` says, the expression yields what its type says. -/
def Suits (e : Expr) (t : Typed.Expr) : Prop :=
  ∀ ⦃L : FamilyPlan⦄ ⦃w : World⦄, w.heap.Shaped K H L → L.shapes.Sees w.heap s σ U →
    Ends NoCallFault (evaluate call s e) w (Fitting K H L w.heap (K.shape t.ty))

def SuitsKind (e : ExprKind) (ty : Ty) : Prop :=
  ∀ ⦃L : FamilyPlan⦄ ⦃w : World⦄, w.heap.Shaped K H L → L.shapes.Sees w.heap s σ U →
    Ends NoCallFault (evaluateKind call s e) w (Fitting K H L w.heap (K.shape ty))

def SuitAll (es : List Expr) (ts : List Typed.Expr) : Prop :=
  ∀ ⦃L : FamilyPlan⦄ ⦃w : World⦄, w.heap.Shaped K H L → L.shapes.Sees w.heap s σ U →
    Ends NoCallFault (evaluateAll call s es) w
      (FittingAll K H L w.heap (ts.map fun t => K.shape t.ty))

/-- The fields can be given to every object of the family. -/
def FieldsSuit (family : Nat) (fs : List Field) : Prop :=
  ∀ ⦃members : ScopeId⦄ ⦃L : FamilyPlan⦄ ⦃w : World⦄, w.heap.Shaped K H L →
    L.shapes.Sees w.heap s σ U → L.family? members = some family →
    Ends NoCallFault (defineFields call s members fs) w fun _ w' =>
      ∃ L', Leads K H ∅ L w.heap L' w'.heap

end

/-! ### One lemma for each kind of expression -/

/-- Operators make plain data, which fits every type. -/
theorem binary_suits {op : BinaryOp} {left right : Expr} {l r : Typed.Expr} {ty : Ty}
    (leftSuits : Suits K H call s σ U left l) (rightSuits : Suits K H call s σ U right r) :
    SuitsKind K H call s σ U (.binary op left right) ty := by
  intro L w shaped here
  refine .binary_plain (fun _ operator => operator.not_ofCall) ((leftSuits shaped here).mono ?_)
  rintro a w₁ ⟨L₁, leads₁, _⟩
  refine ⟨fun v plain => .after leads₁ (.plain leads₁.shaped plain), ?_⟩
  refine (rightSuits leads₁.shaped (here.next leads₁.toMoves)).mono ?_
  rintro b w₂ ⟨L₂, leads₂, _⟩ v plain
  exact .after leads₁ (.after leads₂ (.plain leads₂.shaped plain))

theorem variable_suits (known : K.Matches σ Γ) {name : String} {ty : Ty}
    (bound : Γ.find? name = some ty) (visible : (σ name).isSome = true) (used : name ∈ U) :
    SuitsKind K H call s σ U (.variable name) ty := by
  intro L w shaped here
  obtain ⟨x, visible⟩ := Option.isSome_iff_exists.mp visible
  obtain rfl := known name ty x bound visible
  rw [evaluateKind]
  refine .read_bind ?_
  cases found : w.heap.resolve s name with
  | none => exact .fail id
  | some v => exact .pure ⟨L, .refl shaped, here.resolve shaped.toFollows used visible found⟩

theorem property_suits (describes : K.Describes H) {receiver : Expr} {r : Typed.Expr}
    {name : String} {ty : Ty} (suits : Suits K H call s σ U receiver r)
    (field : K.has false r.ty name = true)
    (has : HasMember H r.ty name .property ty) :
    SuitsKind K H call s σ U (.property receiver name) ty := by
  intro L w shaped here
  obtain ⟨family, known, field⟩ := K.exists_of_has field
  refine .property ((suits shaped here).mono ?_)
  rintro object w₁ ⟨L₁, leads₁, fits⟩
  refine (membersOf_shaped known fits).mono ?_
  rintro m w₁ ⟨rfl, family₁⟩
  refine ⟨fun v found => ⟨L₁, leads₁, ?_⟩, fun _ => id⟩
  have result := member_fits describes leads₁.shaped known family₁ has found
  rw [if_neg (by simp [field])] at result
  exact result

theorem call_suits (describes : K.Describes H) (callee : Caller.Shaped K H call)
    (known : K.Matches σ Γ) {name : String} {arguments : List Expr} {ts : List Typed.Expr}
    {params : List Ty} {ty : Ty} (bound : Γ.find? name = some (.function params ty))
    (visible : (σ name).isSome = true) (used : name ∈ U) (accepts : Accepts H params ts)
    (static : Typed.Expr.allStatic ts = true) (suits : SuitAll K H call s σ U arguments ts) :
    SuitsKind K H call s σ U (.call name arguments) ty := by
  intro L w shaped here
  obtain ⟨x, visible⟩ := Option.isSome_iff_exists.mp visible
  obtain rfl := known name _ x bound visible
  refine .call (fun f found => ?_) (fun _ => id) fun _ => id
  have fits : (Value.function f).Fits K H L.shapes w.heap.size L.family?
      (K.shape (.function params ty)) := here.resolve shaped.toFollows used visible found
  rw [Families.shape_function] at fits
  refine (suits shaped here).mono ?_
  rintro vs w₁ ⟨L₁, leads₁, all⟩
  exact (invoke_shaped callee leads₁.shaped (leads₁.fits fits).callable
    (fits_accepted describes all accepts static)).mono fun _ _ => .after leads₁

/-- The receiver comes first: the shape of a method says so, and so does the call. -/
theorem invoke_suits (describes : K.Describes H) (callee : Caller.Shaped K H call) {receiver : Expr}
    {r : Typed.Expr} {name : String} {arguments : List Expr} {ts : List Typed.Expr}
    {params : List Ty} {ty : Ty} (suits : Suits K H call s σ U receiver r)
    (method : K.has true r.ty name = true)
    (has : HasMember H r.ty name .method (.function params ty)) (accepts : Accepts H params ts)
    (static : Typed.Expr.allStatic ts = true) (suitAll : SuitAll K H call s σ U arguments ts) :
    SuitsKind K H call s σ U (.invoke receiver name arguments) ty := by
  intro L w shaped here
  obtain ⟨family, known, method⟩ := K.exists_of_has method
  refine .invoke ((suits shaped here).mono ?_)
  rintro object w₁ ⟨L₁, leads₁, objectFits⟩
  refine (membersOf_shaped known objectFits).mono ?_
  rintro m w₁ ⟨rfl, family₁⟩
  refine ⟨fun f found => ?_, fun _ => id, id⟩
  have fits := member_fits describes leads₁.shaped known family₁ has found
  rw [if_pos method, Families.shape_function] at fits
  refine (suitAll leads₁.shaped (here.next leads₁.toMoves)).mono ?_
  rintro vs w₂ ⟨L₂, leads₂, all⟩
  have accepted := fits_accepted describes all accepts static
  have callable : f.Accepts K H L₂.shapes w₂.heap.size
      (.object (some family) :: params.map K.shape) (K.shape ty) :=
    Value.Fits.callable (leads₂.fits fits)
  have receiverFits :
      object.Fits K H L₂.shapes w₂.heap.size L₂.family? (.object (some family)) := by
    rw [← K.shape_of_familyOf? known]
    exact leads₂.fits objectFits
  exact (invoke_shaped callee leads₂.shaped callable (.cons receiverFits accepted)).mono
    fun _ _ yields => .after leads₁ (.after leads₂ yields)

theorem exists_binding_of_lookup {bs : List Typed.Binding} {n : String} {t : Ty}
    (found : (bs.map Typed.Binding.entry).lookup n = some t) : ∃ b ∈ bs, b.name = n ∧ b.ty = t := by
  obtain ⟨before, after, split, _⟩ := List.lookup_eq_some_iff.mp found
  have listed : (n, t) ∈ bs.map Typed.Binding.entry := by
    rw [split]
    exact List.mem_append_right _ List.mem_cons_self
  obtain ⟨b, mem, same⟩ := List.mem_map.mp listed
  exact ⟨b, mem, Prod.mk.inj same⟩

/-- The fields of an object, as its methods see them, are as its family says. -/
theorem fields_of_family {family : Nat} {bs : List Typed.Binding}
    (uniform : Typed.Binding.allUniform K σ family bs = true)
    (member : ∀ b ∈ bs, K.member? family b.name = some (K.shape b.ty)) {n : String}
    (found : K.overlay (fun _ => none) (bs.map Typed.Binding.entry) n = some x) :
    K.members family n = some x ∧ K.member? family n = some x := by
  rw [Families.overlay, Option.or_none] at found
  obtain ⟨t, own, rfl⟩ := Option.map_eq_some_iff.mp found
  obtain ⟨b, mem, rfl, rfl⟩ := exists_binding_of_lookup own
  have field := Typed.Binding.isMethod_of_allUniform uniform b mem
  rw [Families.members, if_neg (by simp [field])]
  exact ⟨member b mem, member b mem⟩

/-- An object gets the members of its family: first the fields, and then the methods, which see the
fields. -/
theorem object_suits (describes : K.Describes H) {name : Option String} {fields : List Field}
    {methods : List Method} {members : ScopeId} {bs : List Typed.Binding}
    {ds : List Typed.Definition} {family : Nat} (known : K.family? members = some family)
    (entries : (H.bindings members).entries =
      bs.map Typed.Binding.entry ++ ds.map Typed.Definition.entry)
    (elaborates : Method.ElaborateAll H (Γ.members (bs.map Typed.Binding.entry))
      (.object name members) methods ds)
    (static : Typed.Definition.allStatic ds = true)
    (uniformFields : Typed.Binding.allUniform K σ family bs = true)
    (uniform : Typed.Definition.allUniform K
      (K.overlay (fun _ => none) (bs.map Typed.Binding.entry)) family
        (.object name members) ds = true)
    (suit : FieldsSuit K H call s σ U family fields) :
    SuitsKind K H call s σ U (.object name fields methods) (.object name members) := by
  intro L w shaped here
  have member : ∀ e ∈ (H.bindings members).entries, K.member? family e.1 = some (K.shape e.2) :=
    fun e mem => describes.members members family e.1 e.2 known (Bindings.find?_eq_some_of_mem mem)
  rw [entries, List.forall_mem_append, List.forall_mem_map, List.forall_mem_map] at member
  have seen : ∀ n t, (Γ.members (bs.map Typed.Binding.entry)).find? n = some t →
      K.member? family n = some (K.shape t) := by
    intro n t found
    rw [Env.find?, Env.bound, Env.members, List.append_nil] at found
    obtain ⟨b, mem, rfl, rfl⟩ := exists_binding_of_lookup found
    exact member.1 b mem
  rw [evaluateKind]
  refine .root_bind ?_
  have made : Leads K H ∅ L w.heap (L.make K w.heap.size family) (w.heap.root .empty).2 :=
    .root shaped family
  refine .bind (suit made.shaped (here.next made.toMoves) (L.family?_make_self K family)) ?_
  rintro _ w₂ ⟨L₂, leads₂⟩
  have object₂ := leads₂.object made.shaped (L.family?_make_self K family)
  have object : K.familyOf? (.object name members) = some family := known
  have fields := fun n x => fields_of_family (n := n) (x := x) uniformFields member.1
  refine .bind (defineMethods_shaped object fields elaborates static uniform seen member.2
    leads₂.shaped object₂) ?_
  intro _ w₃ leads₃
  have object₃ := leads₃.object leads₂.shaped object₂
  refine .pure ⟨L₂, made.trans (leads₂.trans leads₃), ?_⟩
  rw [Families.shape, known]
  exact Or.inr ⟨family, rfl, (leads₃.shaped.objects _ family object₃).1, object₃⟩

/-! ### The walk over expressions -/

mutual

theorem evaluate_shaped (describes : K.Describes H) (callee : Caller.Shaped K H call)
    (known : K.Matches σ Γ) : ∀ {e : Expr} {t : Typed.Expr}, e.Elaborates H Γ t →
      t.isStatic = true → t.isUniform K σ = true → t.uses ⊆ U → Suits K H call s σ U e t
  | ⟨node, kind⟩, t, elaborates, static, uniform, used => by
    rw [Expr.Elaborates] at elaborates
    rw [Typed.Expr.isStatic_iff] at static
    rw [Typed.Expr.isUniform_eq] at uniform
    rw [Typed.Expr.uses_eq] at used
    intro L w shaped here
    rw [evaluate]
    exact .located (evaluateKind_shaped describes callee known elaborates.2 static.1
      static.2 uniform used shaped here)

theorem evaluateKind_shaped (describes : K.Describes H) (callee : Caller.Shaped K H call)
    (known : K.Matches σ Γ) : ∀ {e : ExprKind} {k : Typed.ExprKind} {ty : Ty},
      e.Elaborates H Γ k ty → ty ≠ .dynamic → k.isStatic = true → k.isUniform K σ ty = true →
      k.uses ⊆ U → SuitsKind K H call s σ U e ty
  | .literal value, k, ty, _, _, _, _, _ => by
    intro L w shaped here
    rw [evaluateKind]
    exact .pure (.plain shaped (Value.isPlain_ofLiteral value))
  | .group inner, k, ty, elaborates, _, static, uniform, used => by
    rw [ExprKind.Elaborates] at elaborates
    obtain ⟨_, rfl, elaborates, rfl⟩ := elaborates
    rw [Typed.ExprKind.isStatic] at static
    rw [Typed.ExprKind.isUniform] at uniform
    rw [Typed.ExprKind.uses] at used
    intro L w shaped here
    rw [evaluateKind]
    exact evaluate_shaped describes callee known elaborates static uniform used shaped here
  | .binary op left right, k, ty, elaborates, _, static, uniform, used => by
    rw [ExprKind.Elaborates] at elaborates
    obtain ⟨l, r, rfl, leftOk, rightOk, _⟩ := elaborates
    rw [Typed.ExprKind.isStatic, Bool.and_eq_true] at static
    rw [Typed.ExprKind.isUniform, Bool.and_eq_true] at uniform
    rw [Typed.ExprKind.uses, List.append_subset] at used
    exact binary_suits
      (evaluate_shaped describes callee known leftOk static.1 uniform.1 used.1)
      (evaluate_shaped describes callee known rightOk static.2 uniform.2 used.2)
  | .variable name, k, ty, elaborates, _, _, uniform, used => by
    rw [ExprKind.Elaborates] at elaborates
    obtain ⟨rfl, bound⟩ := elaborates
    rw [Typed.ExprKind.isUniform] at uniform
    rw [Typed.ExprKind.uses, List.cons_subset] at used
    exact variable_suits known bound uniform used.1
  | .property receiver name, k, ty, elaborates, _, static, uniform, used => by
    rw [ExprKind.Elaborates] at elaborates
    obtain ⟨r, rfl, receiverOk, has⟩ := elaborates
    rw [Typed.ExprKind.isStatic] at static
    rw [Typed.ExprKind.isUniform, Bool.and_eq_true] at uniform
    rw [Typed.ExprKind.uses] at used
    exact property_suits describes
      (evaluate_shaped describes callee known receiverOk static uniform.1 used) uniform.2 has
  | .call name arguments, k, ty, elaborates, _, static, uniform, used => by
    rw [ExprKind.Elaborates] at elaborates
    obtain ⟨params, ts, rfl, bound, argumentsOk, accepts⟩ := elaborates
    rw [Typed.ExprKind.isStatic] at static
    rw [Typed.ExprKind.isUniform, Bool.and_eq_true] at uniform
    rw [Typed.ExprKind.uses, List.cons_subset] at used
    exact call_suits describes callee known bound uniform.1 used.1 accepts static
      (evaluateAll_shaped describes callee known argumentsOk static uniform.2 used.2)
  | .invoke receiver name arguments, k, ty, elaborates, notDynamic, static, uniform, used => by
    rw [ExprKind.Elaborates] at elaborates
    obtain ⟨r, ts, rfl, receiverOk, argumentsOk, judged⟩ := elaborates
    rw [Typed.ExprKind.isStatic, Bool.and_eq_true] at static
    rw [Typed.ExprKind.isUniform, Bool.and_eq_true, Bool.and_eq_true] at uniform
    rw [Typed.ExprKind.uses, List.append_subset] at used
    rcases judged with ⟨_, dynamic⟩ | ⟨params, has, accepts⟩
    · exact absurd dynamic notDynamic
    · exact invoke_suits describes callee
        (evaluate_shaped describes callee known receiverOk static.1 uniform.1.1 used.1) uniform.1.2
        has accepts static.2
        (evaluateAll_shaped describes callee known argumentsOk static.2 uniform.2 used.2)
  | .object name fields methods, k, ty, elaborates, _, static, uniform, used => by
    rw [ExprKind.Elaborates] at elaborates
    obtain ⟨members, bs, ds, rfl, rfl, _, _, entries, fieldsOk, methodsOk⟩ := elaborates
    rw [Typed.ExprKind.isStatic, Bool.and_eq_true] at static
    rw [Typed.ExprKind.isUniform] at uniform
    rw [Typed.ExprKind.uses] at used
    split at uniform
    case h_1 => cases uniform
    case h_2 family labelled =>
      rw [Bool.and_eq_true] at uniform
      have member : ∀ b ∈ bs, K.member? family b.name = some (K.shape b.ty) := fun b mem =>
        describes.members members family b.name b.ty labelled (Bindings.find?_eq_some_of_mem (by
          rw [entries]
          exact List.mem_append_left _ (List.mem_map_of_mem mem)))
      exact object_suits describes labelled entries methodsOk static.2 uniform.1 uniform.2
        (defineFields_shaped describes callee known fieldsOk static.1 uniform.1 member used)

theorem evaluateAll_shaped (describes : K.Describes H) (callee : Caller.Shaped K H call)
    (known : K.Matches σ Γ) : ∀ {es : List Expr} {ts : List Typed.Expr},
      Expr.ElaborateAll H Γ es ts → Typed.Expr.allStatic ts = true →
      Typed.Expr.allUniform K σ ts = true → Typed.Expr.allUses ts ⊆ U →
      SuitAll K H call s σ U es ts
  | [], ts, elaborates, _, _, _ => by
    rw [Expr.ElaborateAll] at elaborates
    intro L w shaped here
    rw [elaborates, evaluateAll]
    exact .pure ⟨L, .refl shaped, .nil⟩
  | e :: rest, ts, elaborates, static, uniform, used => by
    rw [Expr.ElaborateAll] at elaborates
    obtain ⟨t, more, rfl, first, following⟩ := elaborates
    rw [Typed.Expr.allStatic, Bool.and_eq_true] at static
    rw [Typed.Expr.allUniform, Bool.and_eq_true] at uniform
    rw [Typed.Expr.allUses, List.append_subset] at used
    intro L w shaped here
    rw [evaluateAll]
    refine .bind (evaluate_shaped describes callee known first static.1 uniform.1
      used.1 shaped here) fun v w₁ yields => ?_
    obtain ⟨L₁, leads₁, fits⟩ := yields
    refine .bind (evaluateAll_shaped describes callee known following static.2 uniform.2 used.2
      leads₁.shaped (here.next leads₁.toMoves)) fun vs w₂ yields => ?_
    obtain ⟨L₂, leads₂, all⟩ := yields
    exact .pure ⟨L₂, leads₁.trans leads₂, .cons (leads₂.fits fits) all⟩

theorem evaluateOption_shaped (describes : K.Describes H) (callee : Caller.Shaped K H call)
    (known : K.Matches σ Γ) {id : NodeId} : ∀ {name : String} {ty : Option String}
    {value : Option Expr} {b : Typed.Binding} {L : FamilyPlan} {w : World},
      Binding.Elaborates H Γ id ⟨name, ty, value⟩ b → b.isStatic = true →
      b.isUniform K σ = true → b.uses ⊆ U → w.heap.Shaped K H L → L.shapes.Sees w.heap s σ U →
      Ends NoCallFault (evaluateOption call s value) w (Fitting K H L w.heap (K.shape b.ty))
  | _, _, none, b, L, w, _, _, _, _, shaped, _ => by
    rw [evaluateOption]
    exact .pure (.plain shaped trivial)
  | _, _, some e, b, L, w, elaborates, static, uniform, used, shaped, here => by
    rw [Binding.Elaborates] at elaborates
    obtain ⟨_, _, t, initial, elaborates, below, _⟩ := elaborates
    have staticValue := Typed.Binding.isStatic_of_value initial static
    rw [Typed.Binding.uses_of_value initial] at used
    rw [evaluateOption]
    refine (evaluate_shaped describes callee known elaborates staticValue
      (Typed.Binding.isUniform_of_value initial uniform) used shaped here).mono ?_
    rintro v w₁ ⟨L₁, leads₁, fits⟩
    exact ⟨L₁, leads₁, fits.of_isSubtype describes (Typed.Expr.isStatic_iff.mp staticValue).1 below⟩

theorem defineFields_shaped (describes : K.Describes H) (callee : Caller.Shaped K H call)
    (known : K.Matches σ Γ) {family : Nat} : ∀ {fs : List Field} {bs : List Typed.Binding},
      Field.ElaborateAll H Γ fs bs → Typed.Binding.allStatic bs = true →
      Typed.Binding.allUniform K σ family bs = true →
      (∀ b ∈ bs, K.member? family b.name = some (K.shape b.ty)) → Typed.Binding.allUses bs ⊆ U →
      FieldsSuit K H call s σ U family fs
  | [], bs, _, _, _, _, _ => by
    intro members L w shaped here object
    rw [defineFields]
    exact .pure ⟨L, .refl shaped⟩
  | ⟨node, ⟨name, ty, value⟩⟩ :: rest, bs, elaborates, static, uniform, named, used => by
    rw [Field.ElaborateAll] at elaborates
    obtain ⟨b, more, rfl, first, following⟩ := elaborates
    rw [Typed.Binding.allStatic, Bool.and_eq_true] at static
    rw [Typed.Binding.allUniform, Bool.and_eq_true, Bool.and_eq_true, Bool.not_eq_true'] at uniform
    rw [Typed.Binding.allUses, List.append_subset] at used
    have same : b.name = name := first.name_eq
    intro members L w shaped here object
    rw [defineFields]
    refine .bind (evaluateOption_shaped describes callee known first static.1 uniform.1.2 used.1
      shaped here) fun v w₁ yields => ?_
    obtain ⟨L₁, leads₁, fits⟩ := yields
    have object₁ := leads₁.object shaped object
    have planned : K.members family name = some (K.shape b.ty) := by
      rw [Families.members, ← same, if_neg (by simp [uniform.1.1])]
      exact named b List.mem_cons_self
    have put : Leads K H ∅ L₁ w₁.heap L₁ (w₁.heap.put members name v) :=
      .put_member leads₁.shaped object₁ planned fits
    refine .bind (.located (.define_or_fail id)) ?_
    rintro _ _ ⟨_, rfl⟩
    refine (defineFields_shaped describes callee known following static.2 uniform.2
      (fun b mem => named b (List.mem_cons_of_mem _ mem)) used.2 put.shaped
      ((here.next leads₁.toMoves).next put.toMoves) object₁).mono ?_
    rintro _ w₃ ⟨L₃, leads₃⟩
    exact ⟨L₃, leads₁.trans (put.trans leads₃)⟩

end

/-! ## Statements -/

/-- What is on its way out of a function is of the shape of its result. -/
def FlowFits (K : Families) (H : Heap Ty) (L : FamilyPlan) (size : Nat) (returns : Option Ty) :
    Flow → Prop
  | .value _ => True
  | .returned v => ∃ t, returns = some t ∧ v.Fits K H L.shapes size L.family? (K.shape t)

/-- How a block in `s` ends. -/
def Finished (K : Families) (H : Heap Ty) (s : ScopeId) (returns : Option Ty) (L : FamilyPlan)
    (h : Heap Value) (flow : Flow) (w : World) : Prop :=
  ∃ L', Leads K H {s} L h L' w.heap ∧ FlowFits K H L' w.heap.size returns flow

/-- How a statement of the kind `k` ends in `s`: what follows it may run in `s`, and may use what
`k` declares. -/
def Proceeded (K : Families) (H : Heap Ty) (s : ScopeId) (σ : Shapes) (Γ : Env)
    (U C held : List String) (k : Typed.StmtKind) (L : FamilyPlan) (h : Heap Value) (flow : Flow)
    (w : World) : Prop :=
  ∃ L', Leads K H {s} L h L' w.heap ∧ FlowFits K H L' w.heap.size Γ.returns flow ∧
    Stands K L' w.heap s (K.overlay σ k.entries) (Γ.after k) (k.names ++ U) (k.names ++ C)
      (k.captures ++ held)

/-- A block that was checked in `Γ`, and found uniform with `σ`, ends well wherever it may run. -/
def BlockShaped (K : Families) (H : Heap Ty) (call : Caller) (σ : Shapes) (Γ : Env)
    (U C held : List String) (xs : List Stmt) : Prop :=
  ∀ ⦃s : ScopeId⦄ ⦃last : Value⦄ ⦃L : FamilyPlan⦄ ⦃w : World⦄, w.heap.Shaped K H L →
    Stands K L w.heap s σ Γ U C held →
    Ends NoCallFault (block call s last xs) w (Finished K H s Γ.returns L w.heap)

/-- A statement that declares nothing. -/
theorem Proceeded.of_stands {k : Typed.StmtKind} {flow : Flow} (nothing : k.entries = [])
    (leads : Leads K H {s} L h L' w.heap) (fits : FlowFits K H L' w.heap.size Γ.returns flow)
    (here : Stands K L' w.heap s σ Γ U C (k.captures ++ held)) :
    Proceeded K H s σ Γ U C held k L h flow w := by
  refine ⟨L', leads, fits, ?_⟩
  rw [Env.after_of_entries nothing, Typed.StmtKind.names, nothing, Families.overlay_nil]
  exact here

/-- What ends like an expression ends like a statement that declares nothing. -/
theorem Proceeded.of_leads {k : Typed.StmtKind} {flow : Flow} (nothing : k.entries = [])
    (here : Stands K L h s σ Γ U C held) (leads : Leads K H ∅ L h L' w.heap)
    (fits : FlowFits K H L' w.heap.size Γ.returns flow) :
    Proceeded K H s σ Γ U C held k L h flow w :=
  .of_stands nothing leads.widen fits ((here.next leads).mono (List.Subset.refl _)
    (List.Subset.refl _) (List.subset_append_right _ _))

/-- A block in a scope that was made for it. -/
theorem Finished.of_fresh {returns : Option Ty} {flow : Flow} {fresh : ScopeId}
    (made : Leads K H ∅ L h L' h') (young : h.size ≤ fresh)
    (finished : Finished K H fresh returns L' h' flow w) :
    ∃ L'', Leads K H ∅ L h L'' w.heap ∧ FlowFits K H L'' w.heap.size returns flow := by
  obtain ⟨L'', leads, fits⟩ := finished
  refine ⟨L'', made.trans_fresh leads ?_, fits⟩
  intro t mem old
  rw [Set.mem_singleton_iff.mp mem] at old
  exact absurd old (Nat.not_lt.mpr young)

/-! ### One lemma for each kind of statement -/

theorem letVar_shaped (describes : K.Describes H) (callee : Caller.Shaped K H call) {id : NodeId}
    {name : String} {ty : Option String} {value : Option Expr} {k : Typed.StmtKind}
    (elaborates : (StmtKind.letVar ⟨name, ty, value⟩).Elaborates H Γ id k)
    (static : k.isStatic = true) (uniform : k.isUniform K σ held = true) (used : k.uses ⊆ U)
    (shaped : w.heap.Shaped K H L) (here : Stands K L w.heap s σ Γ U C held) :
    Ends NoCallFault (executeKind call s (.letVar ⟨name, ty, value⟩)) w
      (Proceeded K H s σ Γ U C held k L w.heap) := by
  rw [StmtKind.Elaborates] at elaborates
  obtain ⟨b, rfl, bound, fresh⟩ := elaborates
  rw [Typed.StmtKind.isStatic] at static
  rw [Typed.StmtKind.isUniform, Bool.and_eq_true] at uniform
  rw [Typed.StmtKind.uses] at used
  have same : b.name = name := bound.name_eq
  rw [executeKind]
  refine .bind (evaluateOption_shaped describes callee here.known bound static uniform.1 used shaped
    here.toSees) fun v w₁ yields => ?_
  obtain ⟨L₁, leads₁, fits⟩ := yields
  have here₁ := here.next leads₁
  subst same
  refine .bind (.define_or_fail (fun fault => fault)) ?_
  rintro _ _ ⟨unbound, rfl⟩
  have planned := here₁.eq_of_admits unbound fresh uniform.2
  obtain ⟨leads₂, here₂⟩ := here₁.declare leads₁.shaped fresh planned
    (fits.mono (.declare planned) (Nat.le_refl _) fun _ _ => rfl)
  exact .pure ⟨_, leads₁.widen.trans leads₂, trivial,
    here₂.mono (List.Subset.refl _) (List.Subset.refl _) (List.subset_append_right _ _)⟩

/-- What a function uses is planned when it is defined, so that its body may run at any time. -/
theorem defFun_shaped {id : NodeId} {d : Definition} {k : Typed.StmtKind}
    (elaborates : (StmtKind.defFun d).Elaborates H Γ id k) (static : k.isStatic = true)
    (uniform : k.isUniform K σ held = true) (used : k.uses ⊆ U) (captured : k.captures ⊆ C)
    (shaped : w.heap.Shaped K H L) (here : Stands K L w.heap s σ Γ U C held) :
    Ends NoCallFault (executeKind call s (.defFun d)) w
      (Proceeded K H s σ Γ U C held k L w.heap) := by
  rw [StmtKind.Elaborates] at elaborates
  obtain ⟨t, rfl, defined⟩ := elaborates
  rw [Typed.StmtKind.isStatic] at static
  rw [Typed.StmtKind.isUniform, Bool.and_eq_true] at uniform
  have same : t.name = d.name := defined.name_eq
  have fresh : t.name ∉ Γ.own.map Prod.fst := same ▸ defined.fresh
  rw [executeKind]
  refine .bind (.checkParameters defined) ?_
  rintro _ w rfl
  -- What the function uses is planned, but for itself: it is declared next.
  obtain ⟨L₁, leads₁, here₁, promises⟩ := here.promise shaped
    (List.Subset.trans (Typed.StmtKind.captures_subset _) used) captured
  rw [Typed.StmtKind.captures] at promises
  have apart : t.name ∉ t.uses.removeAll [t.name] := by simp [List.removeAll]
  have admits := Meanings.admits_append uniform.1 apart
  rw [← same]
  refine .bind (.define_or_fail (fun fault => fault)) ?_
  rintro _ _ ⟨unbound, rfl⟩
  have agreed := here₁.eq_of_admits unbound fresh admits
  have checked : (⟨d, s, false⟩ : Closure).Checked K H (L₁.shapes.declare s t.name (K.shape t.ty))
      w.heap.size Γ (K.overlay σ [t.entry]) none t :=
    ⟨here.inside, ⟨id, defined⟩, rfl, static, uniform.2, here.known.declare fresh,
      promises.declare (Families.overlay_self σ t.name t.ty) fun _ ne =>
        Families.overlay_of_ne σ ne t.ty⟩
  have fits : (Value.function (.closure ⟨d, s, false⟩)).Fits K H
      (L₁.shapes.declare s t.name (K.shape t.ty)) w.heap.size L₁.family? (K.shape t.ty) := by
    refine Or.inr ⟨_, _, ?_, _, _, none, t, checked, rfl, rfl⟩
    rw [Typed.Definition.ty, Families.shape_function, List.map_map]
    rfl
  obtain ⟨leads₂, here₂⟩ := here₁.declare leads₁.shaped fresh agreed fits
  exact .pure ⟨_, leads₁.trans leads₂, trivial, here₂⟩

/-- What the branches capture is planned before either runs, so it is planned after both. -/
theorem ifElse_shaped {condition : Expr} {thenBody elseBody : List Stmt} {c : Typed.Expr}
    {a b : List Typed.Stmt} (suits : Suits K H call s σ U condition c)
    (used : (Typed.StmtKind.ifElse c a b).uses ⊆ U)
    (captured : (Typed.StmtKind.ifElse c a b).captures ⊆ C)
    (thenEnds : BlockShaped K H call σ (Γ.inside []) (Typed.Stmt.allUses a)
      (Typed.Stmt.allCaptures a) [] thenBody)
    (elseEnds : BlockShaped K H call σ (Γ.inside []) (Typed.Stmt.allUses b)
      (Typed.Stmt.allCaptures b) [] elseBody)
    (shaped : w.heap.Shaped K H L) (here : Stands K L w.heap s σ Γ U C held) :
    Ends NoCallFault (executeKind call s (.ifElse condition thenBody elseBody)) w
      (Proceeded K H s σ Γ U C held (.ifElse c a b) L w.heap) := by
  have within := List.Subset.trans (Typed.StmtKind.captures_subset (.ifElse c a b)) used
  have parts : (Typed.StmtKind.ifElse c a b).captures =
      Typed.Stmt.allCaptures a ++ Typed.Stmt.allCaptures b := by rw [Typed.StmtKind.captures]
  rw [Typed.StmtKind.uses, List.append_subset, List.append_subset] at used
  refine .ifElse ((suits shaped here.toSees).mono ?_)
  rintro v w₁ ⟨L₁, leads₁, _⟩
  obtain ⟨L₂, leads₂, here₂, promises⟩ := (here.next leads₁).promise leads₁.shaped within captured
  obtain ⟨made, inside⟩ := Stands.fresh here₂.toSees leads₂.shaped promises here.known
  have ended : ∀ flow w₂, Finished K H w₁.heap.size Γ.returns
      ⟨L₂.family?, L₂.shapes.lay w₁.heap.size fun _ => none⟩ (w₁.heap.child s .empty).2 flow w₂ →
      Proceeded K H s σ Γ U C held (.ifElse c a b) L w.heap flow w₂ := by
    intro flow w₂ finished
    obtain ⟨L₃, leads₃, fits⟩ := Finished.of_fresh made (Nat.le_refl _) finished
    exact .of_stands rfl (leads₁.widen.trans (leads₂.trans leads₃.widen)) fits (here₂.next leads₃)
  rw [parts] at inside
  refine ⟨fun _ => ?_, fun _ => ?_, fun _ fault => fault⟩
  · exact (thenEnds made.shaped (inside.mono used.1.2 (List.subset_append_left _ _)
      (List.Subset.refl _))).mono ended
  · exact (elseEnds made.shaped (inside.mono used.2 (List.subset_append_right _ _)
      (List.Subset.refl _))).mono ended

theorem overElements_shaped {name : String} {ty : Ty} {body : List Stmt}
    {uses captures : List String} (known : K.Matches σ Γ)
    (bodyEnds : BlockShaped K H call (K.overlay σ [(name, ty)])
      (Γ.inside [(name, ty)]) uses captures [] body)
    (used : uses ⊆ name :: U) (captured : captures ⊆ name :: C) :
    ∀ {elements : List Value} {L : FamilyPlan} {w : World}, (∀ v ∈ elements, ∃ n, v = .integer n) →
      w.heap.Shaped K H L → L.shapes.Sees w.heap s σ U → L.shapes.Promises s σ C →
      Ends NoCallFault (overElements s name (fun inner => block call inner .nil body) elements) w
        fun flow w' => ∃ L', Leads K H ∅ L w.heap L' w'.heap ∧
          FlowFits K H L' w'.heap.size Γ.returns flow := by
  intro elements
  induction elements with
  | nil => exact fun _ shaped _ _ => .pure ⟨_, .refl shaped, trivial⟩
  | cons v rest ih =>
    intro L w integers shaped here promises
    obtain ⟨n, rfl⟩ := integers v List.mem_cons_self
    obtain ⟨L₁, made, inside⟩ := Stands.body (Γ.inside [(name, ty)]) [(name, ty)]
      (b := .ofList [(name, .integer n)]) here shaped promises
      (fun m => by rw [Bindings.mem_names_ofList]; simp)
      (fun m v found => by
        obtain ⟨rfl, rfl⟩ := Bindings.eq_of_find?_single found
        exact ⟨ty, List.lookup_cons_self, .of_plain trivial⟩)
      used captured (known.inside [(name, ty)])
    refine .child_bind (.child_bind (.bind (bodyEnds made.shaped inside) ?_))
    intro flow w₁ finished
    obtain ⟨L₂, leads, fits⟩ :=
      Finished.of_fresh made (Nat.le_of_lt (Heap.lt_size_child ..)) finished
    cases flow with
    | returned v => exact .pure ⟨L₂, leads, fits⟩
    | value v =>
      refine (ih (fun v mem => integers v (List.mem_cons_of_mem _ mem)) leads.shaped
        (here.next leads.toMoves) (promises.next here.inside leads.toMoves)).mono ?_
      rintro flow w₂ ⟨L₃, second, fits⟩
      exact ⟨L₃, leads.trans second, fits⟩

/-- What the body captures is planned before the loop, so that every round finds it planned. -/
theorem forEach_shaped {name : String} {ty : Ty} {iterable : Expr} {body : List Stmt}
    {i : Typed.Expr} {b : List Typed.Stmt} (suits : Suits K H call s σ U iterable i)
    (used : (Typed.StmtKind.forEach name ty i b).uses ⊆ U)
    (captured : (Typed.StmtKind.forEach name ty i b).captures ⊆ C)
    (bodyEnds : BlockShaped K H call (K.overlay σ [(name, ty)]) (Γ.inside [(name, ty)])
      (Typed.Stmt.allUses b) (Typed.Stmt.allCaptures b) [] body)
    (shaped : w.heap.Shaped K H L) (here : Stands K L w.heap s σ Γ U C held) :
    Ends NoCallFault (executeKind call s (.forEach name iterable body)) w
      (Proceeded K H s σ Γ U C held (.forEach name ty i b) L w.heap) := by
  have within := List.Subset.trans (Typed.StmtKind.captures_subset (.forEach name ty i b)) used
  have part : (Typed.StmtKind.forEach name ty i b).captures =
      (Typed.Stmt.allCaptures b).removeAll [name] := by rw [Typed.StmtKind.captures]
  have captures :
      Typed.Stmt.allCaptures b ⊆ [name] ++ (Typed.Stmt.allCaptures b).removeAll [name] :=
    removeAll_subset_iff.mp (List.Subset.refl _)
  rw [Typed.StmtKind.uses, List.append_subset] at used
  rw [executeKind]
  refine .bind (suits shaped here.toSees) fun v w₁ yields => ?_
  obtain ⟨L₁, leads₁, fits⟩ := yields
  obtain ⟨L₂, leads₂, here₂, promises⟩ := (here.next leads₁).promise leads₁.shaped within captured
  rw [part] at promises
  split
  · refine (overElements_shaped here.known bodyEnds (removeAll_subset_iff.mp used.2) captures fits
      leads₂.shaped here₂.toSees promises).mono ?_
    rintro flow w₂ ⟨L₃, leads₃, fits⟩
    exact .of_stands rfl (leads₁.widen.trans (leads₂.trans leads₃.widen)) fits (here₂.next leads₃)
  · exact .failAt (fun fault => fault)

theorem returns_shaped (describes : K.Describes H) (callee : Caller.Shaped K H call) {id : NodeId}
    {e : Option Expr} {k : Typed.StmtKind} (elaborates : (StmtKind.returns e).Elaborates H Γ id k)
    (static : k.isStatic = true) (uniform : k.isUniform K σ held = true) (used : k.uses ⊆ U)
    (shaped : w.heap.Shaped K H L) (here : Stands K L w.heap s σ Γ U C held) :
    Ends NoCallFault (executeKind call s (.returns e)) w
      (Proceeded K H s σ Γ U C held k L w.heap) := by
  cases e with
  | none =>
    rw [StmtKind.Elaborates] at elaborates
    obtain ⟨expected, rfl, same, _⟩ := elaborates
    rw [executeKind, evaluateOption]
    exact .pure (.of_leads rfl here (.refl shaped) ⟨expected, same, .of_plain trivial⟩)
  | some e =>
    rw [StmtKind.Elaborates] at elaborates
    obtain ⟨expected, t, rfl, same, elaborates, below⟩ := elaborates
    rw [Typed.StmtKind.isStatic] at static
    rw [Typed.StmtKind.isUniform] at uniform
    rw [Typed.StmtKind.uses] at used
    rw [executeKind, evaluateOption]
    refine .bind (evaluate_shaped describes callee here.known elaborates static uniform used shaped
      here.toSees) fun v w₁ yields => ?_
    obtain ⟨L₁, leads₁, fits⟩ := yields
    exact .pure (.of_leads rfl here leads₁ ⟨expected, same,
      fits.of_isSubtype describes (Typed.Expr.isStatic_iff.mp static).1 below⟩)

theorem assignVariable_shaped (known : K.Matches σ Γ) {node : NodeRef} {name : String} {ty : Ty}
    (bound : Γ.find? name = some ty) (visible : (σ name).isSome = true) (used : name ∈ U)
    (shaped : w.heap.Shaped K H L) (here : L.shapes.Sees w.heap s σ U)
    (fits : v.Fits K H L.shapes w.heap.size L.family? (K.shape ty)) :
    Ends NoCallFault (assign call s ⟨node, .variable name⟩ v) w fun _ w' =>
      Leads K H ∅ L w.heap L w'.heap := by
  obtain ⟨x, visible⟩ := Option.isSome_iff_exists.mp visible
  obtain rfl := known name ty x bound visible
  unfold assign
  refine .read_bind ?_
  cases owner : w.heap.owner? s name with
  | none => exact .failAt id
  | some o =>
    have planned := here.agrees name used _ visible
    rw [Heap.reach_of_owner? owner] at planned
    exact .put (.put shaped (Heap.binds_iff.mp (Heap.binds_of_owner? owner)) planned fits)

/-- The object may inherit the member. It is given one of its own, of the same shape. -/
theorem assignProperty_shaped (describes : K.Describes H) {node : NodeRef} {name : String}
    {receiver : Expr} {r : Typed.Expr} {ty : Ty} (suits : Suits K H call s σ U receiver r)
    (field : K.has false r.ty name = true) (has : HasMember H r.ty name .property ty)
    (shaped : w.heap.Shaped K H L) (here : L.shapes.Sees w.heap s σ U)
    (fits : v.Fits K H L.shapes w.heap.size L.family? (K.shape ty)) :
    Ends NoCallFault (assign call s ⟨node, .property receiver name⟩ v) w fun _ w' =>
      ∃ L', Leads K H ∅ L w.heap L' w'.heap := by
  obtain ⟨family, known, field⟩ := K.exists_of_has field
  unfold assign
  refine .bind (suits shaped here) fun object w₁ yields => ?_
  obtain ⟨L₁, leads₁, objectFits⟩ := yields
  refine .bind (membersOf_shaped known objectFits) ?_
  rintro m w₁ ⟨rfl, object₁⟩
  refine .read_bind ?_
  cases Value.lookup w₁.heap m name with
  | none => exact .failAt id
  | some _ =>
    have planned : K.members family name = some (K.shape ty) := by
      rw [Families.members, if_neg (by simp [field])]
      exact describes.member known has
    exact .put ⟨L₁, leads₁.trans (.put_member leads₁.shaped object₁ planned (leads₁.fits fits))⟩

theorem assign_shaped (describes : K.Describes H) (callee : Caller.Shaped K H call) {id : NodeId}
    {target : Expr} {value : Expr} {k : Typed.StmtKind}
    (elaborates : (StmtKind.assign target value).Elaborates H Γ id k) (static : k.isStatic = true)
    (uniform : k.isUniform K σ held = true) (used : k.uses ⊆ U) (shaped : w.heap.Shaped K H L)
    (here : Stands K L w.heap s σ Γ U C held) :
    Ends NoCallFault (executeKind call s (.assign target value)) w
      (Proceeded K H s σ Γ U C held k L w.heap) := by
  obtain ⟨node, kind⟩ := target
  obtain ⟨ty, t, valueOk, below, target⟩ := elaborates.assign
  rw [executeKind]
  rcases target with ⟨name, rfl, rfl, bound⟩ | ⟨receiver, name, r, rfl, rfl, receiverOk, has⟩
  · rw [Typed.StmtKind.isStatic] at static
    rw [Typed.StmtKind.isUniform, Bool.and_eq_true] at uniform
    rw [Typed.StmtKind.uses, List.cons_subset] at used
    refine .bind (evaluate_shaped describes callee here.known valueOk static
      uniform.2 used.2 shaped here.toSees) fun v w₁ yields => ?_
    obtain ⟨L₁, leads₁, fits⟩ := yields
    refine .bind (assignVariable_shaped here.known bound uniform.1 used.1 leads₁.shaped
      (here.next leads₁).toSees
      (fits.of_isSubtype describes (Typed.Expr.isStatic_iff.mp static).1 below)) ?_
    intro _ w₂ leads₂
    exact .pure (.of_leads rfl here (leads₁.trans leads₂) trivial)
  · rw [Typed.StmtKind.isStatic, Bool.and_eq_true] at static
    rw [Typed.StmtKind.isUniform, Bool.and_eq_true, Bool.and_eq_true] at uniform
    rw [Typed.StmtKind.uses, List.append_subset] at used
    refine .bind (evaluate_shaped describes callee here.known valueOk static.2
      uniform.2 used.2 shaped here.toSees) fun v w₁ yields => ?_
    obtain ⟨L₁, leads₁, fits⟩ := yields
    have receiverSuits := evaluate_shaped (s := s) describes callee here.known receiverOk static.1
      uniform.1.1 used.1
    refine .bind (assignProperty_shaped describes receiverSuits uniform.1.2 has leads₁.shaped
      (here.next leads₁).toSees
      (fits.of_isSubtype describes (Typed.Expr.isStatic_iff.mp static.2).1 below)) ?_
    rintro _ w₂ ⟨L₂, leads₂⟩
    exact .pure (.of_leads rfl here (leads₁.trans leads₂) trivial)

/-! ### The walk over statements -/

mutual

theorem execute_shaped (describes : K.Describes H) (callee : Caller.Shaped K H call) :
    ∀ {x : Stmt} {t : Typed.Stmt} {Γ : Env} {s : ScopeId} {σ : Shapes} {U C held : List String}
      {L : FamilyPlan} {w : World}, x.Elaborates H Γ t → t.isStatic = true →
      t.isUniform K σ held = true → t.uses ⊆ U → t.captures ⊆ C → w.heap.Shaped K H L →
      Stands K L w.heap s σ Γ U C held →
      Ends NoCallFault (execute call s x) w (Proceeded K H s σ Γ U C held t.kind L w.heap)
  | ⟨node, kind⟩, t, Γ, s, σ, U, C, held, L, w, elaborates, static, uniform, used, captured, shaped,
      here => by
    rw [Stmt.Elaborates] at elaborates
    rw [Typed.Stmt.isStatic_eq] at static
    rw [Typed.Stmt.isUniform_eq] at uniform
    rw [Typed.Stmt.uses_eq] at used
    rw [Typed.Stmt.captures_eq] at captured
    rw [execute]
    exact .located (executeKind_shaped describes callee elaborates.2 static uniform used captured
      shaped here)

theorem executeKind_shaped (describes : K.Describes H) (callee : Caller.Shaped K H call)
    {id : NodeId} : ∀ {x : StmtKind} {k : Typed.StmtKind} {Γ : Env} {s : ScopeId} {σ : Shapes}
    {U C held : List String} {L : FamilyPlan} {w : World}, x.Elaborates H Γ id k →
      k.isStatic = true →
      k.isUniform K σ held = true → k.uses ⊆ U → k.captures ⊆ C → w.heap.Shaped K H L →
      Stands K L w.heap s σ Γ U C held →
      Ends NoCallFault (executeKind call s x) w (Proceeded K H s σ Γ U C held k L w.heap)
  | .letVar ⟨name, ty, value⟩, k, Γ, s, σ, U, C, held, L, w, elaborates, static, uniform, used, _,
      shaped, here =>
    letVar_shaped describes callee elaborates static uniform used shaped here
  | .defFun d, k, Γ, s, σ, U, C, held, L, w, elaborates, static, uniform, used, captured, shaped,
      here =>
    defFun_shaped elaborates static uniform used captured shaped here
  | .ifElse condition thenBody elseBody, k, Γ, s, σ, U, C, held, L, w, elaborates, static, uniform,
      used, captured, shaped, here => by
    rw [StmtKind.Elaborates] at elaborates
    obtain ⟨c, a, b, rfl, conditionOk, _, thenOk, elseOk⟩ := elaborates
    rw [Typed.StmtKind.isStatic, Bool.and_eq_true, Bool.and_eq_true] at static
    rw [Typed.StmtKind.isUniform, Bool.and_eq_true, Bool.and_eq_true] at uniform
    have parts := used
    rw [Typed.StmtKind.uses, List.append_subset, List.append_subset] at parts
    exact ifElse_shaped (evaluate_shaped describes callee here.known conditionOk static.1.1
      uniform.1.1 parts.1.1) used captured
      (block_shaped describes callee thenOk static.1.2 uniform.1.2 (List.Subset.refl _)
        (List.Subset.refl _))
      (block_shaped describes callee elseOk static.2 uniform.2 (List.Subset.refl _)
        (List.Subset.refl _)) shaped here
  | .forEach name iterable body, k, Γ, s, σ, U, C, held, L, w, elaborates, static, uniform, used,
      captured, shaped, here => by
    rw [StmtKind.Elaborates] at elaborates
    obtain ⟨ty, i, b, rfl, iterableOk, _, _, bodyOk⟩ := elaborates
    rw [Typed.StmtKind.isStatic, Bool.and_eq_true, Bool.and_eq_true] at static
    rw [Typed.StmtKind.isUniform, Bool.and_eq_true] at uniform
    have parts := used
    rw [Typed.StmtKind.uses, List.append_subset] at parts
    exact forEach_shaped (evaluate_shaped describes callee here.known iterableOk
      static.1.2 uniform.1 parts.1) used captured
      (block_shaped describes callee bodyOk static.2 uniform.2 (List.Subset.refl _)
        (List.Subset.refl _)) shaped here
  | .returns e, k, Γ, s, σ, U, C, held, L, w, elaborates, static, uniform, used, _, shaped, here =>
    returns_shaped describes callee elaborates static uniform used shaped here
  | .expr e, k, Γ, s, σ, U, C, held, L, w, elaborates, static, uniform, used, _, shaped, here => by
    rw [StmtKind.Elaborates] at elaborates
    obtain ⟨t, rfl, elaborates⟩ := elaborates
    rw [Typed.StmtKind.isStatic] at static
    rw [Typed.StmtKind.isUniform] at uniform
    rw [Typed.StmtKind.uses] at used
    rw [executeKind]
    refine .bind (evaluate_shaped describes callee here.known elaborates static uniform used shaped
      here.toSees) fun v w₁ yields => ?_
    obtain ⟨L₁, leads₁, _⟩ := yields
    exact .pure (.of_leads rfl here leads₁ trivial)
  | .assign target value, k, Γ, s, σ, U, C, held, L, w, elaborates, static, uniform,
      used, _, shaped, here =>
    assign_shaped describes callee elaborates static uniform used shaped here

theorem block_shaped (describes : K.Describes H) (callee : Caller.Shaped K H call) :
    ∀ {xs : List Stmt} {ts : List Typed.Stmt} {Γ : Env} {σ : Shapes} {U C held : List String},
      Stmt.ElaborateAll H Γ xs ts → Typed.Stmt.allStatic ts = true →
      Typed.Stmt.allUniform K σ held ts = true → Typed.Stmt.allUses ts ⊆ U →
      Typed.Stmt.allCaptures ts ⊆ C → BlockShaped K H call σ Γ U C held xs
  | [], ts, Γ, σ, U, C, held, _, _, _, _, _ => by
    intro s last L w shaped here
    rw [block]
    exact .pure ⟨L, .refl shaped, trivial⟩
  | x :: rest, ts, Γ, σ, U, C, held, elaborates, static, uniform, used, captured => by
    rw [Stmt.ElaborateAll] at elaborates
    obtain ⟨t, more, rfl, first, following⟩ := elaborates
    rw [Typed.Stmt.allStatic, Bool.and_eq_true] at static
    rw [Typed.Stmt.allUniform, Bool.and_eq_true] at uniform
    rw [Typed.Stmt.allUses, List.append_subset] at used
    rw [Typed.Stmt.allCaptures, List.append_subset] at captured
    intro s last L w shaped here
    rw [block]
    refine .bind (execute_shaped describes callee first static.1 uniform.1 used.1 captured.1 shaped
      here) fun flow w₁ proceeds => ?_
    obtain ⟨L₁, leads₁, fits, here₁⟩ := proceeds
    cases flow with
    | returned v => exact .pure ⟨L₁, leads₁, fits⟩
    | value v =>
      rw [← Typed.Stmt.captures_eq] at here₁
      refine (block_shaped describes callee following static.2 uniform.2
        (removeAll_subset_iff.mp used.2) (removeAll_subset_iff.mp captured.2) leads₁.shaped
        here₁).mono ?_
      rintro flow w₂ ⟨L₂, leads₂, fits⟩
      exact ⟨L₂, leads₁.trans leads₂, fits⟩

end

/-! ## Calls of closures -/

/-- A body may run in the scopes that a call makes for it. -/
theorem Stands.called {f : Closure} {arguments : List Value} {d : Typed.Definition} {id : NodeId}
    {this : Option Ty} (checked : f.Checked K H L.shapes h.size Γ σ this d)
    (elaborates : f.definition.Elaborates H Γ id this d) (shaped : h.Shaped K H L)
    (all : List.Forall₂ (fun v t => v.Fits K H L.shapes h.size L.family? (K.shape t)) arguments
      ((Γ.body this d).own.map Prod.snd)) :
    let bound := (h.child f.captured (.ofList (f.boundNames.zip arguments))).2
    ∃ L', Leads K H ∅ L h L' (bound.child h.size .empty).2 ∧
      Stands K L' (bound.child h.size .empty).2 bound.size (K.overlay σ (Γ.body this d).own)
        (Γ.body this d) (Typed.Stmt.allUses d.body) (Typed.Stmt.allCaptures d.body) [] := by
  have names := boundNames_eq Γ checked.kind elaborates.paramNames_eq
  have long : f.boundNames.length ≤ arguments.length := by
    rw [all.length_eq, ← names, List.length_map, List.length_map]
  have uses := d.allUses_subset Γ this
  refine Stands.body (Γ.body this d) (Γ.body this d).own
    (.of_promises shaped.toFollows checked.inside checked.kept) shaped checked.kept ?_ ?_ uses
    (List.Subset.trans (Typed.Stmt.allCaptures_subset _) uses) (checked.known.inside _)
  · intro n
    rw [Bindings.mem_names_ofList, List.map_fst_zip long, names]
  · intro n v found
    have mem := Bindings.mem_of_find?_ofList found
    rw [← names] at mem
    exact exists_lookup_of_mem_zip elaborates.nodup_own all mem

theorem enter_shaped (describes : K.Describes H) (callee : Caller.Shaped K H call) :
    Caller.Shaped K H (enter call) := by
  intro f arguments params result L w shaped accepts all
  obtain ⟨Γ, σ, this, d, checked, rfl, rfl⟩ := accepts
  obtain ⟨id, elaborates⟩ := checked.elaborates
  have names := boundNames_eq Γ checked.kind elaborates.paramNames_eq
  have all' : List.Forall₂ (fun v t => v.Fits K H L.shapes w.heap.size L.family? (K.shape t))
      arguments ((Γ.body this d).own.map Prod.snd) := by
    rw [← List.forall₂_map_right_iff, boundTypes_eq, List.map_append, List.map_map,
      ← Option.toList_map]
    exact all
  -- There are as many arguments as the closure takes, so none of its complaints comes up.
  have count : arguments.length = f.arity := by
    rw [all'.length_eq, List.length_map, ← f.length_boundNames, ← names, List.length_map]
  refine .enter (fun method none => ?_) (fun differ => absurd count differ) (fun method => ?_)
    fun _ => ?_
  · rw [none, Closure.arity, method] at count
    cases count
  · rw [← method, checked.kind]
    exact .checkParameters elaborates
  · have uniform := checked.uniform
    rw [Typed.Definition.isUniform_eq] at uniform
    obtain ⟨L₁, made, here⟩ := Stands.called checked elaborates shaped all'
    refine .child_bind (.child_bind (.bind (block_shaped describes callee elaborates.body
      (Typed.Definition.isStatic_body checked.static) uniform (List.Subset.refl _)
      (List.Subset.refl _) made.shaped here) ?_))
    intro flow w₁ finished
    obtain ⟨L₂, leads, fits⟩ :=
      Finished.of_fresh made (Nat.le_of_lt (Heap.lt_size_child ..)) finished
    cases flow with
    | value v => exact .pure ⟨L₂, leads, .of_plain trivial⟩
    | returned v =>
      obtain ⟨u, same, fits⟩ := fits
      have same' : some d.returns = some u := same
      obtain rfl := Option.some.inj same'
      exact .pure ⟨L₂, leads, fits⟩

theorem callClosure_shaped (describes : K.Describes H) :
    ∀ depth, Caller.Shaped K H (callClosure depth)
  | 0 => fun _ _ _ _ _ _ _ _ _ => .tooDeep trivial
  | depth + 1 => enter_shaped describes (callClosure_shaped describes depth)

/-! ## Scripts -/

theorem statements_shaped (describes : K.Describes H) (callee : Caller.Shaped K H call) :
    ∀ {xs : List Stmt} {ts : List Typed.Stmt} {Γ : Env} {σ : Shapes} {U C held : List String}
    {L : FamilyPlan} {w : World} {last : Value}, Stmt.ElaborateAll H Γ xs ts →
      Typed.Stmt.allStatic ts = true → Typed.Stmt.allUniform K σ held ts = true →
      Typed.Stmt.allUses ts ⊆ U → Typed.Stmt.allCaptures ts ⊆ C → w.heap.Shaped K H L →
      Stands K L w.heap s σ Γ U C held →
      Ends NoCallFault (statements call s last xs) w fun _ _ => True
  | [], _, _, _, _, _, _, _, _, _, _, _, _, _, _, _, _ => .pure trivial
  | x :: rest, ts, Γ, σ, U, C, held, L, w, last, elaborates, static, uniform, used,
      captured, shaped, here => by
    rw [Stmt.ElaborateAll] at elaborates
    obtain ⟨t, more, rfl, first, following⟩ := elaborates
    rw [Typed.Stmt.allStatic, Bool.and_eq_true] at static
    rw [Typed.Stmt.allUniform, Bool.and_eq_true] at uniform
    rw [Typed.Stmt.allUses, List.append_subset] at used
    rw [Typed.Stmt.allCaptures, List.append_subset] at captured
    rw [statements]
    refine .bind (execute_shaped describes callee first static.1 uniform.1 used.1 captured.1 shaped
      here) fun flow w₁ proceeds => ?_
    obtain ⟨L₁, leads₁, _, here₁⟩ := proceeds
    cases flow with
    | returned v => exact .failAt (fun fault => fault)
    | value v =>
      rw [← Typed.Stmt.captures_eq] at here₁
      exact statements_shaped describes callee following static.2 uniform.2
        (removeAll_subset_iff.mp used.2) (removeAll_subset_iff.mp captured.2) leads₁.shaped here₁

end Run

end GradualScript
