/-
# GradualScript.Proofs.Run.Sequences -- sequences hold integers, and printing ends

A sequence can be made in one way only, by `range`, and then it holds integers. No constructor of
values says so: it is kept by everything that a script can do. Two things rest on it. A loop binds
integers, which is what the checker takes its variable for. And a value can be printed: the text of
a value opens sequences, their elements, and the members of an object unless these are objects
again, so it would go on for ever for an object that holds a sequence with that object in it.

`displayWithin` and `layoutWithin` open values in this way, as far as they are allowed to. On all
values of a run they are done after three and two values that are nested in each other, however the
objects refer to each other, and the result is the printed form.
-/

import GradualScript.Proofs.Check.Succeeds
import GradualScript.Proofs.Run.Environment
import GradualScript.Proofs.Run.Lineage

namespace GradualScript

open Text (Layout)

theorem mapM_eq_some_map {α β : Type} {f : α → Option β} {g : α → β} :
    ∀ {xs : List α}, (∀ x ∈ xs, f x = some (g x)) → xs.mapM f = some (xs.map g)
  | [], _ => rfl
  | x :: xs, same => by
    rw [List.mapM_cons, same x List.mem_cons_self,
      mapM_eq_some_map fun y mem => same y (List.mem_cons_of_mem x mem)]
    rfl

namespace Value

/-! ## Opening values -/

/-- The value of a member as it stands in the text of its object: another object goes by its
name. -/
def memberText (text : Value → Option String) : Value → Option String
  | .object name _ => some (name.getD Ty.unnamed)
  | v => text v

/-- The printed form of a value, if at most `n` values have to be opened inside each other: a
sequence with its elements, an object with those of its members that are no functions. -/
def displayWithin (h : Heap Value) : Nat → Value → Option String
  | 0, _ => none
  | n + 1, .iterable vs =>
    (vs.mapM (displayWithin h n)).map fun words => "[" ++ commaSeparated words ++ "]"
  | n + 1, .object name members =>
    let fields := (h.bindings members).entries.filter fun e => !e.2.isFunction
    let title := name.getD Ty.unnamed
    (fields.mapM fun e => (memberText (displayWithin h n) e.2).map fun text =>
      e.1 ++ ": " ++ text).map fun words =>
        if fields.isEmpty then title ++ " \x7b\x7d"
        else title ++ " \x7b " ++ commaSeparated words ++ " \x7d"
  | _ + 1, v => some (brief v)

/-- The debugging view of a value, if at most `n` values have to be opened inside each other. An
object shows the names of its members, so only sequences are opened. -/
def layoutWithin (h : Heap Value) : Nat → Value → Option Layout
  | 0, _ => none
  | n + 1, .iterable vs =>
    (vs.mapM (layoutWithin h n)).map fun items => dataLayout "Iterable" (.list items)
  | _ + 1, v => some (layout h v)

/-- A value that holds integers if it is a sequence, and whose texts come to an end. -/
structure Printable (h : Heap Value) (v : Value) : Prop where
  integers : ∀ vs, v = .iterable vs → ∀ u ∈ vs, ∃ n, u = .integer n
  display : displayWithin h 3 v = some (v.display h)
  layout : layoutWithin h 2 v = some (v.layout h)

/-- A sequence holds integers. -/
def IsFlat : Value → Prop
  | .iterable vs => ∀ v ∈ vs, ∃ n, v = .integer n
  | _ => True

/-! ## Flat values -/

theorem briefList_eq_map : ∀ vs, briefList vs = vs.map brief
  | [] => rfl
  | v :: vs => by rw [briefList, briefList_eq_map vs, List.map_cons]

theorem displayList_eq_map (h : Heap Value) : ∀ vs, displayList h vs = vs.map (display h)
  | [] => rfl
  | v :: vs => by rw [displayList, displayList_eq_map h vs, List.map_cons]

theorem layoutList_eq_map (h : Heap Value) : ∀ vs, layoutList h vs = vs.map (layout h)
  | [] => rfl
  | v :: vs => by rw [layoutList, layoutList_eq_map h vs, List.map_cons]

variable {h : Heap Value} {v : Value}

/-- What is neither a sequence with other things in it nor an object is printed alike everywhere. -/
theorem memberText_displayWithin (flat : v.IsFlat) :
    memberText (displayWithin h 2) v = some (brief v) := by
  cases v with
  | iterable vs =>
    have integers : ∀ v ∈ vs, displayWithin h 1 v = some (brief v) := by
      intro v mem
      obtain ⟨n, rfl⟩ := flat v mem
      rfl
    rw [memberText, displayWithin, mapM_eq_some_map integers, brief, briefList_eq_map]
    · rfl
    · exact fun _ _ same => by cases same
  | object name members => rfl
  | _ => rfl

/-- If sequences hold integers, a value is printed after at most three values nested in each other:
an object, a sequence in it, and an integer. -/
theorem displayWithin_of_isFlat (flat : v.IsFlat) (bound : h.Holds IsFlat) :
    displayWithin h 3 v = some (display h v) := by
  cases v with
  | iterable vs =>
    have integers : ∀ v ∈ vs, displayWithin h 2 v = some (display h v) := by
      intro v mem
      obtain ⟨n, rfl⟩ := flat v mem
      rfl
    rw [displayWithin, mapM_eq_some_map integers, display, displayList_eq_map]
    rfl
  | object name members =>
    have texts : ∀ e ∈ (h.bindings members).entries.filter fun e => !e.2.isFunction,
        ((memberText (displayWithin h 2) e.2).map fun text => e.1 ++ ": " ++ text) =
          some (e.1 ++ ": " ++ brief e.2) := by
      intro e mem
      have there := Bindings.find?_eq_some_of_mem (List.mem_of_mem_filter mem)
      rw [memberText_displayWithin (bound members e.1 e.2 there)]
      rfl
    rw [displayWithin, mapM_eq_some_map texts, display]
    rfl
  | _ => rfl

theorem layoutWithin_of_isFlat (flat : v.IsFlat) : layoutWithin h 2 v = some (layout h v) := by
  cases v with
  | iterable vs =>
    have integers : ∀ v ∈ vs, layoutWithin h 1 v = some (layout h v) := by
      intro v mem
      obtain ⟨n, rfl⟩ := flat v mem
      rfl
    rw [layoutWithin, mapM_eq_some_map integers, layout, layoutList_eq_map]
    rfl
  | _ => rfl

theorem IsFlat.printable (flat : v.IsFlat) (bound : h.Holds IsFlat) : v.Printable h where
  integers vs same := by
    subst same
    exact flat
  display := displayWithin_of_isFlat flat bound
  layout := layoutWithin_of_isFlat flat

/-! ## What becomes of other values -/

/-- An object without a name that holds a sequence with itself in it. No script makes one. -/
def selfContained : Heap Value :=
  (Heap.empty.root (.ofList [("self", .iterable [.object none 0])])).2

/-- The printed form of an object that holds itself in a sequence would never end. -/
theorem displayWithin_selfContained : ∀ n, displayWithin selfContained n (.object none 0) = none ∧
    displayWithin selfContained n (.iterable [.object none 0]) = none
  | 0 => ⟨rfl, rfl⟩
  | n + 1 => by
    obtain ⟨object, iterable⟩ := displayWithin_selfContained n
    have fields : ((selfContained.bindings 0).entries.filter fun e => !e.2.isFunction) =
        [("self", .iterable [.object none 0])] := rfl
    refine ⟨?_, ?_⟩
    · rw [displayWithin, fields, List.mapM_cons, memberText, iterable]
      · rfl
      · exact fun _ _ same => by cases same
    · rw [displayWithin, List.mapM_cons, object]
      rfl

end Value

/-! ## All values of a run -/

theorem Value.Descended.isFlat {log : List Moment} {h : Heap Value} {v : Value}
    (known : v.Descended log h) : v.IsFlat := by
  cases v with
  | iterable vs => exact known
  | _ => trivial

/-- At every moment of every session, and in the end, whatever the scripts are: a sequence that is
bound, come to, called with or looped over holds integers, and every such value is printed and shown
for debugging after opening three and two values in each other. Loops bind integers, and the checker
takes the variable of a loop for an integer, if it does not leave its type open. The end is that of
the session whose moments these are. -/
theorem RunSession.sequences_hold_integers (fixtures : Bool) (depth : Nat)
    (scripts : List Script) :
    (∀ now ∈ moments fixtures depth scripts,
      (∀ v, now.Occurs v → v.Printable now.heap) ∧
      (∀ name v, now.act = .binds name v → ∃ n, v = .integer n)) ∧
    (ended fixtures depth scripts).heap.Holds
      (Value.Printable (ended fixtures depth scripts).heap) ∧
    (∀ ctx id name iterable body h t h',
      Check.stmtKind ctx id (.forEach name iterable body) h = .ok t h' →
      ∃ ty i b, t = .forEach name ty i b ∧ (ty = .integer ∨ ty = .dynamic ∧ i.ty = .dynamic)) ∧
    (ended fixtures callDepth scripts).heap = ((start fixtures).runAll scripts).heap := by
  have known := moments_descended fixtures depth scripts
  refine ⟨fun now mem => ?_, ?_, fun ctx id name iterable body h t h' ok => ?_,
    ended_heap fixtures scripts⟩
  · have here := (known.moments now mem).1
    have bound : now.heap.Holds Value.IsFlat := fun s n v found =>
      (here.occurs v (Or.inl ⟨s, n, found⟩)).isFlat
    exact ⟨fun v there => (here.occurs v there).isFlat.printable bound, here.binds⟩
  · have bound := known.bound.imp fun _ known => known.isFlat
    exact bound.imp fun v flat => flat.printable bound
  · obtain ⟨i, ty, b, _, _, _, same, _, rfl⟩ := Check.forEach_ok ok
    refine ⟨ty, i, b, rfl, ?_⟩
    by_cases isDynamic : i.ty.isDynamic = true
    · rw [if_pos isDynamic] at same
      exact Or.inr ⟨same, by simpa [Ty.isDynamic] using isDynamic⟩
    · rw [if_neg isDynamic] at same
      exact Or.inl same

/-- An object becomes a member of itself, beside a sequence, and is printed. -/
def cyclicScript : Script :=
  ⟨[⟨default, .letVar ⟨"node", none, some ⟨default, .object (some "Node")
      [⟨default, ⟨"items", none, some ⟨default, .call "range"
          [⟨default, .literal (.integer 0)⟩, ⟨default, .literal (.integer 2)⟩]⟩⟩⟩,
        ⟨default, ⟨"self", none, none⟩⟩] []⟩⟩⟩,
    ⟨default, .assign ⟨default, .property ⟨default, .variable "node"⟩ "self"⟩
      ⟨default, .variable "node"⟩⟩,
    ⟨default, .expr ⟨default, .call "print" [⟨default, .variable "node"⟩]⟩⟩]⟩

/-- Whether this is the moment at which an object that is a member of itself is about to be
printed. -/
def Moment.printsItself (now : Moment) : Bool :=
  match now.act with
  | .calls (.builtin .print) [.object name m] =>
    (match now.heap.resolveLocal m "self" with
      | some (.object name' m') => name == name' && m == m'
      | _ => false) &&
    (Value.object name m).display now.heap == "Node \x7b items: [0, 1], self: Node \x7d"
  | _ => false

theorem RunSession.sequences_hold_integers_cyclicScript :
    ∃ now ∈ moments false 0 [cyclicScript], ∃ name m,
      now.act = .calls (.builtin .print) [.object name m] ∧
      now.heap.resolveLocal m "self" = some (.object name m) ∧
      (Value.object name m).Printable now.heap ∧
      (Value.object name m).display now.heap = "Node \x7b items: [0, 1], self: Node \x7d" := by
  have judged : (moments false 0 [cyclicScript]).any Moment.printsItself = true := by
    decide +kernel
  obtain ⟨now, mem, judged⟩ := List.any_eq_true.mp judged
  unfold Moment.printsItself at judged
  split at judged
  case h_2 => cases judged
  case h_1 name m call =>
    rw [Bool.and_eq_true, beq_iff_eq] at judged
    obtain ⟨self, text⟩ := judged
    split at self
    case h_2 => cases self
    case h_1 name' m' found =>
      rw [Bool.and_eq_true, beq_iff_eq, beq_iff_eq] at self
      obtain ⟨rfl, rfl⟩ := self
      exact ⟨now, mem, name, m, call, found,
        ((sequences_hold_integers false 0 [cyclicScript]).1 now mem).1 _
          (Or.inl ⟨m, "self", found⟩),
        text⟩

end GradualScript
