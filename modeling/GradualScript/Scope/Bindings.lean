/-
# GradualScript.Scope.Bindings -- the names of one scope, in definition order

A scope binds names to types while a script is checked and to values while it runs. Both passes
show their bindings in the order of definition, so a scope is an insertion-ordered map and not a
hashed one. That no name is bound twice is part of the type.

The view of a `Bindings` is its list of `entries`. Each operation is described by what it does to
`names` and to `find?`.
-/

namespace GradualScript

universe u

/-- Names with what they are bound to, in the order in which they were first bound. -/
structure Bindings (α : Type u) where
  entries : List (String × α)
  names_nodup : (entries.map Prod.fst).Nodup

namespace Bindings

variable {α : Type u}

/-- The bindings of a new scope. -/
def empty : Bindings α := ⟨[], List.nodup_nil⟩

instance : Inhabited (Bindings α) := ⟨empty⟩

/-- The bound names, in definition order. -/
def names (b : Bindings α) : List String := b.entries.map Prod.fst

/-- What `name` is bound to. -/
def find? (b : Bindings α) (name : String) : Option α := b.entries.lookup name

/-- Whether `name` is bound. -/
def contains (b : Bindings α) (name : String) : Bool := b.entries.any fun e => e.1 == name

def isEmpty (b : Bindings α) : Bool := b.entries.isEmpty

theorem contains_iff {b : Bindings α} {name : String} : b.contains name ↔ name ∈ b.names := by
  simp [contains, names]

/-! ## Adding and replacing -/

/-- A name that is not bound yet goes to the end. -/
def add (b : Bindings α) (name : String) (value : α) (fresh : name ∉ b.names) : Bindings α where
  entries := b.entries ++ [(name, value)]
  names_nodup := by
    rw [List.map_append, List.nodup_append]
    refine ⟨b.names_nodup, by simp, ?_⟩
    rintro x hx y hy rfl
    simp only [List.map_cons, List.map_nil, List.mem_singleton] at hy
    exact fresh (hy ▸ hx)

/-- A bound name keeps its place and takes the new value; an unbound one stays unbound. -/
def replace (b : Bindings α) (name : String) (value : α) : Bindings α where
  entries := b.entries.map fun e => if e.1 = name then (e.1, value) else e
  names_nodup := by
    have same : (b.entries.map fun e => if e.1 = name then (e.1, value) else e).map Prod.fst
        = b.entries.map Prod.fst := by
      rw [List.map_map]
      refine List.map_congr_left fun e _ => ?_
      by_cases h : e.1 = name <;> simp [h]
    exact same ▸ b.names_nodup

/-- Binds `name`: in its place if it is bound already, at the end if it is not. -/
def insert (b : Bindings α) (name : String) (value : α) : Bindings α :=
  if bound : b.contains name then b.replace name value
  else b.add name value fun mem => bound (contains_iff.mpr mem)

/-- Inserts the entries of `c` into `b`, in their order. -/
def merge (b c : Bindings α) : Bindings α :=
  c.entries.foldl (fun b e => b.insert e.1 e.2) b

/-- The bindings of a list of pairs; of two pairs with one name the later counts. -/
def ofList (pairs : List (String × α)) : Bindings α :=
  pairs.foldl (fun b e => b.insert e.1 e.2) empty

/-! ## What the operations do to the view -/

@[simp] theorem names_empty : (empty : Bindings α).names = [] := rfl

@[simp] theorem find?_empty (name : String) : (empty : Bindings α).find? name = none := rfl

@[simp] theorem names_add (b : Bindings α) (name : String) (value : α) (fresh : name ∉ b.names) :
    (b.add name value fresh).names = b.names ++ [name] := by
  simp [names, add]

@[simp] theorem names_replace (b : Bindings α) (name : String) (value : α) :
    (b.replace name value).names = b.names := by
  simp only [names, replace, List.map_map]
  refine List.map_congr_left fun e _ => ?_
  by_cases h : e.1 = name <;> simp [h]

theorem find?_eq_none_iff {b : Bindings α} {name : String} :
    b.find? name = none ↔ name ∉ b.names := by
  simp only [find?, names, List.lookup_eq_none_iff, List.mem_map, not_exists, not_and]
  constructor
  · intro h e he heq
    exact absurd (h e he) (by simp [heq])
  · intro h e he
    have := h e he
    simpa using fun heq => this (Eq.symm heq)

theorem isSome_find? {b : Bindings α} {name : String} :
    (b.find? name).isSome ↔ name ∈ b.names := by
  rw [← Decidable.not_iff_not, ← find?_eq_none_iff]
  simp

theorem find?_add (b : Bindings α) (name : String) (value : α) (fresh : name ∉ b.names)
    (n : String) :
    (b.add name value fresh).find? n = if n = name then some value else b.find? n := by
  by_cases h : n = name
  · subst h
    have none_before := find?_eq_none_iff.mpr fresh
    simp only [find?] at none_before
    simp [find?, add, List.lookup_append, none_before]
  · have hne : (n == name) = false := by simpa using h
    simp [find?, add, List.lookup_append, List.lookup_cons, h, hne]

theorem find?_replace (b : Bindings α) (name : String) (value : α) (n : String) :
    (b.replace name value).find? n =
      if n = name then (b.find? n).map (fun _ => value) else b.find? n := by
  simp only [find?, replace]
  induction b.entries with
  | nil => simp
  | cons e es ih =>
    obtain ⟨key, old⟩ := e
    by_cases he : key = name
    · by_cases hn : n = name
      · subst hn
        simp [he]
      · have hne : (n == key) = false := by simp [he, hn]
        have hne' : (n == name) = false := by simp [hn]
        simp only [hn, if_false] at ih
        simp [List.lookup_cons, he, hn, hne', ih]
    · by_cases hn : n == key
      · have hn' : n = key := by simpa using hn
        subst hn'
        simp [he]
      · simp only [List.map_cons, he, if_false, List.lookup_cons, hn]
        exact ih

theorem names_insert_of_mem {b : Bindings α} {name : String} (value : α) (h : name ∈ b.names) :
    (b.insert name value).names = b.names := by
  rw [insert, dif_pos (contains_iff.mpr h), names_replace]

theorem names_insert_of_not_mem {b : Bindings α} {name : String} (value : α)
    (h : name ∉ b.names) : (b.insert name value).names = b.names ++ [name] := by
  rw [insert, dif_neg (fun c => h (contains_iff.mp c)), names_add]

theorem find?_insert (b : Bindings α) (name : String) (value : α) (n : String) :
    (b.insert name value).find? n = if n = name then some value else b.find? n := by
  by_cases h : name ∈ b.names
  · rw [insert, dif_pos (contains_iff.mpr h), find?_replace]
    by_cases hn : n = name
    · subst hn
      obtain ⟨v, hv⟩ := Option.isSome_iff_exists.mp (isSome_find?.mpr h)
      simp [hv]
    · simp [hn]
  · rw [insert, dif_neg (fun c => h (contains_iff.mp c)), find?_add]

end Bindings

end GradualScript
