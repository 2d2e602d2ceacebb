/-!
# JSON values

`Json ν` is a JSON value whose numbers are of type `ν`: the number tokens of a text, or the
numbers a program reads them as. An object keeps its members in the order of the text. `map` and
the checks `All` and `wellKeyed` go through a value once; all are structural, with one function for a value, one
for the elements of an array and one for the members of an object, and `induct` is the matching
induction.
-/

namespace Memplex.Lib

/-- A JSON value with numbers in `ν`. -/
inductive Json (ν : Type) where
  | null
  | bool (b : Bool)
  | num (n : ν)
  | str (s : String)
  | arr (items : List (Json ν))
  | obj (members : List (String × Json ν))

namespace Json

variable {ν μ : Type}

instance : Inhabited (Json ν) := ⟨.null⟩

/-- Induction over a value, its elements and its members. -/
theorem induct {P : Json ν → Prop} (null : P .null) (bool : ∀ b, P (.bool b))
    (num : ∀ n, P (.num n)) (str : ∀ s, P (.str s))
    (arr : ∀ items, (∀ x ∈ items, P x) → P (.arr items))
    (obj : ∀ members, (∀ m ∈ members, P m.2) → P (.obj members)) (v : Json ν) : P v := by
  refine Json.rec (motive_1 := P) (motive_2 := fun items => ∀ x ∈ items, P x)
    (motive_3 := fun members => ∀ m ∈ members, P m.2) (motive_4 := fun m => P m.2)
    null bool num str arr obj ?_ ?_ ?_ ?_ ?_ v
  · intro x hx; cases hx
  · intro x xs hx hxs y hy
    rcases List.mem_cons.mp hy with rfl | hy
    · exact hx
    · exact hxs y hy
  · intro m hm; cases hm
  · intro m ms hm hms y hy
    rcases List.mem_cons.mp hy with rfl | hy
    · exact hm
    · exact hms y hy
  · intro _ _ h; exact h

section Map

mutual

/-- The value with every number rewritten. -/
def map (f : ν → μ) : Json ν → Json μ
  | .null => .null
  | .bool b => .bool b
  | .num n => .num (f n)
  | .str s => .str s
  | .arr items => .arr (mapItems f items)
  | .obj members => .obj (mapMembers f members)

/-- `map` on the elements of an array. -/
def mapItems (f : ν → μ) : List (Json ν) → List (Json μ)
  | [] => []
  | x :: xs => map f x :: mapItems f xs

/-- `map` on the members of an object. -/
def mapMembers (f : ν → μ) : List (String × Json ν) → List (String × Json μ)
  | [] => []
  | (k, x) :: ms => (k, map f x) :: mapMembers f ms

end

mutual

/-- Every number of the value satisfies `p`. -/
def All (p : ν → Prop) : Json ν → Prop
  | .null => True
  | .bool _ => True
  | .num n => p n
  | .str _ => True
  | .arr items => AllItems p items
  | .obj members => AllMembers p members

/-- `All` on the elements of an array. -/
def AllItems (p : ν → Prop) : List (Json ν) → Prop
  | [] => True
  | x :: xs => All p x ∧ AllItems p xs

/-- `All` on the members of an object. -/
def AllMembers (p : ν → Prop) : List (String × Json ν) → Prop
  | [] => True
  | (_, x) :: ms => All p x ∧ AllMembers p ms

end

@[simp] theorem map_null (f : ν → μ) : (null : Json ν).map f = .null := rfl

@[simp] theorem map_bool (f : ν → μ) (b : Bool) : (bool b : Json ν).map f = .bool b := rfl

@[simp] theorem map_num (f : ν → μ) (n : ν) : (num n).map f = .num (f n) := rfl

@[simp] theorem map_str (f : ν → μ) (s : String) : (str s : Json ν).map f = .str s := rfl

@[simp] theorem map_arr (f : ν → μ) (items : List (Json ν)) :
    (Json.arr items).map f = .arr (items.map (map f)) := by
  have h : mapItems f items = items.map (map f) := by
    induction items with
    | nil => rfl
    | cons x xs ih => rw [mapItems, ih, List.map_cons]
  rw [map, h]

@[simp] theorem map_obj (f : ν → μ) (members : List (String × Json ν)) :
    (Json.obj members).map f = .obj (members.map fun m => (m.1, map f m.2)) := by
  have h : mapMembers f members = members.map fun m => (m.1, map f m.2) := by
    induction members with
    | nil => rfl
    | cons m ms ih => rw [mapMembers, ih, List.map_cons]
  rw [map, h]

@[simp] theorem all_null (p : ν → Prop) : (null : Json ν).All p := trivial

@[simp] theorem all_bool (p : ν → Prop) (b : Bool) : (bool b : Json ν).All p := trivial

@[simp] theorem all_num (p : ν → Prop) (n : ν) : (num n).All p ↔ p n := Iff.rfl

@[simp] theorem all_str (p : ν → Prop) (s : String) : (str s : Json ν).All p := trivial

@[simp] theorem all_arr (p : ν → Prop) (items : List (Json ν)) :
    (Json.arr items).All p ↔ ∀ x ∈ items, x.All p := by
  have h : AllItems p items ↔ ∀ x ∈ items, x.All p := by
    induction items with
    | nil => simp [AllItems]
    | cons x xs ih => rw [AllItems, ih, List.forall_mem_cons]
  rw [All, h]

@[simp] theorem all_obj (p : ν → Prop) (members : List (String × Json ν)) :
    (Json.obj members).All p ↔ ∀ m ∈ members, m.2.All p := by
  have h : AllMembers p members ↔ ∀ m ∈ members, m.2.All p := by
    induction members with
    | nil => simp [AllMembers]
    | cons m ms ih => rw [AllMembers, ih, List.forall_mem_cons]
  rw [All, h]

theorem All.mono {p q : ν → Prop} {v : Json ν} (h : v.All p) (hpq : ∀ n, p n → q n) :
    v.All q := by
  induction v using Json.induct with
  | null => trivial
  | bool b => trivial
  | num n => exact hpq n h
  | str s => trivial
  | arr items ih =>
    rw [all_arr] at h ⊢
    exact fun x hx => ih x hx (h x hx)
  | obj members ih =>
    rw [all_obj] at h ⊢
    exact fun m hm => ih m hm (h m hm)

end Map

section Keys

mutual

/-- Every object of the value has distinct keys. -/
def wellKeyed : Json ν → Bool
  | .arr items => wellKeyedItems items
  | .obj members => decide ((members.map Prod.fst).Nodup) && wellKeyedMembers members
  | _ => true

/-- `wellKeyed` on the elements of an array. -/
def wellKeyedItems : List (Json ν) → Bool
  | [] => true
  | x :: xs => wellKeyed x && wellKeyedItems xs

/-- `wellKeyed` on the members of an object. -/
def wellKeyedMembers : List (String × Json ν) → Bool
  | [] => true
  | (_, x) :: ms => wellKeyed x && wellKeyedMembers ms

end

@[simp] theorem wellKeyed_arr (items : List (Json ν)) :
    (Json.arr items).wellKeyed = true ↔ ∀ x ∈ items, x.wellKeyed = true := by
  have h : wellKeyedItems items = true ↔ ∀ x ∈ items, x.wellKeyed = true := by
    induction items with
    | nil => simp [wellKeyedItems]
    | cons x xs ih => rw [wellKeyedItems, Bool.and_eq_true, ih, List.forall_mem_cons]
  rw [wellKeyed, h]

@[simp] theorem wellKeyed_obj (members : List (String × Json ν)) :
    (Json.obj members).wellKeyed = true ↔
      (members.map Prod.fst).Nodup ∧ ∀ m ∈ members, m.2.wellKeyed = true := by
  have h : wellKeyedMembers members = true ↔ ∀ m ∈ members, m.2.wellKeyed = true := by
    induction members with
    | nil => simp [wellKeyedMembers]
    | cons m ms ih => rw [wellKeyedMembers, Bool.and_eq_true, ih, List.forall_mem_cons]
  rw [wellKeyed, Bool.and_eq_true, decide_eq_true_eq, h]

/-- Rewriting the numbers keeps the keys. -/
theorem wellKeyed_map (f : ν → μ) {v : Json ν} (h : v.wellKeyed = true) :
    (v.map f).wellKeyed = true := by
  induction v using induct with
  | null => rfl
  | bool b => rfl
  | num n => rfl
  | str s => rfl
  | arr items ih =>
    rw [wellKeyed_arr] at h
    rw [map_arr, wellKeyed_arr, List.forall_mem_map]
    exact fun x hx => ih x hx (h x hx)
  | obj members ih =>
    rw [wellKeyed_obj] at h
    rw [map_obj, wellKeyed_obj, List.map_map, List.forall_mem_map]
    exact ⟨h.1, fun m hm => ih m hm (h.2 m hm)⟩

end Keys

section Numbers

/-- Rewriting twice is rewriting once. -/
theorem map_map {ρ : Type} (f : ν → μ) (g : μ → ρ) (v : Json ν) :
    (v.map f).map g = v.map (g ∘ f) := by
  induction v using induct with
  | null => rfl
  | bool b => rfl
  | num n => rfl
  | str s => rfl
  | arr items ih =>
    rw [map_arr, map_arr, map_arr, List.map_map]
    exact congrArg arr (List.map_congr_left ih)
  | obj members ih =>
    rw [map_obj, map_obj, map_obj, List.map_map]
    exact congrArg obj (List.map_congr_left fun m hm => congrArg (Prod.mk m.1) (ih m hm))

/-- Nothing is rewritten where every number stays as it is. -/
theorem map_eq_self {f : ν → ν} {v : Json ν} (h : v.All fun n => f n = n) : v.map f = v := by
  induction v using induct with
  | null => rfl
  | bool b => rfl
  | num n => exact congrArg num h
  | str s => rfl
  | arr items ih =>
    rw [all_arr] at h
    rw [map_arr]
    exact congrArg arr ((List.map_congr_left fun x hx => ih x hx (h x hx)).trans (List.map_id _))
  | obj members ih =>
    rw [all_obj] at h
    rw [map_obj]
    refine congrArg obj ((List.map_congr_left fun m hm => ?_).trans (List.map_id _))
    rw [ih m hm (h m hm), id]

end Numbers

section AnyNum

mutual

/-- Some number of the value satisfies `p`. -/
def anyNum (p : ν → Bool) : Json ν → Bool
  | .num n => p n
  | .arr items => anyNumItems p items
  | .obj members => anyNumMembers p members
  | _ => false

/-- `anyNum` on the elements of an array. -/
def anyNumItems (p : ν → Bool) : List (Json ν) → Bool
  | [] => false
  | x :: xs => anyNum p x || anyNumItems p xs

/-- `anyNum` on the members of an object. -/
def anyNumMembers (p : ν → Bool) : List (String × Json ν) → Bool
  | [] => false
  | (_, x) :: ms => anyNum p x || anyNumMembers p ms

end

theorem anyNum_obj_eq_false {p : ν → Bool} (members : List (String × Json ν)) :
    (Json.obj members).anyNum p = false ↔ ∀ m ∈ members, m.2.anyNum p = false := by
  have h : anyNumMembers p members = false ↔ ∀ m ∈ members, m.2.anyNum p = false := by
    induction members with
    | nil => simp [anyNumMembers]
    | cons m ms ih => rw [anyNumMembers, Bool.or_eq_false_iff, ih, List.forall_mem_cons]
  rw [anyNum, h]

theorem anyNum_arr_eq_false {p : ν → Bool} (items : List (Json ν)) :
    (Json.arr items).anyNum p = false ↔ ∀ x ∈ items, x.anyNum p = false := by
  have h : anyNumItems p items = false ↔ ∀ x ∈ items, x.anyNum p = false := by
    induction items with
    | nil => simp [anyNumItems]
    | cons x xs ih => rw [anyNumItems, Bool.or_eq_false_iff, ih, List.forall_mem_cons]
  rw [anyNum, h]

/-- No number satisfies `p` exactly if all do not. -/
theorem anyNum_eq_false {p : ν → Bool} {v : Json ν} :
    v.anyNum p = false ↔ v.All fun n => p n = false := by
  induction v using induct with
  | null => exact ⟨fun _ => trivial, fun _ => rfl⟩
  | bool b => exact ⟨fun _ => trivial, fun _ => rfl⟩
  | num n => exact Iff.rfl
  | str s => exact ⟨fun _ => trivial, fun _ => rfl⟩
  | arr items ih =>
    rw [anyNum_arr_eq_false, all_arr]
    exact forall₂_congr ih
  | obj members ih =>
    rw [anyNum_obj_eq_false, all_obj]
    exact forall₂_congr ih

/-- The numbers of a rewritten value are the rewritten numbers. -/
theorem all_map {p : μ → Prop} {f : ν → μ} {v : Json ν} (h : v.All fun n => p (f n)) :
    (v.map f).All p := by
  induction v using induct with
  | null => trivial
  | bool b => trivial
  | num n => exact h
  | str s => trivial
  | arr items ih =>
    rw [all_arr] at h
    rw [map_arr, all_arr, List.forall_mem_map]
    exact fun x hx => ih x hx (h x hx)
  | obj members ih =>
    rw [all_obj] at h
    rw [map_obj, all_obj, List.forall_mem_map]
    exact fun m hm => ih m hm (h m hm)

end AnyNum

section DecidableEq

variable [DecidableEq ν]

mutual

/-- Structural equality test of two values. -/
def beq : Json ν → Json ν → Bool
  | .null, .null => true
  | .bool a, .bool b => a == b
  | .num m, .num n => m = n
  | .str s, .str t => s = t
  | .arr xs, .arr ys => beqItems xs ys
  | .obj ms, .obj ns => beqMembers ms ns
  | _, _ => false

/-- Equality test of two arrays, element by element. -/
def beqItems : List (Json ν) → List (Json ν) → Bool
  | [], [] => true
  | x :: xs, y :: ys => beq x y && beqItems xs ys
  | _, _ => false

/-- Equality test of two objects, member by member. -/
def beqMembers : List (String × Json ν) → List (String × Json ν) → Bool
  | [], [] => true
  | (k, x) :: xs, (l, y) :: ys => k = l && beq x y && beqMembers xs ys
  | _, _ => false

end

theorem beq_iff (v : Json ν) : ∀ w, beq v w = true ↔ v = w := by
  induction v using induct with
  | null => intro w; cases w <;> simp [beq]
  | bool b => intro w; cases w <;> simp [beq]
  | num n => intro w; cases w <;> simp [beq]
  | str s => intro w; cases w <;> simp [beq]
  | arr xs ih =>
    intro w
    cases w with
    | arr ys =>
      simp only [beq, arr.injEq]
      induction xs generalizing ys with
      | nil => cases ys <;> simp [beqItems]
      | cons x xs ihs =>
        cases ys with
        | nil => simp [beqItems]
        | cons y ys =>
          simp only [beqItems, Bool.and_eq_true, List.cons.injEq]
          rw [ih x (List.mem_cons_self ..), ihs fun z hz => ih z (List.mem_cons_of_mem _ hz)]
    | _ => simp [beq]
  | obj ms ih =>
    intro w
    cases w with
    | obj ns =>
      simp only [beq, obj.injEq]
      induction ms generalizing ns with
      | nil => cases ns <;> simp [beqMembers]
      | cons m ms ihs =>
        obtain ⟨k, x⟩ := m
        cases ns with
        | nil => simp [beqMembers]
        | cons n ns =>
          obtain ⟨l, y⟩ := n
          simp only [beqMembers, Bool.and_eq_true, decide_eq_true_eq, List.cons.injEq,
            Prod.mk.injEq]
          rw [ih (k, x) (List.mem_cons_self ..),
            ihs fun z hz => ih z (List.mem_cons_of_mem _ hz)]
    | _ => simp [beq]

instance : DecidableEq (Json ν) := fun v w => decidable_of_iff _ (beq_iff v w)

end DecidableEq

end Json

end Memplex.Lib
