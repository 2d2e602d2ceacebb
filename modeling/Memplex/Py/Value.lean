import Memplex.Lib.Json.Value
import Memplex.Lib.Decimal
import Memplex.Lib.Rows
import Mathlib.Data.List.Forall2

/-!
# Python values and errors

The program works on plain JSON values: what `json.loads` returns and `json.dumps` takes. `Value`
is such a value, with Python's two kinds of number as its leaves; a float is an exact decimal (its
shortest round-trip form), or one of the three values that are no number. Strings are sequences of
Unicode scalar values: a lone surrogate has no counterpart here, and every boundary of the program
that the model enters through refuses one.

An error is the class that is raised and its message.
-/

namespace Memplex

open Lib

/-- A statement about the characters of a text is decided by going through the text, and not by the
instance that goes through every character. -/
instance (priority := high) decidableForallMemChar (cs : List Char) (p : Char → Prop)
    [DecidablePred p] : Decidable (∀ c ∈ cs, p c) := List.decidableBAll p cs

/-- Byte strings are compared by the instance of the language, where libraries have others. -/
instance (priority := high) decidableEqBytes : DecidableEq ByteArray := ByteArray.instDecidableEq

/-- A Python float. -/
inductive PyFloat where
  | finite (d : Dec)
  | inf (neg : Bool)
  | nan
deriving DecidableEq

/-- A Python number, `bool` apart. -/
inductive Num where
  | int (i : ℤ)
  | float (x : PyFloat)
deriving DecidableEq

/-- A plain JSON value of the program. -/
abbrev Value := Json Num

/-- The members of a Python dictionary with string keys, in insertion order. -/
abbrev Members := List (String × Value)

namespace Value

/-- An integer. -/
@[match_pattern] abbrev int (i : ℤ) : Value := .num (.int i)

/-- A float. -/
@[match_pattern] abbrev float (x : PyFloat) : Value := .num (.float x)

/-- A string, or `None`. -/
def ofOptStr : Option String → Value
  | none => .null
  | some s => .str s

/-- Python truth: `None`, `False`, zero and the empty containers are false. -/
def truthy : Value → Bool
  | .null => false
  | .bool b => b
  | .int i => i ≠ 0
  | .float (.finite d) => d.mant ≠ 0
  | .float _ => true
  | .str s => s ≠ ""
  | .arr items => items ≠ []
  | .obj members => members ≠ []

end Value

namespace Members

/-- `d.get(key)`: the value under a key. -/
def get? (d : Members) (key : String) : Option Value := (findRow Prod.fst key d).map Prod.snd

/-- `d.get(key, default)`. -/
def getD (d : Members) (key : String) (default : Value) : Value := (d.get? key).getD default

/-- `key in d`. -/
def has (d : Members) (key : String) : Bool := (d.get? key).isSome

/-- `d[key] = value`. -/
def set (d : Members) (key : String) (value : Value) : Members :=
  upsertRow Prod.fst (key, value) d

/-- `d.setdefault(key, value)`. -/
def setdefault (d : Members) (key : String) (value : Value) : Members :=
  if d.has key then d else d ++ [(key, value)]

@[simp] theorem get?_set (d : Members) (key key' : String) (value : Value) :
    (d.set key value).get? key' = if key = key' then some value else d.get? key' := by
  unfold get? set
  rw [findRow_upsertRow]
  split_ifs <;> rfl

/-- The keys of a dictionary. -/
def keys (d : Members) : List String := d.map Prod.fst

end Members

mutual

/-- The numbers of a value are finite: it has a strict JSON text. -/
def isJsonValue : Value → Bool
  | .arr items => areJsonItems items
  | .obj members => areJsonMembers members
  | .float (.inf _) => false
  | .float .nan => false
  | _ => true

/-- The numbers of the elements of a list are finite. -/
def areJsonItems : List Value → Bool
  | [] => true
  | x :: xs => isJsonValue x && areJsonItems xs

/-- The numbers of the values of a dictionary are finite. -/
def areJsonMembers : Members → Bool
  | [] => true
  | (_, x) :: ms => isJsonValue x && areJsonMembers ms

end

/-- The exception classes that the program raises. -/
inductive ErrorKind where
  | typeError
  | valueError
  | keyError
  | attributeError
  | stopIteration
  | runtimeError
  | permissionError
  | syncBackpressureError
  | syncCursorExpired
  | syncBatchRejected
  | syncDeliveryBusy
  | liteStorageIntegrityError
  | taskStoreIntegrityError
  | workerQueueFull
  | integrityError
  | databaseError
  | osError
  | keyboardInterrupt
  | backupIntegrityError
  | backupConfigurationError
  | identityClaimError
  | overflowError
deriving DecidableEq, Repr

/-- A raised exception. -/
structure PyError where
  /-- The class of the exception. -/
  kind : ErrorKind
  /-- Its message. -/
  message : String
deriving DecidableEq, Repr

/-- `raise TypeError(message)`. -/
def typeError (message : String) : PyError := ⟨.typeError, message⟩

/-- `raise ValueError(message)`. -/
def valueError (message : String) : PyError := ⟨.valueError, message⟩

/-- Raises `e` unless the condition holds. -/
def require (p : Prop) [Decidable p] (e : PyError) : Except PyError Unit :=
  if p then .ok () else .error e

theorem require_ok {p : Prop} [Decidable p] {e : PyError} {u : Unit} :
    require p e = .ok u ↔ p := by
  unfold require
  split_ifs with h <;> simp [h]

/-- A successful `do` block succeeded in its first step, and in the rest from its result. -/
theorem Except.bind_ok {ε α β : Type} {x : Except ε α} {f : α → Except ε β} {b : β} :
    (x >>= f) = .ok b ↔ ∃ a, x = .ok a ∧ f a = .ok b := by
  cases x with
  | error e => simp [bind, Except.bind]
  | ok a => simp [bind, Except.bind]

/-- The result of a mapped computation comes from a result. -/
theorem Except.map_ok {ε α β : Type} {x : Except ε α} {f : α → β} {b : β} (h : x.map f = .ok b) :
    ∃ a, x = .ok a ∧ f a = b := by
  cases x with
  | error e => exact absurd h (by simp [Except.map])
  | ok a => exact ⟨a, rfl, Except.ok.inj h⟩

/-- The elements of a mapped list are the results of its own, one by one. -/
theorem Except.mapM_ok {ε α β : Type} {f : α → Except ε β} {xs : List α} {ys : List β}
    (h : xs.mapM f = .ok ys) : List.Forall₂ (fun x y => f x = .ok y) xs ys := by
  induction xs generalizing ys with
  | nil =>
    cases Except.ok.inj h
    exact .nil
  | cons x xs ih =>
    rw [List.mapM_cons] at h
    obtain ⟨y, hy, h⟩ := Except.bind_ok.mp h
    obtain ⟨rest, hrest, heq⟩ := Except.bind_ok.mp h
    cases Except.ok.inj heq
    exact .cons hy (ih hrest)

/-- The results of a mapped computation. -/
theorem Except.mem_mapM {ε α β : Type} {f : α → Except ε β} {xs : List α} {ys : List β}
    (h : xs.mapM f = .ok ys) (y : β) : y ∈ ys ↔ ∃ x ∈ xs, f x = .ok y := by
  have hall := Except.mapM_ok h
  clear h
  induction hall with
  | nil => simp
  | @cons x y' xs ys hx _ ih =>
    rw [List.mem_cons, List.exists_mem_cons_iff, hx, Except.ok.injEq, eq_comm (a := y')]
    exact or_congr_right ih

/-- A result that is kept is the result. -/
theorem Except.ok_of_toOption {ε α : Type} {x : Except ε α} {a : α} (h : x.toOption = some a) :
    x = .ok a := by
  cases x with
  | error e => exact absurd h (by simp [Except.toOption])
  | ok b => exact congrArg Except.ok (Option.some.inj h)

/-- A run that did not raise has a result. -/
theorem Except.exists_ok {ε α : Type} {x : Except ε α} (h : x.toOption.isSome = true) :
    ∃ a, x = .ok a := by
  cases x with
  | error e => exact absurd h (by simp [Except.toOption])
  | ok a => exact ⟨a, rfl⟩

end Memplex
