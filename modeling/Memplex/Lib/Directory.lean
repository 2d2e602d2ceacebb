import Mathlib.Logic.Function.Basic
import Mathlib.Data.List.Basic

/-!
# A directory whose changes a crash may lose

A directory holds a file, or nothing, under each of its names. Replacing a file and unlinking it
are atomic: a name shows the old file or the new one, never a part of either. They are durable only
once the directory has been synced; until then a crash may leave the name with anything it has
shown since. `Crashed` is that choice, made for each name on its own, and `Always` is the rule for
a list of operations that may be cut short anywhere: a property of every state on the way.
-/

namespace Memplex.Lib

variable {σ χ : Type}

/-- A name of a directory: what it shows, and what it has shown since the directory was last
synced, newest first. -/
structure Entry (χ : Type) where
  /-- The file under the name. -/
  current : Option χ
  /-- The files that a crash may bring back. -/
  older : List (Option χ)

namespace Entry

/-- A name whose file is durable. -/
def settled (file : Option χ) : Entry χ := ⟨file, []⟩

/-- The files that a name may show after a crash. -/
def versions (e : Entry χ) : List (Option χ) := e.current :: e.older

/-- The name with another file under it. -/
def write (e : Entry χ) (file : Option χ) : Entry χ := ⟨file, e.versions⟩

@[simp] theorem versions_settled (file : Option χ) : (settled file).versions = [file] := rfl

@[simp] theorem current_settled (file : Option χ) : (settled file).current = file := rfl

@[simp] theorem versions_write (e : Entry χ) (file : Option χ) :
    (e.write file).versions = file :: e.versions := rfl

@[simp] theorem current_write (e : Entry χ) (file : Option χ) :
    (e.write file).current = file := rfl

theorem current_mem (e : Entry χ) : e.current ∈ e.versions := List.mem_cons_self ..

end Entry

/-- A directory: an entry under each name. -/
abbrev Directory (σ χ : Type) := σ → Entry χ

/-- An operation on a directory. -/
inductive DirOp (σ χ : Type) where
  /-- Puts a complete file under a name. -/
  | replace (name : σ) (file : χ)
  /-- Takes the file of a name away, if there is one. -/
  | unlink (name : σ)
  /-- Makes what every name shows durable. -/
  | sync

namespace Directory

/-- Every name's file is durable. -/
def Settled (d : Directory σ χ) : Prop := ∀ name, d name = .settled (d name).current

/-- What a crash leaves: each name has one of the files that it may show, durably. -/
def Crashed (d d' : Directory σ χ) : Prop :=
  ∀ name, ∃ file ∈ (d name).versions, d' name = .settled file

theorem Crashed.settled {d d' : Directory σ χ} (h : Crashed d d') : d'.Settled := by
  intro name
  obtain ⟨file, -, hfile⟩ := h name
  rw [hfile]
  rfl

/-- A crash leaves a settled directory as it is. -/
theorem Settled.crashed {d d' : Directory σ χ} (hd : d.Settled) (h : Crashed d d') : d' = d := by
  funext name
  obtain ⟨file, hfile, heq⟩ := h name
  rw [hd name, Entry.versions_settled, List.mem_singleton] at hfile
  rw [heq, hfile, ← hd name]

variable [DecidableEq σ]

/-- One operation. -/
def exec (d : Directory σ χ) : DirOp σ χ → Directory σ χ
  | .replace name file => Function.update d name ((d name).write (some file))
  | .unlink name => Function.update d name ((d name).write none)
  | .sync => fun name => .settled (d name).current

/-- Operations one after the other. -/
def run (d : Directory σ χ) (ops : List (DirOp σ χ)) : Directory σ χ := ops.foldl exec d

@[simp] theorem run_nil (d : Directory σ χ) : d.run [] = d := rfl

@[simp] theorem run_cons (d : Directory σ χ) (op : DirOp σ χ) (ops : List (DirOp σ χ)) :
    d.run (op :: ops) = (d.exec op).run ops := rfl

theorem run_append (d : Directory σ χ) (ops ops' : List (DirOp σ χ)) :
    d.run (ops ++ ops') = (d.run ops).run ops' := List.foldl_append

/-- `P` holds before the operations, between any two of them, and after the last. -/
def Always (P : Directory σ χ → Prop) : List (DirOp σ χ) → Directory σ χ → Prop
  | [], d => P d
  | op :: ops, d => P d ∧ Always P ops (d.exec op)

/-- Operations cut short leave a state on the way. -/
theorem Always.take {P : Directory σ χ → Prop} {ops : List (DirOp σ χ)} {d : Directory σ χ}
    (h : Always P ops d) (k : ℕ) : P (d.run (ops.take k)) := by
  induction ops generalizing d k with
  | nil => rwa [List.take_nil]
  | cons op ops ih =>
    cases k with
    | zero => exact h.1
    | succ k =>
      rw [List.take_succ_cons, run_cons]
      exact ih h.2 k

end Directory

end Memplex.Lib
