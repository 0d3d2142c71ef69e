import Mathlib.Data.List.Nodup
import Mathlib.Data.List.Perm.Subperm
import Mathlib.Tactic

/-!
# Buffers filled by nested loops

A buffer of a fixed length, with a log of the cells that were written.  A loop
over an index range whose body performs some writes performs the writes of all
its rounds, so nested loops perform one list of writes.  When the written cells
are a permutation of all cells, the buffer holds exactly what was written.

Cells are numbered row by row: in a grid with so many columns, `r * cols + c` is
the number of the cell in row `r` and column `c`.
-/

namespace FlorenceServer

section RowMajor

variable {rows cols r c i : Nat}

theorem rowMajor_lt (hr : r < rows) (hc : c < cols) : r * cols + c < rows * cols := by
  calc
    r * cols + c < r * cols + cols := Nat.add_lt_add_left hc _
    _ = (r + 1) * cols := by rw [Nat.add_mul, Nat.one_mul]
    _ ≤ rows * cols := Nat.mul_le_mul_right cols hr

/-- Every cell is in one row and one column. -/
theorem exists_rowMajor (hi : i < rows * cols) :
    ∃ r < rows, ∃ c < cols, r * cols + c = i := by
  have hcols : 0 < cols := by
    rcases Nat.eq_zero_or_pos cols with hzero | hpos
    · rw [hzero, Nat.mul_zero] at hi
      omega
    · exact hpos
  refine ⟨i / cols, Nat.div_lt_of_lt_mul (by rwa [Nat.mul_comm]), i % cols,
    Nat.mod_lt i hcols, ?_⟩
  rw [Nat.mul_comm]
  exact Nat.div_add_mod i cols

/-- The number of an element in an array of several dimensions. -/
def flatIndex : List Nat → List Nat → Nat
  | _ :: dims, index :: rest => index * dims.prod + flatIndex dims rest
  | _, _ => 0

end RowMajor

/-- As many numbers as there are cells, and every cell among them. -/
theorem perm_range_of_covers
    {xs : List Nat} {n : Nat}
    (hlength : xs.length = n)
    (hcovers : ∀ i < n, i ∈ xs) :
    xs.Perm (List.range n) := by
  have hsub : List.range n ⊆ xs := fun i hi => hcovers i (List.mem_range.mp hi)
  have hsubperm := List.subperm_of_subset List.nodup_range hsub
  refine (hsubperm.perm_of_length_le ?_).symm
  rw [hlength, List.length_range]

/-- A buffer and the cells that were written, in order. -/
structure Buffer (α : Type*) where
  cells : List α
  written : List Nat
deriving DecidableEq, Repr

namespace Buffer

variable {α ε ι : Type*}

/-- `vec![value; length]`. -/
def filled (length : Nat) (value : α) : Buffer α where
  cells := List.replicate length value
  written := []

/-- `cells[index] = value`, which fails out of range. -/
def write (outOfRange : ε) (buffer : Buffer α) (index : Nat) (value : α) :
    Except ε (Buffer α) :=
  if index < buffer.cells.length then
    .ok
      { cells := buffer.cells.set index value
        written := buffer.written ++ [index] }
  else
    .error outOfRange

/-- The writes of a list, one after the other. -/
def writeAll (outOfRange : ε) (buffer : Buffer α) (writes : List (Nat × α)) :
    Except ε (Buffer α) :=
  writes.foldlM (fun buffer entry => buffer.write outOfRange entry.1 entry.2) buffer

variable {outOfRange : ε}

/-- The computation has the effect of the writes and no other. -/
def Performs (outOfRange : ε) (run : Buffer α → Except ε (Buffer α))
    (writes : List (Nat × α)) : Prop :=
  ∀ buffer, run buffer = buffer.writeAll outOfRange writes

theorem performs_write (outOfRange : ε) (index : Nat) (value : α) :
    Performs outOfRange (fun buffer => buffer.write outOfRange index value)
      [(index, value)] := by
  intro buffer
  rw [writeAll, List.foldlM_cons]
  simp only [List.foldlM_nil]
  exact (bind_pure _).symm

/-- **Loop rule.** A loop performs the writes of its rounds, one round after the other. -/
theorem performs_foldlM
    {xs : List ι} {body : Buffer α → ι → Except ε (Buffer α)}
    {writes : ι → List (Nat × α)}
    (hbody : ∀ x ∈ xs, Performs outOfRange (fun buffer => body buffer x) (writes x)) :
    Performs outOfRange (fun buffer => xs.foldlM body buffer) (xs.flatMap writes) := by
  intro buffer
  induction xs generalizing buffer with
  | nil =>
      rfl
  | cons x xs ih =>
      have hrest := ih (fun x' hx' => hbody x' (List.mem_cons_of_mem x hx'))
      have hfirst := hbody x List.mem_cons_self buffer
      calc
        (x :: xs).foldlM body buffer =
            body buffer x >>= fun next => xs.foldlM body next := List.foldlM_cons
        _ = buffer.writeAll outOfRange (writes x) >>= fun next =>
            next.writeAll outOfRange (xs.flatMap writes) := by
          rw [funext hrest]
          exact congrArg (· >>= _) hfirst
        _ = buffer.writeAll outOfRange ((x :: xs).flatMap writes) := by
          rw [List.flatMap_cons]
          exact List.foldlM_append.symm

section Effects

variable {buffer buffer' : Buffer α} {writes : List (Nat × α)}

/-- What a buffer is after writes to different cells. -/
structure After (buffer : Buffer α) (writes : List (Nat × α)) (buffer' : Buffer α) :
    Prop where
  length_eq : buffer'.cells.length = buffer.cells.length
  written_eq : buffer'.written = buffer.written ++ writes.map Prod.fst
  holds : ∀ entry ∈ writes, buffer'.cells[entry.1]? = some entry.2
  kept : ∀ i ∉ writes.map Prod.fst, buffer'.cells[i]? = buffer.cells[i]?

theorem After.nil (buffer : Buffer α) : buffer.After [] buffer where
  length_eq := rfl
  written_eq := (List.append_nil _).symm
  holds := fun _ hmem => absurd hmem List.not_mem_nil
  kept := fun _ _ => rfl

/-- A write in front of writes to other cells. -/
theorem After.cons
    {index : Nat} {value : α}
    (hindex : index < buffer.cells.length)
    (hother : index ∉ writes.map Prod.fst)
    (hafter :
      After ⟨buffer.cells.set index value, buffer.written ++ [index]⟩ writes buffer') :
    buffer.After ((index, value) :: writes) buffer' where
  length_eq := by
    rw [hafter.length_eq, List.length_set]
  written_eq := by
    rw [hafter.written_eq, List.map_cons, List.append_assoc]
    rfl
  holds := by
    intro entry hentry
    rcases List.mem_cons.mp hentry with rfl | hlater
    · rw [hafter.kept index hother]
      exact List.getElem?_set_self hindex
    · exact hafter.holds entry hlater
  kept := by
    intro i hi
    rw [List.map_cons, List.mem_cons, not_or] at hi
    rw [hafter.kept i hi.2]
    exact List.getElem?_set_ne (Ne.symm hi.1)

/-- Writes to different cells in range succeed. -/
theorem exists_after
    (outOfRange : ε)
    (hrange : ∀ entry ∈ writes, entry.1 < buffer.cells.length)
    (hdistinct : (writes.map Prod.fst).Nodup) :
    ∃ buffer', buffer.writeAll outOfRange writes = .ok buffer' ∧
      buffer.After writes buffer' := by
  induction writes generalizing buffer with
  | nil =>
      exact ⟨buffer, rfl, .nil buffer⟩
  | cons entry writes ih =>
      obtain ⟨index, value⟩ := entry
      have hindex : index < buffer.cells.length := hrange _ List.mem_cons_self
      obtain ⟨hother, hdistinct⟩ := List.nodup_cons.mp hdistinct
      have hlater : ∀ entry ∈ writes,
          entry.1 < (buffer.cells.set index value).length := by
        intro entry hentry
        rw [List.length_set]
        exact hrange entry (List.mem_cons_of_mem _ hentry)
      obtain ⟨buffer', hwrites, hafter⟩ :=
        @ih ⟨buffer.cells.set index value, buffer.written ++ [index]⟩ hlater hdistinct
      refine ⟨buffer', ?_, .cons hindex hother hafter⟩
      have hfirst : buffer.write outOfRange index value =
          .ok ⟨buffer.cells.set index value, buffer.written ++ [index]⟩ :=
        if_pos hindex
      rw [writeAll, List.foldlM_cons, hfirst]
      exact hwrites

/-- **Filling rule.** Writes that meet every cell once succeed, and the buffer holds
what they wrote. -/
theorem Performs.fills
    {run : Buffer α → Except ε (Buffer α)} {length : Nat}
    (hrun : Performs outOfRange run writes)
    (value : α)
    (hcells : (writes.map Prod.fst).Perm (List.range length)) :
    ∃ buffer', run (filled length value) = .ok buffer' ∧
      buffer'.cells.length = length ∧
      buffer'.written.Perm (List.range length) ∧
      ∀ entry ∈ writes, buffer'.cells[entry.1]? = some entry.2 := by
  have hlength : (filled length value).cells.length = length := List.length_replicate
  have hrange : ∀ entry ∈ writes, entry.1 < (filled length value).cells.length := by
    intro entry hentry
    rw [hlength]
    exact List.mem_range.mp (hcells.mem_iff.mp (List.mem_map_of_mem hentry))
  have hdistinct := hcells.nodup_iff.mpr List.nodup_range
  obtain ⟨buffer', hwrites, hafter⟩ := exists_after outOfRange hrange hdistinct
  refine ⟨buffer', (hrun _).trans hwrites, hafter.length_eq.trans hlength, ?_, hafter.holds⟩
  rw [hafter.written_eq]
  exact hcells

end Effects
end Buffer
end FlorenceServer
