import Mathlib.Data.List.Basic
import Mathlib.Data.List.Infix

/-!
# Blocks in Feedback

A stretched output: each block is computed from the one before it and from its
own number, counting from one, and the output is the blocks joined in order.
Where every block has the same length, how many of them are joined does not
matter to what is taken from the front.

## Main definitions

* `Feedback.block`: The block of a number.
* `Feedback.blocks`: The first blocks.
* `Feedback.output`: The first blocks, joined.

## Theorems

* `Feedback.length_output`: The length of the joined blocks.
* `Feedback.output_prefix`: More blocks only add to the output.
* `Feedback.take_output`: What is taken from the front needs only enough blocks.
-/

namespace Library

namespace Feedback

variable {α : Type} (next : List α → Nat → List α)

/-- The block of a number. Nothing stands before the first. -/
def block : Nat → List α
  | 0 => []
  | i + 1 => next (block i) (i + 1)

/-- The blocks from the first to the `n`th. -/
def blocks (n : Nat) : List (List α) := (List.range n).map fun i => block next (i + 1)

/-- The blocks from the first to the `n`th, joined. -/
def output (n : Nat) : List α := (blocks next n).flatten

@[simp] theorem blocks_zero : blocks next 0 = [] := rfl

theorem blocks_succ (n : Nat) : blocks next (n + 1) = blocks next n ++ [block next (n + 1)] := by
  rw [blocks, List.range_succ, List.map_append, List.map_singleton, blocks]

theorem output_succ (n : Nat) : output next (n + 1) = output next n ++ block next (n + 1) := by
  rw [output, blocks_succ, List.flatten_append, List.flatten_singleton, output]

variable {next} {len : Nat} (hlen : ∀ prev i, (next prev i).length = len)

include hlen in
theorem length_output (n : Nat) : (output next n).length = n * len := by
  induction n with
  | zero => rw [Nat.zero_mul, output, blocks_zero, List.flatten_nil, List.length_nil]
  | succ n ih => rw [output_succ, List.length_append, ih, block, hlen, Nat.succ_mul]

theorem output_prefix (next : List α → Nat → List α) {m n : Nat} (h : m ≤ n) :
    output next m <+: output next n := by
  induction n, h using Nat.le_induction with
  | base => exact List.prefix_rfl
  | succ n _ ih =>
      rw [output_succ]
      exact ih.trans (List.prefix_append _ _)

include hlen in
/-- Any number of blocks that reach the length gives the same front. -/
theorem take_output {length m n : Nat} (hm : length ≤ m * len) (h : m ≤ n) :
    (output next n).take length = (output next m).take length := by
  rcases output_prefix next h with ⟨rest, hrest⟩
  rw [← hrest, List.take_append_of_le_length]
  rw [length_output hlen]
  exact hm

end Feedback

end Library
