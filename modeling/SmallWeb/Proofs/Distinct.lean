/-
SmallWeb/Proofs/Distinct.lean

The distinct elements of a list, in the order of first occurrence.

Tables that grow at their end and take every key once list their keys in this
order.  They are read from the end: the last element of the list is a new one, or
it changes nothing.
-/
import Mathlib.Data.List.Induction
import Mathlib.Data.List.Nodup

namespace SmallWeb

variable {α : Type} [BEq α] [LawfulBEq α]

/-- The last element counts where it occurs for the first time. -/
theorem eraseDups_concat (l : List α) (a : α) :
    (l ++ [a]).eraseDups = if a ∈ l then l.eraseDups else l.eraseDups ++ [a] := by
  rw [List.eraseDups_append]
  split <;> rename_i hmem <;> simp [List.removeAll, hmem, List.eraseDups_cons]

theorem nodup_eraseDups (l : List α) : l.eraseDups.Nodup := by
  induction l using List.reverseRecOn with
  | nil => exact List.nodup_nil
  | append_singleton l a ih =>
    rw [eraseDups_concat]
    split
    · exact ih
    · rename_i hmem
      rw [← List.concat_eq_append]
      exact List.Nodup.concat (fun h => hmem (List.mem_eraseDups.mp h)) ih

end SmallWeb
