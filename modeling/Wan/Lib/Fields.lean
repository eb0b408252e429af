import Mathlib.Data.List.TakeWhile
import Mathlib.Tactic

/-!
# The fields of a line

A line is cut at every separator, and empty pieces are left out.
-/

namespace Wan.Lib

variable {α : Type*} {p : α → Bool} {l m : List α} {x : α}

noncomputable def fields (p : α → Bool) (l : List α) : List (List α) :=
  (l.splitOnP p).filter (!·.isEmpty)

@[simp] theorem fields_nil : fields p [] = [] := by
  simp [fields, List.splitOnP_nil]

theorem fields_append_cons (hx : p x = true) :
    fields p (l ++ x :: m) = fields p l ++ fields p m := by
  rw [fields, List.splitOnP_append_cons l m hx, List.filter_append]
  rfl

theorem fields_cons (hx : p x = true) : fields p (x :: l) = fields p l := by
  simpa using fields_append_cons (l := []) (m := l) hx

theorem fields_singleton (hl : ∀ y ∈ l, p y = false) (hne : l ≠ []) : fields p l = [l] := by
  simp [fields, List.splitOnP_eq_singleton hl, hne]

theorem fields_dropWhile (l : List α) : fields p (l.dropWhile p) = fields p l := by
  induction l with
  | nil => rfl
  | cons x l ih =>
    cases hx : p x with
    | true => rw [List.dropWhile_cons_of_pos hx, ih, fields_cons hx]
    | false => rw [List.dropWhile_cons_of_neg (by simp [hx])]

theorem fields_eq_cons (hx : p x = false) : fields p (x :: l) =
    (x :: l).takeWhile (!p ·) :: fields p (((x :: l).dropWhile (!p ·)).drop 1) := by
  have hfirst : ∀ y ∈ (x :: l).takeWhile (!p ·), p y = false := by
    intro y hy
    simpa using List.mem_takeWhile_imp hy
  have hne : (x :: l).takeWhile (!p ·) ≠ [] := by simp [hx]
  have hsplit := List.takeWhile_append_dropWhile (p := (!p ·)) (l := x :: l)
  cases hrest : (x :: l).dropWhile (!p ·) with
  | nil =>
    rw [hrest, List.append_nil] at hsplit
    rw [hsplit] at hfirst ⊢
    rw [fields_singleton hfirst (List.cons_ne_nil x l)]
    simp
  | cons y rest =>
    have hy : p y = true := by
      have := List.head?_dropWhile_not (!p ·) (x :: l)
      rw [hrest] at this
      simpa using this
    rw [hrest] at hsplit
    conv_lhs => rw [← hsplit]
    rw [fields_append_cons hy, fields_singleton hfirst hne]
    rfl

theorem eq_false_of_mem_splitOnP {f : List α} (hf : f ∈ l.splitOnP p) : ∀ y ∈ f, p y = false := by
  induction l generalizing f with
  | nil =>
    obtain rfl : f = [] := by simpa [List.splitOnP_nil] using hf
    simp
  | cons x l ih =>
    rw [List.splitOnP_cons_eq_if_modifyHead] at hf
    obtain ⟨g, gs, hg⟩ := List.exists_cons_of_ne_nil (List.splitOnP_ne_nil p l)
    rw [hg] at hf ih
    split_ifs at hf with hx
    · rcases List.mem_cons.mp hf with rfl | hf
      · simp
      · exact ih hf
    · rcases List.mem_cons.mp hf with rfl | hf
      · intro y hy
        rcases List.mem_cons.mp hy with rfl | hy
        · simpa using hx
        · exact ih List.mem_cons_self y hy
      · exact ih (List.mem_cons_of_mem g hf)

theorem mem_fields {f : List α} (hf : f ∈ fields p l) : f ≠ [] ∧ ∀ y ∈ f, p y = false := by
  obtain ⟨hsplit, hne⟩ := List.mem_filter.mp hf
  exact ⟨by simpa using hne, eq_false_of_mem_splitOnP hsplit⟩

end Wan.Lib
