import Mathlib.Data.List.Basic

/-!
# Lines

Texts made of lines that each end in a separator, and what a reader that splits
at the separator finds in them.
-/

namespace Lines

universe u

variable {α : Type u} [DecidableEq α] {sep : α} {text : List α} {lines : List (List α)}

/-- The lines that have their separator; what stands behind the last one is unfinished. -/
def complete (sep : α) (text : List α) : List (List α) := (text.splitOn sep).dropLast

def Finished (sep : α) (text : List α) : Prop := ∀ x ∈ text.getLast?, x = sep

def write (sep : α) (lines : List (List α)) : List α := lines.flatMap fun line => line ++ [sep]

omit [DecidableEq α] in
theorem finished_cases (h : Finished sep text) : text = [] ∨ ∃ front, text = front ++ [sep] := by
  rcases List.eq_nil_or_concat text with rfl | ⟨front, x, rfl⟩
  · exact .inl rfl
  · rw [List.concat_eq_append] at h ⊢
    rw [h x (by simp)]
    exact .inr ⟨front, rfl⟩

omit [DecidableEq α] in
theorem Finished.append_line (text line : List α) : Finished sep (text ++ (line ++ [sep])) := by
  intro x hx
  rw [← List.append_assoc, List.getLast?_concat] at hx
  exact (Option.some.inj hx).symm

theorem complete_append_line {line : List α} (h : Finished sep text) (hline : sep ∉ line) :
    complete sep (text ++ (line ++ [sep])) = complete sep text ++ [line] := by
  have hsplit : (line ++ [sep]).splitOn sep = [line, []] := by
    rw [List.splitOn_append_cons_self, List.splitOn_eq_singleton hline]
    rfl
  unfold complete
  obtain rfl | ⟨front, rfl⟩ := finished_cases h
  · rw [List.nil_append, hsplit]
    rfl
  · rw [List.append_assoc, List.singleton_append, List.splitOn_append_cons_self front (line ++ [sep]), hsplit,
      List.splitOn_append_cons_self front []]
    simp

/-- **Lines that hold no separator are read back as they were written.** -/
theorem complete_append_write (h : Finished sep text) (hlines : ∀ line ∈ lines, sep ∉ line) :
    complete sep (text ++ write sep lines) = complete sep text ++ lines ∧ Finished sep (text ++ write sep lines) := by
  induction lines generalizing text with
  | nil =>
    rw [write, List.flatMap_nil, List.append_nil, List.append_nil]
    exact ⟨rfl, h⟩
  | cons line lines ih =>
    rw [List.forall_mem_cons] at hlines
    obtain ⟨hcomplete, hfinished⟩ := ih (Finished.append_line text line) hlines.2
    have hwrite : text ++ write sep (line :: lines) = text ++ (line ++ [sep]) ++ write sep lines := by
      simp [write]
    rw [hwrite]
    refine ⟨?_, hfinished⟩
    rw [hcomplete, complete_append_line h hlines.1]
    simp

end Lines
