import Relaxation.Fault

/-!
Checked access to stored vectors. Reading outside a vector is a fault; a span
that was read has its length in its type, so what is computed from it needs no
further checks.
-/

namespace Relaxation.Storage

variable {α : Type}

def fetch (values : Array α) (index : Nat) : Except Fault α :=
  match values[index]? with
  | some value => .ok value
  | none => .error .outOfRange

def span (values : Array α) (start count : Nat) : Except Fault (Vector α count) :=
  if inside : start + count ≤ values.size then
    .ok ⟨values.extract start (start + count), by simp; omega⟩
  else
    .error .outOfRange

/-- Replaces the values from `start` on. What would fall past the end is dropped. -/
def overwrite (values : Array α) (start : Nat) : List α → Array α
  | [] => values
  | value :: rest => overwrite (values.setIfInBounds start value) (start + 1) rest

def fill (values : Array α) (count : Nat) (value : α) : Array α :=
  values.mapIdx fun index old => if index < count then value else old

def copyInto (values : Array α) (start count : Nat) (source : Array α) :
    Except Fault (Array α) :=
  if values.size < start + count then .error .outOfRange
  else if source.size = count then .ok (overwrite values start source.toList)
  else .error .lengthMismatch

@[simp] theorem size_overwrite (values : Array α) (start : Nat) (source : List α) :
    (overwrite values start source).size = values.size := by
  induction source generalizing values start with
  | nil => rfl
  | cons value rest ih => simp [overwrite, ih]

theorem getElem?_overwrite (values : Array α) (start : Nat) (source : List α) (index : Nat) :
    (overwrite values start source)[index]? =
      if start ≤ index ∧ index < start + source.length ∧ index < values.size then
        source[index - start]?
      else values[index]? := by
  induction source generalizing values start with
  | nil =>
      rw [overwrite, if_neg]
      simp only [List.length_nil]
      omega
  | cons value rest ih =>
      rw [overwrite, ih, Array.getElem?_setIfInBounds]
      simp only [Array.size_setIfInBounds, List.length_cons]
      by_cases here : start = index
      · subst here
        by_cases inside : start < values.size
        · have later : ¬(start + 1 ≤ start) := by omega
          simp [inside, later]
        · simp [inside]
      · by_cases after : start < index
        · have step : index - start = (index - (start + 1)) + 1 := by omega
          have first : start ≤ index := by omega
          rw [step, List.getElem?_cons_succ]
          simp only [here, ↓reduceIte]
          have same : (start + 1 ≤ index ∧ index < start + 1 + rest.length ∧
              index < values.size) ↔
              (start ≤ index ∧ index < start + (rest.length + 1) ∧ index < values.size) := by
            omega
          by_cases range : start + 1 ≤ index ∧ index < start + 1 + rest.length ∧
              index < values.size
          · rw [if_pos range, if_pos (same.mp range)]
          · rw [if_neg range, if_neg (fun found => range (same.mpr found))]
        · have outside : ¬(start + 1 ≤ index ∧ index < start + 1 + rest.length ∧
              index < values.size) := by omega
          have before : ¬(start ≤ index ∧ index < start + (rest.length + 1) ∧
              index < values.size) := by omega
          rw [if_neg outside, if_neg before, if_neg here]

end Relaxation.Storage
