import Relaxation.Storage

/-!
What checked accesses answer inside their range, and that they depend on the
accessed positions only.
-/

namespace Relaxation

namespace Fault

variable {β γ : Type}

theorem map_until_ok (call : β → Except Fault γ) (result : β → γ) (items : List β)
    (succeeds : ∀ item ∈ items, call item = .ok (result item)) :
    mapUntil call items = (items.map result, .ok ()) := by
  induction items with
  | nil => rfl
  | cons item rest ih =>
      have head := succeeds item List.mem_cons_self
      have tail := ih fun other member => succeeds other (List.mem_cons_of_mem item member)
      simp only [mapUntil, head, tail, List.map_cons]

end Fault

section Results

variable {β γ ε : Type}

theorem foldlM_ok {step : β → γ → Except ε β} {value : β → γ → β} {items : List γ}
    (succeeds : ∀ item ∈ items, ∀ sum, step sum item = .ok (value sum item)) (start : β) :
    items.foldlM step start = .ok (items.foldl value start) := by
  induction items generalizing start with
  | nil => rfl
  | cons item rest ih =>
      rw [List.foldlM_cons, succeeds item List.mem_cons_self]
      exact ih (fun other member => succeeds other (List.mem_cons_of_mem item member)) _

theorem mapM_of_ok {call : β → Except ε γ} {result : β → γ} {items : List β}
    (succeeds : ∀ item ∈ items, call item = .ok (result item)) :
    items.mapM call = .ok (items.map result) := by
  induction items with
  | nil => rfl
  | cons item rest ih =>
      rw [List.mapM_cons, succeeds item List.mem_cons_self,
        ih fun other member => succeeds other (List.mem_cons_of_mem item member)]
      rfl

theorem mapM_error {call : β → Except ε γ} {items : List β} {failure : ε}
    (ran : items.mapM call = .error failure) : ∃ item ∈ items, call item = .error failure := by
  induction items with
  | nil => cases ran
  | cons first rest ih =>
      rw [List.mapM_cons] at ran
      cases head : call first with
      | error other =>
          rw [head] at ran
          cases ran
          exact ⟨first, List.mem_cons_self, head⟩
      | ok result =>
          rw [head] at ran
          cases tail : rest.mapM call with
          | error other =>
              rw [tail] at ran
              cases ran
              obtain ⟨item, member, failed⟩ := ih tail
              exact ⟨item, List.mem_cons_of_mem first member, failed⟩
          | ok later =>
              rw [tail] at ran
              cases ran

theorem mapM_ok {call : β → Except ε γ} {items : List β} {results : List γ}
    (ran : items.mapM call = .ok results) :
    results.length = items.length ∧
      ∀ (k : Nat) (item : β), items[k]? = some item → ∃ result, results[k]? = some result ∧
        call item = .ok result := by
  induction items generalizing results with
  | nil =>
      cases ran
      exact ⟨rfl, fun k item found => nomatch found⟩
  | cons first rest ih =>
      rw [List.mapM_cons] at ran
      cases head : call first with
      | error failure =>
          rw [head] at ran
          cases ran
      | ok result =>
          rw [head] at ran
          cases tail : rest.mapM call with
          | error failure =>
              rw [tail] at ran
              cases ran
          | ok later =>
              rw [tail] at ran
              cases ran
              obtain ⟨length, answered⟩ := ih tail
              refine ⟨congrArg (· + 1) length, fun k item found => ?_⟩
              cases k with
              | zero =>
                  cases found
                  exact ⟨result, rfl, head⟩
              | succ k => exact answered k item found

end Results

namespace Storage

variable {α : Type}

theorem fetch_of_found {values : Array α} {index : Nat} {value : α}
    (found : values[index]? = some value) : fetch values index = .ok value := by
  simp only [fetch, found]

theorem fetch_of_lt {values : Array α} {index : Nat} (inside : index < values.size) :
    fetch values index = .ok values[index] :=
  fetch_of_found (Array.getElem?_eq_getElem inside)

theorem fetch_congr {left right : Array α} {index : Nat} (same : left[index]? = right[index]?) :
    fetch left index = fetch right index := by
  simp only [fetch, same]

theorem fetch_getD [Zero α] {values : Array α} {index : Nat} (inside : index < values.size) :
    fetch values index = .ok (values.getD index 0) := by
  rw [fetch_of_lt inside]
  simp [inside]

def window (values : Array α) (start count : Nat) (inside : start + count ≤ values.size) :
    Vector α count :=
  Vector.ofFn fun k => values[start + k.val]

@[simp] theorem get_window (values : Array α) (start count : Nat)
    (inside : start + count ≤ values.size) (k : Fin count) :
    (window values start count inside).get k = values[start + k.val] := by
  simp only [window, Vector.get, Vector.toArray_ofFn, Array.getElem_ofFn]
  rfl

theorem window_getD [Zero α] {values : Array α} {start n : Nat} (inside : start + n ≤ values.size)
    (k : Fin n) : (window values start n inside).get k = values.getD (start + k.val) 0 := by
  have within : start + k.val < values.size := by omega
  rw [get_window]
  simp [within]

theorem span_of_le {values : Array α} {start count : Nat} (inside : start + count ≤ values.size) :
    span values start count = .ok (window values start count inside) := by
  simp only [span, inside, ↓reduceDIte, window]
  congr 1
  apply Vector.ext
  intro k bound
  simp

theorem window_congr {left right : Array α} {start count : Nat}
    {leftInside : start + count ≤ left.size} {rightInside : start + count ≤ right.size}
    (same : ∀ k, k < count → left[start + k]? = right[start + k]?) :
    window left start count leftInside = window right start count rightInside := by
  apply Vector.ext
  intro k bound
  have here := same k bound
  rw [Array.getElem?_eq_getElem (by omega), Array.getElem?_eq_getElem (by omega)] at here
  simpa [window] using here

theorem span_congr_inside {left right : Array α} {start count : Nat}
    (leftInside : start + count ≤ left.size) (rightInside : start + count ≤ right.size)
    (same : ∀ k, k < count → left[start + k]? = right[start + k]?) :
    span left start count = span right start count := by
  rw [span_of_le leftInside, span_of_le rightInside, window_congr same]

theorem span_congr {left right : Array α} {start count : Nat} (sizes : left.size = right.size)
    (same : ∀ k, k < count → left[start + k]? = right[start + k]?) :
    span left start count = span right start count := by
  by_cases inside : start + count ≤ left.size
  · exact span_congr_inside inside (sizes ▸ inside) same
  · have outside : ¬ start + count ≤ right.size := sizes ▸ inside
    simp only [span, inside, outside, ↓reduceDIte]

@[simp] theorem size_fill (values : Array α) (count : Nat) (value : α) :
    (fill values count value).size = values.size := by
  simp [fill]

theorem getElem?_fill (values : Array α) (count : Nat) (value : α) (index : Nat) :
    (fill values count value)[index]? =
      if index < count then values[index]?.map fun _ => value else values[index]? := by
  simp only [fill, Array.getElem?_mapIdx]
  by_cases low : index < count <;> simp [low]

theorem overwrite_append (values : Array α) (start : Nat) (first second : List α) :
    overwrite values start (first ++ second) =
      overwrite (overwrite values start first) (start + first.length) second := by
  induction first generalizing values start with
  | nil => rfl
  | cons value rest ih =>
      rw [List.cons_append, overwrite, overwrite, ih, List.length_cons]
      congr 1
      omega

theorem getElem?_overwrite_inside (values : Array α) (start : Nat) (source : List α) {k : Nat}
    (listed : k < source.length) (fits : start + source.length ≤ values.size) :
    (overwrite values start source)[start + k]? = source[k]? := by
  rw [getElem?_overwrite, if_pos (by omega)]
  congr 1
  omega

theorem getElem?_overwrite_front (values : Array α) {source : List α} {index : Nat}
    (listed : index < source.length) (fits : source.length ≤ values.size) :
    (overwrite values 0 source)[index]? = source[index]? := by
  have inside := getElem?_overwrite_inside values 0 source listed (by omega)
  rwa [Nat.zero_add] at inside

theorem extract_front {values x : Array α} {n : Nat} (size : x.size = n)
    (same : ∀ index, index < n → values[index]? = x[index]?) : values.extract 0 n = x := by
  apply Array.ext_getElem?
  intro index
  rw [Array.getElem?_extract, Nat.zero_add]
  by_cases inside : index < n
  · have found := same index inside
    -- a vector that is too short for a position makes the other one end there too
    by_cases held : index < values.size
    · rw [if_pos (by omega), found]
    · rw [if_neg (by omega), ← found, Array.getElem?_eq_none (by omega)]
  · rw [if_neg (by omega), Array.getElem?_eq_none (by omega)]

theorem overwrite_front (values : Array α) (n : Nat) :
    overwrite values 0 (values.extract 0 n).toList = values := by
  apply Array.ext_getElem?
  intro index
  rw [getElem?_overwrite]
  split
  · rename_i inside
    rw [Array.length_toList, Array.size_extract] at inside
    rw [Array.getElem?_toList, Array.getElem?_extract, if_pos (by omega)]
    congr 1
    omega
  · rfl

theorem getElem?_overwrite_outside (values : Array α) (start : Nat) (source : List α) {index : Nat}
    (outside : index < start ∨ start + source.length ≤ index) :
    (overwrite values start source)[index]? = values[index]? := by
  rw [getElem?_overwrite, if_neg (by omega)]

end Storage

section Uniform

variable {α : Type}

theorem position_split {width : Nat} (piece : Nat) {position : Nat} (bound : position < width) :
    (piece * width + position) / width = piece ∧ (piece * width + position) % width = position := by
  have positive : 0 < width := Nat.zero_lt_of_lt bound
  rw [Nat.mul_comm]
  exact ⟨by rw [Nat.mul_add_div positive, Nat.div_eq_of_lt bound, Nat.add_zero],
    by rw [Nat.mul_add_mod, Nat.mod_eq_of_lt bound]⟩

theorem length_flatMap_uniform (pieces : Nat → List α) (width n : Nat)
    (uniform : ∀ t, t < n → (pieces t).length = width) :
    ((List.range n).flatMap pieces).length = n * width := by
  induction n with
  | zero => simp
  | succ n ih =>
      have before := ih fun t bound => uniform t (by omega)
      rw [List.range_succ, List.flatMap_append, List.length_append, before]
      simp [uniform n (by omega), Nat.succ_mul]

/-- In pieces of one width laid end to end, position `t * width + k` is position
`k` of piece `t`. -/
theorem getElem?_flatMap_uniform (pieces : Nat → List α) (width n : Nat)
    (uniform : ∀ t, t < n → (pieces t).length = width) {t k : Nat} (piece : t < n)
    (position : k < width) :
    ((List.range n).flatMap pieces)[t * width + k]? = (pieces t)[k]? := by
  induction n with
  | zero => omega
  | succ n ih =>
      have earlier : ∀ s, s < n → (pieces s).length = width := fun s bound => uniform s (by omega)
      have length := length_flatMap_uniform pieces width n earlier
      rw [List.range_succ, List.flatMap_append]
      by_cases last : t = n
      · subst last
        rw [List.getElem?_append_right (by omega), length]
        simp
      · -- an earlier piece ends before the last one begins
        have inside : t < n := by omega
        have fits : (t + 1) * width ≤ n * width := Nat.mul_le_mul_right width inside
        rw [Nat.succ_mul] at fits
        rw [List.getElem?_append_left (by omega)]
        exact ih earlier inside

end Uniform
end Relaxation
