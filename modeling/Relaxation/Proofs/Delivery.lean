import Mathlib.Order.Basic
import Relaxation.Table

/-!
Writing a table to a sink that fills up. What arrives is the text up to the last byte that fits,
wherever in a line this byte lies and however small the portions are in which the sink takes what
it is offered.
-/

namespace Relaxation

namespace Sink

/-- How writing `bytes` ends at a sink with room for `limit` of them. -/
structure Delivers (sink : Sink) (limit : Nat) (bytes : List UInt8)
    (ended : Except String Unit × Sink) : Prop where
  taken : ended.2.taken = sink.taken ++ (bytes.take limit).toArray
  room : ended.2.room = some (limit - bytes.length)
  reason : ended.2.reason = sink.reason
  outcome : ended.1 = if bytes.length ≤ limit then .ok () else .error sink.reason

variable {sink middle : Sink} {limit : Nat} {bytes more : List UInt8}
  {ended : Except String Unit × Sink}

namespace Delivers

theorem nothing (roomy : sink.room = some limit) : Delivers sink limit [] (.ok (), sink) where
  taken := by simp
  room := roomy
  reason := rfl
  outcome := (if_pos limit.zero_le).symm

theorem full {byte : UInt8} (roomy : sink.room = some 0) :
    Delivers sink 0 (byte :: bytes) (.error sink.reason, sink) where
  taken := by simp
  room := by rw [roomy, Nat.zero_sub]
  reason := rfl
  outcome := (if_neg (by simp)).symm

theorem portion (roomy : sink.room = some limit) (fits : bytes.length ≤ limit) :
    Delivers sink limit bytes (.ok (), sink.take bytes) where
  taken := by rw [List.take_of_length_le fits]; rfl
  room := by simp [take, roomy]
  reason := rfl
  outcome := (if_pos fits).symm

theorem fits (done : Delivers sink limit bytes (.ok (), middle)) : bytes.length ≤ limit := by
  by_contra beyond
  have refused := done.outcome
  rw [if_neg beyond] at refused
  cases refused

theorem append (first : Delivers sink limit bytes (.ok (), middle))
    (second : Delivers middle (limit - bytes.length) more ended) :
    Delivers sink limit (bytes ++ more) ended where
  taken := by
    rw [second.taken, first.taken, List.take_append, List.take_of_length_le first.fits]
    simp
  room := by rw [second.room, List.length_append, Nat.sub_sub]
  reason := second.reason.trans first.reason
  outcome := by
    rw [second.outcome, first.reason, List.length_append]
    refine if_congr ?_ rfl rfl
    have := first.fits
    omega

theorem stop {reason : String} (failed : Delivers sink limit bytes (.error reason, middle)) :
    Delivers sink limit (bytes ++ more) (.error reason, middle) := by
  have beyond : limit < bytes.length := by
    by_contra within
    have accepted := failed.outcome
    rw [if_pos (Nat.not_lt.mp within)] at accepted
    cases accepted
  have refused := failed.outcome
  rw [if_neg (Nat.not_le.mpr beyond)] at refused
  refine ⟨?_, ?_, failed.reason, ?_⟩
  · rw [failed.taken, List.take_append_of_le_length (Nat.le_of_lt beyond)]
  · rw [failed.room, List.length_append]
    congr 1
    omega
  · rw [refused, List.length_append, if_neg (by omega)]

end Delivers

theorem accepts_eq (roomy : sink.room = some limit) (offered : Nat) :
    sink.accepts offered = min (min offered limit) (sink.portion sink.writes + 1) := by
  rw [accepts, roomy, Option.getD_some]

theorem writeAll_delivers (roomy : sink.room = some limit) (bytes : List UInt8) :
    Delivers sink limit bytes (sink.writeAll bytes) := by
  fun_induction writeAll sink bytes generalizing limit with
  | case1 sink => exact .nothing roomy
  | case2 sink byte rest none =>
      rw [accepts_eq roomy] at none
      obtain rfl : limit = 0 := by omega
      exact .full roomy
  | case3 sink byte rest count some ih =>
      rw [accepts_eq roomy] at some
      have length : (byte :: rest.take count).length = count + 1 := by
        rw [List.length_cons, List.length_take]
        omega
      have now := Delivers.portion roomy (show (byte :: rest.take count).length ≤ limit by omega)
      have whole := now.append (ih now.room)
      rwa [List.cons_append, List.take_append_drop] at whole

theorem writePieces_delivers (roomy : sink.room = some limit) (pieces : List String) :
    Delivers sink limit (pieces.flatMap encode) (sink.writePieces pieces) := by
  induction pieces generalizing sink limit with
  | nil => exact .nothing roomy
  | cons piece rest ih =>
      have first := writeAll_delivers roomy (encode piece)
      rw [List.flatMap_cons, writePieces]
      rcases ended : sink.writeAll (encode piece) with ⟨outcome, middle⟩
      rw [ended] at first
      cases outcome with
      | ok => exact first.append (ih first.room)
      | error reason => exact first.stop

theorem toList_loop (bytes : ByteArray) (start : Nat) (taken : List UInt8) :
    ByteArray.toList.loop bytes start taken = taken.reverse ++ bytes.data.toList.drop start := by
  fun_induction ByteArray.toList.loop bytes start taken with
  | case1 start taken inside ih =>
      rw [ih, List.reverse_cons, List.append_assoc, List.singleton_append]
      congr 1
      have within : start < bytes.data.toList.length := inside
      rw [List.drop_eq_getElem_cons within]
      congr 1
      exact getElem!_pos bytes.data start inside
  | case2 start taken outside =>
      have beyond : bytes.data.toList.length ≤ start := Nat.not_lt.mp outside
      rw [List.drop_eq_nil_of_le beyond, List.append_nil]

theorem encode_eq (text : String) : encode text = text.toByteArray.data.toList := by
  rw [encode, String.toUTF8, ByteArray.toList, toList_loop, List.reverse_nil, List.nil_append,
    List.drop_zero]

theorem encode_append (text more : String) :
    encode (text ++ more) = encode text ++ encode more := by
  rw [encode_eq, encode_eq, encode_eq, String.toByteArray_append, ByteArray.data_append,
    Array.toList_append]

theorem encode_join (pieces : List String) :
    encode (String.join pieces) = pieces.flatMap encode := by
  induction pieces with
  | nil => simp [encode_eq]
  | cons piece rest ih => rw [String.join_cons, encode_append, ih, List.flatMap_cons]

end Sink

namespace Table

/-- A complete table: the heading, then one line for each value with its index. -/
def text (heading : String) (first : Nat) (values : List Float) : String :=
  heading ++ "\n" ++ String.join (values.mapIdx fun place value =>
    toString (first + place) ++ "," ++ Decimal.plain value ++ "\n")

theorem join_line (index : Nat) (value : Float) :
    String.join (line index value) = toString index ++ "," ++ Decimal.plain value ++ "\n" := by
  simp [line, String.join_cons, String.append_assoc]

theorem join_lines (first : Nat) (values : List Float) :
    String.join (lines first values) = String.join (values.mapIdx fun place value =>
      toString (first + place) ++ "," ++ Decimal.plain value ++ "\n") := by
  induction values generalizing first with
  | nil => rfl
  | cons value rest ih =>
      rw [List.mapIdx_cons, String.join_cons, lines, List.zipIdx_cons, List.flatMap_cons,
        String.join_append, join_line, Nat.add_zero]
      congr 1
      rw [← lines, ih (first + 1)]
      simp only [Nat.add_assoc, Nat.add_comm 1]

/-- A sink with room for `limit` bytes has taken the head of a text, and the writer has learned
whether anything was left. -/
structure CutOff {α : Type} (sink : Sink) (limit : Nat) (text : String)
    (ended : Except (Refusal α) Unit × Sink) : Prop where
  taken : ended.2.taken =
    sink.taken ++ text.toUTF8.data.extract 0 (min limit text.toUTF8.size)
  accepted : ended.1 = .ok () ↔ text.toUTF8.size ≤ limit
  refused : limit < text.toUTF8.size → ended.1 = .error (.storage sink.reason)

theorem write_outcome {α : Type} (pieces : List String) (sink : Sink) :
    (write (α := α) pieces sink).1 = (sink.writePieces pieces).1.mapError .storage := rfl

theorem write_sink {α : Type} (pieces : List String) (sink : Sink) :
    (write (α := α) pieces sink).2 = (sink.writePieces pieces).2 := rfl

theorem write_cut_off {α : Type} (pieces : List String) (sink : Sink) (limit : Nat) :
    CutOff (α := α) sink limit (String.join pieces)
      (write pieces { sink with room := some limit }) := by
  have roomy : ({ sink with room := some limit } : Sink).room = some limit := rfl
  have delivered := Sink.writePieces_delivers roomy pieces
  rw [← Sink.encode_join, Sink.encode_eq] at delivered
  have head : ((String.join pieces).toByteArray.data.toList.take limit).toArray =
      (String.join pieces).toUTF8.data.extract 0 (min limit (String.join pieces).toUTF8.size) := by
    apply Array.toList_inj.mp
    rw [Array.toList_extract, List.extract_eq_take_drop, List.drop_zero, Nat.sub_zero]
    exact List.take_eq_take_min
  have ends : (write (α := α) pieces { sink with room := some limit }).1 =
      if (String.join pieces).toUTF8.size ≤ limit then .ok () else .error (.storage sink.reason) := by
    rw [write_outcome, delivered.outcome, apply_ite (Except.mapError _)]
    rfl
  refine ⟨?_, ?_, fun beyond => ?_⟩
  · rw [write_sink, ← head]
    exact delivered.taken
  · rw [ends]
    refine ⟨fun accepted => ?_, fun within => if_pos within⟩
    by_contra beyond
    rw [if_neg beyond] at accepted
    cases accepted
  · rw [ends, if_neg (Nat.not_le.mpr beyond)]

theorem join_history (values : List Float) :
    String.join (history values) = text "iteration,residual" 1 values := by
  rw [history, String.join_cons, join_lines]
  rfl

theorem join_solution (values : List Float) :
    String.join (solution values) = text "index,value" 0 values := by
  rw [solution, String.join_cons, join_lines]
  rfl

/-- Both tables arrive up to the last byte that fits, in portions of any size, and are refused for
the sink's own reason just when the text is longer than the room. -/
theorem tables_cut_off_at_limit {α : Type} (values : List Float) (sink : Sink) (limit : Nat) :
    CutOff (α := α) sink limit (text "iteration,residual" 1 values)
      (write (history values) { sink with room := some limit }) ∧
    CutOff (α := α) sink limit (text "index,value" 0 values)
      (write (solution values) { sink with room := some limit }) := by
  rw [← join_history, ← join_solution]
  exact ⟨write_cut_off (history values) sink limit, write_cut_off (solution values) sink limit⟩

end Table
end Relaxation
