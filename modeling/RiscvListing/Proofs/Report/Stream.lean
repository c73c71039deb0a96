import Mathlib.Algebra.GroupWithZero.Nat
import RiscvListing.Report.Sink

namespace RiscvListing

theorem utf8_append (first second : String) :
    utf8 (first ++ second) = utf8 first ++ utf8 second := by
  rw [utf8, String.toUTF8_eq_toByteArray, String.toByteArray_append, ByteArray.data_append]
  rfl

namespace Report

def stream (report : Report) : Bytes :=
  (report.lines.flatMap fun line => [utf8 line, utf8 "\n"]).foldr (· ++ ·) #[]

theorem stream_eq (report : Report) : report.stream = utf8 report.text := by
  rw [stream, text]
  induction report.lines with
  | nil => rfl
  | cons line lines ih =>
    rw [List.flatMap_cons, List.foldr_append, ih, List.map_cons, String.join_cons, utf8_append,
      utf8_append, Array.append_assoc]
    rfl

theorem size_utf8_text (report : Report) :
    (utf8 report.text).size = (report.lines.map fun line => (utf8 line).size + 1).sum := by
  rw [text]
  induction report.lines with
  | nil => rfl
  | cons line lines ih =>
    have ending : (utf8 "\n").size = 1 := rfl
    rw [List.map_cons, String.join_cons, utf8_append, utf8_append, Array.size_append,
      Array.size_append, ending, ih, List.map_cons, List.sum_cons]

end Report

namespace Sink

theorem room_write (sink : Sink) (bytes : Bytes) :
    (sink.write bytes).room = sink.room - bytes.size := by
  have taken : (sink.write bytes).taken.size = sink.taken.size + min sink.room bytes.size := by
    rw [write, Array.size_append, Array.size_extract, Nat.sub_zero]
  have capacity : (sink.write bytes).capacity = sink.capacity := rfl
  have room : sink.room = sink.capacity - sink.taken.size := rfl
  rw [Sink.room, taken, capacity]
  omega

theorem write_of_room_eq_zero {sink : Sink} (full : sink.room = 0) (bytes : Bytes) :
    sink.write bytes = sink := by
  rw [write, full, Array.extract_zero, Array.append_empty]

theorem write_empty (sink : Sink) : sink.write #[] = sink := by
  rw [write, Array.extract_empty, Array.append_empty]

theorem extract_append_of_le {first : Bytes} {room : Nat} (fits : first.size ≤ room)
    (second : Bytes) :
    (first ++ second).extract 0 room = first ++ second.extract 0 (room - first.size) := by
  rw [Array.extract_append, Nat.zero_sub, Array.extract_eq_self_of_le fits]

theorem extract_append_of_lt {first : Bytes} {room : Nat} (short : room < first.size)
    (second : Bytes) : (first ++ second).extract 0 room = first.extract 0 room := by
  have nothing : room - first.size = 0 := by omega
  rw [Array.extract_append, Nat.zero_sub, nothing, Array.extract_zero, Array.append_empty]

/-- Wherever the sink fills up, it holds what there is room for of all the pieces together. -/
theorem writeAll_eq (sink : Sink) (pieces : List Bytes) :
    sink.writeAll pieces =
      (sink.write (pieces.foldr (· ++ ·) #[]),
        decide ((pieces.foldr (· ++ ·) #[]).size ≤ sink.room)) := by
  induction pieces generalizing sink with
  | nil => simp [writeAll, write_empty]
  | cons piece pieces ih =>
    rw [List.foldr_cons, writeAll]
    by_cases fits : piece.size ≤ sink.room
    · have joined : (sink.write piece).write (pieces.foldr (· ++ ·) #[]) =
          sink.write (piece ++ pieces.foldr (· ++ ·) #[]) := by
        have whole : piece.extract 0 sink.room = piece := Array.extract_eq_self_of_le fits
        rw [write, room_write, write, write, extract_append_of_le fits, whole, Array.append_assoc]
      rw [if_pos fits, ih, joined, room_write, Array.size_append]
      congr 1
      exact decide_eq_decide.mpr (Nat.le_sub_iff_add_le' fits)
    · have short : sink.room < piece.size := Nat.lt_of_not_le fits
      have cut : sink.write (piece ++ pieces.foldr (· ++ ·) #[]) = sink.write piece := by
        rw [write, extract_append_of_lt short, write]
      have more : ¬(piece ++ pieces.foldr (· ++ ·) #[]).size ≤ sink.room := by
        rw [Array.size_append]
        omega
      rw [if_neg fits, cut, decide_eq_false more]

end Sink

inductive WriteFault where
  | writeZero
  deriving DecidableEq, Repr

/-- Where bytes go. A call is offered bytes, takes some of them from the front, and leaves the
destination in a new state. -/
structure Destination (State : Type) where
  takes : State → Bytes → Nat
  after : State → Bytes → State

namespace Destination

def sink : Destination Sink where
  takes sink bytes := min bytes.size sink.room
  after sink bytes := sink.write bytes

def unlimited : Destination Bytes where
  takes _ bytes := bytes.size
  after taken bytes := taken ++ bytes

variable {State : Type}

/-- Offers what is left again and again, until all is taken or a call takes nothing. -/
def offer (destination : Destination State) (state : State) (bytes : Bytes) :
    State × Except WriteFault Unit :=
  if bytes.size = 0 then (state, .ok ())
  else if destination.takes state bytes = 0 then
    (destination.after state bytes, .error .writeZero)
  else
    destination.offer (destination.after state bytes)
      (bytes.extract (destination.takes state bytes) bytes.size)
termination_by bytes.size
decreasing_by
  rw [Array.size_extract]
  omega

def offerAll (destination : Destination State) (state : State) :
    List Bytes → State × Except WriteFault Unit
  | [] => (state, .ok ())
  | piece :: pieces =>
    match destination.offer state piece with
    | (next, .ok ()) => destination.offerAll next pieces
    | (next, .error fault) => (next, .error fault)

theorem offer_empty (destination : Destination State) (state : State) {bytes : Bytes}
    (empty : bytes.size = 0) : destination.offer state bytes = (state, .ok ()) := by
  rw [offer, if_pos empty]

theorem offer_sink_of_full {state : Sink} (full : state.room = 0) {bytes : Bytes}
    (more : bytes.size ≠ 0) : sink.offer state bytes = (state, .error .writeZero) := by
  have none : sink.takes state bytes = 0 := by
    simp [sink, full]
  have same : sink.after state bytes = state := Sink.write_of_room_eq_zero full bytes
  rw [offer, if_neg more, if_pos none, same]

theorem offer_sink (state : Sink) (bytes : Bytes) :
    sink.offer state bytes =
      (state.write bytes, if bytes.size ≤ state.room then .ok () else .error .writeZero) := by
  by_cases empty : bytes.size = 0
  · have fits : bytes.size ≤ state.room := by omega
    have none : bytes = #[] := Array.eq_empty_of_size_eq_zero empty
    rw [offer_empty sink state empty, if_pos fits, none, Sink.write_empty]
  · by_cases full : state.room = 0
    · have short : ¬bytes.size ≤ state.room := by omega
      rw [offer_sink_of_full full empty, if_neg short, Sink.write_of_room_eq_zero full]
    · have taken : sink.takes state bytes = min bytes.size state.room := rfl
      have after : sink.after state bytes = state.write bytes := rfl
      have some : sink.takes state bytes ≠ 0 := by omega
      have left : (bytes.extract (sink.takes state bytes) bytes.size).size =
          bytes.size - state.room := by
        rw [Array.size_extract]
        omega
      rw [offer, if_neg empty, if_neg some, after]
      by_cases fits : bytes.size ≤ state.room
      · have all : (bytes.extract (sink.takes state bytes) bytes.size).size = 0 := by omega
        rw [offer_empty sink _ all, if_pos fits]
      · have filled : (state.write bytes).room = 0 := by
          rw [Sink.room_write]
          omega
        have rest : (bytes.extract (sink.takes state bytes) bytes.size).size ≠ 0 := by omega
        rw [offer_sink_of_full filled rest, if_neg fits]

theorem offerAll_sink (state : Sink) (pieces : List Bytes) :
    sink.offerAll state pieces =
      ((state.writeAll pieces).1,
        if (state.writeAll pieces).2 then .ok () else .error .writeZero) := by
  induction pieces generalizing state with
  | nil => rfl
  | cons piece pieces ih =>
    rw [offerAll, offer_sink, Sink.writeAll]
    by_cases fits : piece.size ≤ state.room
    · rw [if_pos fits, if_pos fits]
      exact ih (state.write piece)
    · rw [if_neg fits, if_neg fits]
      rfl

theorem offer_unlimited (taken bytes : Bytes) :
    unlimited.offer taken bytes = (taken ++ bytes, .ok ()) := by
  by_cases empty : bytes.size = 0
  · have none : bytes = #[] := Array.eq_empty_of_size_eq_zero empty
    rw [offer_empty unlimited taken empty, none, Array.append_empty]
  · have some : unlimited.takes taken bytes ≠ 0 := empty
    have all : (bytes.extract (unlimited.takes taken bytes) bytes.size).size = 0 := by
      simp [unlimited]
    rw [offer, if_neg empty, if_neg some, offer_empty unlimited _ all]
    rfl

theorem offerAll_unlimited (taken : Bytes) (pieces : List Bytes) :
    unlimited.offerAll taken pieces = (taken ++ pieces.foldr (· ++ ·) #[], .ok ()) := by
  induction pieces generalizing taken with
  | nil => rw [offerAll, List.foldr_nil, Array.append_empty]
  | cons piece pieces ih =>
    rw [offerAll, offer_unlimited, List.foldr_cons, ← Array.append_assoc]
    exact ih (taken ++ piece)

end Destination

namespace Report

theorem writeTo_ofCapacity (report : Report) (capacity : Nat) :
    report.writeTo (.ofCapacity capacity) =
      (⟨capacity, (utf8 report.text).extract 0 capacity⟩,
        decide ((utf8 report.text).size ≤ capacity)) := by
  have room : (Sink.ofCapacity capacity).room = capacity := rfl
  have written : (Sink.ofCapacity capacity).write (utf8 report.text) =
      ⟨capacity, (utf8 report.text).extract 0 capacity⟩ := by
    rw [Sink.write, room, Sink.ofCapacity, Array.empty_append]
  rw [writeTo, Sink.writeAll_eq, ← stream, stream_eq, room, written]

/-- Writing a report line by line gives the bytes of its text, as many of them as there is room
for. It fails exactly when they are not all taken, and a destination without a limit has room for
all of them. -/
theorem writeTo_agrees_with_text (report : Report) :
    (∀ capacity : Nat,
      (report.writeTo (.ofCapacity capacity)).1.taken =
        (utf8 report.text).extract 0 (min capacity (utf8 report.text).size) ∧
      ((report.writeTo (.ofCapacity capacity)).2 = true ↔ (utf8 report.text).size ≤ capacity) ∧
      Destination.sink.offerAll (.ofCapacity capacity)
          (report.lines.flatMap fun line => [utf8 line, utf8 "\n"]) =
        ((report.writeTo (.ofCapacity capacity)).1,
          if (utf8 report.text).size ≤ capacity then .ok () else .error .writeZero)) ∧
    Destination.unlimited.offerAll #[]
        (report.lines.flatMap fun line => [utf8 line, utf8 "\n"]) = (utf8 report.text, .ok ()) ∧
    (utf8 report.text).size = (report.lines.map fun line => (utf8 line).size + 1).sum := by
  refine ⟨?_, ?_, report.size_utf8_text⟩
  · intro capacity
    have written := report.writeTo_ofCapacity capacity
    have retried := Destination.offerAll_sink (.ofCapacity capacity)
      (report.lines.flatMap fun line => [utf8 line, utf8 "\n"])
    have direct : (Sink.ofCapacity capacity).writeAll
        (report.lines.flatMap fun line => [utf8 line, utf8 "\n"]) =
          report.writeTo (.ofCapacity capacity) := rfl
    rw [direct, written] at retried
    rw [written]
    refine ⟨?_, decide_eq_true_iff, ?_⟩
    · rw [Array.extract_eq_extract_right]
      omega
    · simpa only [decide_eq_true_eq] using retried
  · rw [Destination.offerAll_unlimited, Array.empty_append, ← stream, stream_eq]

end Report

end RiscvListing
