import Mathlib.Algebra.GroupWithZero.Nat
import Mathlib.Data.List.Basic

/-!
# Reading across segments

A space of addresses from 0 on is shown by segments, one behind the other.  `Segments.read` is the
content of a range; a reader that walks over the segments skips those in front of the range
(`read_skip`), and takes what it can from one before it goes on at the start of the next
(`read_cross`).
-/

namespace Segments

variable {α : Type*}

/-- The content of `length` addresses from `start` on. -/
def read (segments : List (List α)) (start length : Nat) : List α :=
  (segments.flatten.drop start).take length

@[simp] theorem read_zero (segments : List (List α)) (start : Nat) : read segments start 0 = [] :=
  List.take_zero

/-- A segment in front of the range. -/
theorem read_skip {segment : List α} {segments : List (List α)} {start : Nat}
    (h : segment.length ≤ start) (length : Nat) :
    read (segment :: segments) start length = read segments (start - segment.length) length := by
  rw [read, List.flatten_cons, List.drop_append, List.drop_eq_nil_of_le h, List.nil_append, read]

/-- A range that starts in the first segment. -/
theorem read_cross {segment : List α} {segments : List (List α)} {start : Nat}
    (h : start ≤ segment.length) (length : Nat) :
    read (segment :: segments) start length
      = (segment.drop start).take length
        ++ read segments 0 (length - (segment.length - start)) := by
  rw [read, List.flatten_cons, List.drop_append, Nat.sub_eq_zero_of_le h, List.take_append,
    List.length_drop, read]

/-- A range in the first segment. -/
theorem read_within {segment : List α} {segments : List (List α)} {start length : Nat}
    (h : start + length ≤ segment.length) :
    read (segment :: segments) start length = (segment.drop start).take length := by
  rw [read_cross (by omega), Nat.sub_eq_zero_of_le (by omega), read_zero, List.append_nil]

theorem length_read {segments : List (List α)} {start length : Nat}
    (h : start + length ≤ (segments.map List.length).sum) :
    (read segments start length).length = length := by
  rw [read, List.length_take, List.length_drop, List.length_flatten]
  omega

end Segments
