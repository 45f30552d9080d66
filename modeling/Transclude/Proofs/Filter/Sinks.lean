import Mathlib.Tactic.ByContra
import Transclude.Filter

/-!
# What a sink receives

A sink takes bytes piece by piece.  However large the pieces are, all that it has received in the
end is the front of what it was offered, as far as there was room for it.

Main results:

- Definition {lit}`Sink.room`: how many more bytes a sink takes.
- Theorem {lit}`Sink.received_writeAll_eq`: what a sink receives of the bytes that it is offered.
-/

namespace Transclude

namespace Sink

/-! ## Room -/

/-- How many more bytes a sink takes, if there is a limit. -/
def room (sink : Sink) : Option Nat :=
  sink.limit.map fun limit => limit - sink.received.length

/-- How many of some number of bytes a sink takes, one offer after the other. -/
def capacity (sink : Sink) (n : Nat) : Nat :=
  match sink.room with
  | none => n
  | some k => min k n

/-- A sink with any room takes all. -/
theorem capacity_of_room_eq_none {sink : Sink} (h : sink.room = none) (n : Nat) :
    sink.capacity n = n := by
  rw [capacity, h]

/-- A sink with some room takes as much as there is room for. -/
theorem capacity_of_room_eq_some {sink : Sink} {k : Nat} (h : sink.room = some k) (n : Nat) :
    sink.capacity n = min k n := by
  rw [capacity, h]

/-- No sink takes more than it is offered. -/
theorem capacity_le (sink : Sink) (n : Nat) : sink.capacity n ≤ n := by
  unfold capacity
  split
  · exact Nat.le_refl n
  · exact Nat.min_le_right _ _

/-- A sink that takes none of the bytes it is offered is full. -/
theorem capacity_of_offer?_eq_none {sink : Sink} {bytes : List UInt8} (hbytes : bytes ≠ [])
    (h : sink.offer? bytes = none) : sink.capacity bytes.length = 0 := by
  have hpos : 0 < bytes.length := List.length_pos_iff.2 hbytes
  have hportion : sink.portion bytes = 0 := by
    by_contra hne
    rw [offer?, if_neg hne] at h
    cases h
  unfold portion at hportion
  unfold capacity room
  cases hlimit : sink.limit with
  | none =>
    rw [hlimit] at hportion
    dsimp only at hportion
    omega
  | some limit =>
    rw [hlimit] at hportion
    dsimp only [Option.map_some] at hportion ⊢
    omega

/-- After an accepted offer a sink has room for as much less as it has taken. -/
theorem capacity_of_offer? {sink after : Sink} {bytes left : List UInt8}
    (h : sink.offer? bytes = some (after, left)) :
    ∃ n ≤ bytes.length, after.received = sink.received ++ bytes.take n ∧ left = bytes.drop n ∧
      sink.capacity bytes.length = n + after.capacity left.length := by
  unfold offer? at h
  dsimp only at h
  split at h
  · cases h
  · have hle : sink.portion bytes ≤ bytes.length ∧
        ∀ limit, sink.limit = some limit →
          sink.portion bytes ≤ limit - sink.received.length := by
      unfold portion
      cases sink.limit with
      | none => exact ⟨by dsimp only; omega, by simp⟩
      | some limit => exact ⟨by dsimp only; omega, by rintro _ ⟨⟩; dsimp only; omega⟩
    cases h
    refine ⟨sink.portion bytes, hle.1, rfl, rfl, ?_⟩
    unfold capacity room receive
    cases hlimit : sink.limit with
    | none =>
      rw [List.length_drop]
      exact (Nat.add_sub_cancel' hle.1).symm
    | some limit =>
      have hroom := hle.2 limit hlimit
      dsimp only [Option.map_some]
      rw [List.length_append, List.length_take, List.length_drop]
      omega

/-! ## Writing -/

/-- A sink receives the front bytes of what it is offered, as many as it has room for, and takes
all of them exactly if there is room for all. -/
theorem received_writeAll_eq (sink : Sink) (bytes : List UInt8) :
    (sink.writeAll bytes).1.received =
      sink.received ++ bytes.take (sink.capacity bytes.length) ∧
    (sink.writeAll bytes).2 = decide (sink.capacity bytes.length = bytes.length) := by
  fun_induction writeAll sink bytes with
  | case1 sink bytes hempty =>
    obtain rfl := List.isEmpty_iff.1 hempty
    have hnone := sink.capacity_le 0
    exact ⟨by simp, by simpa using hnone⟩
  | case2 sink bytes hempty hnone =>
    have hne : bytes ≠ [] := by simpa using hempty
    have hzero := capacity_of_offer?_eq_none hne (Option.attach_eq_none_iff.1 hnone)
    have hpos : 0 < bytes.length := List.length_pos_iff.2 hne
    refine ⟨by simp [hzero], ?_⟩
    rw [hzero, eq_comm, decide_eq_false_iff_not]
    omega
  | case3 sink bytes _ next left hoffer _ ih =>
    obtain ⟨n, hn, hreceived, rfl, hcapacity⟩ := capacity_of_offer? hoffer
    have hsplit : bytes.take (n + next.capacity (bytes.drop n).length) =
        bytes.take n ++ (bytes.drop n).take (next.capacity (bytes.drop n).length) :=
      List.take_add
    refine ⟨?_, ?_⟩
    · rw [ih.1, hreceived, hcapacity, hsplit, List.append_assoc]
    · have hlength : (bytes.drop n).length = bytes.length - n := List.length_drop
      rw [ih.2, hcapacity, decide_eq_decide]
      omega

/-- A sink that has taken all bytes has received them at the end. -/
theorem received_writeAll {sink after : Sink} {bytes : List UInt8}
    (h : sink.writeAll bytes = (after, true)) : after.received = sink.received ++ bytes := by
  obtain ⟨hreceived, hall⟩ := sink.received_writeAll_eq bytes
  rw [h] at hreceived hall
  rw [hreceived, of_decide_eq_true hall.symm, List.take_length]

/-- A sink with room for so many bytes receives the front of what it is offered, as far as that,
and one with any room receives all of it. -/
theorem writeAll_outcome {sink after : Sink} {bytes : List UInt8} {all : Bool}
    (h : sink.writeAll bytes = (after, all)) :
    match sink.room with
    | none => all = true ∧ after.received = sink.received ++ bytes
    | some k =>
      all = decide (bytes.length ≤ k) ∧
        after.received = sink.received ++ bytes.take (min k bytes.length) := by
  obtain ⟨hreceived, hall⟩ := sink.received_writeAll_eq bytes
  rw [h] at hreceived hall
  cases hroom : sink.room with
  | none =>
    rw [capacity_of_room_eq_none hroom] at hreceived hall
    rw [List.take_length] at hreceived
    exact ⟨hall.trans (decide_eq_true rfl), hreceived⟩
  | some k =>
    rw [capacity_of_room_eq_some hroom] at hreceived hall
    have hiff : min k bytes.length = bytes.length ↔ bytes.length ≤ k := by omega
    exact ⟨hall.trans (decide_eq_decide.2 hiff), hreceived⟩

/-- A sink without a limit takes all bytes. -/
theorem writeAll_unlimited {sink : Sink} (hlimit : sink.limit = none) (bytes : List UInt8) :
    sink.writeAll bytes = ((sink.writeAll bytes).1, true) := by
  have hcapacity : sink.capacity bytes.length = bytes.length :=
    capacity_of_room_eq_none (by rw [room, hlimit, Option.map_none]) _
  exact Prod.ext rfl ((sink.received_writeAll_eq bytes).2.trans (decide_eq_true hcapacity))

/-- If it is empty before, it holds just these bytes afterwards. -/
theorem received_writeAll_of_empty {sink : Sink} (hlimit : sink.limit = none)
    (hempty : sink.received = []) (bytes : List UInt8) :
    (sink.writeAll bytes).1.received = bytes := by
  have hreceived := received_writeAll (writeAll_unlimited hlimit bytes)
  rwa [hempty, List.nil_append] at hreceived

end Sink

end Transclude
