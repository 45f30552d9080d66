import Transclude.Include.Error
import Transclude.Wire.Text

/-!
# Filters

A filter reads a document, changes it and writes it.  The output is put together in memory before
any of it is written, so nothing is written unless everything before has succeeded.

Main results:

- Definition {lit}`Sink`: what takes bytes, piece by piece and perhaps not all of them.
- Definition {lit}`Filter.run`: a whole run over bytes.
- Theorem {lit}`Sink.received_offer?`: a sink receives a front part of what it is offered.
-/

namespace Transclude

/-- What takes bytes: up to a limit, if there is one, and at each call no more than a piece, whose
size may differ from call to call. -/
structure Sink where
  limit : Option Nat
  pieceSize : Nat → Nat
  received : List UInt8 := []
  calls : Nat := 0

namespace Sink

/-- A sink that takes whatever it is offered at once, up to a limit. -/
def upTo (limit : Option Nat) (pieceSize : Nat) : Sink :=
  { limit, pieceSize := fun _ => pieceSize }

/-- How many of some bytes one call takes.  A piece is never empty. -/
def portion (sink : Sink) (bytes : List UInt8) : Nat :=
  let piece := min bytes.length (max 1 (sink.pieceSize sink.calls))
  match sink.limit with
  | none => piece
  | some limit => min piece (limit - sink.received.length)

/-- The sink after it has taken some bytes. -/
def receive (sink : Sink) (bytes : List UInt8) : Sink :=
  { sink with received := sink.received ++ bytes, calls := sink.calls + 1 }

/-- Offer bytes: the sink takes some of them, and the others are left; none if it is full. -/
def offer? (sink : Sink) (bytes : List UInt8) : Option (Sink × List UInt8) :=
  let n := sink.portion bytes
  if n = 0 then none else some (sink.receive (bytes.take n), bytes.drop n)

/-- An accepted offer leaves fewer bytes. -/
theorem length_offer?_lt {sink after : Sink} {bytes left : List UInt8}
    (h : sink.offer? bytes = some (after, left)) : left.length < bytes.length := by
  simp only [offer?] at h
  split at h
  · simp at h
  · next hn =>
    simp only [Option.some.injEq, Prod.mk.injEq] at h
    have hle : sink.portion bytes ≤ bytes.length := by
      unfold portion
      dsimp only
      split <;> omega
    rw [← h.2, List.length_drop]
    omega

/-- A sink receives a front part of what it is offered. -/
theorem received_offer? {sink after : Sink} {bytes left : List UInt8}
    (h : sink.offer? bytes = some (after, left)) :
    after.received ++ left = sink.received ++ bytes := by
  simp only [offer?] at h
  split at h
  · simp at h
  · simp only [Option.some.injEq, Prod.mk.injEq] at h
    simp [← h.1, ← h.2, receive]

/-- Offer bytes until all are taken or the sink is full: the sink at the end, and whether all were
taken. -/
def writeAll (sink : Sink) (bytes : List UInt8) : Sink × Bool :=
  if bytes.isEmpty then (sink, true)
  else
    match (sink.offer? bytes).attach with
    | none => (sink, false)
    | some ⟨(after, left), _h⟩ => writeAll after left
termination_by bytes.length
decreasing_by exact length_offer?_lt _h

end Sink

namespace Filter

variable {m : Type → Type} [Monad m]

/-- Read a document and change it. -/
def transformed (change : Document → ExceptT IncludeError m Document) (input : List UInt8) :
    m (Except FilterError Document) := do
  match Document.ofBytes input with
  | .error e => return .error (.read e)
  | .ok d =>
    match ← (change d).run with
    | .error e => return .error (.transform e)
    | .ok d => return .ok d

/-- Read a document, change it and write it. -/
def run (change : Document → ExceptT IncludeError m Document) (input : List UInt8)
    (sink : Sink) : m (Except FilterError Unit × Sink) := do
  match ← transformed change input with
  | .error e => return (.error e, sink)
  | .ok d =>
    match sink.writeAll d.toBytes with
    | (after, true) => return (.ok (), after)
    | (after, false) => return (.error (.write .writerFull), after)

end Filter

end Transclude
