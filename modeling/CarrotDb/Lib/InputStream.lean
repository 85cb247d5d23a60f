import Mathlib

/-! A stream over a finite content, with a position that can be moved back. A
read beyond the end comes up short and fails the stream, which then gives
nothing more. All that a reader can tell of a stream is what it still has to
give. -/
namespace CarrotDb

structure InputStream (α : Type) where
  content : List α
  position : Nat := 0
  failed : Bool := false

namespace InputStream

variable {α : Type}

/-- What the stream still has to give. -/
def rest (stream : InputStream α) : List α :=
  if stream.failed then [] else stream.content.drop stream.position

/-- The next `count` items, or as many as there are. -/
def get (stream : InputStream α) (count : Nat) : List α × InputStream α :=
  if stream.failed then ([], stream) else
    let items := (stream.content.drop stream.position).take count
    (items, { stream with
      position := stream.position + items.length, failed := items.length < count })

/-- The position moved back by `count`, where it can be. -/
def back (stream : InputStream α) (count : Nat) : InputStream α :=
  if stream.failed ∨ stream.position < count then stream
  else { stream with position := stream.position - count }

/-- The position moved on by `count`. -/
def advance (stream : InputStream α) (count : Nat) : InputStream α :=
  { stream with position := stream.position + count }

variable (stream : InputStream α)

@[simp] theorem rest_start (content : List α) : (InputStream.mk content 0 false).rest = content :=
  rfl

@[simp] theorem get_items (count : Nat) : (stream.get count).1 = stream.rest.take count := by
  unfold get rest
  cases stream.failed <;> simp

@[simp] theorem get_rest (count : Nat) : (stream.get count).2.rest = stream.rest.drop count := by
  obtain ⟨content, position, failed⟩ := stream
  cases failed with
  | true => simp [get, rest]
  | false =>
    by_cases short : content.length - position < count
    · have past : content.length ≤ position + count := by omega
      simp [get, rest, short, past]
    · have taken : min count (content.length - position) = count := by omega
      simp [get, rest, taken]

@[simp] theorem advance_zero : stream.advance 0 = stream := rfl

theorem advance_advance (first second : Nat) :
    (stream.advance first).advance second = stream.advance (first + second) := by
  simp [advance, Nat.add_assoc]

@[simp] theorem rest_advance (count : Nat) : (stream.advance count).rest = stream.rest.drop count := by
  obtain ⟨content, position, failed⟩ := stream
  cases failed <;> simp [advance, rest]

/-- A read that was served only moves the position. -/
theorem get_served (count : Nat) (served : count ≤ stream.rest.length) :
    (stream.get count).2 = stream.advance count := by
  obtain ⟨content, position, failed⟩ := stream
  cases failed with
  | true =>
    obtain rfl : count = 0 := by simpa [rest] using served
    simp [get, advance]
  | false =>
    have inside : count ≤ content.length - position := by simpa [rest] using served
    have taken : min count (content.length - position) = count := by omega
    simp [get, advance, taken]

/-- Behind a read that was served, the position moves back to where it was. -/
theorem get_back {count : Nat} (served : count ≤ stream.rest.length) :
    (stream.get count).2.back count = stream := by
  rw [get_served stream count served]
  obtain ⟨content, position, failed⟩ := stream
  cases failed with
  | true =>
    obtain rfl : count = 0 := by simpa [rest] using served
    simp [back]
  | false => simp [back, advance]

end InputStream

end CarrotDb
