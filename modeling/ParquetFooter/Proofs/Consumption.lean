import ParquetFooter.Proofs.Reader
import Mathlib.Algebra.Ring.Nat

/-! # How many bytes a reader takes

A reader may be generous in what it accepts, but what it takes has a lower bound that depends on the
value alone. Such bounds add up along readers in a row. A reader that streams takes at least
nothing, which is to say that it never gives bytes back.
-/

namespace ParquetFooter.Reader

variable {α β : Type}

/-- Whenever the reader gives a value, it has taken at least so many bytes. -/
def TakesAtLeast (reader : Reader α) (least : α → Nat) : Prop :=
  ∀ ⦃input value rest⦄, reader input = .ok (value, rest) →
    least value + rest.length ≤ input.length

namespace TakesAtLeast

variable {reader : Reader α} {least : α → Nat}

/-- A reader that streams never gives bytes back. -/
theorem of_streams (streams : reader.Streams) : TakesAtLeast reader fun _ => 0 := by
  intro input value rest run
  obtain ⟨taken, rfl, -⟩ := streams.ok run
  rw [List.length_append, Nat.zero_add]
  exact Nat.le_add_left _ _

/-- A byte takes a byte. -/
theorem byte : TakesAtLeast Reader.byte fun _ => 1 := by
  intro input value rest run
  cases input with
  | nil => exact nomatch run
  | cons first others =>
      obtain ⟨-, rfl⟩ := Prod.mk.inj (Except.ok.inj run)
      exact Nat.le_of_eq (Nat.add_comm 1 others.length)

/-- What the second reader leaves is counted against the bytes that the first one left, and the
bytes that the first one took. -/
theorem bind {next : α → Reader β} {whole : β → Nat} (head : TakesAtLeast reader least)
    (tail : ∀ first {middle value rest}, next first middle = .ok (value, rest) →
      whole value + rest.length ≤ least first + middle.length) :
    TakesAtLeast (reader >>= next) whole := by
  intro input value rest run
  obtain ⟨first, middle, headed, continued⟩ := bind_eq_ok.mp run
  exact Nat.le_trans (tail first continued) (head headed)

/-- What is made of a value may count for less than the value itself. -/
theorem map {next : α → β} {whole : β → Nat} (head : TakesAtLeast reader least)
    (le : ∀ value, whole (next value) ≤ least value) :
    TakesAtLeast (do return next (← reader)) whole := by
  apply head.bind
  intro first middle value rest run
  obtain ⟨rfl, rfl⟩ := Prod.mk.inj (Except.ok.inj run)
  exact Nat.add_le_add_right (le first) _

/-- A number of values takes what each of them takes. -/
theorem times (head : TakesAtLeast reader least) (count : Nat) :
    TakesAtLeast (Reader.times reader count) fun values => (values.map least).sum := by
  intro input values rest run
  induction count generalizing input values with
  | zero =>
      obtain ⟨rfl, rfl⟩ := Prod.mk.inj (Except.ok.inj run)
      simp
  | succ count ih =>
      obtain ⟨value, middle, others, first, tail, rfl⟩ := times_succ_eq_ok.mp run
      have taken := head first
      have behind := ih tail
      simp only [List.map_cons, List.sum_cons] at behind ⊢
      omega

end TakesAtLeast

end ParquetFooter.Reader
