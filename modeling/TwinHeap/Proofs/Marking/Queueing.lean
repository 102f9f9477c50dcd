import Mathlib.Algebra.Group.Nat.Even
import Mathlib.Data.List.Induction
import TwinHeap.Marking.Ring

/-! A ring against a list without bounds, in which the oldest item comes first. Whatever is pushed,
popped and cleared, both answer alike; the buffer grows when it has to and not before. -/
namespace TwinHeap

inductive QueueEvent (α : Type) where
  | push (a : α)
  | pop
  | clear
  deriving DecidableEq

namespace QueueEvent

variable {α : Type}

def isPush : QueueEvent α → Bool
  | .push _ => true
  | _ => false

/-- What an event makes of a list of items. -/
def enact (items : List α) : QueueEvent α → List α
  | .push a => items ++ [a]
  | .pop => items.tail
  | .clear => []

/-- The items that a history leaves of none. -/
def remaining (events : List (QueueEvent α)) : List α := events.foldl enact []

theorem remaining_concat (events : List (QueueEvent α)) (event : QueueEvent α) :
    remaining (events ++ [event]) = event.enact (remaining events) := List.foldl_append

end QueueEvent

namespace Ring

section Pop

variable {α : Type} {q : Ring α}

/-- A pop answers with the first item, if there is one. -/
theorem answer_pop? (q : Ring α) : q.pop?.map Prod.fst = q.toList.head? := by
  cases popped : q.pop? with
  | none =>
      rw [pop?_eq_none_iff.1 popped]
      rfl
  | some taken =>
      rw [toList_of_pop? popped]
      rfl

/-- The queue after a pop, which leaves an empty one as it is. -/
def rest (q : Ring α) : Ring α := (q.pop?.map Prod.snd).getD q

theorem rest_cases (q : Ring α) :
    (q.rest = q ∧ q.toList = []) ∨ ∃ a, q.pop? = some (a, q.rest) := by
  unfold rest
  cases popped : q.pop? with
  | none => exact .inl ⟨rfl, pop?_eq_none_iff.1 popped⟩
  | some taken => exact .inr ⟨taken.1, rfl⟩

end Pop

variable {α : Type} [Inhabited α] {q : Ring α}

/-- The state after one event, whatever it answers. -/
def update (q : Ring α) : QueueEvent α → Ring α
  | .push a => q.push a
  | .pop => q.rest
  | .clear => q.clear

def history (q : Ring α) (events : List (QueueEvent α)) : Ring α := events.foldl update q

theorem history_concat (q : Ring α) (events : List (QueueEvent α)) (event : QueueEvent α) :
    q.history (events ++ [event]) = (q.history events).update event := List.foldl_append

section Steps

theorem toList_update (q : Ring α) (event : QueueEvent α) :
    (q.update event).toList = event.enact q.toList := by
  cases event with
  | push a => exact toList_push q a
  | pop =>
      show q.rest.toList = q.toList.tail
      rcases q.rest_cases with ⟨same, none⟩ | ⟨a, popped⟩
      · rw [same, none]
        rfl
      · rw [toList_of_pop? popped]
        rfl
  | clear => exact toList_clear q

/-- The buffer doubles when an item is pushed onto the last spare entry; else its size stays. -/
theorem capacity_update (q : Ring α) (event : QueueEvent α) :
    (q.update event).capacity =
      if event.isPush = true ∧ q.length + 1 = q.capacity then 2 * q.capacity else q.capacity := by
  cases event with
  | push a =>
      simp only [QueueEvent.isPush, true_and]
      exact size_push q a
  | pop =>
      rcases q.rest_cases with ⟨same, -⟩ | ⟨a, popped⟩
      · exact congrArg capacity same
      · exact congrArg Array.size (of_pop? popped).2.2.1
  | clear => rfl

theorem pushed_update (q : Ring α) (event : QueueEvent α) :
    (q.update event).pushed = q.pushed + event.isPush.toNat := by
  cases event with
  | push a => exact pushed_push q a
  | pop =>
      rcases q.rest_cases with ⟨same, -⟩ | ⟨a, popped⟩
      · exact congrArg pushed same
      · exact (of_pop? popped).2.2.2.2.2.1
  | clear => rfl

/-- The counts differ by the number of items as long as none is thrown away. -/
theorem balance_update {event : QueueEvent α} (keeps : event ≠ .clear)
    (balance : q.pushed = q.popped + q.length) :
    (q.update event).pushed = (q.update event).popped + (q.update event).length := by
  cases event with
  | push a =>
      show (q.push a).pushed = (q.push a).popped + (q.push a).length
      rw [pushed_push, popped_push, length_push]
      omega
  | pop =>
      show q.rest.pushed = q.rest.popped + q.rest.length
      rcases q.rest_cases with ⟨same, -⟩ | ⟨a, found⟩
      · rw [same]
        exact balance
      · obtain ⟨-, -, -, -, -, pushed, popped⟩ := of_pop? found
        have length := length_pop? found
        omega
  | clear => exact (keeps rfl).elim

end Steps

section Histories

theorem toList_history (capacity : Nat) (events : List (QueueEvent α)) :
    ((withCapacity capacity : Ring α).history events).toList = QueueEvent.remaining events := by
  induction events using List.reverseRecOn with
  | nil => exact toList_withCapacity capacity
  | append_singleton events event ih =>
      rw [history_concat, toList_update, ih, QueueEvent.remaining_concat]

theorem capacity_history (q : Ring α) (events : List (QueueEvent α)) :
    ∃ k, (q.history events).capacity = q.capacity * 2 ^ k := by
  induction events using List.reverseRecOn with
  | nil => exact ⟨0, (Nat.mul_one _).symm⟩
  | append_singleton events event ih =>
      obtain ⟨k, doubled⟩ := ih
      rw [history_concat, capacity_update, doubled]
      split
      · exact ⟨k + 1, by rw [Nat.mul_left_comm, Nat.pow_succ']⟩
      · exact ⟨k, rfl⟩

theorem pushed_history (q : Ring α) (events : List (QueueEvent α)) :
    (q.history events).pushed = q.pushed + events.countP QueueEvent.isPush := by
  induction events using List.reverseRecOn with
  | nil => rfl
  | append_singleton events event ih =>
      rw [history_concat, pushed_update, ih, List.countP_append, List.countP_singleton]
      cases event.isPush <;> rfl

theorem balance_history {events : List (QueueEvent α)} (keeps : .clear ∉ events)
    (balance : q.pushed = q.popped + q.length) :
    (q.history events).pushed = (q.history events).popped + (q.history events).length := by
  induction events using List.reverseRecOn with
  | nil => exact balance
  | append_singleton events event ih =>
      rw [List.mem_append, not_or, List.mem_singleton] at keeps
      rw [history_concat]
      exact balance_update (Ne.symm keeps.2) (ih keeps.1)

end Histories

/-- After any history a ring holds the items of the list, in its order, and pops the first of them.
At least one entry of the buffer is spare. The buffer has kept its size or doubled it several times;
it doubles exactly when an item is pushed onto the last spare entry. The counts are those of the items
that came and went. -/
theorem agrees_with_list (capacity : Nat) (events : List (QueueEvent α)) :
    let q := (withCapacity capacity : Ring α).history events
    let items := QueueEvent.remaining events
    q.toList = items ∧ q.pop?.map Prod.fst = items.head? ∧
    q.length = items.length ∧ (q.isEmpty = true ↔ items = []) ∧
    q.head < q.capacity ∧ q.tail < q.capacity ∧ q.length + 1 ≤ q.capacity ∧
    (∃ k, q.capacity = max capacity 2 * 2 ^ k) ∧
    (∀ event, (q.update event).capacity =
      if event.isPush = true ∧ items.length + 1 = q.capacity then 2 * q.capacity
      else q.capacity) ∧
    q.pushed = events.countP QueueEvent.isPush ∧
    (.clear ∉ events → q.pushed = q.popped + q.length) := by
  intro q items
  have same : q.toList = items := toList_history capacity events
  have length : q.length = items.length := by rw [← same, length_toList]
  have size : (withCapacity capacity : Ring α).capacity = max capacity 2 := Array.size_replicate
  refine ⟨same, same ▸ answer_pop? q, length, same ▸ toList_eq_nil_iff.symm, q.head_lt, q.tail_lt,
    q.length_lt, size ▸ capacity_history _ events, ?_, ?_, ?_⟩
  · intro event
    rw [← length]
    exact capacity_update q event
  · exact (pushed_history _ events).trans (Nat.zero_add _)
  · intro keeps
    exact balance_history keeps rfl

/-- The smallest ring, whose tail has gone round when it grows. -/
theorem agrees_with_list_wrapped :
    let events : List (QueueEvent Nat) := [.push 1, .pop, .push 2, .push 3]
    let q := (withCapacity 0).history events
    .clear ∉ events ∧ q.toList = [2, 3] ∧ q.pop?.map Prod.fst = some 2 ∧ q.capacity = 4 ∧
      q.pushed = 3 ∧ q.pushed = q.popped + q.length := by
  intro events q
  obtain ⟨items, answer, -, -, -, -, -, -, -, pushed, balance⟩ := agrees_with_list 0 events
  have keeps : .clear ∉ events := by decide
  exact ⟨keeps, items, answer, rfl, pushed, balance keeps⟩

end Ring

end TwinHeap
