import Mathlib.Data.List.DropRight
import Mathlib.Data.List.Induction
import TwinHeap.Schedule

/-! When work is due after any history of calls and completed cycles, said by the history alone: how
many calls there were, how many since the last completion, and at what time the wait for the next
cycle began. -/
namespace TwinHeap

inductive ScheduleEvent where
  | call (now : Nat)
  | completed (now : Nat)
  deriving DecidableEq

namespace ScheduleEvent

def isCall : ScheduleEvent → Bool
  | .call _ => true
  | .completed _ => false

def callTime? : ScheduleEvent → Option Nat
  | .call now => some now
  | .completed _ => none

def completionTime? : ScheduleEvent → Option Nat
  | .call _ => none
  | .completed now => some now

def calls (events : List ScheduleEvent) : Nat := events.countP isCall

/-- The number of calls after the last completion. -/
def callsSince (events : List ScheduleEvent) : Nat := (events.rtakeWhile isCall).length

/-- The time of the last completion, or else of the first call. -/
def origin? (events : List ScheduleEvent) : Option Nat :=
  (events.filterMap completionTime?).getLast?.or (events.filterMap callTime?).head?

variable (events : List ScheduleEvent) (now : Nat)

theorem calls_call : calls (events ++ [.call now]) = calls events + 1 := by
  rw [calls, List.countP_append]
  rfl

theorem calls_completed : calls (events ++ [.completed now]) = calls events := by
  rw [calls, List.countP_append]
  rfl

theorem callsSince_call : callsSince (events ++ [.call now]) = callsSince events + 1 := by
  rw [callsSince, List.rtakeWhile_concat_pos _ _ _ rfl, List.length_append]
  rfl

theorem callsSince_completed : callsSince (events ++ [.completed now]) = 0 := by
  rw [callsSince, List.rtakeWhile_concat_neg _ _ _ Bool.false_ne_true]
  rfl

theorem origin?_call : origin? (events ++ [.call now]) = some ((origin? events).getD now) := by
  simp only [origin?, List.filterMap_append, List.filterMap_cons, List.filterMap_nil, callTime?,
    completionTime?, List.append_nil, List.head?_append, List.head?_cons]
  cases (events.filterMap completionTime?).getLast? with
  | some time => rfl
  | none => cases (events.filterMap callTime?).head? <;> rfl

theorem origin?_completed : origin? (events ++ [.completed now]) = some now := by
  simp only [origin?, List.filterMap_append, List.filterMap_cons, List.filterMap_nil,
    completionTime?, List.getLast?_concat, Option.some_or]

/-- Calls that follow a call count on, but do not move the origin. -/
theorem calls_after (times : List Nat) :
    callsSince (events ++ .call now :: times.map .call) =
        callsSince (events ++ [.call now]) + times.length ∧
      origin? (events ++ .call now :: times.map .call) = origin? (events ++ [.call now]) := by
  induction times using List.reverseRecOn with
  | nil => exact ⟨rfl, rfl⟩
  | append_singleton times time ih =>
      obtain ⟨count, origin⟩ := ih
      rw [List.map_append, List.map_singleton, ← List.cons_append, ← List.append_assoc,
        callsSince_call, origin?_call, count, origin, origin?_call, List.length_append]
      exact ⟨rfl, rfl⟩

end ScheduleEvent

namespace Schedule

open ScheduleEvent

def update (s : Schedule) : ScheduleEvent → Schedule
  | .call now => (s.call now).2
  | .completed now => s.completed now

def history (s : Schedule) (events : List ScheduleEvent) : Schedule := events.foldl update s

theorem history_append (s : Schedule) (first rest : List ScheduleEvent) :
    s.history (first ++ rest) = (s.history first).history rest := List.foldl_append

/-- The same schedule for times in a finer unit, so many of which make one of its own. -/
def inUnits (s : Schedule) (unit : Nat) : Schedule :=
  { s with interval := s.interval.map (unit * ·) }

theorem inUnits_one (s : Schedule) : s.inUnits 1 = s := by
  simp [inUnits]

/-- A schedule as it is made: nothing is counted yet, the threshold can be missed, and so can the
interval. -/
structure Unused (s : Schedule) : Prop where
  sincePiggyback : s.sincePiggyback = 0
  sinceCycle : s.sinceCycle = 0
  calls : s.calls = 0
  lastCycle : s.lastCycle = none
  threshold : 0 < s.piggybackThreshold
  interval : s.interval ≠ some 0

theorem unused_ofSettings (settings : Settings) {unit : Nat} (positive : 0 < unit) :
    ((ofSettings settings).inUnits unit).Unused where
  sincePiggyback := rfl
  sinceCycle := rfl
  calls := rfl
  lastCycle := rfl
  threshold := Nat.lt_of_lt_of_le Nat.one_pos (Nat.le_max_right _ _)
  interval := by
    intro empty
    obtain ⟨wait, given, product⟩ := Option.map_eq_some_iff.1 empty
    rcases Nat.mul_eq_zero.1 product with zero | zero
    · omega
    · have given : settings.interval? = some 0 := zero ▸ given
      unfold Settings.interval? at given
      split at given
      · cases given
      · rename_i configured
        exact configured (Option.some.inj given)

/-- What a history makes of the counters. -/
def counting (s : Schedule) (events : List ScheduleEvent) : Schedule :=
  { s with
    sincePiggyback := ScheduleEvent.calls events % s.piggybackThreshold
    sinceCycle := callsSince events
    calls := ScheduleEvent.calls events
    lastCycle := origin? events }

theorem mod_add_one {n threshold : Nat} (positive : 0 < threshold) :
    (n + 1) % threshold = if threshold ≤ n % threshold + 1 then 0 else n % threshold + 1 := by
  have below := Nat.mod_lt n positive
  have split := Nat.div_add_mod n threshold
  by_cases round : threshold ≤ n % threshold + 1
  · have whole : n + 1 = threshold * (n / threshold + 1) := by
      rw [Nat.mul_add_one]
      omega
    rw [if_pos round, whole, Nat.mul_mod_right]
  · have more : n + 1 = threshold * (n / threshold) + (n % threshold + 1) := by omega
    rw [if_neg round, more, Nat.mul_add_mod, Nat.mod_eq_of_lt (by omega)]

theorem call_eq (s : Schedule) (now : Nat) :
    (s.call now).2 =
      { s with
        sincePiggyback :=
          if s.piggybackThreshold ≤ s.sincePiggyback + 1 then 0 else s.sincePiggyback + 1
        sinceCycle := s.sinceCycle + 1
        calls := s.calls + 1
        lastCycle := some (s.lastCycle.getD now) } := by
  simp only [call, decide_eq_true_eq]

theorem history_eq {s : Schedule} (unused : s.Unused) (events : List ScheduleEvent) :
    s.history events = s.counting events := by
  induction events using List.reverseRecOn with
  | nil =>
      obtain ⟨piggyback, cycle, calls, last, -, -⟩ := unused
      cases s
      cases piggyback
      cases cycle
      cases calls
      cases last
      simp [history, counting, ScheduleEvent.calls, callsSince, origin?]
  | append_singleton events event ih =>
      rw [history_append, ih]
      cases event with
      | call now =>
          apply (call_eq (s.counting events) now).trans
          unfold counting
          rw [calls_call, callsSince_call, origin?_call, mod_add_one unused.threshold]
      | completed now =>
          show (s.counting events).completed now = _
          unfold counting
          rw [calls_completed, callsSince_completed, origin?_completed]
          rfl

theorem piggyback_call_iff (s : Schedule) (now : Nat) :
    (s.call now).1.piggyback = true ↔ s.piggybackThreshold ≤ s.sincePiggyback + 1 :=
  decide_eq_true_iff

/-- An interval that is not empty has not passed when the wait begins. -/
theorem cycleDue_call_iff {s : Schedule} (lasting : s.interval ≠ some 0) (now : Nat) :
    (s.call now).1.cycleDue = true ↔
      s.cycleCalls ≤ s.sinceCycle + 1 ∨
        ∃ wait, s.interval = some wait ∧ s.lastCycle.getD now + wait ≤ now := by
  simp only [call, Bool.or_eq_true, decide_eq_true_eq]
  apply or_congr Iff.rfl
  cases given : s.interval with
  | none => simp
  | some wait =>
      have positive : wait ≠ 0 := fun zero => lasting (given.trans (congrArg some zero))
      simp only [decide_eq_true_eq, Option.some.injEq, exists_eq_left']
      omega

section Histories

variable {s : Schedule} (unused : s.Unused) (events : List ScheduleEvent) (now : Nat)

include unused

theorem sincePiggyback_lt : (s.history events).sincePiggyback < s.piggybackThreshold := by
  rw [history_eq unused]
  exact Nat.mod_lt _ unused.threshold

theorem piggyback_history_iff :
    ((s.history events).call now).1.piggyback = true ↔
      s.piggybackThreshold ∣ ScheduleEvent.calls (events ++ [.call now]) := by
  rw [piggyback_call_iff, history_eq unused, calls_call, Nat.dvd_iff_mod_eq_zero,
    mod_add_one unused.threshold]
  unfold counting
  dsimp only
  split <;> omega

theorem cycleDue_history_iff :
    ((s.history events).call now).1.cycleDue = true ↔
      s.cycleCalls ≤ callsSince (events ++ [.call now]) ∨
        ∃ wait origin, s.interval = some wait ∧ origin? (events ++ [.call now]) = some origin ∧
          origin + wait ≤ now := by
  rw [history_eq unused, callsSince_call, origin?_call]
  apply (cycleDue_call_iff (s := s.counting events) unused.interval now).trans
  unfold counting
  simp only [Option.some.injEq, exists_and_left, exists_eq_left']

/-- Until a cycle is completed, what is due at one time is due at every later one. -/
theorem cycleDue_later (times : List Nat) {later : Nat} (order : now ≤ later)
    (due : ((s.history events).call now).1.cycleDue = true) :
    ((s.history (events ++ .call now :: times.map .call)).call later).1.cycleDue = true := by
  rw [cycleDue_history_iff unused] at due ⊢
  obtain ⟨count, start⟩ := calls_after events now (times ++ [later])
  rw [List.map_append, List.map_singleton, ← List.cons_append, ← List.append_assoc] at count start
  rw [count, start]
  rcases due with many | ⟨wait, origin, given, began, elapsed⟩
  · exact .inl (Nat.le_add_right_of_le many)
  · exact .inr ⟨wait, origin, given, began, Nat.le_trans elapsed order⟩

end Histories

/-- The schedule of any settings, with times in any unit of which a whole number make a millisecond.
A call piggybacks exactly if its number is a multiple of the threshold. A cycle is due exactly if
there were enough calls since the last completion, this one included, or if the interval has passed
since then, or since the first call where nothing was completed. Unless a cycle is completed, it is
due at later times as well. The piggyback counter fits into as many bits as its threshold. -/
theorem ticks_exact (settings : Settings) {unit : Nat} (positive : 0 < unit)
    (events : List ScheduleEvent) (now : Nat) :
    let s := ((ofSettings settings).inUnits unit).history events
    let upToNow := events ++ [.call now]
    let tick := (s.call now).1
    (tick.piggyback = true ↔
      max settings.piggybackThreshold 1 ∣ ScheduleEvent.calls upToNow) ∧
    (tick.cycleDue = true ↔
      max settings.cycleCalls 1 ≤ callsSince upToNow ∨
        ∃ wait origin, settings.interval? = some wait ∧ origin? upToNow = some origin ∧
          origin + unit * wait ≤ now) ∧
    (∀ (times : List Nat) (later : Nat), tick.cycleDue = true → now ≤ later →
      ((s.history (.call now :: times.map .call)).call later).1.cycleDue = true) ∧
    (settings.piggybackThreshold < UInt32.size → s.sincePiggyback + 1 < UInt32.size) := by
  intro s upToNow tick
  have unused := unused_ofSettings settings positive
  refine ⟨piggyback_history_iff unused events now, ?_, ?_, ?_⟩
  · apply (cycleDue_history_iff unused events now).trans
    apply or_congr Iff.rfl
    constructor
    · intro passed
      obtain ⟨_, origin, given, began, elapsed⟩ := passed
      obtain ⟨wait, configured, rfl⟩ := Option.map_eq_some_iff.1 given
      exact ⟨wait, origin, configured, began, elapsed⟩
    · intro passed
      obtain ⟨wait, origin, configured, began, elapsed⟩ := passed
      exact ⟨unit * wait, origin, congrArg (Option.map _) configured, began, elapsed⟩
  · intro times later due order
    rw [← history_append]
    exact cycleDue_later unused events now times order due
  · intro fits
    have below : s.sincePiggyback < max settings.piggybackThreshold 1 :=
      sincePiggyback_lt unused events
    have room : 1 < UInt32.size := by decide
    omega

/-- A cycle was completed before the first call, and the interval has passed since. -/
theorem ticks_exact_overdue :
    let settings : Settings :=
      { piggybackThreshold := 2, cycleCalls := 1000, cycleInterval := 50 }
    let s := (ofSettings settings).history [.completed 5, .call 10, .call 30, .call 20]
    0 < 1 ∧ (s.call 55).1.piggyback = true ∧ (s.call 55).1.cycleDue = true ∧ 55 ≤ 60 ∧
      ((s.history [.call 55, .call 40]).call 60).1.cycleDue = true ∧
      settings.piggybackThreshold < UInt32.size ∧ s.sincePiggyback + 1 < UInt32.size := by
  intro settings s
  have tick := ticks_exact settings Nat.one_pos [.completed 5, .call 10, .call 30, .call 20] 55
  rw [inUnits_one] at tick
  obtain ⟨piggyback, cycleDue, stays, fits⟩ := tick
  have small : settings.piggybackThreshold < UInt32.size := by decide
  have due : (s.call 55).1.cycleDue = true :=
    cycleDue.2 (.inr ⟨50, 5, rfl, rfl, by decide⟩)
  exact ⟨Nat.one_pos, piggyback.2 (by decide), due, by decide,
    stays [40] 60 due (by decide), small, fits small⟩

end Schedule

end TwinHeap
