import LittleMan.Machine.Run
import LittleMan.Sample

/-!
# Operations and histories

Everything that can be done to a machine, as data. An operation always comes back. A call is an
operation or an unlimited run, which need not come back. A history is a list of calls made one after
the other; it has an outcome if every one of them comes back.

## Main definitions

* `Operation`, `Operation.perform` — what can be done, and doing it
* `Answer` — what an operation answers
* `Call`, `Machine.call` — an operation or an unlimited run, and making it
* `Machine.history` — the answers to a list of calls, and the machine afterwards
-/

namespace LittleMan

/-- What can be done to a machine. -/
inductive Operation
  /-- Load words from a mailbox on. -/
  | loadAt (start : Nat) (ws : List Int)
  /-- Queue input. -/
  | queue (ws : List Int)
  /-- Replace the provider. -/
  | attach (p : Provider)
  /-- Reset. -/
  | reset
  /-- Reset, load a sample and queue input for it. -/
  | prepare (s : Sample) (inputs : List Int)
  /-- Take one step. -/
  | step
  /-- Run for at most so many instructions. -/
  | runLimited (limit : Nat)

/-- What an operation answers. -/
inductive Answer
  /-- Nothing to say. -/
  | done
  /-- How many words were written. -/
  | written (count : Nat)
  /-- The instruction that was carried out, or why none was. -/
  | stepped (result : Except StepError Instruction)
  /-- How many instructions were carried out, or what ended the run. -/
  | ran (result : Except StepError Nat)

/-- Do something to a machine. -/
def Operation.perform : Operation → Machine → Answer × Machine
  | loadAt start ws, m => (.written (Memory.fitting start ws.length), m.loadAt start ws)
  | queue ws, m => (.done, m.queue ws)
  | attach p, m => (.done, m.attach p)
  | reset, m => (.done, m.reset)
  | prepare s inputs, m => (.done, s.prepare inputs m)
  | step, m =>
    let (result, next) := m.step
    (.stepped result, next)
  | runLimited limit, m =>
    let (result, next) := m.runLimited limit
    (.ran result, next)

/-- What can be asked of a machine: an operation, or to run until it stops. -/
inductive Call
  /-- An operation. -/
  | operation (o : Operation)
  /-- Run until the machine stops. -/
  | run

namespace Machine

/-- The answer to a call and the machine afterwards. A run without end has neither. -/
def call (m : Machine) : Call → Option (Answer × Machine)
  | .operation o => some (o.perform m)
  | .run => m.run.map fun (result, next) => (.ran result, next)

/-- The answers to a list of calls, and the machine afterwards, if all of them come back. -/
def history (m : Machine) : List Call → Option (List Answer × Machine)
  | [] => some ([], m)
  | c :: rest =>
    match m.call c with
    | none => none
    | some (answer, next) =>
      (next.history rest).map fun (answers, last) => (answer :: answers, last)

theorem call_operation_eq_some {m next : Machine} {o : Operation} {answer : Answer} :
    m.call (.operation o) = some (answer, next) ↔ o.perform m = (answer, next) := by
  simp [call]

theorem call_run_eq_some {m next : Machine} {answer : Answer} :
    m.call .run = some (answer, next) ↔ ∃ result, m.run = some (result, next) ∧
      answer = .ran result := by
  simp only [call, Option.map_eq_some_iff, Prod.mk.injEq]
  constructor
  · rintro ⟨⟨result, _⟩, h, rfl, rfl⟩
    exact ⟨result, h, rfl⟩
  · rintro ⟨result, h, rfl⟩
    exact ⟨(result, next), h, rfl, rfl⟩

@[simp] theorem history_nil (m : Machine) : m.history [] = some ([], m) := rfl

/-- A history that comes back has a first answer and goes on from there. -/
theorem history_cons_eq_some {m last : Machine} {c : Call} {rest : List Call}
    {answers : List Answer} :
    m.history (c :: rest) = some (answers, last) ↔
      ∃ answer next later, m.call c = some (answer, next) ∧
        next.history rest = some (later, last) ∧ answers = answer :: later := by
  rw [history]
  cases hc : m.call c with
  | none => simp
  | some made =>
    simp only [Option.map_eq_some_iff, Prod.mk.injEq, Option.some.injEq]
    constructor
    · rintro ⟨⟨later, _⟩, h, rfl, rfl⟩
      exact ⟨made.1, made.2, later, rfl, h, rfl⟩
    · rintro ⟨answer, next, later, rfl, h, rfl⟩
      exact ⟨(later, last), h, rfl, rfl⟩

/-- Operations always come back. -/
theorem exists_history_operations (os : List Operation) (m : Machine) :
    ∃ answers, m.history (os.map .operation) =
      some (answers, os.foldl (fun m o => (o.perform m).2) m) := by
  induction os generalizing m with
  | nil => exact ⟨[], rfl⟩
  | cons o rest ih =>
    obtain ⟨answers, h⟩ := ih (o.perform m).2
    exact ⟨(o.perform m).1 :: answers, history_cons_eq_some.2 ⟨_, _, answers, rfl, h, rfl⟩⟩

/-- Histories are made one after the other. -/
theorem history_append_eq_some {m last : Machine} {xs ys : List Call} {answers : List Answer} :
    m.history (xs ++ ys) = some (answers, last) ↔
      ∃ first middle later, m.history xs = some (first, middle) ∧
        middle.history ys = some (later, last) ∧ answers = first ++ later := by
  induction xs generalizing m answers with
  | nil =>
    constructor
    · intro h
      exact ⟨[], m, answers, rfl, h, rfl⟩
    · rintro ⟨_, _, _, ⟨rfl, rfl⟩, h, rfl⟩
      exact h
  | cons c rest ih =>
    simp only [List.cons_append, history_cons_eq_some, ih]
    constructor
    · rintro ⟨answer, next, _, hc, ⟨first, middle, later, hx, hy, rfl⟩, rfl⟩
      exact ⟨answer :: first, middle, later, ⟨answer, next, first, hc, hx, rfl⟩, hy, rfl⟩
    · rintro ⟨_, middle, later, ⟨answer, next, first, hc, hx, rfl⟩, hy, rfl⟩
      exact ⟨answer, next, first ++ later, hc, ⟨first, middle, later, hx, hy, rfl⟩, rfl⟩

end Machine

end LittleMan
