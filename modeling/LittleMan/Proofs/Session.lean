import LittleMan.Session
import LittleMan.Proofs.Machine.Restart

/-!
# Sessions go back to the last load

A session remembers the program of the last load and the input since then. For program text it
keeps the words as they were written, for a sample the memory they were put into, where they have
been clamped already; a reset loads either through the same clamping again. All that can be asked
of it in between is one invariant: what it remembers, loaded into a fresh machine, is the last load
and the input since then.

## Main definitions

* `Load`, `Load.into` — what a load puts into a machine
* `Session.lastLoad?`, `Session.addedSince` — what the calls of a session say it goes back to
* `Session.Remembers` — the invariant

## Main results

* `Session.Remembers.call` — every call keeps the invariant
* `Session.kept_of_error` — a call that fails leaves alone what the session remembers
* `Session.reset_play` — a reset leads to a fresh machine with the last load and the input since
-/

namespace LittleMan

/-- What a load puts into a machine. -/
inductive Load
  /-- The words of a program text. -/
  | text (source : String)
  /-- A sample with its own input. -/
  | sample (s : Sample)

/-- Load into a machine. -/
def Load.into : Load → Machine → Machine
  | text source, m => m.load (ProgramText.parse source).cells
  | sample s, m => s.prepareAsShown m

namespace SessionCall

/-- What a call loads, if it loads anything. There may be no sample of the name it gives. -/
def load? : SessionCall → Option Load
  | loadText source => some (.text source)
  | loadSample name => (Sample.find? name).map .sample
  | _ => none

/-- The input that a call adds. -/
def added : SessionCall → List Int
  | addInput w => [w]
  | _ => []

end SessionCall

namespace Session

/-- The last load of a list of calls. -/
def lastLoad? (calls : List SessionCall) : Option Load :=
  calls.reverse.findSome? SessionCall.load?

/-- The input that a list of calls adds after its last load. -/
def addedSince (calls : List SessionCall) : List Int :=
  (calls.reverse.takeWhile fun c => c.load?.isNone).reverse.flatMap SessionCall.added

/-- The fresh machine that a list of calls goes back to. -/
def startOf (p : Policy) (calls : List SessionCall) : Machine :=
  (((lastLoad? calls).elim id Load.into) (.new p)).queue (addedSince calls)

theorem startOf_nil (p : Policy) : startOf p [] = .new p :=
  Machine.queue_nil _

/-- A load is what a session goes back to from then on. -/
theorem startOf_of_load {p : Policy} {calls : List SessionCall} {c : SessionCall} {l : Load}
    (h : c.load? = some l) : startOf p (calls ++ [c]) = l.into (.new p) := by
  simp [startOf, lastLoad?, addedSince, h]

/-- Input is added to what a session goes back to. -/
theorem startOf_of_no_load {p : Policy} {calls : List SessionCall} {c : SessionCall}
    (h : c.load? = none) : startOf p (calls ++ [c]) = (startOf p calls).queue c.added := by
  simp [startOf, lastLoad?, addedSince, h, Machine.queue_queue]

/-- The invariant of a session of a machine under `p` after some calls. -/
structure Remembers (p : Policy) (calls : List SessionCall) (s : Session) : Prop where
  /-- The machine is consistent. -/
  consistent : s.machine.Consistent
  /-- Nothing but its policy is left of the machine after a reset. -/
  fresh : s.machine.reset = .new p
  /-- The words and the input that are remembered stand for the calls. -/
  start : ((Machine.new p).load s.program).queue s.inputs = startOf p calls

theorem remembers_new (v : Variant) : (new v).Remembers v.policy [] where
  consistent := Machine.consistent_new v.policy
  fresh := rfl
  start := by
    rw [startOf_nil]
    exact (Machine.queue_nil _).trans (Machine.load_nil _)

section

variable {p : Policy} {calls : List SessionCall} {s : Session} (h : s.Remembers p calls)

include h

/-- A reset of a session leads where its calls say. -/
theorem Remembers.machine_reset : s.reset.machine = startOf p calls := by
  rw [← h.start, ← h.fresh]
  rfl

theorem Remembers.loadText (source : String) :
    (s.loadText source).Remembers p (calls ++ [.loadText source]) where
  consistent :=
    ((Machine.consistent_reset s.machine).loadAt 0 (ProgramText.parse source).cells).queue []
  fresh := h.fresh
  start := by
    rw [startOf_of_load (l := .text source) rfl]
    exact Machine.queue_nil _

/-- The words of a sample are clamped once as the sample is loaded, and again on every reset. They
are in range, so that the sample is started over as it was loaded. -/
theorem Remembers.loadSample {next : Session} {name : String}
    (hs : s.loadSample? name = some next) : next.Remembers p (calls ++ [.loadSample name]) := by
  rw [loadSample?, Option.map_eq_some_iff] at hs
  obtain ⟨sample, hfind, rfl⟩ := hs
  have hload : (SessionCall.loadSample name).load? = some (.sample sample) := by
    rw [SessionCall.load?, hfind, Option.map_some]
  have hmachine : sample.prepareAsShown s.machine = sample.prepareAsShown (.new p) := by
    rw [← h.fresh]
    rfl
  constructor
  case consistent =>
    exact Machine.kept_consistent.perform (.prepare sample sample.inputs) h.consistent
  case fresh => exact (Machine.reset_prepare sample sample.inputs s.machine).trans h.fresh
  case start =>
    rw [startOf_of_load hload, hmachine]
    exact Machine.reload_prepare (Sample.portable_of_find? hfind) sample.inputs (.new p)

theorem Remembers.addInput (w : Int) :
    (s.addInput w).Remembers p (calls ++ [.addInput w]) where
  consistent := h.consistent.queue [w]
  fresh := h.fresh
  start := by
    rw [startOf_of_no_load rfl, ← h.start, Machine.queue_queue]
    rfl

/-- What is remembered still stands for the calls after one that loads nothing and adds nothing. -/
theorem Remembers.skip {c : SessionCall} (hload : c.load? = none) (hadded : c.added = []) :
    s.Remembers p (calls ++ [c]) where
  consistent := h.consistent
  fresh := h.fresh
  start := by
    rw [startOf_of_no_load hload, hadded, Machine.queue_nil]
    exact h.start

/-- Steps and runs change the machine, and nothing that the session remembers. -/
theorem Remembers.onMachine {o : Operation} (hattached : (Call.operation o).attached? = none) :
    { s with machine := (o.perform s.machine).2 }.Remembers p calls where
  consistent := Machine.kept_consistent.perform o h.consistent
  fresh := h.consistent.reset_call (Provider.isConstant_iff.2 (.inl rfl)) h.fresh hattached rfl
  start := h.start

theorem Remembers.reset : s.reset.Remembers p calls where
  consistent := ((Machine.consistent_reset s.machine).loadAt 0 s.program).queue s.inputs
  fresh := h.fresh
  start := h.start

/-- **Every call keeps the invariant.** -/
theorem Remembers.call (c : SessionCall) : (s.call c).2.Remembers p (calls ++ [c]) := by
  cases c with
  | loadText source => exact h.loadText source
  | loadSample name =>
    rw [Session.call]
    cases hs : s.loadSample? name with
    | some next => exact h.loadSample hs
    | none => exact h.skip (by simpa [SessionCall.load?, loadSample?] using hs) rfl
  | addInput w => exact h.addInput w
  | step =>
    have hnext := h.onMachine (o := .step) rfl
    exact hnext.skip rfl rfl
  | run limit =>
    have hnext := h.onMachine (o := .runLimited limit) rfl
    exact hnext.skip rfl rfl
  | reset => exact h.reset.skip rfl rfl

theorem Remembers.play (later : List SessionCall) :
    (s.play later).Remembers p (calls ++ later) := by
  induction later generalizing s calls with
  | nil => rwa [List.append_nil]
  | cons c rest ih =>
    have hrest := ih (h.call c)
    rwa [List.append_assoc] at hrest

end

/-- A call that fails leaves alone what the session remembers. -/
theorem kept_of_error {s : Session} {c : SessionCall} {e : SessionError}
    (h : (s.call c).1 = .error e) :
    (s.call c).2.program = s.program ∧ (s.call c).2.inputs = s.inputs ∧
      (s.call c).2.skippedLines = s.skippedLines := by
  cases c with
  | loadSample name =>
    cases hs : s.loadSample? name with
    | some next => simp [call, hs] at h
    | none => simp [call, hs]
  | step => exact ⟨rfl, rfl, rfl⟩
  | run limit => exact ⟨rfl, rfl, rfl⟩
  | _ => cases h

/-- **A session goes back to its last load.** Whatever was asked of a session, a reset leads to a
fresh machine of its variant, in which there is nothing but the last load and then the input that
was added since, clamped and reported as they were at first. A call that fails makes no difference
to that, and no call for an unknown sample makes any difference at all. -/
theorem reset_play (v : Variant) (calls : List SessionCall) :
    let s := (new v).play calls
    s.reset.machine =
        (((lastLoad? calls).elim id Load.into) (.new v.policy)).queue (addedSince calls) ∧
      (∀ c e, (s.call c).1 = .error e →
        (s.call c).2.program = s.program ∧ (s.call c).2.inputs = s.inputs ∧
          (s.call c).2.skippedLines = s.skippedLines) ∧
      ∀ name, Sample.find? name = none →
        s.call (.loadSample name) = (.error (.unknownSample name), s) := by
  intro s
  refine ⟨((remembers_new v).play calls).machine_reset, fun c e => kept_of_error, ?_⟩
  intro name hname
  simp [call, loadSample?, hname]

/-- A load makes an end of the input before it, and a call that fails is no load. -/
example : addedSince [.addInput 1, .loadText "901", .addInput 2, .loadSample "none", .step,
    .addInput 3] = [2, 3] := by
  decide +kernel

end Session

end LittleMan
