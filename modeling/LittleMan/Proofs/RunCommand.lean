import LittleMan.Command.Invocation
import LittleMan.Proofs.Numerals

/-!
# How the run command ends

A run ends with a report on the machine that is left, and exits by its state. If the machine is
still running, its run came to the limit, and a notice says so; a state dump is written without it.

That nothing else can be mistaken for the notice needs a look at all that is told before it. File
names, program text and words are free there, but on standard output each of them stands behind a
heading, and none of the headings begins with the sign that the notice begins with.

## Main definitions

* `Chunk.warns`, `Transcript.Calm` — text that begins with the sign of a warning, and none that does
* `Invocation.Concludes` — the exit and the notice that go with the machine that is left

## Main results

* `Execution.calm_run`, `Source.calm_build`, `Origin.calm_find`, `Report.calm_state` — the parts of
  what is told are calm
* `Invocation.concludes_report`, `Invocation.concludes_carryOut` — how a run ends, and a whole
  invocation
-/

namespace LittleMan

/-! ### Calm transcripts -/

/-- Whether a piece is text for standard output that begins with the sign of a warning. -/
def Chunk.warns : Chunk → Bool
  | out text => text.toList.head? = some '⚠'
  | told _ => false

@[simp] theorem Chunk.warns_outLine (line : String) :
    (outLine line).warns = decide ((line ++ "\n").toList.head? = some '⚠') := rfl

/-- Nothing on standard output begins with the sign of a warning. -/
def Transcript.Calm (t : Transcript) : Prop :=
  ∀ c ∈ t, c.warns = false

namespace Transcript

theorem calm_nil : Calm [] :=
  List.forall_mem_nil _

theorem Calm.append {s t : Transcript} (hs : s.Calm) (ht : t.Calm) : Calm (s ++ t) :=
  List.forall_mem_append.2 ⟨hs, ht⟩

theorem Calm.reverse {t : Transcript} (ht : t.Calm) : Calm t.reverse :=
  fun c hc => ht c (List.mem_reverse.1 hc)

theorem calm_singleton {c : Chunk} (h : c.warns = false) : Calm [c] :=
  List.forall_mem_singleton.2 h

theorem calm_map_outLine {lines : List String}
    (h : ∀ line ∈ lines, (Chunk.outLine line).warns = false) : Calm (lines.map Chunk.outLine) :=
  List.forall_mem_map.2 h

theorem calm_map_told (es : List Event) : Calm (es.map Chunk.told) :=
  List.forall_mem_map.2 fun _ _ => rfl

theorem calm_map_logged (rs : List Record) : Calm (rs.map Chunk.logged) :=
  List.forall_mem_map.2 fun _ _ => rfl

end Transcript

open Transcript

theorem Numeral.not_mem_padded_natCast (width n : Nat) : '⚠' ∉ padded width n :=
  (denotes_padded width n).not_mem (by decide) (by decide) (by decide)

namespace Execution

/-- A line of trace begins with the program counter. -/
theorem warns_traceLine (pc : Nat) (i : Instruction) (acc : Int) :
    (Chunk.outLine (traceLine pc i acc)).warns = false := by
  have hpc := Numeral.not_mem_padded_natCast 2 pc
  cases h : Numeral.padded 2 pc with
  | nil => simp [traceLine, h]
  | cons c rest =>
    rw [h] at hpc
    have hc : c ≠ '⚠' := fun hc => hpc (hc ▸ List.mem_cons_self)
    simp [traceLine, h, hc]

theorem calm_outcome (traced : Bool) (pc : Nat) (result : Except StepError Instruction)
    (acc : Int) : Calm (outcome traced pc result acc) := by
  cases result with
  | error e => exact calm_singleton rfl
  | ok i =>
    cases traced
    · exact calm_nil
    · exact calm_singleton (warns_traceLine pc i acc)

theorem calm_carryOut (traced : Bool) (m : Machine) : Calm (carryOut traced m).1 :=
  (calm_map_told _).append (calm_outcome _ _ _ _)

theorem calm_loop (traced : Bool) (n : Nat) {told : Transcript} (m : Machine) (h : told.Calm) :
    Calm (loop traced n told m).1 := by
  induction n generalizing told m with
  | zero => exact h
  | succ n ih =>
    rw [loop]
    split
    · exact ih _ ((calm_carryOut traced m).reverse.append ((calm_map_told _).reverse.append h))
    · exact h

theorem calm_run (traced : Bool) (limit : Nat) (m : Machine) : Calm (run traced limit m).1 :=
  (calm_loop traced _ m calm_nil).reverse

end Execution

namespace Source

theorem calm_overflow (ws : List Int) : Calm (overflow ws) := by
  simp only [overflow]
  split
  · exact calm_singleton rfl
  · exact calm_nil

theorem calm_load (inputs : List Int) (m : Machine) (s : Source) :
    Calm (s.load inputs m).1 := by
  cases s with
  | sample s => exact calm_map_logged _
  | cells ws =>
    exact ((calm_map_logged _).append (calm_overflow ws)).append (calm_map_logged _)

theorem calm_build (s : Source) (options : Command.MachineOptions) (interactive : Bool)
    (lines : Array (Option String)) : Calm (s.build options interactive lines).1 :=
  (calm_map_logged _).append (calm_load _ _ s)

end Source

namespace Origin

theorem calm_opening (o : Origin) : Calm o.opening := by
  cases o with
  | standardInput => exact calm_singleton rfl
  | _ => exact calm_nil

theorem calm_account (o : Origin) (text : ProgramText) : Calm (o.account text) :=
  (calm_map_logged _).append (List.forall_mem_map.2 fun _ _ => rfl)

theorem calm_find (o : Origin) (name : String) (content : Except FileError (List UInt8)) :
    Calm (o.find name content).1 := by
  unfold find
  split
  · split
    · exact calm_nil
    · exact calm_singleton rfl
  · split
    · exact calm_singleton rfl
    · split
      · exact (calm_account _ _).append (calm_singleton rfl)
      · exact calm_account _ _

end Origin

namespace Report

theorem calm_memory (m : Memory) (range : Option MailboxRange) :
    Calm ((memory m range).map Chunk.outLine) := by
  have hmailboxes (cells : List (Nat × Int)) : Calm ((mailboxes cells).map Chunk.outLine) :=
    calm_map_outLine (List.forall_mem_map.2 fun _ _ => by simp)
  cases range with
  | none => exact List.forall_mem_cons.2 ⟨by simp, hmailboxes _⟩
  | some r => exact List.forall_mem_cons.2 ⟨by simp, hmailboxes _⟩

theorem calm_state (m : Machine) (range : Option MailboxRange) :
    Calm ((state m range).map Chunk.outLine) := by
  rw [state, List.map_append, List.map_append, List.map_append]
  refine ((Calm.append ?_ ?_).append ?_).append (calm_memory _ _)
  · exact calm_map_outLine (by simp)
  · split
    · exact calm_nil
    · exact calm_singleton (by simp)
  · split
    · exact calm_nil
    · exact calm_map_outLine (by simp)

end Report

namespace Invocation

open Command (MachineOptions RunOptions)

theorem calm_opening (i : Invocation) : Calm i.opening := by
  unfold opening
  split
  · exact Origin.calm_opening _
  · exact calm_nil

theorem calm_runHeading (program : String) (machine : MachineOptions) (run : RunOptions) :
    Calm (runHeading program machine run) := by
  unfold runHeading
  split
  · exact calm_nil
  · exact calm_map_outLine (by simp)

/-- An invocation that runs a program that was found executes the machine that was built for it. -/
theorem begin_of_find {i : Invocation} {program : String}
    {machine : MachineOptions} {run : RunOptions}
    {content : Except FileError (List UInt8)} {before : Transcript} {s : Source}
    (hi : i.action = .run program machine run)
    (hfind : (Origin.ofName program).find program content = (before, some s))
    (lines : Array (Option String)) :
    i.begin content lines =
      .execute (before ++ (s.build machine true lines).1 ++ runHeading program machine run)
        (s.build machine true lines).2 run := by
  simp only [begin, hi, withProgram, hfind]

/-- A program that is gone on with was found. -/
theorem exists_of_withProgram {program : String} {content : Except FileError (List UInt8)}
    {next : Transcript → Source → Progress} {told : Transcript} {m : Machine}
    {options : RunOptions} (h : withProgram program content next = .execute told m options) :
    ∃ before s, (Origin.ofName program).find program content = (before, some s) ∧
      next before s = .execute told m options := by
  unfold withProgram at h
  split at h
  · next before s hfind => exact ⟨before, s, hfind, h⟩
  · cases h

theorem calm_begin {i : Invocation} {content : Except FileError (List UInt8)}
    {lines : Array (Option String)} {told : Transcript} {m : Machine} {options : RunOptions}
    (h : i.begin content lines = .execute told m options) : told.Calm := by
  unfold begin at h
  cases haction : i.action with
  | run program machine run =>
    rw [haction] at h
    obtain ⟨before, s, hfind, hnext⟩ := exists_of_withProgram h
    cases hnext
    have hbefore := Origin.calm_find (.ofName program) program content
    rw [hfind] at hbefore
    exact (hbefore.append (Source.calm_build _ _ _ _)).append (calm_runHeading _ _ _)
  | debug _ _ | disassemble _ | save _ _ =>
    rw [haction] at h
    obtain ⟨before, s, -, hnext⟩ := exists_of_withProgram h
    cases hnext
  | overview | samples | selfTest =>
    rw [haction] at h
    cases h

/-- How a run ends that leaves the machine `left`. -/
structure Concludes (options : RunOptions) (left : Machine) (told : Transcript) (exit : Nat) :
    Prop where
  /-- The exit tells whether the machine faulted. -/
  exit_eq_two : exit = 2 ↔ left.state = .faulted
  /-- The notice tells that the machine is still running, unless a state dump was asked for. -/
  notice : (Report.limitNotice options.maxCycles).map Chunk.outLine <:+: told ↔
    options.json = false ∧ left.state = .running

/-- The notice after calm text is told exactly if it is there. -/
theorem notice_infix_iff {t : Transcript} (h : t.Calm) (n : Nat) (b : Bool) :
    (Report.limitNotice n).map Chunk.outLine <:+:
        t ++ (if b then Report.limitNotice n else []).map Chunk.outLine ↔ b = true := by
  cases b with
  | true => exact iff_of_true (List.suffix_append _ _).isInfix rfl
  | false =>
    refine iff_of_false (fun hin => ?_) (by decide)
    rw [if_neg (by decide), List.map_nil, List.append_nil] at hin
    have hcalm := h _ (hin.subset (List.mem_cons_of_mem _ List.mem_cons_self))
    simp at hcalm

theorem concludes_report {before : Transcript} (h : before.Calm) (options : RunOptions)
    (left : Machine) :
    Concludes options left (before ++ report options left) (exitOf left) where
  exit_eq_two := by simp [exitOf, Machine.isFaulted]
  notice := by
    cases hjson : options.json with
    | true =>
      have hdump : Calm [.outLine left.snapshot.indented] :=
        calm_singleton (by simp [Snapshot.indented, Snapshot.dump, Dump.indented])
      have hnotice := notice_infix_iff (h.append hdump) options.maxCycles false
      simpa [report, hjson] using hnotice
    | false =>
      have hstate := h.append (Report.calm_state left options.memory)
      have hnotice := notice_infix_iff hstate options.maxCycles left.isRunning
      rw [report, hjson, if_neg (by decide), List.map_append, ← List.append_assoc, hnotice]
      simp [Machine.isRunning]

/-- **How a whole invocation ends** that executes a machine. -/
theorem concludes_carryOut {i : Invocation} {stdin : List UInt8} {t : FileTree}
    {told : Transcript} {m : Machine} {options : RunOptions}
    (h : i.begin (i.fetch stdin t) (i.linesLeft stdin) = .execute told m options) :
    Concludes options (Execution.run options.trace options.maxCycles m).2
      (i.carryOut stdin t).told (i.carryOut stdin t).exit := by
  rw [carryOut, h]
  exact concludes_report (((calm_opening i).append (calm_begin h)).append
    (Execution.calm_run _ _ _)) _ _

end Invocation

end LittleMan
