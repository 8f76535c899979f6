import LittleMan.Proofs.Prompt

/-!
# The log of a run

A machine keeps its diagnostics, and the log gets its warnings and errors. Two lists are made, in
different places, of the same conditions: the machine adds to one of them as it is loaded, fed and
run, and what it makes known goes into the other. Here they are shown to be one list.

What is compared are not the lists at the end but what is added to each of them between two machines
(`Logs`). These additions can be put one after the other, which takes them from a single load or
step to a run of any length. A sample is loaded after a reset, which empties the first list and not
the second; but it is only ever loaded into a fresh machine, where there is nothing to empty.

Which records reach standard error depends on the level of the log. A piece of a transcript is heard
if standard error gets the very line of its record.

## Main definitions

* `Record.isAlarm`, `Transcript.alarms` — warnings and errors, and those that are told
* `Transcript.heard` — those that reach standard error
* `Machine.Logs` — what was logged between two machines is what the second one reports in addition

## Main results

* `Execution.logs_round`, `Execution.logs_run` — a step, and a run
* `Source.logs_build` — the machine that a run begins with
* `Transcript.heard_eq` — the level decides what is heard
* `Invocation.run_logs_diagnostics` — the warnings and errors of a run are its diagnostics
-/

namespace LittleMan

/-! ### Warnings and errors -/

/-- Whether a record is a warning or an error. -/
def Record.isAlarm (r : Record) : Bool :=
  Level.warn.shows r.level

/-- A condition that a machine reports is a warning or an error. -/
theorem Record.isAlarm_diagnosed (d : Diagnostic) : (diagnosed d).isAlarm = true := by
  cases d <;> rfl

theorem Record.filter_isAlarm_map_diagnosed (ds : List Diagnostic) :
    (ds.map diagnosed).filter isAlarm = ds.map diagnosed :=
  List.filter_eq_self.2 (List.forall_mem_map.2 fun d _ => isAlarm_diagnosed d)

/-- Warnings and errors are shown at any level that was not asked to be quiet. -/
theorem Level.shows_ofFlags {l : Level} (h : warn.shows l = true) (verbose : Nat) :
    (ofFlags verbose false).shows l = true := by
  have hrank : 1 ≤ (ofFlags verbose false).rank := by
    match verbose with
    | 0 | 1 | 2 => decide
    | n + 3 => exact Nat.le_add_left 1 3
  have hl : l.rank ≤ 1 := of_decide_eq_true h
  exact decide_eq_true (hl.trans hrank)

/-- Standard error gets the line of a record if the log shows its level, and nothing if not. -/
theorem Chunk.errors_logged_eq_line_iff (limit : Level) (r : Record) :
    (logged r).errors limit = r.line ↔ limit.shows r.level = true := by
  have hline : r.line ≠ "" := by
    intro h
    have hlength := congrArg String.length h
    simp [Record.line] at hlength
  change (if limit.shows r.level = true then r.line else "") = r.line ↔ _
  split
  · next h => exact iff_of_true rfl h
  · next h => exact iff_of_false hline.symm h

/-- The warning or error in a piece, if it reaches standard error when the log has level `limit`:
standard error gets its line, then. -/
def Chunk.heard? (limit : Level) (c : Chunk) : Option Record :=
  c.record?.filter fun r => r.isAlarm && decide (c.errors limit = r.line)

theorem Chunk.heard?_eq (limit : Level) (c : Chunk) :
    c.heard? limit = c.record?.filter fun r => limit.shows r.level && r.isAlarm := by
  cases c with
  | out text => rfl
  | told e =>
    cases e with
    | shown text => rfl
    | record r =>
      have hshown : decide ((logged r).errors limit = r.line) = limit.shows r.level := by
        rw [Bool.eq_iff_iff, decide_eq_true_iff, errors_logged_eq_line_iff]
      change (some r).filter (fun s => s.isAlarm && decide ((logged r).errors limit = s.line)) = _
      rw [Option.filter_some, hshown, Bool.and_comm]
      rfl

namespace Transcript

/-- The warnings and errors that are told. -/
def alarms (t : Transcript) : List Record :=
  t.records.filter Record.isAlarm

/-- The warnings and errors that reach standard error when the log has level `limit`. -/
def heard (limit : Level) (t : Transcript) : List Record :=
  t.filterMap (Chunk.heard? limit)

/-- **What is heard are the alarms that the log shows.** -/
theorem heard_eq (limit : Level) (t : Transcript) :
    t.heard limit = t.alarms.filter fun r => limit.shows r.level := by
  have hheard : Chunk.heard? limit =
      fun c => c.record?.filter fun r => limit.shows r.level && r.isAlarm :=
    funext (Chunk.heard?_eq limit)
  rw [heard, hheard, alarms, List.filter_filter, records, List.filter_filterMap]

@[simp] theorem alarms_append (s t : Transcript) : alarms (s ++ t) = alarms s ++ alarms t := by
  simp [alarms]

theorem heard_append (limit : Level) (s t : Transcript) :
    heard limit (s ++ t) = heard limit s ++ heard limit t :=
  List.filterMap_append

theorem heard_of_no_records {limit : Level} {t : Transcript} (h : t.records = []) :
    t.heard limit = [] := by
  rw [heard_eq, alarms, h]
  rfl

end Transcript

/-! ### What is logged between two machines -/

namespace Machine

/-- What was logged between two machines, among other records, is what the second one reports in
addition. -/
def Logs (m next : Machine) (rs : List Record) : Prop :=
  next.diagnostics.toList.map Record.diagnosed =
    m.diagnostics.toList.map Record.diagnosed ++ rs.filter Record.isAlarm

theorem Logs.refl (m : Machine) : m.Logs m [] :=
  (List.append_nil _).symm

theorem Logs.trans {m middle last : Machine} {rs ss : List Record} (h : m.Logs middle rs)
    (h' : middle.Logs last ss) : m.Logs last (rs ++ ss) := by
  rw [Logs, h', h, List.filter_append, List.append_assoc]

/-- Conditions are reported and logged, and what else is logged is of less weight. -/
theorem logs_of_reports {m next : Machine} {ds : List Diagnostic} {rs : List Record}
    (hreports : next.diagnostics.toList = m.diagnostics.toList ++ ds)
    (hrecords : rs.filter Record.isAlarm = ds.map Record.diagnosed) : m.Logs next rs := by
  rw [Logs, hreports, List.map_append, hrecords]

theorem logs_loadAt (m : Machine) (start : Nat) (ws : List Int) :
    m.Logs (m.loadAt start ws) (m.loadJournal start ws) := by
  refine logs_of_reports Array.toList_appendList ?_
  have hrest : (if Memory.fitting start ws.length < ws.length then
      [Record.truncated (Memory.fitting start ws.length) ws.length start] else []).filter
        Record.isAlarm = [] := by
    split <;> rfl
  rw [loadJournal, List.filter_append, hrest, List.append_nil,
    Record.filter_isAlarm_map_diagnosed]

theorem logs_queue (m : Machine) (ws : List Int) :
    m.Logs (m.queue ws) (m.queueJournal ws) :=
  logs_of_reports Array.toList_appendList (Record.filter_isAlarm_map_diagnosed _)

theorem logs_preset (data : List (Nat × Int)) (m : Machine) :
    m.Logs (Sample.preset data m) (Sample.presetJournal data m) := by
  induction data generalizing m with
  | nil => exact .refl m
  | cons cell rest ih =>
    rw [Sample.preset_cons]
    exact (m.logs_loadAt cell.1 [cell.2]).trans (ih _)

/-- A sample is loaded after a reset, which empties the diagnostics. -/
theorem logs_prepare (s : Sample) (inputs : List Int) (m : Machine) :
    m.reset.Logs (s.prepare inputs m) (s.journal inputs m) :=
  ((m.reset.logs_loadAt 0 s.cells).trans (logs_preset s.data _)).trans (logs_queue _ inputs)

end Machine

/-! ### Steps -/

namespace Transcript

theorem alarms_map_shown (texts : List String) :
    alarms ((texts.map Event.shown).map Chunk.told) = [] := by
  induction texts with
  | nil => rfl
  | cons text rest ih => exact ih

theorem alarms_map_diagnosed (ds : List Diagnostic) :
    alarms ((ds.map fun d => Event.record (.diagnosed d)).map Chunk.told) =
      ds.map Record.diagnosed := by
  have hlogged : (ds.map fun d => Event.record (.diagnosed d)).map Chunk.told =
      (ds.map Record.diagnosed).map Chunk.logged := by
    rw [List.map_map, List.map_map]
    rfl
  rw [alarms, hlogged, records_map_logged, Record.filter_isAlarm_map_diagnosed]

end Transcript

open Transcript

namespace Machine

/-- Before a step takes its input, nothing of weight is logged. -/
theorem alarms_announcement (m : Machine) : alarms (m.announcement.map Chunk.told) = [] := by
  unfold announcement
  split
  · next raw _ =>
    change alarms (List.map Chunk.told (if m.asks then _ else [])) = []
    split
    · exact alarms_map_shown _
    · rfl
  · rfl

/-- What an instruction reports is added to the diagnostics. -/
theorem diagnostics_carried (m : Machine) (i : Instruction) :
    (m.carried i).diagnostics.toList = m.diagnostics.toList ++ m.reported i := by
  cases i with
  | inp =>
    rw [carried, execute_inp]
    exact Array.toList_appendList
  | unknown raw => exact Array.toList_push
  | _ => exact (List.append_nil _).symm

/-- What an instruction reports is logged. -/
theorem alarms_remarks {m : Machine} (hm : m.state = .running) (hpc : m.pc < 100) :
    alarms (m.remarks.map Chunk.told) =
      (m.reported (Instruction.decode (m.memory.get m.pc))).map Record.diagnosed := by
  rw [remarks, if_pos (isRunning_iff.2 hm), Memory.get?_eq_some_get hpc]
  simp only
  cases Instruction.decode (m.memory.get m.pc) with
  | inp =>
    simp only [reported, List.isEmpty_iff]
    split
    · rw [answerRemarks, List.map_append, alarms_append, alarms_map_shown, List.nil_append]
      cases m.provider.ask.1 with
      | some w => exact alarms_map_diagnosed _
      | none => rfl
    · rfl
  | _ => rfl

/-- **What a step reports is logged**, once, and so is nothing else of that weight. -/
theorem logs_step (m : Machine) :
    m.Logs m.step.2 (records ((m.announcement ++ m.remarks).map Chunk.told)) := by
  have hrecords : (records ((m.announcement ++ m.remarks).map Chunk.told)).filter Record.isAlarm =
      alarms (m.remarks.map Chunk.told) := by
    rw [List.map_append, records_append, List.filter_append]
    exact congrArg (· ++ _) m.alarms_announcement
  by_cases hm : m.state = .running
  · by_cases hpc : m.pc < 100
    · rw [step_of_pc_lt hm hpc]
      exact logs_of_reports (m.diagnostics_carried _) (hrecords.trans (alarms_remarks hm hpc))
    · have hpc : 100 ≤ m.pc := by omega
      rw [step_of_le_pc hm hpc]
      refine logs_of_reports Array.toList_push (hrecords.trans ?_)
      rw [remarks, if_pos (isRunning_iff.2 hm), Memory.get?_eq_none_iff.2 hpc]
      rfl
  · have hstop : m.isRunning = false := by simpa [isRunning] using hm
    rw [step_of_ne_running hm]
    refine logs_of_reports (List.append_nil _).symm (hrecords.trans ?_)
    rw [remarks, hstop]
    rfl

end Machine

namespace Execution

theorem records_outcome (traced : Bool) (pc : Nat) (result : Except StepError Instruction)
    (acc : Int) : records (outcome traced pc result acc) = [] := by
  cases result with
  | error e => rfl
  | ok i => cases traced <;> rfl

/-- A round logs what its step does. -/
theorem logs_round (traced : Bool) (m : Machine) :
    m.Logs (carryOut traced m).2 (records (before m ++ (carryOut traced m).1)) := by
  have hstep := m.logs_step
  rw [List.map_append, records_append] at hstep
  rw [carryOut, records_append, records_append, records_outcome, List.append_nil]
  exact hstep

/-- Rounds go on logging where the rounds before them ended. What was told comes latest first. -/
theorem logs_loop (traced : Bool) (n : Nat) {first m : Machine} {told : Transcript}
    (h : first.Logs m (records told.reverse)) :
    first.Logs (loop traced n told m).2 (records (loop traced n told m).1.reverse) := by
  induction n generalizing m told with
  | zero => exact h
  | succ n ih =>
    have hround := h.trans (logs_round traced m)
    rw [loop]
    generalize carryOut traced m = round at hround ⊢
    split
    · refine ih ?_
      rw [List.reverse_append, List.reverse_append, List.reverse_reverse, List.reverse_reverse,
        List.append_assoc, records_append]
      exact hround
    · exact h

/-- **What a run reports is logged.** -/
theorem logs_run (traced : Bool) (limit : Nat) (m : Machine) :
    m.Logs (run traced limit m).2 (records (run traced limit m).1) :=
  logs_loop traced (allowance limit) (.refl m)

end Execution

/-! ### The whole run -/

namespace Source

theorem records_overflow (ws : List Int) : records (overflow ws) = [] := by
  simp only [overflow]
  split <;> rfl

/-- A machine that has reported nothing yet logs what loading a program into it reports. -/
theorem logs_load (inputs : List Int) {m : Machine} (hm : m.reset = m) (s : Source) :
    m.Logs (s.load inputs m).2 (records (s.load inputs m).1) := by
  cases s with
  | cells ws =>
    rw [load, records_append, records_append, records_map_logged, records_map_logged,
      records_overflow, List.append_nil]
    exact (m.logs_loadAt 0 ws).trans (Machine.logs_queue _ inputs)
  | sample s =>
    have hload := Machine.logs_prepare s (if inputs.isEmpty then s.inputs else inputs) m
    rw [hm] at hload
    rw [load, records_map_logged]
    exact hload

/-- **What is reported while a machine is built is logged.** An interactive command never complains
that it cannot prompt. -/
theorem logs_build (s : Source) (options : Command.MachineOptions)
    (lines : Array (Option String)) :
    (Machine.new options.variant.policy).Logs (s.build options true lines).2
      (records (s.build options true lines).1) := by
  have hquiet : (emptyInput options true).2 = [] := by
    unfold emptyInput
    split
    · rfl
    · rfl
    · split <;> rfl
  let m := (Machine.new options.variant.policy).attach (.ofChoice (emptyInput options true).1 lines)
  rw [build, records_append, hquiet]
  exact logs_load (m := m) options.inputs rfl s

end Source

namespace Origin

/-- What is told while a program is found is no error of a machine. -/
theorem heard_find (o : Origin) (name : String) (content : Except FileError (List UInt8)) :
    (o.find name content).1.heard .error = [] := by
  have haccount (text : ProgramText) : (o.account text).heard .error = [] := by
    have hskipped : records (text.skipped.map fun l => Chunk.errLine ("⚠️  Skipped line "
        ++ Numeral.plain l.number ++ ": " ++ l.text)) = [] :=
      List.filterMap_eq_nil_iff.2 (List.forall_mem_map.2 fun _ _ => rfl)
    rw [heard_eq, alarms, account, records_append, records_map_logged, hskipped, List.append_nil,
      List.filter_filter, List.filter_eq_nil_iff]
    intro r hr
    rcases List.mem_append.1 hr with hr | hr
    · obtain ⟨l, -, rfl⟩ := List.mem_map.1 hr
      exact Bool.false_ne_true
    · cases o with
      | file path =>
        obtain rfl := List.mem_singleton.1 hr
        exact Bool.false_ne_true
      | _ => exact absurd hr List.not_mem_nil
  unfold find
  split
  · split <;> rfl
  · split
    · rfl
    · split
      · rw [heard, List.filterMap_append]
        exact (List.append_nil _).trans (haccount _)
      · exact haccount _

end Origin

namespace Invocation

open Command (MachineOptions RunOptions)

theorem records_opening (i : Invocation) : records i.opening = [] := by
  unfold opening
  split
  · next o _ => cases o <;> rfl
  · rfl

theorem records_runHeading (program : String) (machine : MachineOptions) (run : RunOptions) :
    records (runHeading program machine run) = [] := by
  unfold runHeading
  split
  · rfl
  · exact records_map_outLine _

theorem records_report (run : RunOptions) (m : Machine) : records (report run m) = [] := by
  unfold report
  split
  · rfl
  · exact records_map_outLine _

/-- **The warnings and errors of a run are its diagnostics.** Run any program that is found, with
any arguments and any standard input. The warnings and errors that are told from the building of the
machine to its report are the diagnostics of the machine that is left, in order and with their
texts: an error for the counter that left memory and a warning for any other. A command that was not
asked to be quiet lets all of them be heard. Of a quiet one nothing is heard but the error, if there
is one. There is one if the command exits with 2, and only then. -/
theorem run_logs_diagnostics {i : Invocation} {program : String} {machine : MachineOptions}
    {run : RunOptions} {stdin : List UInt8} {t : FileTree} {before : Transcript} {s : Source}
    {verbose : Nat} {quiet : Bool} (hi : i.action = .run program machine run)
    (hlevel : i.level = .ofFlags verbose quiet)
    (hfind : (Origin.ofName program).find program (i.fetch stdin t) = (before, some s)) :
    let o := i.carryOut stdin t
    let built := s.build machine true (i.linesLeft stdin)
    let ran := Execution.run run.trace run.maxCycles built.2
    let since := built.1 ++ runHeading program machine run ++ ran.1
    let reported := ran.2.snapshot.diagnostics
    o.told = i.opening ++ before ++ since ++ report run ran.2 ∧
    since.alarms.map (fun r => (r.level, r.text)) =
      reported.map (fun d => (if d.isFatal then Level.error else .warn, d.text)) ∧
    (quiet = false → since.heard i.level = since.alarms) ∧
    (quiet = true →
      o.told.heard i.level = (reported.filter Diagnostic.isFatal).map Record.diagnosed) ∧
    reported.filter Diagnostic.isFatal = if o.exit = 2 then [.pcOutOfBounds 100] else [] := by
  intro o built ran since reported
  have hm : (Machine.new machine.variant.policy).Logs ran.2 (records since) := by
    have hboth := (s.logs_build machine (i.linesLeft stdin)).trans
      (Execution.logs_run run.trace run.maxCycles built.2)
    simp only [since, records_append, records_runHeading, List.append_nil]
    exact hboth
  have hlogs : since.alarms = reported.map Record.diagnosed := hm.symm
  have hconsistent : ran.2.Consistent := by
    rw [Execution.run_snd]
    exact ((s.reachable_build machine true _).after _).consistent
  have ho : o = ⟨i.opening ++ (before ++ built.1 ++ runHeading program machine run) ++ ran.1 ++
      report run ran.2, i.level, exitOf ran.2, t⟩ := by
    simp only [o, carryOut, begin_of_find hi hfind]
    rfl
  have htold : o.told = i.opening ++ before ++ since ++ report run ran.2 := by
    simp only [ho, since, List.append_assoc]
  refine ⟨htold, ?_, fun hquiet => ?_, fun hquiet => ?_, ?_⟩
  · rw [hlogs, List.map_map]
    rfl
  · rw [heard_eq, List.filter_eq_self, hlevel, hquiet]
    exact fun r hr => Level.shows_ofFlags (List.mem_filter.1 hr).2 verbose
  · have hbefore : before.heard .error = [] := by
      have hnone := Origin.heard_find (.ofName program) program (i.fetch stdin t)
      rwa [hfind] at hnone
    have hfatal : (Level.error.shows ·.level) ∘ Record.diagnosed = Diagnostic.isFatal := by
      funext d
      cases d <;> rfl
    have hlimit : i.level = .error := by
      rw [hlevel, hquiet]
      rfl
    rw [htold, hlimit, heard_append, heard_append, heard_append,
      heard_of_no_records (records_opening i), hbefore, heard_of_no_records (records_report run _),
      heard_eq, hlogs, List.filter_map, hfatal, List.append_nil]
    rfl
  · have hexit : o.exit = 2 ↔ ran.2.state = .faulted := by
      simp [ho, exitOf, Machine.isFaulted]
    simp only [hexit]
    exact hconsistent.fatal

/-- A typed-in program with a line that is skipped, given one word of input that is too large. Its
second input instruction finds nothing; then it comes to a word that is no instruction, and after
that it runs out of memory. All four conditions are heard, and only the last of them when quiet. -/
theorem run_logs_diagnostics_of_four :
    let options : MachineOptions :=
      { variant := .lmc32, inputs := [0x100000000], onEmptyInput := some .warn }
    let i (quiet : Bool) : Invocation :=
      ⟨.ofFlags 0 quiet, .run "-" options { maxCycles := 10 }⟩
    let stdin := Text.encode "901\n901\n400\nINP\n506\n399\n699\n902".toList
    let built := (Source.cells [901, 901, 400, 506, 399, 699, 902]).build options true #[]
    let ran := Execution.run false 10 built.2
    let since := built.1 ++ runHeading "-" options { maxCycles := 10 } ++ ran.1
    ran.2.snapshot.diagnostics =
      [.valueClamped 0x100000000 0x7FFFFFFF, .inputStarved 1, .unknownInstruction 2 400,
        .pcOutOfBounds 100] ∧
    since.alarms.map Record.level = [.warn, .warn, .warn, .error] ∧
    since.heard .warn = since.alarms ∧
    ((i true).carryOut stdin {}).told.heard .error = [.diagnosed (.pcOutOfBounds 100)] ∧
    ((i true).carryOut stdin {}).exit = 2 := by
  intro options i stdin built ran since
  have hreported : ran.2.snapshot.diagnostics =
      [.valueClamped 0x100000000 0x7FFFFFFF, .inputStarved 1, .unknownInstruction 2 400,
        .pcOutOfBounds 100] := by decide +kernel
  have hfind : (Origin.ofName "-").find "-" (.ok stdin) =
      ([.logged (.skippedLine 4 "INP"), .errLine "⚠️  Skipped line 4: INP"],
        some (.cells [901, 901, 400, 506, 399, 699, 902])) := by decide +kernel
  obtain ⟨-, halarms, hheard, -, -⟩ :=
    run_logs_diagnostics (i := i false) (t := {}) rfl (rfl : _ = Level.ofFlags 0 false) hfind
  obtain ⟨-, -, -, hquiet, hfatal⟩ :=
    run_logs_diagnostics (i := i true) (t := {}) rfl (rfl : _ = Level.ofFlags 0 true) hfind
  change since.alarms.map _ = ran.2.snapshot.diagnostics.map _ at halarms
  change ran.2.snapshot.diagnostics.filter _ = _ at hfatal
  refine ⟨hreported, ?_, hheard rfl, ?_, ?_⟩
  · have hlevels := congrArg (List.map Prod.fst) halarms
    rw [List.map_map, hreported] at hlevels
    exact hlevels
  · refine (hquiet rfl).trans ?_
    change (ran.2.snapshot.diagnostics.filter _).map _ = _
    rw [hreported]
    rfl
  · by_contra hexit
    rw [hreported, if_neg hexit] at hfatal
    cases hfatal

end Invocation

end LittleMan
