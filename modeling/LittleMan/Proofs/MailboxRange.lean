import LittleMan.Command.Report
import LittleMan.Proofs.LineGrammar
import LittleMan.Proofs.Numerals

/-!
# What can be asked to see of memory

Which texts are ranges of mailboxes is said here by a grammar, apart from how they are read. The
grammar does not mention the limits of the reader: a number of any length is an address if it is
below one hundred, so that it is never the size of the numeral that decides.

What was asked for is what is shown. A range that was read lies in memory, so that nothing of it is
cut off, and its mailboxes come in order with what they hold, the empty ones as well.

## Main definitions

* `MailboxRange.Names` — one side of a range, and the mailbox that it stands for
* `MailboxRange.Written` — a text and the ends of the range that it stands for

## Main results

* `MailboxRange.parse_eq_ok_iff` — reading is the one function that fits the grammar
* `Memory.range_eq` — the mailboxes of a range, also where it is cut off
* `Command.readArguments_askedWords` — how the command line takes a range
* `Command.readArguments_askedWords_iff` — it accepts the ranges that can be read, and no others
* `MailboxRange.asked_is_shown` — the texts that are accepted, and what is shown for them
-/

namespace LittleMan

/-! ### The mailboxes of a range -/

namespace Memory

/-- **A range holds the mailboxes from its first to its last**, up to the end of memory. -/
theorem range_eq (m : Memory) (first last : Nat) :
    m.range first last =
      (List.range' first (min last 99 + 1 - first)).map fun a => (a, m.get a) := by
  have hcount : min (first + (min last (size - 1) + 1 - first)) size - first =
      min last 99 + 1 - first := by
    rw [size]
    omega
  rw [range, addressed, ← List.map_drop, ← List.map_take, List.take_drop, List.take_range,
    List.range_eq_range', List.drop_range', hcount, Nat.zero_add, Nat.mul_one]

/-- A range that lies in memory is not cut off. -/
theorem range_of_le (m : Memory) {first last : Nat} (h : first ≤ last) (hlast : last ≤ 99) :
    m.range first last =
      (List.range' first (last - first + 1)).map fun a => (a, m.get a) := by
  rw [range_eq, Nat.min_eq_left hlast, Nat.sub_add_comm h]

end Memory

namespace MailboxRange

/-! ### The grammar -/

/-- What one side of a range stands for: the mailbox that is `missing` if there is nothing but
blanks, and otherwise the mailbox whose address is written there. -/
inductive Names (missing : Nat) (part : List Char) : Nat → Prop
  /-- Only blanks. -/
  | nothing (h : Text.Trims part []) : Names missing part missing
  /-- A number below one hundred, with as many zeros in front of it as one likes. -/
  | address {numeral : List Char} {a : Nat} (h : Text.Trims part numeral)
      (hcounts : Numeral.Counts numeral a) (ha : a < 100) : Names missing part a

/-- The grammar of ranges: the address of one mailbox, or two sides with a hyphen between them.
Further hyphens belong to the right side, where no address can hold one. -/
inductive Written (s : List Char) : Nat → Nat → Prop
  /-- One mailbox, since no hyphen stands anywhere. -/
  | single {a : Nat} (h : '-' ∉ s) (ha : Names 0 s a) : Written s a a
  /-- Two ends, of which a missing one is the end of memory on its side. -/
  | ends {left right : List Char} {a b : Nat} (hs : s = left ++ '-' :: right) (h : '-' ∉ left)
      (ha : Names 0 left a) (hb : Names 99 right b) (hab : a ≤ b) : Written s a b

theorem Names.lt {missing a : Nat} {part : List Char} (h : Names missing part a)
    (hmissing : missing < 100) : a < 100 := by
  cases h with
  | nothing => exact hmissing
  | address _ _ ha => exact ha

/-- The ends of a range are in order and lie in memory. -/
theorem Written.bounds {s : List Char} {a b : Nat} (h : Written s a b) : a ≤ b ∧ b ≤ 99 := by
  cases h with
  | single _ ha => exact ⟨Nat.le_refl _, Nat.le_of_lt_succ (ha.lt (by decide))⟩
  | ends _ _ _ hb hab => exact ⟨hab, Nat.le_of_lt_succ (hb.lt (by decide))⟩

/-- Blanks alone stand for the mailbox that is missing. -/
theorem names_iff_of_trim_eq_nil {missing a : Nat} {part : List Char}
    (h : Text.trim part = []) : Names missing part a ↔ a = missing := by
  constructor
  · intro ha
    cases ha with
    | nothing => rfl
    | address ht hcounts _ =>
      rw [← Text.trim_eq_iff_trims.2 ht, h] at hcounts
      exact absurd rfl hcounts.ne_nil
  · rintro rfl
    exact .nothing (Text.trim_eq_iff_trims.1 h)

/-- Anything else has to be an address. -/
theorem names_iff_of_trim_ne_nil {missing a : Nat} {part : List Char}
    (h : Text.trim part ≠ []) :
    Names missing part a ↔ Numeral.Counts (Text.trim part) a ∧ a < 100 := by
  constructor
  · intro ha
    cases ha with
    | nothing ht => exact absurd (Text.trim_eq_iff_trims.2 ht) h
    | address ht hcounts hlt => exact ⟨Text.trim_eq_iff_trims.2 ht ▸ hcounts, hlt⟩
  · rintro ⟨hcounts, hlt⟩
    exact .address (Text.trims_trim part) hcounts hlt

/-! ### Reading -/

/-- One side is read if it stands for a mailbox. No numeral is too long for that: the reader takes
numbers far beyond one hundred. -/
theorem side_eq_ok_iff {part : List Char} {missing a : Fin 100} :
    side part missing = .ok a ↔ Names missing part a := by
  rw [side]
  by_cases hempty : Text.trim part = []
  · rw [if_pos (List.isEmpty_iff.2 hempty), names_iff_of_trim_eq_nil hempty, Except.ok.injEq,
      eq_comm, Fin.ext_iff]
  · rw [if_neg (mt List.isEmpty_iff.1 hempty), names_iff_of_trim_ne_nil hempty]
    constructor
    · intro h
      split at h
      · next b hread =>
        split at h
        · next hb =>
          cases h
          exact ⟨(Numeral.readUnsigned_eq_ok_iff.1 hread).1, hb⟩
        · cases h
      · cases h
    · rintro ⟨hcounts, hlt⟩
      have hgreatest : a.val ≤ Numeral.greatestCount := Nat.le_trans (Nat.le_of_lt hlt) (by decide)
      simp only [Numeral.readUnsigned_eq_ok_iff.2 ⟨hcounts, hgreatest⟩, dif_pos hlt]

theorem between_eq_ok_iff {a b : Fin 100} {r : MailboxRange} :
    between a b = .ok r ↔ r.first = a ∧ r.last = b := by
  obtain ⟨first, last, hle, hlast⟩ := r
  rw [between]
  split
  · next h =>
    simp only [Except.ok.injEq, mk.injEq]
    exact ⟨fun h => ⟨h.1.symm, h.2.symm⟩, fun h => ⟨h.1.symm, h.2.symm⟩⟩
  · next h =>
    refine ⟨fun h => (by cases h), ?_⟩
    rintro ⟨rfl, rfl⟩
    exact absurd hle h

theorem exists_of_bind_eq_ok {α β : Type} {x : Except RangeError α} {f : α → Except RangeError β}
    {b : β} (h : x >>= f = .ok b) : ∃ a, x = .ok a ∧ f a = .ok b := by
  cases x with
  | error e => cases h
  | ok a => exact ⟨a, rfl, h⟩

/-- Two sides make a range if each stands for a mailbox and the two are in order. -/
theorem sides_eq_ok_iff {left right : List Char} {r : MailboxRange} :
    (do
      let a ← side left 0
      let b ← side right 99
      between a b) = .ok r ↔ Names 0 left r.first ∧ Names 99 right r.last := by
  have hfirst : r.first < 100 := Nat.lt_succ_of_le (r.first_le_last.trans r.last_le)
  have hlast : r.last < 100 := Nat.lt_succ_of_le r.last_le
  constructor
  · intro h
    obtain ⟨a, ha, h⟩ := exists_of_bind_eq_ok h
    obtain ⟨b, hb, h⟩ := exists_of_bind_eq_ok h
    obtain ⟨hfirst, hlast⟩ := between_eq_ok_iff.1 h
    rw [hfirst, hlast]
    exact ⟨side_eq_ok_iff.1 ha, side_eq_ok_iff.1 hb⟩
  · rintro ⟨ha, hb⟩
    have hleft : side left 0 = .ok ⟨r.first, hfirst⟩ := side_eq_ok_iff.2 ha
    have hright : side right 99 = .ok ⟨r.last, hlast⟩ := side_eq_ok_iff.2 hb
    rw [hleft, hright]
    exact between_eq_ok_iff.2 ⟨rfl, rfl⟩

/-- One side alone makes a range of one mailbox. -/
theorem side_alone_eq_ok_iff {s : List Char} {r : MailboxRange} :
    (do
      let a ← side s 0
      between a a) = .ok r ↔ Names 0 s r.first ∧ r.first = r.last := by
  have hlast : r.last < 100 := Nat.lt_succ_of_le r.last_le
  constructor
  · intro h
    obtain ⟨a, ha, h⟩ := exists_of_bind_eq_ok h
    obtain ⟨hfirst, hlast⟩ := between_eq_ok_iff.1 h
    rw [hfirst, hlast]
    exact ⟨side_eq_ok_iff.1 ha, rfl⟩
  · rintro ⟨ha, hsame⟩
    rw [hsame] at ha
    have hside : side s 0 = .ok ⟨r.last, hlast⟩ := side_eq_ok_iff.2 ha
    rw [hside]
    exact between_eq_ok_iff.2 ⟨hsame, rfl⟩

theorem parseText_of_no_hyphen {s : List Char} (h : '-' ∉ s) :
    parseText s = (do
      let a ← side s 0
      between a a) := by
  have hnone : s.dropWhile (· ≠ '-') = [] :=
    List.dropWhile_eq_nil_iff.2 fun c hc => decide_eq_true fun hne => h (hne ▸ hc)
  rw [parseText, hnone]

/-- The first hyphen divides a range. -/
theorem parseText_append_hyphen {left : List Char} (h : '-' ∉ left) (right : List Char) :
    parseText (left ++ '-' :: right) = (do
      let a ← side left 0
      let b ← side right 99
      between a b) := by
  have hleft : ∀ c ∈ left, decide (c ≠ '-') = true :=
    fun c hc => decide_eq_true fun hne => h (hne ▸ hc)
  rw [parseText, List.dropWhile_append_of_pos hleft, List.takeWhile_append_of_pos hleft,
    List.dropWhile_cons_of_neg (by decide), List.takeWhile_cons_of_neg (by decide),
    List.append_nil]

/-- **A text is read as the range that the grammar makes of it.** -/
theorem parseText_eq_ok_iff {s : List Char} {r : MailboxRange} :
    parseText s = .ok r ↔ Written s r.first r.last := by
  constructor
  · intro h
    by_cases hyphen : '-' ∈ s
    · obtain ⟨left, right, rfl, hleft⟩ := List.eq_append_cons_of_mem hyphen
      rw [parseText_append_hyphen hleft, sides_eq_ok_iff] at h
      obtain ⟨ha, hb⟩ := h
      exact .ends rfl hleft ha hb r.first_le_last
    · rw [parseText_of_no_hyphen hyphen, side_alone_eq_ok_iff] at h
      obtain ⟨ha, hsame⟩ := h
      rw [← hsame]
      exact .single hyphen ha
  · intro h
    -- the grammar has cases for the ends as variables, not as the fields of a range
    generalize hfirst : r.first = a at h
    generalize hlast : r.last = b at h
    cases h with
    | single hyphen ha =>
      rw [parseText_of_no_hyphen hyphen, side_alone_eq_ok_iff, hfirst, hlast]
      exact ⟨ha, rfl⟩
    | ends hs hleft ha hb _ =>
      rw [hs, parseText_append_hyphen hleft, sides_eq_ok_iff, hfirst, hlast]
      exact ⟨ha, hb⟩

theorem parse_eq_ok_iff {s : String} {r : MailboxRange} :
    parse s = .ok r ↔ Written s.toList r.first r.last :=
  parseText_eq_ok_iff

end MailboxRange

/-! ### The command line -/

namespace Command

/-- The words that ask to run a program and to show a part of memory. The program stands behind two
hyphens, so that its name may be anything. -/
def askedWords (range program : String) : List String :=
  ["run", "--memory", range, "--", program]

/-- The range is looked at when it is taken as the value of its setting. -/
theorem Choices.assign_memory (value : String) :
    Choices.assign {} .memory value =
      match MailboxRange.parse value with
      | .ok r => .ok { run := { memory := some r }, given := [.memory] }
      | .error e => .error (.wrong (.badValue value .memory e.message)) := by
  cases h : MailboxRange.parse value with
  | ok r =>
    simp only [Choices.assign, Choices.note, h]
    rfl
  | error e =>
    simp only [Choices.assign, Choices.note, h]
    rfl

/-- The word behind the setting is its value whatever it looks like. -/
theorem readArguments_askedWords (range program : String) :
    readArguments (askedWords range program) =
      match MailboxRange.parse range with
      | .ok r => .ok (.warn, .run program {} { memory := some r })
      | .error e => .error (.wrong (.badValue range .memory e.message)) := by
  let waiting : Reading :=
    { verb := some .run, pending := some (.memory, some range), literal := true }
  have hsettle : waiting.settle = (Choices.assign {} .memory range).map fun c =>
      { verb := some .run, choices := c, literal := true } := rfl
  have hwords : (askedWords range program).foldlM Reading.takeWord {} =
      (Choices.assign {} .memory range).map fun c =>
        { verb := some .run, choices := { c with program := some program }, literal := true } := by
    change waiting.settle.map _ >>= pure = _
    rw [hsettle]
    cases Choices.assign {} .memory range with
    | ok c => rfl
    | error e => rfl
  rw [readArguments, hwords, Choices.assign_memory]
  cases MailboxRange.parse range with
  | ok r => rfl
  | error e => rfl

/-- **The command line accepts the ranges that can be read and no others**, whatever the program
is. -/
theorem readArguments_askedWords_iff (range program : String) :
    (∀ r, readArguments (askedWords range program) =
      .ok (.warn, .run program {} { memory := some r }) ↔ MailboxRange.parse range = .ok r) ∧
    ((∃ e, readArguments (askedWords range program) = .error e) ↔
      ∃ e, MailboxRange.parse range = .error e) := by
  rw [readArguments_askedWords]
  cases MailboxRange.parse range with
  | ok r => simp
  | error e => simp

end Command

namespace MailboxRange

/-! ### What is asked for and what is shown -/

/-- The lines that show a range are one for each of its mailboxes, in order. -/
theorem memory_eq (r : MailboxRange) (m : Memory) :
    Report.memory m (some r) =
      ("Memory [" ++ Numeral.wide 2 r.first ++ "-" ++ Numeral.wide 2 r.last ++ "]:") ::
        (List.range' r.first (r.last - r.first + 1)).map fun (a : Nat) =>
          "  [" ++ Numeral.wide 2 a ++ "]: " ++ Numeral.plain (m.get a) := by
  rw [Report.memory, m.range_of_le r.first_le_last r.last_le, Report.mailboxes, List.map_map]
  rfl

/-- **The texts that can be given as a range of mailboxes are those of the grammar.** A range that
was accepted is not empty and lies in memory, and exactly its mailboxes are listed, in order and
with what they hold. So the report on a machine ends with one line for each of them. -/
theorem asked_is_shown (s : String) :
    (∀ first last, (∃ r, parse s = .ok r ∧ r.first = first ∧ r.last = last) ↔
      Written s.toList first last) ∧
    ((∃ e, parse s = .error e) ↔ ∀ first last, ¬Written s.toList first last) ∧
    ∀ r, parse s = .ok r → r.first ≤ r.last ∧ r.last ≤ 99 ∧ ∀ m : Machine,
      m.memory.range r.first r.last =
        (List.range' r.first (r.last - r.first + 1)).map (fun a => (a, m.memory.get a)) ∧
      (m.memory.range r.first r.last).length = r.last - r.first + 1 ∧
      ∃ before, Report.state m (some r) = before ++
        ("Memory [" ++ Numeral.wide 2 r.first ++ "-" ++ Numeral.wide 2 r.last ++ "]:") ::
          (List.range' r.first (r.last - r.first + 1)).map fun (a : Nat) =>
            "  [" ++ Numeral.wide 2 a ++ "]: " ++ Numeral.plain (m.memory.get a) := by
  have haccepted (first last : Nat) :
      (∃ r, parse s = .ok r ∧ r.first = first ∧ r.last = last) ↔
        Written s.toList first last := by
    constructor
    · rintro ⟨r, hr, rfl, rfl⟩
      exact parse_eq_ok_iff.1 hr
    · intro h
      obtain ⟨hle, hlast⟩ := h.bounds
      exact ⟨⟨first, last, hle, hlast⟩, parse_eq_ok_iff.2 h, rfl, rfl⟩
  refine ⟨haccepted, ?_, fun r _ => ⟨r.first_le_last, r.last_le, fun m => ?_⟩⟩
  · constructor
    · rintro ⟨e, he⟩ first last h
      obtain ⟨r, hr, -⟩ := (haccepted first last).2 h
      cases he.symm.trans hr
    · intro h
      cases hr : parse s with
      | ok r => exact absurd (parse_eq_ok_iff.1 hr) (h r.first r.last)
      | error e => exact ⟨e, rfl⟩
  · have hrange := m.memory.range_of_le r.first_le_last r.last_le
    refine ⟨hrange, ?_, _, congrArg (_ ++ ·) (memory_eq r m.memory)⟩
    rw [hrange, List.length_map, List.length_range']

/-- Nothing behind the hyphen stands for the end of memory, so that the last ten mailboxes are
listed here. -/
theorem asked_is_shown_of_last_ten :
    parse " +90 -" = .ok ⟨90, 99, by decide, by decide⟩ ∧
      ∀ m : Machine, (m.memory.range 90 99).length = 10 := by
  have hparse : parse " +90 -" = .ok ⟨90, 99, by decide, by decide⟩ := by rfl
  have hshown := (asked_is_shown " +90 -").2.2 _ hparse
  exact ⟨hparse, fun m => (hshown.2.2 m).2.1⟩

end MailboxRange

end LittleMan
