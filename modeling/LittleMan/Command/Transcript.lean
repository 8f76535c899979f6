import LittleMan.Log

/-!
# Transcripts

What a command tells, piece by piece in order: text for standard output, and events. A transcript
holds every record, whatever its level. Which of them reach standard error is settled only when the
transcript is written out, by the level of the log.

## Main definitions

* `Chunk`, `Transcript` — a piece, and all of them
* `Transcript.output`, `Transcript.errors` — what each of the two streams gets
* `Transcript.records` — the records alone
-/

namespace LittleMan

/-- A piece of what a command tells. -/
inductive Chunk
  /-- Text for standard output. -/
  | out (text : String)
  /-- An event, shown on standard error. -/
  | told (e : Event)
  deriving DecidableEq

/-- Everything that a command tells, in order. -/
abbrev Transcript := List Chunk

namespace Chunk

/-- A line on standard output. -/
def outLine (text : String) : Chunk :=
  out (text ++ "\n")

/-- A line on standard error. -/
def errLine (text : String) : Chunk :=
  told (.shown (text ++ "\n"))

/-- A record for the log. -/
def logged (r : Record) : Chunk :=
  told (.record r)

/-- What standard output gets of a piece. -/
def output : Chunk → String
  | out text => text
  | told _ => ""

/-- What standard error gets of a piece when the log has level `limit`. -/
def errors (limit : Level) : Chunk → String
  | out _ => ""
  | told e => e.shownAt limit

/-- The record in a piece. -/
def record? : Chunk → Option Record
  | told (.record r) => some r
  | _ => none

end Chunk

namespace Transcript

/-- What standard output gets. -/
def output (t : Transcript) : String :=
  Text.concat (t.map Chunk.output)

/-- What standard error gets when the log has level `limit`. -/
def errors (limit : Level) (t : Transcript) : String :=
  Text.concat (t.map (Chunk.errors limit))

/-- The records, whatever their level. -/
def records (t : Transcript) : List Record :=
  t.filterMap Chunk.record?

@[simp] theorem records_nil : records [] = [] := rfl

@[simp] theorem records_append (s t : Transcript) :
    records (s ++ t) = records s ++ records t := by
  simp [records]

@[simp] theorem records_map_logged (rs : List Record) : records (rs.map Chunk.logged) = rs := by
  induction rs with
  | nil => rfl
  | cons r rest ih => simpa [records, Chunk.logged, Chunk.record?] using ih

@[simp] theorem records_map_outLine (lines : List String) :
    records (lines.map Chunk.outLine) = [] := by
  simp [records, Chunk.outLine, Chunk.record?]

end Transcript

end LittleMan
