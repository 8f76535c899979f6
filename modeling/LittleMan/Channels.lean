/-!
# Channels

The two channels of a machine: a queue of input values, first in, first out, and a log of
everything that was put out.

## Main definitions

* `Channels` — pending input and output so far
* `Channels.push`, `Channels.pop`, `Channels.emit` — queueing, dequeueing, putting out
* `Channels.pushAll` — queueing several values in their order

## Main results

* `Channels.pushAll_eq` — what is queued waits behind what waited
-/

namespace LittleMan

/-- Pending input and output so far, both empty to begin with. -/
structure Channels where
  /-- Input that waits, front first. -/
  input : List Int := []
  /-- Everything that was put out, oldest first. -/
  output : Array Int := #[]
  deriving DecidableEq, Inhabited

namespace Channels

/-- Queue one value of input behind those that wait. -/
def push (c : Channels) (w : Int) : Channels :=
  { c with input := c.input ++ [w] }

/-- Queue several values of input, the first of them in front. -/
def pushAll (c : Channels) (ws : List Int) : Channels :=
  ws.foldl push c

/-- Take the value at the front of the queue, if one waits. -/
def pop (c : Channels) : Option Int × Channels :=
  match c.input with
  | [] => (none, c)
  | w :: rest => (some w, { c with input := rest })

/-- Put out one value. -/
def emit (c : Channels) (w : Int) : Channels :=
  { c with output := c.output.push w }

/-- What is queued waits behind what waited, and nothing is put out. -/
theorem pushAll_eq (c : Channels) (ws : List Int) :
    c.pushAll ws = { c with input := c.input ++ ws } := by
  induction ws generalizing c with
  | nil => simp [pushAll]
  | cons w rest ih =>
    change (c.push w).pushAll rest = _
    rw [ih]
    simp [push]

@[simp] theorem input_pushAll (c : Channels) (ws : List Int) :
    (c.pushAll ws).input = c.input ++ ws := by
  rw [pushAll_eq]

@[simp] theorem output_pushAll (c : Channels) (ws : List Int) :
    (c.pushAll ws).output = c.output := by
  rw [pushAll_eq]

@[simp] theorem pushAll_nil (c : Channels) : c.pushAll [] = c := rfl

/-- Queueing values in two portions is queueing them at once. -/
theorem pushAll_pushAll (c : Channels) (vs ws : List Int) :
    (c.pushAll vs).pushAll ws = c.pushAll (vs ++ ws) :=
  List.foldl_append.symm

@[simp] theorem pop_empty (o : Array Int) : (Channels.mk [] o).pop = (none, ⟨[], o⟩) := rfl

@[simp] theorem pop_cons (w : Int) (rest : List Int) (o : Array Int) :
    (Channels.mk (w :: rest) o).pop = (some w, ⟨rest, o⟩) := rfl

end Channels

end LittleMan
