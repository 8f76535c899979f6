import LittleMan.Proofs.Machine.Lockstep

/-!
# Where input comes from

A value can be queued, or the provider can answer with it when the queue is empty. It makes no
difference to a machine where a list of values is cut in two, with the front queued and the rest
left to the provider.

The two ways are not alike. A queued value is clamped when it is queued and a provided one when it
is read; and running out shows in the queue, which is empty, but in a provider only when it is
asked. So two such machines are compared by the input that is still to come to them: what waits, and
then what the provider has yet to say, clamped. Reports of words out of range differ in their place,
and in number, since a value that is never read is never reported; the other diagnostics do not.

## Main definitions

* `Provider.Gives` — a provider answers with the values of a list, and then with nothing
* `Machine.Supplied` — the input that is still to come to a machine

## Main results

* `Machine.Supplied.input?`, `Machine.Supplied.follows` — an input instruction takes the first of it
* `Machine.setUp_interchangeable` — machines supplied with the same input do the same
-/

namespace LittleMan

/-! ### Providers of a list -/

namespace Provider

/-- The answers of a provider are the values of `ws` in order, and then nothing. -/
def Gives (p : Provider) (ws : List Int) : Prop :=
  ∀ n, (p.afterAsking n).ask.1 = ws[n]?

/-- The silent provider gives nothing. -/
theorem gives_silent : silent.Gives [] := by
  intro n
  induction n with
  | zero => rfl
  | succ n ih => exact ih

theorem afterAsking_tape (values : Array Int) (asked n : Nat) :
    (tape values asked).afterAsking n = tape values (asked + n) :=
  afterAsking_of_counts (fun _ => rfl) asked n

/-- A tape gives the values on it. -/
theorem gives_tape (ws : List Int) : (tape ws.toArray 0).Gives ws := by
  intro n
  rw [afterAsking_tape, ask_tape, Nat.zero_add, List.getElem?_toArray]

theorem Gives.ask_fst {p : Provider} {ws : List Int} (h : p.Gives ws) : p.ask.1 = ws.head? :=
  (h 0).trans List.head?_eq_getElem?.symm

/-- After a question the rest is left; a provider that has nothing goes on having nothing. -/
theorem Gives.ask_snd {p : Provider} {ws : List Int} (h : p.Gives ws) : p.ask.2.Gives ws.tail := by
  intro n
  rw [List.getElem?_tail]
  exact h (n + 1)

end Provider

namespace Machine

/-! ### The input still to come -/

/-- The input that is still to come to a machine is `ws`: what waits, and then what the provider
gives, clamped. -/
def Supplied (m : Machine) (ws : List Int) : Prop :=
  ∃ zs, m.provider.Gives zs ∧ m.pending ++ zs.map m.policy.clamp = ws

section Supplied

variable {m : Machine} {ws : List Int} (h : m.Supplied ws)

include h

/-- An input instruction takes the first value of the input still to come. -/
theorem Supplied.input? : m.input? = ws.head? := by
  obtain ⟨zs, hz, rfl⟩ := h
  unfold Machine.input?
  cases m.pending with
  | cons w rest => rfl
  | nil => simp [hz.ask_fst]

/-- It reports that there is nothing to read if none is to come. -/
theorem Supplied.conditions_reported_inp :
    (m.reported .inp).filter (fun d => !d.isClamping) =
      if ws = [] then [.inputStarved m.pc] else [] := by
  obtain ⟨zs, hz, rfl⟩ := h
  unfold reported
  cases hpending : m.pending with
  | cons w rest => simp
  | nil =>
    cases zs with
    | nil => simp [hz.ask_fst, Diagnostic.isClamping]
    | cons z zs =>
      have hclampings := @Diagnostic.filter_clampings (fun d => !d.isClamping)
        (fun _ _ => rfl) m.policy [z]
      simp [hz.ask_fst, hclampings]

theorem Supplied.fault : m.fault.Supplied ws :=
  h

/-- **The input still to come** is one value less after an input instruction, and otherwise the
same. -/
theorem Supplied.follows {next : Machine} {i : Instruction} (hf : m.Follows i next) :
    next.Supplied (if i = .inp then ws.tail else ws) := by
  obtain ⟨zs, hz, rfl⟩ := h
  unfold Supplied
  rw [hf.policy, hf.pending, hf.provider]
  cases i with
  | inp =>
    simp only [pendingAfter, providerAfter, if_true]
    cases hpending : m.pending with
    | cons w rest => exact ⟨zs, hz, rfl⟩
    | nil => exact ⟨zs.tail, hz.ask_snd, by simp [List.map_tail]⟩
  | _ => exact ⟨zs, hz, rfl⟩

end Supplied

/-! ### Machines with the same input still to come -/

/-- Two machines that agree and have the same input still to come, wherever it comes from. -/
structure SuppliedAlike (m n : Machine) : Prop where
  agree : m.Agree n
  conditions : m.conditions = n.conditions
  supplied : ∃ ws, m.Supplied ws ∧ n.Supplied ws
  consistent : m.Consistent ∧ n.Consistent

/-- **Steps keep them alike.** -/
theorem SuppliedAlike.step {m n : Machine} (h : m.SuppliedAlike n) :
    m.step.1 = n.step.1 ∧ m.step.2.SuppliedAlike n.step.2 := by
  obtain ⟨hagree, hconditions, ⟨ws, hws, hws'⟩, hm, hn⟩ := h
  have hnext := hm.step
  have hnext' := hn.step
  cases hagree.stepsAlike hm hn with
  | refuse hs hs' =>
    rw [hs, hs']
    exact ⟨rfl, hagree, hconditions, ⟨ws, hws, hws'⟩, hm, hn⟩
  | fault hs hs' =>
    rw [hs] at hnext
    rw [hs'] at hnext'
    rw [hs, hs']
    refine ⟨rfl, hagree.fault, ?_, ⟨ws, hws.fault, hws'.fault⟩, hnext, hnext'⟩
    rw [conditions_fault, conditions_fault, hconditions, hagree.pc]
  | @carry i m' n' hs hs' hf hf' =>
    rw [hs] at hnext
    rw [hs'] at hnext'
    rw [hs, hs']
    have hinput : m.input? = n.input? := hws.input?.trans hws'.input?.symm
    refine ⟨rfl, hagree.follows hf hf' fun _ => hinput, ?_,
      ⟨_, hws.follows hf, hws'.follows hf'⟩, hnext, hnext'⟩
    rw [hf.conditions, hf'.conditions, hconditions]
    congr 1
    cases i with
    | inp => rw [hws.conditions_reported_inp, hws'.conditions_reported_inp, hagree.pc]
    | unknown raw => simp only [reported, hagree.pc]
    | _ => rfl

theorem suppliedAlike_setUp (p : Policy) (image : List Int) {ys zs ys' zs' : List Int}
    (h : ys ++ zs = ys' ++ zs') {source source' : Provider} (hz : source.Gives zs)
    (hz' : source'.Gives zs') :
    (setUp p image source ys).SuppliedAlike (setUp p image source' ys') where
  agree := by
    refine ⟨rfl, rfl, rfl, rfl, rfl, ?_, rfl, rfl⟩
    rw [output_setUp, output_setUp]
  conditions := by
    rw [setUp, setUp, conditions_queue, conditions_queue]
    rfl
  supplied := by
    refine ⟨(ys ++ zs).map p.clamp, ⟨zs, hz, ?_⟩, ⟨zs', hz', ?_⟩⟩
    · rw [pending_setUp]
      exact List.map_append.symm
    · rw [h, pending_setUp]
      exact List.map_append.symm
  consistent := ⟨(reachable_setUp ..).consistent, (reachable_setUp ..).consistent⟩

/-- **Queued and provided input are interchangeable.** Two fresh machines that differ only in where
the same input is cut, into a front that is queued and a rest that the provider gives, answer the
same to any number of steps. After each of them they agree, have reported the same apart from words
out of range, and have the same input still to come. -/
theorem setUp_interchangeable (p : Policy) (image : List Int) {ys zs ys' zs' : List Int}
    (h : ys ++ zs = ys' ++ zs') {source source' : Provider} (hz : source.Gives zs)
    (hz' : source'.Gives zs') (n : Nat) :
    let m := setUp p image source ys
    let m' := setUp p image source' ys'
    m.results n = m'.results n ∧
      (m.after n).Agree (m'.after n) ∧
      (m.after n).conditions = (m'.after n).conditions ∧
      ∃ ws, (m.after n).Supplied ws ∧ (m'.after n).Supplied ws := by
  intro m m'
  have hstart : m.SuppliedAlike m' := suppliedAlike_setUp p image h hz hz'
  obtain ⟨hresults, hafter⟩ := lockstep (fun _ _ => SuppliedAlike.step) hstart n
  exact ⟨hresults, hafter.agree, hafter.conditions, hafter.supplied⟩

/-- Two values, one of them out of range, for a program that wants three: all queued, or one queued
and the other left to a tape. -/
theorem setUp_interchangeable_of_two :
    let m := setUp .bounded32 [901, 902, 600] .silent [0x100000000, 7]
    let m' := setUp .bounded32 [901, 902, 600] (.tape #[7] 0) [0x100000000]
    m.results 7 = m'.results 7 ∧ (m.after 7).output = #[0x7FFFFFFF, 7] ∧
      (m.after 7).Agree (m'.after 7) ∧ (m.after 7).conditions = [.inputStarved 0] ∧
      (m'.after 7).conditions = [.inputStarved 0] := by
  intro m m'
  have hcut : [0x100000000, (7 : Int)] ++ [] = [0x100000000] ++ [7] := rfl
  obtain ⟨hresults, hagree, hconditions, -⟩ := setUp_interchangeable .bounded32 [901, 902, 600] hcut
    Provider.gives_silent (Provider.gives_tape [7]) 7
  have hstarved : (m.after 7).conditions = [.inputStarved 0] := by decide +kernel
  exact ⟨hresults, by decide +kernel, hagree, hstarved, hconditions.symm.trans hstarved⟩

end Machine

end LittleMan
