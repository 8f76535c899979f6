import LittleMan.Proofs.Machine.Ledger

/-!
# Starting over

Whoever wants to go back to an earlier machine resets it and loads again what was in its memory and
its queue. Loading clamps every word and reports what it had to clamp, so this leads back to where
one was, without a report, for the one reason that the words of a machine are in range already.

## Main definitions

* `Sample.Portable` — a sample whose words fit every machine
* `Provider.IsConstant` — asking leaves a provider as it is

## Main results

* `Sample.portable_of_find?` — all built-in samples are portable
* `Machine.loadAt_of_keeps`, `Machine.queue_of_keeps` — words in range go in as they are
* `Machine.Consistent.load_toList`, `Machine.Consistent.restart` — a machine loaded again
* `Machine.reload_prepare` — a sample loaded again
* `Machine.kept_policy`, `Machine.Consistent.reset_call` — what a reset keeps is kept by calls, as
  long as the provider is constant and no other is attached
-/

namespace LittleMan

theorem Policy.map_clamp_of_keeps {p : Policy} {ws : List Int} (h : ∀ w ∈ ws, p.Keeps w) :
    ws.map p.clamp = ws := by
  calc ws.map p.clamp
      = ws.map id := List.map_congr_left fun w hw => clamp_eq_self_iff.2 (h w hw)
    _ = ws := List.map_id ws

/-- The decimal policy keeps no word that another policy does not keep. -/
theorem Policy.Keeps.of_decimal {w : Int} (h : decimal.Keeps w) (p : Policy) : p.Keeps w := by
  cases p <;> simp only [Keeps, least, greatest, Word.least, Word.greatest] at h ⊢ <;> omega

/-- A sample whose program and preset words fit every machine. -/
structure Sample.Portable (s : Sample) : Prop where
  cells : ∀ w ∈ s.cells, Policy.decimal.Keeps w
  data : ∀ cell ∈ s.data, Policy.decimal.Keeps cell.2

/-- The built-in samples fit every machine. It is their input that some of them cannot take. -/
theorem Sample.portable_of_mem {s : Sample} (h : s ∈ catalogue) : s.Portable := by
  have hall : ∀ s ∈ catalogue, (∀ w ∈ s.cells, Policy.decimal.Keeps w) ∧
      ∀ cell ∈ s.data, Policy.decimal.Keeps cell.2 := by
    decide +kernel
  exact ⟨(hall s h).1, (hall s h).2⟩

theorem Sample.portable_of_find? {name : String} {s : Sample} (h : find? name = some s) :
    s.Portable :=
  portable_of_mem (List.mem_of_find?_eq_some h)

/-- Asking leaves the provider as it is. -/
def Provider.IsConstant (p : Provider) : Prop :=
  p.ask.2 = p

/-- Two kinds of provider are constant. The others count what they are asked. -/
theorem Provider.isConstant_iff {p : Provider} :
    p.IsConstant ↔ p = silent ∨ ∃ w, p = fixed w := by
  cases p <;> simp [IsConstant, ask]

theorem Provider.IsConstant.afterAsking {p : Provider} (h : p.IsConstant) (n : Nat) :
    p.afterAsking n = p := by
  induction n with
  | zero => rfl
  | succ n ih => rw [Provider.afterAsking, h, ih]

namespace Machine

/-! ### Words in range -/

/-- Words in range are loaded as they are, without a report. -/
theorem loadAt_of_keeps {m : Machine} {ws : List Int} (h : ∀ w ∈ ws, m.policy.Keeps w)
    (start : Nat) : m.loadAt start ws = { m with memory := m.memory.load start ws } := by
  rw [loadAt, Policy.map_clamp_of_keeps h, Diagnostic.clampings_eq_nil h]
  simp

@[simp] theorem load_nil (m : Machine) : m.load [] = m := by
  have hmemory : m.memory.load 0 [] = m.memory :=
    Memory.ext_get fun a _ => by simp [Memory.get_load]
  rw [load, loadAt_of_keeps fun w hw => absurd hw List.not_mem_nil, hmemory]

/-- Words in range are queued as they are, without a report. -/
theorem queue_of_keeps {m : Machine} {ws : List Int} (h : ∀ w ∈ ws, m.policy.Keeps w) :
    m.queue ws = { m with channels := { m.channels with input := m.channels.input ++ ws } } := by
  rw [queue, Policy.map_clamp_of_keeps h, Diagnostic.clampings_eq_nil h, Channels.pushAll_eq]
  simp

/-! ### Samples -/

@[simp] theorem reset_preset (data : List (Nat × Int)) (m : Machine) :
    (Sample.preset data m).reset = m.reset := by
  induction data generalizing m with
  | nil => rfl
  | cons cell rest ih =>
    rw [Sample.preset_cons, ih]
    rfl

@[simp] theorem reset_prepare (s : Sample) (inputs : List Int) (m : Machine) :
    (s.prepare inputs m).reset = m.reset :=
  reset_preset s.data (m.reset.load s.cells)

/-- Words in range preset one by one change nothing but memory. -/
theorem preset_of_keeps {data : List (Nat × Int)} {m : Machine}
    (h : ∀ cell ∈ data, m.policy.Keeps cell.2) :
    Sample.preset data m = { m with memory := (Sample.preset data m).memory } := by
  induction data generalizing m with
  | nil => rfl
  | cons cell rest ih =>
    have hcell : ∀ w ∈ [cell.2], m.policy.Keeps w := by
      intro w hw
      rw [List.mem_singleton.1 hw]
      exact h cell List.mem_cons_self
    have hload := loadAt_of_keeps hcell cell.1
    have hrest := ih (m := m.loadAt cell.1 [cell.2]) fun d hd => h d (List.mem_cons_of_mem _ hd)
    rw [Sample.preset_cons, hrest, hload]

/-- Loading a sample whose words fit every machine changes nothing but memory. -/
theorem loaded_of_portable {s : Sample} (h : s.Portable) (m : Machine) :
    Sample.preset s.data (m.load s.cells) =
      { m with memory := (Sample.preset s.data (m.load s.cells)).memory } := by
  have hcells := loadAt_of_keeps (m := m) (fun w hw => (h.cells w hw).of_decimal _) 0
  have hdata := preset_of_keeps (m := m.load s.cells) fun d hd => (h.data d hd).of_decimal _
  rw [hdata, load, hcells]

/-! ### A machine loaded again -/

/-- **The mailboxes of a consistent machine**, loaded into another one of its policy, are there
again, and nothing is reported. -/
theorem Consistent.load_toList {m n : Machine} (hm : m.Consistent) (h : n.policy = m.policy) :
    n.load m.memory.toList = { n with memory := m.memory } := by
  have hkeeps : ∀ w ∈ m.memory.toList, n.policy.Keeps w := by
    intro w hw
    rw [h]
    exact hm.keeps_mailbox hw
  rw [load, loadAt_of_keeps hkeeps, Memory.load_toList]

/-- **Starting over.** The mailboxes and the queue of a consistent machine, loaded into a machine of
its policy that was reset, are all there is in it. -/
theorem Consistent.restart {m n : Machine} (hm : m.Consistent) (h : n.policy = m.policy) :
    (n.reset.load m.memory.toList).queue m.pending =
      { new m.policy with
        memory := m.memory
        channels := { input := m.pending }
        provider := n.provider } := by
  have hkeeps : ∀ w ∈ m.pending, { n.reset with memory := m.memory }.policy.Keeps w := by
    intro w hw
    change n.policy.Keeps w
    rw [h]
    exact hm.pending w hw
  rw [hm.load_toList (n := n.reset) h, queue_of_keeps hkeeps, reset, h]
  rfl

/-- **Starting a sample over.** The mailboxes of a machine that was made ready for a sample, loaded
into it again with the same input, make it ready again, with the same reports. -/
theorem reload_prepare {s : Sample} (hs : s.Portable) (inputs : List Int) (m : Machine) :
    (m.reset.load (s.prepare inputs m).memory.toList).queue inputs = s.prepare inputs m := by
  have hloaded := loaded_of_portable hs m.reset
  rw [Sample.prepare]
  -- what matters of the machine before its input is queued is that it is consistent
  generalize hmachine : Sample.preset s.data (m.reset.load s.cells) = loaded at hloaded ⊢
  have hconsistent : loaded.Consistent :=
    hmachine ▸ kept_consistent.preset s.data ((consistent_reset m).loadAt 0 s.cells)
  have hpolicy : m.reset.policy = loaded.policy := by rw [hloaded]
  change (m.reset.load loaded.memory.toList).queue inputs = _
  rw [hconsistent.load_toList hpolicy, ← hloaded]

/-! ### What a reset keeps -/

@[simp] theorem policy_execute (m : Machine) (pc : Nat) (i : Instruction) :
    (m.execute pc i).policy = m.policy := by
  cases i with
  | inp =>
    simp only [execute, takeInput]
    split
    · rfl
    · split <;> rfl
  | _ => rfl

@[simp] theorem policy_step (m : Machine) : m.step.2.policy = m.policy := by
  by_cases hm : m.state = .running
  · by_cases hpc : m.pc < 100
    · rw [step_of_pc_lt hm hpc]
      exact policy_execute m.advance m.pc _
    · rw [step_of_le_pc hm (by omega)]
      rfl
  · rw [step_of_ne_running hm]

/-- **The moves keep the policy.** -/
theorem kept_policy (p : Policy) : Kept fun m => m.policy = p where
  reset _ h := h
  loadAt _ _ _ h := h
  queue _ _ h := h
  attach _ _ h := h
  step m h := (policy_step m).trans h

/-- There are two ways of starting over. -/
theorem cases_of_not_continues {c : Call} (hc : ¬c.Continues) :
    c = .operation .reset ∨ ∃ s inputs, c = .operation (.prepare s inputs) := by
  match c with
  | .operation .reset => exact .inl rfl
  | .operation (.prepare s inputs) => exact .inr ⟨s, inputs, rfl⟩
  | .operation (.loadAt _ _) | .operation (.queue _) | .operation (.attach _) | .operation .step
  | .operation (.runLimited _) | .run => exact absurd trivial hc

/-- Whoever starts a machine over finds its provider as it was. -/
theorem provider_of_not_continues {m next : Machine} {c : Call} {answer : Answer}
    (hc : ¬c.Continues) (hcall : m.call c = some (answer, next)) : next.provider = m.provider := by
  obtain rfl | ⟨s, inputs, rfl⟩ := cases_of_not_continues hc
  · cases hcall
    rfl
  · cases hcall
    have hreset := congrArg provider (reset_prepare s inputs m)
    exact hreset

/-- What a reset keeps: the policy and the provider. -/
theorem reset_eq_iff {m : Machine} {p : Policy} {source : Provider} :
    m.reset = (new p).attach source ↔ m.policy = p ∧ m.provider = source := by
  simp [reset, new, attach]

/-- A machine stays one of its policy with its provider, if that is constant and no other is
attached. -/
theorem Consistent.reset_call {m next : Machine} {p : Policy} {source : Provider} {c : Call}
    {answer : Answer} (hm : m.Consistent) (hsource : source.IsConstant)
    (h : m.reset = (new p).attach source) (hattached : c.attached? = none)
    (hcall : m.call c = some (answer, next)) : next.reset = (new p).attach source := by
  obtain ⟨hpolicy, hprovider⟩ := reset_eq_iff.1 h
  refine reset_eq_iff.2 ⟨(kept_policy p).call hpolicy hcall, ?_⟩
  by_cases hc : c.Continues
  · rw [provider_call hm hc hcall, hattached, Option.getD_none, hprovider, hsource.afterAsking]
  · rw [provider_of_not_continues hc hcall, hprovider]

end Machine

end LittleMan
