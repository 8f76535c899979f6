import LittleMan.Proofs.Machine.Lockstep

/-!
# One program on three machines

The three machines differ in what becomes of a word that is too large. As long as none is, it does
not show on which of them a program runs. The machine with the widest words tells when that ends: a
sum leaves the range of the other policy, or the decimal policy is to take an accumulator from 500
on for positive, which it does not.

The decimal policy needs more than its range of words here. It keeps words of 32 bits as the other
small one does, so that loading, storing and input agree on those; but a sum is reduced to three
digits, so that sums agree on three digits only.

## Main definitions

* `Policy.Contains` — the sums that a policy leaves as they are
* `Machine.under` — the same machine under another policy
* `Machine.staysWithin` — the next step does nothing that another policy would do otherwise
* `Provider.AnswersWithin` — a provider answers with words in range

## Main results

* `Machine.Narrow.step`, `Machine.Narrow.run` — the other machine does the same
* `Machine.setUp_eq_under` — machines that are set up alike agree until a word is too large
-/

namespace LittleMan

/-! ### Sums that are not too large -/

namespace Policy

/-- The sums that a policy leaves as they are: those of three digits under the decimal policy, and
those in range under the other two. -/
def Contains : Policy → Int → Prop
  | decimal, w => 0 ≤ w ∧ w ≤ 999
  | bounded32, w => bounded32.Keeps w
  | bounded64, w => bounded64.Keeps w

instance (p : Policy) (w : Int) : Decidable (p.Contains w) :=
  match p with
  | decimal => inferInstanceAs (Decidable (_ ∧ _))
  | bounded32 => inferInstanceAs (Decidable (bounded32.Keeps w))
  | bounded64 => inferInstanceAs (Decidable (bounded64.Keeps w))

theorem exact_of_contains {p : Policy} {w : Int} (h : p.Contains w) : p.exact w = w := by
  cases p with
  | decimal => exact Int.emod_eq_of_lt h.1 (Int.lt_add_one_of_le h.2)
  | bounded32 => exact clamp_eq_self_iff.2 h
  | bounded64 => exact clamp_eq_self_iff.2 h

/-- The policy with the widest words keeps what any policy keeps. -/
theorem Keeps.widen {p : Policy} {w : Int} (h : p.Keeps w) : bounded64.Keeps w := by
  cases p <;> simp only [Keeps, least, greatest, Word.least, Word.greatest] at h ⊢ <;> omega

/-- Sums and differences of words that a smaller policy keeps fit the widest. -/
theorem keeps_add_and_sub {p : Policy} (hp : p ≠ bounded64) {a b : Int} (ha : p.Keeps a)
    (hb : p.Keeps b) : bounded64.Keeps (a + b) ∧ bounded64.Keeps (a - b) := by
  cases p <;>
    simp only [Keeps, least, greatest, Word.least, Word.greatest, ne_eq, not_true_eq_false]
      at hp ha hb ⊢ <;> omega

/-- A policy makes of a sum what the policy with the widest words makes of it, if that is not too
large. -/
theorem exact_eq_of_contains {p : Policy} {w : Int} (hw : p ≠ bounded64 → bounded64.Keeps w)
    (h : p.Contains (bounded64.exact w)) : p.exact w = bounded64.exact w := by
  by_cases hp : p = bounded64
  · rw [hp]
  · have hself : bounded64.exact w = w := clamp_eq_self_iff.2 (hw hp)
    rw [hself] at h ⊢
    exact exact_of_contains h

theorem clamp_eq_of_keeps {p : Policy} {w : Int} (h : p.Keeps w) : p.clamp w = bounded64.clamp w :=
  (clamp_eq_self_iff.2 h).trans (clamp_eq_self_iff.2 h.widen).symm

theorem map_clamp_eq_of_keeps {p : Policy} {ws : List Int} (h : ∀ w ∈ ws, p.Keeps w) :
    ws.map p.clamp = ws.map bounded64.clamp :=
  List.map_congr_left fun w hw => clamp_eq_of_keeps (h w hw)

end Policy

/-- Words in range are reported by no policy. -/
theorem Diagnostic.clampings_eq_of_keeps {p : Policy} {ws : List Int} (h : ∀ w ∈ ws, p.Keeps w) :
    clampings p ws = clampings .bounded64 ws :=
  (clampings_eq_nil h).trans (clampings_eq_nil fun w hw => (h w hw).widen).symm

/-- All answers that a provider has yet to give are words that a policy keeps. -/
def Provider.AnswersWithin (source : Provider) (p : Policy) : Prop :=
  ∀ n w, (source.afterAsking n).ask.1 = some w → p.Keeps w

theorem Provider.AnswersWithin.afterAsking {source : Provider} {p : Policy}
    (h : source.AnswersWithin p) (k : Nat) : (source.afterAsking k).AnswersWithin p := by
  intro n w hw
  rw [← Provider.afterAsking_add] at hw
  exact h (k + n) w hw

namespace Machine

/-! ### The same machine under another policy -/

/-- The same machine under another policy. -/
def under (m : Machine) (p : Policy) : Machine :=
  { m with policy := p }

@[simp] theorem policy_under (m : Machine) (p : Policy) : (m.under p).policy = p := rfl

@[simp] theorem pc_under (m : Machine) (p : Policy) : (m.under p).pc = m.pc := rfl

@[simp] theorem pending_under (m : Machine) (p : Policy) : (m.under p).pending = m.pending := rfl

@[simp] theorem provider_under (m : Machine) (p : Policy) : (m.under p).provider = m.provider := rfl

/-- Whether the next step of a machine with the widest words does nothing that a machine of policy
`p` would do otherwise: a sum is not too large, and an accumulator that is branched on is not in the
upper half of the decimal residues. -/
def staysWithin (m : Machine) (p : Policy) : Bool :=
  match m.step with
  | (.ok (.add _), next) => p.Contains next.acc
  | (.ok (.sub _), next) => p.Contains next.acc
  | (.ok (.brp _), _) => p = .decimal → m.acc < 500
  | _ => true

/-- A machine with the widest words that could as well be of policy `p`, so far. -/
structure Narrow (m : Machine) (p : Policy) : Prop where
  policy : m.policy = .bounded64
  consistent : m.Consistent
  /-- Its words are in the range of `p`. -/
  under : (m.under p).Consistent
  source : m.provider.AnswersWithin p

section Narrow

variable {m next : Machine} {p : Policy} {i : Instruction} (h : m.Narrow p)

include h

theorem Narrow.accAfter (hs : m.step = (.ok i, next)) (hf : m.Follows i next)
    (hw : m.staysWithin p = true) : (m.under p).accAfter i = m.accAfter i := by
  have hacc := hf.acc
  cases i with
  | add a =>
    have hsum : p.Contains next.acc := by simpa [staysWithin, hs] using hw
    rw [hacc] at hsum
    simp only [Machine.accAfter, h.policy] at hsum ⊢
    exact Policy.exact_eq_of_contains
      (fun hp => (Policy.keeps_add_and_sub hp h.under.words.acc (h.under.words.cell a)).1) hsum
  | sub a =>
    have hsum : p.Contains next.acc := by simpa [staysWithin, hs] using hw
    rw [hacc] at hsum
    simp only [Machine.accAfter, h.policy] at hsum ⊢
    exact Policy.exact_eq_of_contains
      (fun hp => (Policy.keeps_add_and_sub hp h.under.words.acc (h.under.words.cell a)).2) hsum
  | inp =>
    have hinput : (m.under p).input? = m.input? := by
      simp only [input?, pending_under, provider_under, policy_under]
      cases m.pending with
      | cons w rest => rfl
      | nil =>
        rw [h.policy]
        exact Option.map_congr fun w hw => Policy.clamp_eq_of_keeps (h.source 0 w hw)
    simp only [Machine.accAfter, hinput]
    rfl
  | _ => rfl

theorem Narrow.pcAfter (hs : m.step = (.ok i, next)) (hw : m.staysWithin p = true) :
    (m.under p).pcAfter i = m.pcAfter i := by
  cases i with
  | brp a =>
    have hhalf : p = .decimal → m.acc < 500 := by
      rw [staysWithin, hs] at hw
      exact of_decide_eq_true hw
    have hpositive : (m.under p).policy.Positive (m.under p).acc ↔ m.policy.Positive m.acc := by
      rw [h.policy]
      exact and_congr_right fun _ => ⟨fun _ hp => (by cases hp), fun _ => hhalf⟩
    simp only [Machine.pcAfter, hpositive]
    rfl
  | _ => rfl

theorem Narrow.reported : (m.under p).reported i = m.reported i := by
  cases i with
  | inp =>
    simp only [Machine.reported, pending_under, provider_under, policy_under, pc_under]
    cases hask : m.provider.ask.1 with
    | none => rfl
    | some w =>
      have hkeeps : ∀ v ∈ [w], p.Keeps v := fun v hv =>
        List.mem_singleton.1 hv ▸ h.source 0 w hask
      simp only [Diagnostic.clampings_eq_of_keeps hkeeps, h.policy]
  | _ => rfl

/-- An instruction that stays within the other policy is carried out there alike. -/
theorem Narrow.follows (hs : m.step = (.ok i, next)) (hf : m.Follows i next)
    (hw : m.staysWithin p = true) : (m.under p).Follows i (next.under p) where
  policy := rfl
  acc := hf.acc.trans (h.accAfter hs hf hw).symm
  pc := hf.pc.trans (h.pcAfter hs hw).symm
  cell a := (hf.cell a).trans (by cases i <;> rfl)
  state := hf.state
  pending := hf.pending.trans (by cases i <;> rfl)
  output := hf.output.trans (by cases i <;> rfl)
  provider := hf.provider.trans (by cases i <;> rfl)
  diagnostics := hf.diagnostics.trans (congrArg _ h.reported.symm)
  cycles := hf.cycles
  last := hf.last

/-- **The other machine does the same step.** -/
theorem Narrow.step_under (hw : m.staysWithin p = true) :
    (m.under p).step = (m.step.1, m.step.2.under p) := by
  by_cases hm : m.state = .running
  · by_cases hpc : m.pc < 100
    · obtain ⟨i, next, hi, hs, hf⟩ := step_follows h.consistent.words hm hpc
      obtain ⟨j, next', hj, hs', hf'⟩ := step_follows (m := m.under p) h.under.words hm hpc
      obtain rfl : i = j := (Instruction.reads_iff.1 hi).symm.trans (Instruction.reads_iff.1 hj)
      rw [hs', hs, hf'.eq (h.follows hs hf hw)]
    · rw [step_of_le_pc hm (by omega), step_of_le_pc (m := m.under p) hm (Nat.not_lt.1 hpc)]
      rfl
  · rw [step_of_ne_running hm, step_of_ne_running (m := m.under p) hm]
    rfl

/-- After it the two are as they were: one machine under two policies. -/
theorem Narrow.step (hw : m.staysWithin p = true) : m.step.2.Narrow p := by
  have hcall : m.call (.operation .step) = some (.stepped m.step.1, m.step.2) := rfl
  have hcontinues : (Call.operation .step).Continues := trivial
  have hunder := h.under.step
  rw [h.step_under hw] at hunder
  refine ⟨?_, h.consistent.step, hunder, ?_⟩
  · exact (accounts_call h.consistent hcontinues hcall).policy.trans h.policy
  · rw [provider_call h.consistent hcontinues hcall]
    exact h.source.afterAsking _

end Narrow

/-- **The other machine does the same run**, by induction on the steps. -/
theorem Narrow.run {m : Machine} {p : Policy} {n : Nat} (h : m.Narrow p)
    (hn : ∀ k < n, (m.after k).staysWithin p = true) :
    (m.under p).results n = m.results n ∧ ∀ k ≤ n, (m.under p).after k = (m.after k).under p := by
  induction n generalizing m with
  | zero =>
    refine ⟨rfl, fun k hk => ?_⟩
    rw [Nat.le_zero.1 hk]
    rfl
  | succ n ih =>
    have hw : m.staysWithin p = true := hn 0 (Nat.succ_pos n)
    have hs := h.step_under hw
    obtain ⟨hresults, hafter⟩ := ih (h.step hw) fun k hk => hn (k + 1) (Nat.succ_lt_succ hk)
    refine ⟨?_, fun k hk => ?_⟩
    · rw [results_succ, results_succ, hs, hresults]
    · cases k with
      | zero => rfl
      | succ k =>
        rw [after_succ, after_succ, hs]
        exact hafter k (Nat.le_of_succ_le_succ hk)

/-! ### Machines that are set up alike -/

theorem setUp_under {p : Policy} {image inputs : List Int} (himage : ∀ w ∈ image, p.Keeps w)
    (hinputs : ∀ w ∈ inputs, p.Keeps w) (source : Provider) :
    (setUp .bounded64 image source inputs).under p = setUp p image source inputs := by
  simp only [setUp, load, loadAt, queue, attach, under, new,
    Policy.map_clamp_eq_of_keeps himage, Policy.map_clamp_eq_of_keeps hinputs,
    Diagnostic.clampings_eq_of_keeps himage, Diagnostic.clampings_eq_of_keeps hinputs]

/-- **The machines agree until a word is too large.** Set up a machine with the widest words and a
machine of policy `p` alike, with words that `p` keeps: those of 32 bits if `p` is the decimal or
the 32-bit policy. As long as the steps of the first machine stay within `p`, the other answers the
same, and after each step it is the same machine but for its policy. -/
theorem setUp_eq_under {p : Policy} {image inputs : List Int} {source : Provider}
    (himage : ∀ w ∈ image, p.Keeps w) (hinputs : ∀ w ∈ inputs, p.Keeps w)
    (hsource : source.AnswersWithin p) {n : Nat}
    (hn : ∀ k < n, ((setUp .bounded64 image source inputs).after k).staysWithin p = true) :
    let m := setUp .bounded64 image source inputs
    let m' := setUp p image source inputs
    m'.results n = m.results n ∧ ∀ k ≤ n, m'.after k = (m.after k).under p := by
  intro m m'
  have hunder : m.under p = m' := setUp_under himage hinputs source
  have hnarrow : m.Narrow p := by
    refine ⟨rfl, (reachable_setUp ..).consistent, ?_, hsource⟩
    rw [hunder]
    exact (reachable_setUp ..).consistent
  rw [← hunder]
  exact hnarrow.run hn

/-- A countdown on the decimal machine goes as with wide words down to zero. The step after that
takes it below, to which the decimal machine has another answer. -/
theorem setUp_eq_under_of_countdown :
    let source := Provider.oracle (fun n => if n = 0 then some 1 else none) 0
    let m := setUp .bounded64 [901, 902, 205, 801, 0, 1] source []
    let m' := setUp .decimal [901, 902, 205, 801, 0, 1] source []
    m'.after 5 = (m.after 5).under .decimal ∧ (m.after 5).output = #[1, 0] ∧
      (m.after 6).acc = -1 ∧ (m'.after 6).acc = 999 := by
  intro source m m'
  have hsource : source.AnswersWithin .decimal := by
    intro n w hw
    rw [Provider.afterAsking_oracle, Provider.ask_oracle] at hw
    obtain rfl : 1 = w := by
      simp only [Option.ite_none_right_eq_some, Option.some.injEq] at hw
      exact hw.2
    decide
  have himage : ∀ w ∈ [901, 902, 205, 801, 0, 1], Policy.decimal.Keeps w := by decide
  have hwithin : ∀ k < 5, (m.after k).staysWithin .decimal = true := by decide +kernel
  obtain ⟨-, hafter⟩ := setUp_eq_under himage (List.forall_mem_nil _) hsource hwithin
  exact ⟨hafter 5 (Nat.le_refl 5), by decide +kernel, by decide +kernel, by decide +kernel⟩

end Machine

end LittleMan
