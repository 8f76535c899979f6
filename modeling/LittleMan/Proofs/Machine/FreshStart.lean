import LittleMan.Proofs.Machine.Restart

/-!
# A reset erases all history

Whatever was done to a machine, after a reset it is a newly made one, but for the provider, which a
reset keeps. A provider can remember how often it was asked, and that is the one thing that the past
can hand on. A constant provider remembers nothing. So machines of one policy with one constant
provider cannot be told apart once they are started over, by a reset or by the loading of a sample,
and a machine that is started over twice does the same twice.

## Main definitions

* `Machine.watch` — the answers to a list of calls, and the whole machine after each of them

## Main results

* `Machine.watch_cons_of_reset_eq` — what is seen from a new start on depends on policy and provider
* `Machine.Consistent.reset_history` — no history leaves a trace beyond a reset
* `Machine.reset_erases` — any two machines behave alike once they are started over
-/

namespace LittleMan

namespace Machine

/-! ### Watching a machine -/

/-- The answer to each of a list of calls, and the whole machine after it. A call that does not come
back is the last one. -/
def watch : Machine → List Call → List (Option (Answer × Machine))
  | _, [] => []
  | m, c :: rest =>
    match m.call c with
    | none => [none]
    | some (answer, next) => some (answer, next) :: next.watch rest

theorem watch_cons_congr {m n : Machine} {c : Call} (h : m.call c = n.call c)
    (later : List Call) : m.watch (c :: later) = n.watch (c :: later) := by
  rw [watch, watch, h]

/-! ### New starts -/

/-- Starting over reads nothing of a machine but what a reset keeps. -/
theorem call_eq_of_reset_eq {m n : Machine} (h : m.reset = n.reset) {c : Call}
    (hc : ¬c.Continues) : m.call c = n.call c := by
  obtain rfl | ⟨s, inputs, rfl⟩ := cases_of_not_continues hc
  · show some (Answer.done, m.reset) = some (Answer.done, n.reset)
    rw [h]
  · show some (Answer.done, s.prepare inputs m) = some (Answer.done, s.prepare inputs n)
    rw [Sample.prepare, Sample.prepare, h]

/-- **From a new start on**, machines that a reset makes equal cannot be told apart. -/
theorem watch_cons_of_reset_eq {m n : Machine} (h : m.reset = n.reset) {c : Call}
    (hc : ¬c.Continues) (later : List Call) : m.watch (c :: later) = n.watch (c :: later) :=
  watch_cons_congr (call_eq_of_reset_eq h hc) later

/-- **No history leaves a trace beyond a reset**, if the provider is constant and stays attached.
The induction is on the calls, each of which keeps what a reset keeps. -/
theorem Consistent.reset_history {m last : Machine} {p : Policy} {source : Provider}
    {calls : List Call} {answers : List Answer} (hm : m.Consistent) (hsource : source.IsConstant)
    (h : m.reset = (new p).attach source) (hattached : ∀ c ∈ calls, c.attached? = none)
    (hhistory : m.history calls = some (answers, last)) :
    last.reset = (new p).attach source := by
  induction calls generalizing m answers with
  | nil =>
    cases hhistory
    exact h
  | cons c rest ih =>
    obtain ⟨hc, hrest⟩ := List.forall_mem_cons.1 hattached
    obtain ⟨answer, next, later, hcall, hlater, rfl⟩ := history_cons_eq_some.1 hhistory
    exact ih (kept_consistent.call hm hcall) (hm.reset_call hsource h hc hcall) hrest hlater

/-- **A reset erases all history.** Take two machines of one policy with any histories, whose
providers are both silent or both give the same value every time. Reset both, and whatever is called
then is answered alike, with equal machines after every call, and as it is by a new machine of that
policy with that provider. Load the same sample with the same input on both, and it is the same. So
a rerun shows what the first run showed, whatever was called in between, as long as no other
provider was attached. -/
theorem reset_erases {p : Policy} {source : Provider}
    (hsource : source = .silent ∨ ∃ w, source = .fixed w) {past past' : List Call}
    {answers answers' : List Answer} {m n : Machine}
    (hm : (new p).history past = some (answers, m)) (hmsource : m.provider = source)
    (hn : (new p).history past' = some (answers', n)) (hnsource : n.provider = source) :
    let fresh := (new p).attach source
    (∀ later, m.reset.watch later = fresh.watch later ∧ n.reset.watch later = fresh.watch later) ∧
      (∀ c : Call, ¬c.Continues → ∀ later, m.watch (c :: later) = fresh.watch (c :: later) ∧
        n.watch (c :: later) = fresh.watch (c :: later)) ∧
      ∀ between answers last, m.history between = some (answers, last) →
        (∀ c ∈ between, c.attached? = none) → ∀ c : Call, ¬c.Continues →
          ∀ later, last.watch (c :: later) = m.watch (c :: later) := by
  intro fresh
  have hmreset : m.reset = fresh := reset_eq_iff.2 ⟨(kept_policy p).history rfl hm, hmsource⟩
  have hnreset : n.reset = fresh := reset_eq_iff.2 ⟨(kept_policy p).history rfl hn, hnsource⟩
  refine ⟨?_, ?_, ?_⟩
  · intro later
    rw [hmreset, hnreset]
    exact ⟨rfl, rfl⟩
  · intro c hc later
    exact ⟨watch_cons_of_reset_eq hmreset hc later, watch_cons_of_reset_eq hnreset hc later⟩
  · intro between answers last hlast hattached c hc later
    have hconsistent : m.Consistent := kept_consistent.history (consistent_new p) hm
    have hreset := hconsistent.reset_history (Provider.isConstant_iff.2 hsource) hmreset hattached
      hlast
    exact watch_cons_of_reset_eq (hreset.trans hmreset.symm) hc later

/-- One machine ran into a fault after it had asked its provider and put a value out, the other has
a program and input that waits. A sample that adds two numbers, given one of them, gives the same on
both, twice. -/
theorem reset_erases_of_fault :
    let source := Provider.fixed 7
    let doomed : List Call :=
      [.operation (.loadAt 0 [901, 902, 699]), .operation (.loadAt 99 [500]),
        .operation (.runLimited 9)]
    let past := .operation (.attach source) :: doomed
    let past' : List Call := [.operation (.loadAt 5 [901]), .operation (.queue [1, 2]),
      .operation (.attach source)]
    let rerun : List Call :=
      [.operation (.prepare Sample.addition [3]), .operation (.runLimited 9)]
    ∃ answers answers' m n, (new .bounded32).history past = some (answers, m) ∧
      (new .bounded32).history past' = some (answers', n) ∧
      m.isFaulted = true ∧ m.output = #[7] ∧ n.pending = [1, 2] ∧
      m.watch (rerun ++ rerun) = n.watch (rerun ++ rerun) ∧
      ∃ answers last, n.history (rerun ++ rerun) = some (answers, last) ∧ last.output = #[10] := by
  intro source doomed past past' rerun
  refine ⟨_, _, _, _, rfl, rfl, ?_, ?_, rfl, ?_, _, _, rfl, ?_⟩
  · decide +kernel
  · decide +kernel
  · have hsource : source = .silent ∨ ∃ w, source = .fixed w := .inr ⟨7, rfl⟩
    have hattached : ∀ c ∈ doomed, c.attached? = none := by
      simp [doomed, Call.attached?]
    -- the run asked the provider, so it takes an argument that it is still there as attached
    have hreset := ((consistent_new .bounded32).attach source).reset_history
      (Provider.isConstant_iff.2 hsource) rfl hattached rfl
    have hpast : (new .bounded32).history past = some (_, _) := rfl
    have hpast' : (new .bounded32).history past' = some (_, _) := rfl
    obtain ⟨-, hrestart, -⟩ := reset_erases hsource hpast (reset_eq_iff.1 hreset).2 hpast' rfl
    obtain ⟨h, h'⟩ := hrestart (.operation (.prepare Sample.addition [3])) id
      (.operation (.runLimited 9) :: rerun)
    exact h.trans h'.symm
  · decide +kernel

end Machine

end LittleMan
