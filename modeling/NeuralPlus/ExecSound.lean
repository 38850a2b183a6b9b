import NeuralPlus.ExecTools
import NeuralPlus.SchemaSound
import Mathlib.Algebra.Order.BigOperators.Group.Finset
import Mathlib.Order.Interval.Finset.Nat

/-!
# Executing the calls of one round is mapping over them

Whatever the order of completion and wherever a launch fails, `execute_tools`
returns the executions of the calls in order, has executed each call once, and
never has more executions in progress than it is allowed.
-/

namespace NeuralPlus

namespace ExecJob

variable {α ρ : Type} (job : ExecJob α ρ)

/-! ## What one step can do -/

inductive Move : ExecState ρ → ExecState ρ → Prop
  | enter {s : ExecState ρ} (i : Nat) : s.pc = .inThread i → i < job.size →
      Move s { mark s i .running with pc := .busy i, log := s.log ++ [.started i] }
  | leaveInThread {s : ExecState ρ} (i : Nat) : s.pc = .inThread i → ¬ i < job.size →
      Move s { s with pc := .returned }
  | batch {s : ExecState ρ} (o : Nat) : s.pc = .batch o → o < job.size → Move s { s with pc := .launching o o }
  | leaveBatch {s : ExecState ρ} (o : Nat) : s.pc = .batch o → ¬ o < job.size → Move s { s with pc := .returned }
  | launch {s : ExecState ρ} (o i : Nat) : s.pc = .launching o i → i < job.stop o →
      Move s { mark s i .ready with pc := .launching o (i + 1) }
  | launched {s : ExecState ρ} (o i : Nat) : s.pc = .launching o i → ¬ i < job.stop o →
      Move s { s with pc := .collecting o o i false }
  | launchFails {s : ExecState ρ} (o i : Nat) : s.pc = .launching o i → i < job.stop o →
      Move s { s with pc := .collecting o o i true }
  | collect {s s' : ExecState ρ} (o i stop : Nat) (failed : Bool) : s.pc = .collecting o i stop failed → i < stop →
      s.tasks i = .done → job.push s i (.collecting o (i + 1) stop failed) = some s' → Move s s'
  | fallBack {s : ExecState ρ} (o i stop : Nat) : s.pc = .collecting o i stop true → ¬ i < stop →
      Move s { s with pc := .inThread stop }
  | nextBatch {s : ExecState ρ} (o i stop : Nat) : s.pc = .collecting o i stop false → ¬ i < stop →
      Move s { s with pc := .batch (o + job.parallelism) }
  | unwind {s : ExecState ρ} (e : Exc) : s.pc = .unwinding e → Move s { s with pc := .threw e }
  | start {s : ExecState ρ} (i : Nat) : s.tasks i = .ready →
      Move s { mark s i .running with log := s.log ++ [.started i] }
  | finishInThread {s s' : ExecState ρ} (i : Nat) : s.tasks i = .running → s.pc = .busy i →
      job.push { mark s i .done with log := s.log ++ [.ended i] } i (.inThread (i + 1)) = some s' → Move s s'
  | finish {s : ExecState ρ} (i : Nat) : s.tasks i = .running → s.pc ≠ .busy i →
      Move s { mark s i .done with log := s.log ++ [.ended i] }

variable {job}

theorem move_of_main {s s' : ExecState ρ} (h : job.main s = some s') : Move job s s' := by
  unfold main at h
  split at h
  · rename_i i hpc
    split at h <;> cases h
    · exact .enter i hpc ‹_›
    · exact .leaveInThread i hpc ‹_›
  · rename_i o hpc
    split at h <;> cases h
    · exact .batch o hpc ‹_›
    · exact .leaveBatch o hpc ‹_›
  · rename_i o i hpc
    split at h <;> cases h
    · exact .launch o i hpc ‹_›
    · exact .launched o i hpc ‹_›
  · rename_i o i stop failed hpc
    split at h
    · split at h
      · exact .collect o i stop failed hpc ‹_› ‹_› h
      · cases h
    · cases failed <;> cases h
      · exact .nextBatch o i stop hpc ‹_›
      · exact .fallBack o i stop hpc ‹_›
  · rename_i e hpc
    split at h <;> cases h
    exact .unwind e hpc
  · cases h
  · cases h
  · cases h

theorem move_of_step {s s' : ExecState ρ} {a : ExecAct} (h : job.Step s a s') : Move job s s' := by
  unfold Step at h
  cases a with
  | main => exact move_of_main h
  | launchFails =>
    simp only [step] at h
    split at h
    · rename_i o i hpc
      split at h <;> cases h
      exact .launchFails o i hpc ‹_›
    · cases h
  | start i =>
    simp only [step] at h
    split at h <;> cases h
    exact .start i ‹_›
  | finish i =>
    simp only [step, ExecJob.finish] at h
    split at h
    · split at h
      · exact .finishInThread i ‹_› ‹_› h
      · cases h
        exact .finish i ‹_› ‹_›
    · cases h

/-! ## The invariant -/

def collected (job : ExecJob α ρ) : ExecPc → Nat
  | .inThread i | .busy i => i
  | .batch o => min o job.size
  | .launching o _ => o
  | .collecting _ i _ _ => i
  | .returned => job.size
  | .unwinding _ | .threw _ => 0

def launched (job : ExecJob α ρ) : ExecPc → Nat
  | .inThread i => i
  | .busy i => i + 1
  | .batch o => min o job.size
  | .launching _ i => i
  | .collecting _ _ stop _ => stop
  | .returned => job.size
  | .unwinding _ | .threw _ => 0

def Place (job : ExecJob α ρ) : ExecPc → Prop
  | .inThread i => i ≤ job.size
  | .busy i => i < job.size
  | .batch _ | .returned => True
  | .launching o i => o < job.size ∧ o ≤ i ∧ i ≤ job.stop o
  | .collecting o i stop failed =>
    o < job.size ∧ o ≤ i ∧ i ≤ stop ∧ stop ≤ job.stop o ∧ (failed = false → stop = job.stop o)
  | .unwinding _ | .threw _ => False

/-- The tasks, the results and the log agree with the position of the calling thread. -/
structure InStep (job : ExecJob α ρ) (expected : List ρ) (s : ExecState ρ) : Prop where
  results : s.results = expected.take (job.collected s.pc)
  done : ∀ i < job.collected s.pc, s.tasks i = .done
  begun : ∀ i, job.collected s.pc ≤ i → i < job.launched s.pc → s.tasks i ≠ .idle
  idle : ∀ i, job.launched s.pc ≤ i → s.tasks i = .idle
  starts : ∀ i, s.log.count (.started i) = if s.tasks i = .running ∨ s.tasks i = .done then 1 else 0
  ends : ∀ i, s.log.count (.ended i) = if s.tasks i = .done then 1 else 0

structure Inv (job : ExecJob α ρ) (expected : List ρ) (s : ExecState ρ) : Prop extends InStep job expected s where
  place : job.Place s.pc
  busy : ∀ i, s.pc = .busy i → s.tasks i = .running

section
variable {expected : List ρ} (htot : job.calls.mapIdx job.execute = expected.map .ok)

include htot

theorem length_expected : expected.length = job.size := by
  have := congrArg List.length htot
  simpa [size] using this.symm

theorem result_eq {i : Nat} (hi : i < expected.length) : job.result i = some (.ok expected[i]) := by
  have h := congrArg (·[i]?) htot
  simpa [result, List.getElem?_mapIdx, hi] using h

theorem push_eq {s : ExecState ρ} {i : Nat} (hi : i < expected.length) (next : ExecPc) :
    job.push s i next = some { s with pc := next, results := s.results ++ [expected[i]] } := by
  rw [push, result_eq htot hi]

end

@[simp] theorem mark_tasks (s : ExecState ρ) (i j : Nat) (t : TaskStatus) :
    (mark s i t).tasks j = if j = i then t else s.tasks j := by
  simp [mark, Function.update_apply]

@[simp] theorem mark_pc (s : ExecState ρ) (i : Nat) (t : TaskStatus) : (mark s i t).pc = s.pc := rfl

theorem inv_init {expected : List ρ} : Inv job expected job.init := by
  unfold init
  split
  all_goals
    refine ⟨⟨?_, ?_, ?_, ?_, ?_, ?_⟩, ?_, ?_⟩ <;> simp [Place, collected, launched]

section
variable {expected : List ρ} {s : ExecState ρ} {i : Nat}

theorem InStep.within (h : InStep job expected s) {i : Nat} (hidle : s.tasks i ≠ .idle) (hdone : s.tasks i ≠ .done) :
    job.collected s.pc ≤ i ∧ i < job.launched s.pc := by
  constructor
  · by_contra hlt
    exact hdone (h.done i (Nat.lt_of_not_le hlt))
  · by_contra hle
    exact hidle (h.idle i (Nat.le_of_not_lt hle))

theorem InStep.marked (h : InStep job expected s) (pc : ExecPc) (i : Nat) (t : TaskStatus) (marks : List ExecMark)
    (hc : job.collected pc = job.collected s.pc) (hi : job.collected s.pc ≤ i) (hlt : i < job.launched pc)
    (hl : ∀ j, j ≠ i → (j < job.launched pc ↔ j < job.launched s.pc)) (ht : t ≠ .idle)
    (hother : ∀ j, j ≠ i → marks.count (.started j) = 0 ∧ marks.count (.ended j) = 0)
    (hstarts : (s.log ++ marks).count (.started i) = if t = .running ∨ t = .done then 1 else 0)
    (hends : (s.log ++ marks).count (.ended i) = if t = .done then 1 else 0) :
    InStep job expected { mark s i t with pc, log := s.log ++ marks } where
  results := by
    show s.results = _
    rw [h.results, hc]
  done := by
    intro j hj
    have hj : j < job.collected s.pc := by rw [← hc]; exact hj
    rw [mark_tasks, if_neg (show j ≠ i by omega)]
    exact h.done j hj
  begun := by
    intro j hj hj'
    rw [mark_tasks]
    by_cases hji : j = i
    · rw [if_pos hji]
      exact ht
    · rw [if_neg hji]
      exact h.begun j (by rw [← hc]; exact hj) ((hl j hji).mp hj')
  idle := by
    intro j hj
    have hj : job.launched pc ≤ j := hj
    have hji : j ≠ i := by omega
    rw [mark_tasks, if_neg hji]
    exact h.idle j (Nat.le_of_not_lt fun hlt => Nat.not_lt.mpr hj ((hl j hji).mpr hlt))
  starts := by
    intro j
    rw [mark_tasks]
    by_cases hji : j = i
    · rw [if_pos hji, hji]
      exact hstarts
    · rw [if_neg hji, ← h.starts j, List.count_append, (hother j hji).1, Nat.add_zero]
  ends := by
    intro j
    rw [mark_tasks]
    by_cases hji : j = i
    · rw [if_pos hji, hji]
      exact hends
    · rw [if_neg hji, ← h.ends j, List.count_append, (hother j hji).2, Nat.add_zero]

theorem InStep.started (h : InStep job expected s) {pc : ExecPc} (hi : s.tasks i = .idle ∨ s.tasks i = .ready)
    (hc : job.collected pc = job.collected s.pc) (hle : job.collected s.pc ≤ i) (hlt : i < job.launched pc)
    (hl : ∀ j, j ≠ i → (j < job.launched pc ↔ j < job.launched s.pc)) :
    InStep job expected { mark s i .running with pc, log := s.log ++ [.started i] } := by
  apply h.marked pc i .running [.started i] hc hle hlt hl nofun
  · intro j hj
    simp [Ne.symm hj]
  · rw [List.count_append, h.starts]
    rcases hi with hi | hi <;> simp [hi]
  · rw [List.count_append, h.ends]
    rcases hi with hi | hi <;> simp [hi]

theorem InStep.ended (h : InStep job expected s) (hi : s.tasks i = .running) :
    InStep job expected { mark s i .done with log := s.log ++ [.ended i] } := by
  obtain ⟨hle, hlt⟩ := h.within (i := i) (by simp [hi]) (by simp [hi])
  apply h.marked s.pc i .done [.ended i] rfl hle hlt (fun _ _ => Iff.rfl) nofun
  · intro j hj
    simp [Ne.symm hj]
  · rw [List.count_append, h.starts]
    simp [hi]
  · rw [List.count_append, h.ends]
    simp [hi]

end

theorem InStep.goTo {expected : List ρ} {s : ExecState ρ} (h : InStep job expected s) {pc : ExecPc} (hp : job.Place pc)
    (hc : job.collected pc = job.collected s.pc) (hl : job.launched pc = job.launched s.pc)
    (hb : ∀ i, pc ≠ .busy i) : Inv job expected { s with pc } where
  place := hp
  results := by rw [hc]; exact h.results
  done := by rw [hc]; exact h.done
  begun := by rw [hc, hl]; exact h.begun
  idle := by rw [hl]; exact h.idle
  busy := fun i hi => absurd hi (hb i)
  starts := h.starts
  ends := h.ends

theorem InStep.pushed {expected : List ρ} {s : ExecState ρ} (h : InStep job expected s) {pc : ExecPc}
    {i : Nat} (hi : i < expected.length) (hci : job.collected s.pc = i) (hd : s.tasks i = .done)
    (hp : job.Place pc) (hc : job.collected pc = i + 1) (hl : job.launched pc = job.launched s.pc)
    (hb : ∀ j, pc ≠ .busy j) :
    Inv job expected { s with pc, results := s.results ++ [expected[i]] } where
  place := hp
  results := by
    show s.results ++ _ = _
    rw [h.results, hc, hci, List.take_succ_eq_append_getElem hi]
  done := by
    intro j hj
    rw [hc] at hj
    by_cases hji : j = i
    · rw [hji]; exact hd
    · exact h.done j (by omega)
  begun := by
    intro j hj
    rw [hc] at hj; rw [hl]
    exact h.begun j (by omega)
  idle := by rw [hl]; exact h.idle
  busy := fun j hj => absurd hj (hb j)
  starts := h.starts
  ends := h.ends

theorem inv_move {expected : List ρ} (htot : job.calls.mapIdx job.execute = expected.map .ok) {s s' : ExecState ρ}
    (h : Inv job expected s) (hm : Move job s s') : Inv job expected s' := by
  have hlen := length_expected htot
  have hplace := h.place
  have hidle := h.idle
  cases hm with
  | enter i hpc hi =>
    simp only [hpc, launched] at hidle
    refine ⟨h.started (.inl (hidle i (Nat.le_refl i))) (by rw [hpc]; rfl) (by rw [hpc]; exact Nat.le_refl i)
      (Nat.lt_succ_self i) ?_, hi, ?_⟩
    · intro j hji
      simp only [hpc, launched]
      omega
    · intro j hj
      cases hj
      simp
  | leaveInThread i hpc hi =>
    simp only [hpc, Place] at hplace
    exact h.goTo trivial (by simp only [hpc, collected]; omega) (by simp only [hpc, launched]; omega) nofun
  | batch o hpc ho =>
    refine h.goTo ⟨ho, Nat.le_refl o, ?_⟩ ?_ ?_ nofun
    · simp only [stop]; omega
    · simp only [hpc, collected]; omega
    · simp only [hpc, launched]; omega
  | leaveBatch o hpc ho =>
    exact h.goTo trivial (by simp only [hpc, collected]; omega) (by simp only [hpc, launched]; omega) nofun
  | launch o i hpc hi =>
    simp only [hpc, Place, launched] at hplace hidle
    have hii := hidle i (Nat.le_refl i)
    have hmark := h.marked (.launching o (i + 1)) i .ready [] (by rw [hpc]; rfl)
      (by rw [hpc]; exact hplace.2.1) (Nat.lt_succ_self i) (by intro j hji; simp only [hpc, launched]; omega) nofun
      (by simp) (by simp [h.starts, hii]) (by simp [h.ends, hii])
    rw [List.append_nil] at hmark
    exact ⟨hmark, ⟨hplace.1, by omega, hi⟩, nofun⟩
  | launched o i hpc hi =>
    simp only [hpc, Place] at hplace
    exact h.goTo ⟨hplace.1, Nat.le_refl o, hplace.2.1, hplace.2.2, fun _ => by omega⟩ (by rw [hpc]; rfl)
      (by rw [hpc]; rfl) nofun
  | launchFails o i hpc hi =>
    -- the rest of the batch stays idle: it was never launched
    simp only [hpc, Place] at hplace
    exact h.goTo ⟨hplace.1, Nat.le_refl o, hplace.2.1, hplace.2.2, nofun⟩ (by rw [hpc]; rfl) (by rw [hpc]; rfl) nofun
  | collect o i stop failed hpc hi hd hp =>
    simp only [hpc, Place] at hplace
    have hi' : i < expected.length := by simp only [ExecJob.stop] at hplace; omega
    rw [push_eq htot hi'] at hp
    cases hp
    exact h.pushed hi' (by rw [hpc]; rfl) hd ⟨hplace.1, by omega, by omega, hplace.2.2.2⟩ rfl (by rw [hpc]; rfl) nofun
  | fallBack o i stop hpc hi =>
    simp only [hpc, Place] at hplace
    refine h.goTo ?_ ?_ (by rw [hpc]; rfl) nofun
    · simp only [ExecJob.stop] at hplace; simp only [Place]; omega
    · simp only [hpc, collected]; omega
  | nextBatch o i stop hpc hi =>
    simp only [hpc, Place] at hplace
    have := hplace.2.2.2.2 trivial
    simp only [ExecJob.stop] at this
    exact h.goTo trivial (by simp only [hpc, collected]; omega) (by simp only [hpc, launched]; omega) nofun
  -- no execution throws, so the function is never left by an exception
  | unwind e hpc => rw [hpc] at hplace; exact hplace.elim
  | start i hi =>
    obtain ⟨hle, hlt⟩ := h.within (i := i) (by simp [hi]) (by simp [hi])
    refine ⟨h.started (.inr hi) rfl hle hlt fun _ _ => Iff.rfl, hplace, ?_⟩
    intro j hj
    by_cases hji : j = i
    · simp [hji]
    · simpa [hji] using h.busy j hj
  | finishInThread i hi hpc hp =>
    simp only [hpc, Place] at hplace
    have hi' : i < expected.length := by omega
    rw [push_eq htot hi'] at hp
    cases hp
    exact (h.ended hi).pushed hi' (by rw [mark_pc, hpc]; rfl) (by simp) hplace rfl (by rw [mark_pc, hpc]; rfl) nofun
  | finish i hi hpc =>
    refine ⟨h.ended hi, hplace, ?_⟩
    intro j hj
    have hji : j ≠ i := by rintro rfl; exact hpc hj
    simpa [hji] using h.busy j hj

/-! ## Runs -/

section
variable {expected : List ρ} (htot : job.calls.mapIdx job.execute = expected.map .ok)

theorem Inv.launched_le {s : ExecState ρ} (h : Inv job expected s) : job.launched s.pc ≤ job.size := by
  have hp := h.place
  cases hpc : s.pc <;> simp only [hpc, Place, launched, ExecJob.stop] at hp ⊢ <;> omega

theorem Inv.lt_size {s : ExecState ρ} (h : Inv job expected s) {i : Nat} (hi : s.tasks i ≠ .idle) : i < job.size := by
  have := h.launched_le
  by_contra hlt
  exact hi (h.idle i (by omega))

theorem Inv.window {s : ExecState ρ} (h : Inv job expected s) (hmax : job.maxParallelToolCalls ≠ 0) :
    job.launched s.pc - job.collected s.pc ≤ job.maxParallelToolCalls := by
  have hp := h.place
  cases hpc : s.pc <;>
    simp only [hpc, Place, launched, collected, ExecJob.stop, parallelism] at hp ⊢ <;> omega

theorem Inv.inProgress_le {s : ExecState ρ} (h : Inv job expected s) (hmax : job.maxParallelToolCalls ≠ 0) :
    job.inProgress s ≤ job.maxParallelToolCalls := by
  have hsub : (List.range job.size).filter (fun i => s.tasks i = .running) ⊆
      List.range' (job.collected s.pc) (job.launched s.pc - job.collected s.pc) := by
    intro i hi
    have hr : s.tasks i = .running := by simpa using (List.mem_filter.mp hi).2
    obtain ⟨hlo, hhi⟩ := h.within (i := i) (by simp [hr]) (by simp [hr])
    rw [List.mem_range'_1]
    omega
  have hle := (List.subperm_of_subset (List.nodup_range.filter _) hsub).length_le
  rw [List.length_range'] at hle
  rw [inProgress, List.countP_eq_length_filter]
  exact hle.trans (h.window hmax)

/-! ## Every run ends -/

def weight : TaskStatus → Nat
  | .idle => 3
  | .ready => 2
  | .running => 1
  | .done => 0

def rank (job : ExecJob α ρ) : ExecPc → Nat
  | .inThread _ | .busy _ => 1
  | .batch o => 4 * (job.size - o) + 2
  | .launching o _ => 4 * (job.size - o) + 1
  | .collecting o _ _ _ => 4 * (job.size - o)
  | _ => 0

def work (job : ExecJob α ρ) (tasks : Nat → TaskStatus) : Nat := ∑ i ∈ Finset.range job.size, weight (tasks i)

def measure (job : ExecJob α ρ) (s : ExecState ρ) : Nat :=
  job.work s.tasks + (job.size - job.collected s.pc) + job.rank s.pc

theorem work_mark_lt {s : ExecState ρ} {i : Nat} {t : TaskStatus} (hi : i < job.size) (ht : weight t < weight (s.tasks i)) :
    job.work (mark s i t).tasks < job.work s.tasks := by
  refine Finset.sum_lt_sum (fun j _ => ?_) ⟨i, Finset.mem_range.mpr hi, by simpa using ht⟩
  by_cases hji : j = i
  · subst hji; simpa using ht.le
  · simp [hji]

include htot in
theorem measure_move (hmax : job.maxParallelToolCalls ≠ 0) {s s' : ExecState ρ} (h : Inv job expected s)
    (hm : Move job s s') : job.measure s' < job.measure s := by
  have hlen := length_expected htot
  have hplace := h.place
  cases hm with
  | enter i hpc hi =>
    -- the status of a task never goes back, and each change is work done
    have hw := work_mark_lt (s := s) (t := .running) hi (by simp [h.idle i (by rw [hpc]; exact Nat.le_refl i), weight])
    simp only [measure, hpc, collected, rank]
    omega
  | leaveInThread i hpc hi => simp only [measure, hpc, collected, rank]; omega
  | batch o hpc ho => simp only [measure, hpc, collected, rank]; omega
  | leaveBatch o hpc ho => simp only [measure, hpc, collected, rank]; omega
  | launch o i hpc hi =>
    have hi' : i < job.size := by simp only [ExecJob.stop] at hi; omega
    have hw := work_mark_lt (s := s) (t := .ready) hi' (by simp [h.idle i (by rw [hpc]; exact Nat.le_refl i), weight])
    simp only [measure, hpc, collected, rank]
    omega
  | launched o i hpc hi => simp only [measure, hpc, collected, rank]; omega
  | launchFails o i hpc hi => simp only [measure, hpc, collected, rank]; omega
  | collect o i stop failed hpc hi hd hp =>
    simp only [hpc, Place, ExecJob.stop] at hplace
    rw [push_eq htot (by omega)] at hp
    cases hp
    simp only [measure, hpc, collected, rank]
    omega
  | fallBack o i stop hpc hi =>
    simp only [hpc, Place, ExecJob.stop] at hplace
    simp only [measure, hpc, collected, rank]
    omega
  | nextBatch o i stop hpc hi =>
    simp only [hpc, Place, ExecJob.stop] at hplace
    simp only [measure, hpc, collected, rank, parallelism] at hplace ⊢
    omega
  | unwind e hpc => rw [hpc] at hplace; exact hplace.elim
  | start i hi =>
    have hw := work_mark_lt (s := s) (t := .running) (h.lt_size (i := i) (by simp [hi])) (by simp [hi, weight])
    simp only [measure, mark_pc]
    omega
  | finishInThread i hi hpc hp =>
    simp only [hpc, Place] at hplace
    have hw := work_mark_lt (s := s) (t := .done) hplace (by simp [hi, weight])
    rw [push_eq htot (by omega)] at hp
    cases hp
    simp only [measure, hpc, collected, rank]
    omega
  | finish i hi hpc =>
    have hw := work_mark_lt (s := s) (t := .done) (h.lt_size (i := i) (by simp [hi])) (by simp [hi, weight])
    simp only [measure, mark_pc]
    omega

theorem measure_init (job : ExecJob α ρ) : job.measure job.init < job.fuel := by
  have hw : job.work (fun _ => .idle) = 3 * job.size := by simp [work, weight, Nat.mul_comm]
  unfold init measure fuel
  split <;> simp only [hw, collected, rank] <;> omega

/-! ## No run is stuck -/

include htot in
theorem progress {s : ExecState ρ} (h : Inv job expected s) (hpc : s.pc ≠ .returned) :
    ∃ a s', job.Step s a s' ∧ (a = .main ∨ ∃ i < job.size, a = .start i ∨ a = .finish i) := by
  have hlen := length_expected htot
  have hplace := h.place
  have main {s'} (hm : job.main s = some s') :
      ∃ a s', job.Step s a s' ∧ (a = .main ∨ ∃ i < job.size, a = .start i ∨ a = .finish i) :=
    ⟨.main, s', hm, .inl rfl⟩
  cases hc : s.pc with
  | inThread i =>
    by_cases hi : i < job.size
    · exact main (by rw [ExecJob.main, hc]; exact if_pos hi)
    · exact main (by rw [ExecJob.main, hc]; exact if_neg hi)
  | busy i =>
    simp only [hc, Place] at hplace
    have hstep : job.step s (.finish i) =
        job.push { mark s i .done with log := s.log ++ [.ended i] } i (.inThread (i + 1)) := by
      simp only [step, h.busy i hc, ExecJob.finish, hc, if_true]
    rw [push_eq htot (by omega)] at hstep
    exact ⟨.finish i, _, hstep, .inr ⟨i, hplace, .inr rfl⟩⟩
  | batch o =>
    by_cases ho : o < job.size
    · exact main (by rw [ExecJob.main, hc]; exact if_pos ho)
    · exact main (by rw [ExecJob.main, hc]; exact if_neg ho)
  | launching o i =>
    by_cases hi : i < job.stop o
    · exact main (by rw [ExecJob.main, hc]; exact if_pos hi)
    · exact main (by rw [ExecJob.main, hc]; exact if_neg hi)
  | collecting o i stop failed =>
    simp only [hc, Place, ExecJob.stop] at hplace
    by_cases hi : i < stop
    · have hlt : i < job.size := by omega
      -- the future the calling thread waits for belongs to a task that can move
      cases ht : s.tasks i with
      | idle => exact absurd ht (h.begun i (by rw [hc]; exact Nat.le_refl i) (by rw [hc]; exact hi))
      | ready => exact ⟨.start i, _, if_pos ht, .inr ⟨i, hlt, .inl rfl⟩⟩
      | running =>
        refine ⟨.finish i, { mark s i .done with log := s.log ++ [.ended i] }, ?_, .inr ⟨i, hlt, .inr rfl⟩⟩
        rw [Step, step, if_pos ht, ExecJob.finish, if_neg (by simp [hc])]
      | done =>
        have hm : job.main s = job.push s i (.collecting o (i + 1) stop failed) := by
          simp only [ExecJob.main, hc, hi, ht, if_true]
        rw [push_eq htot (by omega)] at hm
        exact main hm
    · cases failed with
      | true => exact main (by rw [ExecJob.main, hc]; exact if_neg hi)
      | false => exact main (by rw [ExecJob.main, hc]; exact if_neg hi)
  | unwinding e => rw [hc] at hplace; exact hplace.elim
  | returned => exact absurd hc hpc
  | threw e => rw [hc] at hplace; exact hplace.elim

include htot in
theorem inv_run {s s' : ExecState ρ} {as : List ExecAct} (h : Inv job expected s) (hr : Lts.Run job.Step s as s') :
    Inv job expected s' :=
  hr.invariant (fun _ _ _ hs hstep => inv_move htot hs (move_of_step hstep)) h

theorem follow_run (s : ExecState ρ) (schedule : List ExecAct) :
    ∃ as, Lts.Run job.Step s as (job.follow s schedule) := by
  induction schedule generalizing s with
  | nil => exact ⟨[], .nil s⟩
  | cons a l ih =>
    cases ha : job.step s a with
    | none => simpa only [follow, ha, Option.getD_none] using ih s
    | some t =>
      obtain ⟨as, hr⟩ := ih t
      exact ⟨a :: as, .cons ha (by simpa only [follow, ha, Option.getD_some] using hr)⟩

theorem choose_some {s : ExecState ρ} {a : ExecAct} (h : job.choose s = some a) : ∃ t, job.Step s a t := by
  have := List.find?_some h
  exact Option.isSome_iff_exists.mp this

include htot in
theorem choose_none {s : ExecState ρ} (h : Inv job expected s) (hn : job.choose s = none) : s.pc = .returned := by
  by_contra hpc
  obtain ⟨a, t, ht, ha⟩ := progress htot h hpc
  have hno := List.find?_eq_none.mp hn a
  have hmem : a ∈ ExecAct.main :: (List.range job.size).flatMap fun i => [.start i, .finish i] := by
    rcases ha with rfl | ⟨i, hi, rfl | rfl⟩ <;> simp [*]
  exact hno hmem (by rw [ht]; rfl)

include htot in
theorem drain_returned (hmax : job.maxParallelToolCalls ≠ 0) : ∀ (fuel : Nat) {s : ExecState ρ},
    Inv job expected s → job.measure s < fuel →
    ∃ as, Lts.Run job.Step s as (job.drain fuel s) ∧ (job.drain fuel s).pc = .returned
  | 0, _, _, hf => absurd hf (Nat.not_lt_zero _)
  | fuel + 1, s, h, hf => by
    cases hc : job.choose s with
    | none => exact ⟨[], by simpa only [drain, hc] using .nil s, by simpa only [drain, hc] using choose_none htot h hc⟩
    | some a =>
      obtain ⟨t, ht⟩ := choose_some hc
      have hm := move_of_step ht
      have hlt := measure_move htot hmax h hm
      obtain ⟨as, hr, hpc⟩ := drain_returned hmax fuel (inv_move htot h hm) (by omega)
      have hd : job.drain (fuel + 1) s = job.drain fuel t := by
        simp only [drain, hc, show job.step s a = some t from ht, Option.getD_some]
      exact ⟨a :: as, by rw [hd]; exact .cons ht hr, by rw [hd]; exact hpc⟩

theorem run_of_run {s : ExecState ρ} {as : List ExecAct} (hr : Lts.Run job.Step job.init as s)
    (hn : job.choose s = none) : job.run as = s := by
  have hf : ∀ {q t : ExecState ρ} {as : List ExecAct}, Lts.Run job.Step q as t → job.follow q as = t := by
    intro q t as hr
    induction hr with
    | nil => rfl
    | cons ha _ ih => rw [follow, show job.step _ _ = some _ from ha, Option.getD_some, ih]
  rw [run, hf hr, fuel, drain, hn]

/-- What holds at the end of a run, whoever moved when. -/
theorem Inv.at_return {s : ExecState ρ} (h : Inv job expected s) (hlen : expected.length = job.size)
    (hpc : s.pc = .returned) :
    s.results = expected ∧
    ∀ i, s.log.count (.started i) = (if i < job.size then 1 else 0) ∧
      s.log.count (.ended i) = if i < job.size then 1 else 0 := by
  refine ⟨by rw [h.results, hpc, collected, ← hlen, List.take_length], ?_⟩
  intro i
  rw [h.starts, h.ends]
  by_cases hi : i < job.size
  · simp [hi, h.done i (by rw [hpc]; exact hi)]
  · simp [hi, h.idle i (by rw [hpc]; exact Nat.le_of_not_lt hi)]

theorem Inv.no_step_at_return {s s' : ExecState ρ} {a : ExecAct} (h : Inv job expected s) (hpc : s.pc = .returned)
    (hs : job.Step s a s') : False := by
  have settled : ∀ i, s.tasks i = .idle ∨ s.tasks i = .done := by
    intro i
    by_cases hi : i < job.size
    · exact .inr (h.done i (by rw [hpc]; exact hi))
    · exact .inl (h.idle i (by rw [hpc]; exact Nat.le_of_not_lt hi))
  cases move_of_step hs with
  | start i hi => rcases settled i with h | h <;> simp [h] at hi
  | finish i hi => rcases settled i with h | h <;> simp [h] at hi
  | _ => simp_all

include htot in
theorem length_add_measure (hmax : job.maxParallelToolCalls ≠ 0) {s : ExecState ρ} {as : List ExecAct}
    (hr : Lts.Run job.Step job.init as s) : as.length + job.measure s ≤ job.measure job.init :=
  hr.length_le (I := Inv job expected)
    (fun _ _ _ hs hst => ⟨inv_move htot hs (move_of_step hst), measure_move htot hmax hs (move_of_step hst)⟩) inv_init

include htot in
theorem run_length_le (hmax : job.maxParallelToolCalls ≠ 0) {s : ExecState ρ} {as : List ExecAct}
    (hr : Lts.Run job.Step job.init as s) : as.length ≤ 8 * job.size + 2 := by
  have hle := length_add_measure htot hmax hr
  have hlt := measure_init job
  rw [fuel] at hlt
  omega

include htot in
theorem run_returned (hmax : job.maxParallelToolCalls ≠ 0) (schedule : List ExecAct) :
    ∃ as, Lts.Run job.Step job.init as (job.run schedule) ∧ Inv job expected (job.run schedule) ∧
      (job.run schedule).pc = .returned := by
  obtain ⟨as, hr⟩ := follow_run job.init schedule
  have h := inv_run htot inv_init hr
  have hμ : job.measure (job.follow job.init schedule) < job.fuel := by
    have := length_add_measure htot hmax hr
    have := measure_init job
    omega
  obtain ⟨bs, hb, hpc⟩ := drain_returned htot hmax job.fuel h hμ
  exact ⟨as ++ bs, hr.append hb, inv_run htot h hb, hpc⟩

end

end ExecJob

/-! ## The executions of a client's tools -/

namespace AIClient

open Fallible

variable (client : AIClient) (site : ToolSite) (call : ToolCall)

structure Admits (tool : RegisteredTool) : Prop where
  registered : client.registry.find? call.name = some tool
  argumentsValid : call.argumentsValid = true
  conforms : Conforms call.arguments tool.spec.inputSchema

variable {client call}

theorem definable_of_registered {name : String} {tool : RegisteredTool} (h : client.registry.find? name = some tool) :
    Definable tool.spec.inputSchema ∧ tool.spec.inputSchema.find? "type" = some (.string "object") := by
  obtain ⟨_, hs, ht⟩ := validateToolSpec_ok (Registry.find?_some h).2.2
  exact ⟨definable_of_validated _ _ hs, ht⟩

theorem Admits.isObject {tool : RegisteredTool} (h : client.Admits call tool) : call.arguments.isObject = true := by
  obtain ⟨htype, _⟩ := h.conforms
  exact valueHasType_iff.mpr (htype _ (definable_of_registered h.registered).2)

theorem invokeTool_contents (implementation : Nat) : (invokeTool site call implementation).1.contents ≠ [] := by
  unfold invokeTool
  split
  · split
    · simp [ToolOutput.error, ToolOutput.text]
    · assumption
  · simp [ToolOutput.error, ToolOutput.text]

/-- **What executing a call does.** It always gives an execution of the call; the implementation is
invoked once if the call is admitted, and the output is an error text if not. -/
theorem executeTool_spec (client : AIClient) (site : ToolSite) (call : ToolCall) :
    ∃ x, client.executeTool site call = .ok x ∧ x.call = call ∧
      ((∃ tool, client.Admits call tool ∧ x.output = (invokeTool site call tool.implementation).1 ∧
          x.invocations = [⟨tool.implementation, ⟨site.sessionId, site.runId, call.id⟩, call.arguments⟩]) ∨
        ((∀ tool, ¬ client.Admits call tool) ∧ (∃ text, x.output = .error text) ∧ x.invocations = [])) := by
  unfold executeTool
  cases hf : client.registry.find? call.name with
  | none => exact ⟨_, rfl, rfl, .inr ⟨fun tool h => (by cases h.registered.symm.trans hf), ⟨_, rfl⟩, rfl⟩⟩
  | some tool =>
    dsimp only
    split
    · rename_i hv
      exact ⟨_, rfl, rfl, .inr ⟨fun tool h => by simp [h.argumentsValid] at hv, ⟨_, rfl⟩, rfl⟩⟩
    · rename_i hv
      obtain ⟨⟨error, he⟩, hiff⟩ := validateValue_sound (definable_of_registered hf).1 call.arguments "$"
      rw [he, ok_bind]
      by_cases hs : error = ""
      · subst hs
        refine ⟨_, if_neg (by simp), rfl, .inl ⟨tool, ⟨hf, by simpa using hv, hiff.mp he⟩, rfl, rfl⟩⟩
      · refine ⟨_, if_pos hs, rfl, .inr ⟨fun tool' h => ?_, ⟨_, rfl⟩, rfl⟩⟩
        have hreg := h.registered
        rw [hf] at hreg
        cases hreg
        have := hiff.mpr h.conforms
        rw [he] at this
        exact hs (Except.ok.inj this)

theorem executeTool_contents {x : ToolExecution} (h : client.executeTool site call = .ok x) :
    x.call = call ∧ x.output.contents ≠ [] := by
  obtain ⟨y, hy, hcall, hcases⟩ := executeTool_spec client site call
  rw [h] at hy
  cases hy
  refine ⟨hcall, ?_⟩
  rcases hcases with ⟨tool, _, ho, _⟩ | ⟨_, ⟨text, ho⟩, _⟩
  · rw [ho]; exact invokeTool_contents site tool.implementation
  · rw [ho]; simp [ToolOutput.error, ToolOutput.text]

variable (client) (sites : Nat → ToolSite) (calls : List ToolCall)

/-- No execution of a client's tool throws. -/
theorem execJob_total : ∃ expected : List ToolExecution,
    (client.execJob sites calls).calls.mapIdx (client.execJob sites calls).execute = expected.map .ok := by
  show ∃ expected : List ToolExecution,
    calls.mapIdx (fun index call => client.executeTool (sites index) call) = expected.map .ok
  induction calls generalizing sites with
  | nil => exact ⟨[], rfl⟩
  | cons call calls ih =>
    obtain ⟨x, hx, _⟩ := executeTool_spec client (sites 0) call
    obtain ⟨xs, hxs⟩ := ih fun index => sites (index + 1)
    exact ⟨x :: xs, by rw [List.mapIdx_cons, hx, hxs, List.map_cons]⟩

theorem execJob_max : (client.execJob sites calls).maxParallelToolCalls ≠ 0 := fun h =>
  client.parallel_ne (UInt64.toNat_inj.mp h)

theorem executeTools_eq (schedule : List ExecAct) : ∃ xs : List ToolExecution,
    (client.executeTools sites calls schedule).1 = .ok xs ∧
      calls.mapIdx (fun index call => client.executeTool (sites index) call) = xs.map .ok := by
  obtain ⟨xs, hxs⟩ := client.execJob_total sites calls
  obtain ⟨_, _, hinv, hpc⟩ := ExecJob.run_returned hxs (client.execJob_max sites calls) schedule
  obtain ⟨hr, _⟩ := hinv.at_return (ExecJob.length_expected hxs) hpc
  exact ⟨xs, by simp only [executeTools, hpc, hr], hxs⟩

/-- **`execute_tools` maps over the calls.** In every run, whatever the order of completion and
wherever launches fail, each call is executed at most once and the executions in progress stay
within the limit; no run is stuck or endless; and a run that returns has executed each call once
and returns the executions in request order. -/
theorem executeTools_refines_map :
    (∀ as s, Lts.Run (client.execJob sites calls).Step (client.execJob sites calls).init as s →
      (client.execJob sites calls).inProgress s ≤ client.options.maxParallelToolCalls.toNat ∧
      (∀ i, s.log.count (.started i) ≤ 1 ∧ s.log.count (.ended i) ≤ 1) ∧
      as.length ≤ 8 * calls.length + 2 ∧
      ((∀ a s', ¬ (client.execJob sites calls).Step s a s') ↔ s.pc = .returned) ∧
      (s.pc = .returned →
        s.results.length = calls.length ∧
        s.results.map .ok = calls.mapIdx (fun index call => client.executeTool (sites index) call) ∧
        ∀ i, s.log.count (.started i) = (if i < calls.length then 1 else 0) ∧
          s.log.count (.ended i) = if i < calls.length then 1 else 0)) ∧
    ∀ schedule, (client.executeTools sites calls schedule).1.map (List.map .ok) =
      .ok (calls.mapIdx fun index call => client.executeTool (sites index) call) := by
  obtain ⟨xs, hxs⟩ := client.execJob_total sites calls
  have hmax := client.execJob_max sites calls
  constructor
  · intro as s hr
    have hinv := ExecJob.inv_run hxs ExecJob.inv_init hr
    have hlen := ExecJob.length_expected hxs
    refine ⟨hinv.inProgress_le hmax, ?_, ExecJob.run_length_le hxs hmax hr, ⟨?_, ?_⟩, ?_⟩
    · intro i
      rw [hinv.starts, hinv.ends]
      constructor <;> split <;> omega
    · intro hstuck
      by_contra hpc
      obtain ⟨a, s', hs, _⟩ := ExecJob.progress hxs hinv hpc
      exact hstuck a s' hs
    · intro hpc a s' hs
      exact hinv.no_step_at_return hpc hs
    · intro hpc
      obtain ⟨hr, hcounts⟩ := hinv.at_return hlen hpc
      exact ⟨by rw [hr, hlen]; rfl, by rw [hr]; exact hxs.symm, hcounts⟩
  · intro schedule
    obtain ⟨ys, hy, hys⟩ := client.executeTools_eq sites calls schedule
    rw [hy, hys]; rfl

end AIClient

end NeuralPlus
