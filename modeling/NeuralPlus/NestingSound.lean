import NeuralPlus.Nesting
import NeuralPlus.RunSound

/-!
# When nested generations deadlock

A thread above a launched callback waits for it. So a wait that cannot end is a
cycle of mutexes, and the step that closes one is a thread that arrives at the
lock guard of a mutex from which the others lead back to what it, or a thread
above it, holds.
-/

namespace NeuralPlus

open Relation

/-! ## The mutex of a call -/

namespace AIClient

/-- The mutex is that of the implementation the call is admitted to. -/
theorem lockedTool_eq_some {client : AIClient} {call : ToolCall} {handle : Nat} :
    client.lockedTool call = some handle ↔ ∃ tool, client.Admits call tool ∧ tool.implementation = handle := by
  unfold lockedTool
  cases hf : client.registry.find? call.name with
  | none =>
    simp only [reduceCtorEq, false_iff, not_exists, not_and]
    intro tool h
    cases h.registered.symm.trans hf
  | some tool =>
    dsimp only
    have hsound := (validateValue_sound (definable_of_registered hf).1 call.arguments "$").2
    constructor
    · intro h
      by_cases hcond : call.argumentsValid = true ∧ validateValueAgainstSchema call.arguments tool.spec.inputSchema "$" = .ok ""
      · rw [if_pos hcond] at h
        exact ⟨tool, ⟨hf, hcond.1, hsound.mp hcond.2⟩, Option.some.inj h⟩
      · rw [if_neg hcond] at h
        cases h
    · intro ⟨tool', h, himplementation⟩
      have hsame := h.registered
      rw [hf] at hsame
      obtain rfl := Option.some.inj hsame
      rw [if_pos ⟨h.argumentsValid, hsound.mpr h.conforms⟩, himplementation]

/-- An execution locks the mutex of the tool it invokes, and no other. -/
theorem lockedTool_invoked {client : AIClient} {site : ToolSite} {call : ToolCall} {x : ToolExecution}
    (h : client.executeTool site call = .ok x) : x.invocations.map Invocation.tool = (client.lockedTool call).toList := by
  obtain ⟨y, hy, _, hcases⟩ := executeTool_spec client site call
  rw [h] at hy
  obtain rfl := Except.ok.inj hy
  rcases hcases with ⟨tool, hadmits, _, hinvocations⟩ | ⟨hnone, _, hinvocations⟩
  · rw [hinvocations, lockedTool_eq_some.mpr ⟨tool, hadmits, rfl⟩]
    rfl
  · have hno : client.lockedTool call = none := by
      by_contra hsome
      obtain ⟨handle, hhandle⟩ := Option.ne_none_iff_exists'.mp hsome
      obtain ⟨tool, hadmits, _⟩ := lockedTool_eq_some.mp hhandle
      exact hnone tool hadmits
    rw [hinvocations, hno]
    rfl

end AIClient

/-! ## Tasks on threads of their own -/

namespace ExecJob

variable {α ρ : Type} {job : ExecJob α ρ} {expected : List ρ} {s s' : ExecState ρ} {i : Nat}

def Launched (s : ExecState ρ) (i : Nat) : Prop := s.tasks i = .running ∧ s.pc ≠ .busy i

theorem not_launched (h : Inv job expected s) (hsame : job.launched s.pc ≤ job.collected s.pc) : ¬ Launched s i := by
  intro hi
  have := h.toInStep.within (i := i) (by simp [hi.1]) (by simp [hi.1])
  omega

theorem not_launched_busy (h : Inv job expected s) {j : Nat} (hpc : s.pc = .busy j) : ¬ Launched s i := by
  intro hi
  have hwithin := h.toInStep.within (i := i) (by simp [hi.1]) (by simp [hi.1])
  simp only [hpc, collected, launched] at hwithin
  have hij : i = j := by omega
  exact hi.2 (by rw [hpc, hij])

theorem push_pc {next : ExecPc} (hnext : ∀ j, next ≠ .busy j) (hp : job.push s i next = some s') :
    s'.tasks = s.tasks ∧ ∀ j, s'.pc ≠ .busy j := by
  cases hr : job.result i with
  | none =>
    simp only [push, hr] at hp
    cases hp
  | some r =>
    cases r with
    | ok r =>
      simp only [push, hr] at hp
      cases hp
      exact ⟨rfl, hnext⟩
    | error e =>
      simp only [push, hr] at hp
      cases hp
      exact ⟨rfl, by simp⟩

/-- The calling thread waits for the callbacks it has launched, and starts no call of its own. -/
theorem Launched.main (h : Inv job expected s) (hi : Launched s i) (hs : job.Step s .main s') :
    Launched s' i ∧ ∀ j, s'.pc ≠ .busy j := by
  have hwithin := h.toInStep.within (i := i) (by simp [hi.1]) (by simp [hi.1])
  have hsame (htasks : s'.tasks i = s.tasks i) (hpc : ∀ j, s'.pc ≠ .busy j) : Launched s' i ∧ ∀ j, s'.pc ≠ .busy j :=
    ⟨⟨by rw [htasks, hi.1], hpc i⟩, hpc⟩
  have hmain : job.main s = some s' := hs
  cases hpc : s.pc with
  | inThread j =>
    simp only [hpc, collected, launched] at hwithin
    omega
  | batch o =>
    simp only [hpc, collected, launched] at hwithin
    omega
  | launching o j =>
    simp only [ExecJob.main, hpc] at hmain
    by_cases hj : j < job.stop o
    · rw [if_pos hj] at hmain
      cases hmain
      apply hsame ?_ (by simp)
      -- the task launched now was idle, and that of `i` runs
      have hne : i ≠ j := by
        intro heq
        have hrunning := hi.1
        rw [heq, h.idle j (by rw [hpc]; exact Nat.le_refl j)] at hrunning
        cases hrunning
      simp [hne]
    · rw [if_neg hj] at hmain
      cases hmain
      exact hsame rfl (by simp)
  | collecting o next stop failed =>
    simp only [ExecJob.main, hpc] at hmain
    by_cases hnext : next < stop
    · rw [if_pos hnext] at hmain
      by_cases hdone : s.tasks next = .done
      · rw [if_pos hdone] at hmain
        have hbusy : ∀ j, ExecPc.collecting o (next + 1) stop failed ≠ .busy j := by simp
        obtain ⟨htasks, hpc'⟩ := push_pc hbusy hmain
        exact hsame (by rw [htasks]) hpc'
      · rw [if_neg hdone] at hmain
        cases hmain
    · rw [if_neg hnext] at hmain
      cases failed <;> cases hmain <;> exact hsame rfl (by simp)
  | unwinding e =>
    have hplace := h.place
    rw [hpc] at hplace
    exact hplace.elim
  | busy j =>
    simp only [ExecJob.main, hpc] at hmain
    cases hmain
  | returned =>
    simp only [ExecJob.main, hpc] at hmain
    cases hmain
  | threw e =>
    simp only [ExecJob.main, hpc] at hmain
    cases hmain

theorem Launched.launchFails (hi : Launched s i) (hs : job.Step s .launchFails s') : Launched s' i := by
  cases hpc : s.pc with
  | launching o j =>
    simp only [Step, step, hpc] at hs
    by_cases hj : j < job.stop o
    · rw [if_pos hj] at hs
      cases hs
      exact ⟨hi.1, by simp⟩
    · rw [if_neg hj] at hs
      cases hs
  | _ =>
    simp only [Step, step, hpc] at hs
    cases hs

theorem launched_start (h : Inv job expected s) {j : Nat} (hs : job.Step s (.start j) s') :
    s.tasks j = .ready ∧ (Launched s' i ↔ i = j ∨ Launched s i) := by
  simp only [Step, step] at hs
  by_cases hready : s.tasks j = .ready
  · rw [if_pos hready] at hs
    cases hs
    refine ⟨hready, ?_⟩
    unfold Launched
    show (mark s j .running).tasks i = .running ∧ s.pc ≠ .busy i ↔ _
    rw [mark_tasks]
    by_cases hij : i = j
    · subst hij
      have hpc : s.pc ≠ .busy i := by
        intro hpc
        rw [h.busy i hpc] at hready
        cases hready
      simp [hpc]
    · simp [hij]
  · rw [if_neg hready] at hs
    cases hs

theorem launched_finish {j : Nat} (hpc : s.pc ≠ .busy j) (hs : job.Step s (.finish j) s') (hij : i ≠ j) :
    Launched s' i ↔ Launched s i := by
  simp only [Step, step, finish] at hs
  by_cases hrunning : s.tasks j = .running
  · rw [if_pos hrunning, if_neg hpc] at hs
    cases hs
    unfold Launched
    show (mark s j .done).tasks i = .running ∧ s.pc ≠ .busy i ↔ _
    rw [mark_tasks, if_neg hij]
  · rw [if_neg hrunning] at hs
    cases hs

end ExecJob

namespace Nesting

/-! ## The stacks -/

def Frame.Under : Frame → Prop
  | .generation | .invoking _ => True
  | .executing _ _ _ e => ∃ i, e.pc = .busy i
  | .calling _ _ | .locking _ => False

def Frame.inTools : Frame → Bool
  | .executing _ _ _ _ => true
  | _ => false

def Executes (client : AIClient) (sites : Nat → ToolSite) (calls : List ToolCall) (e : ExecState ToolExecution) : Prop :=
  ∃ as, Lts.Run (client.execJob sites calls).Step (client.execJob sites calls).init as e

structure StackOk (stack : List Frame) : Prop where
  under : ∀ f rest, stack = f :: rest → ∀ g ∈ rest, g.Under
  executes : ∀ client sites calls e, Frame.executing client sites calls e ∈ stack → Executes client sites calls e

/-- The innermost activation of the stack is in `execute_tools` and waits for the callback it launched for `i`. -/
def Launches (stack : List Frame) (i : Nat) : Prop :=
  ∃ client sites calls e rest, stack = .executing client sites calls e :: rest ∧ ExecJob.Launched e i

structure Inv (s : Threads) : Prop where
  frames : ∀ t stack, s t = some stack → StackOk stack
  launched : ∀ t i, (s (i :: t)).isSome → ∃ stack, s t = some stack ∧ Launches stack i

section
variable {client : AIClient} {sites : Nat → ToolSite} {calls : List ToolCall} {e e' : ExecState ToolExecution}
  {f : Frame} {rest : List Frame}

theorem Executes.inv (h : Executes client sites calls e) :
    ∃ expected, ExecJob.Inv (client.execJob sites calls) expected e := by
  obtain ⟨expected, htot⟩ := client.execJob_total sites calls
  obtain ⟨as, hrun⟩ := h
  exact ⟨expected, ExecJob.inv_run htot ExecJob.inv_init hrun⟩

theorem Executes.step (h : Executes client sites calls e) {a : ExecAct}
    (ha : (client.execJob sites calls).Step e a e') : Executes client sites calls e' := by
  obtain ⟨as, hrun⟩ := h
  exact ⟨as ++ [a], hrun.append (.cons ha (.nil _))⟩

theorem StackOk.tail (h : StackOk (f :: rest)) : StackOk rest where
  under g rest' he := by
    intro k hk
    exact h.under f rest rfl k (by rw [he]; exact List.mem_cons_of_mem _ hk)
  executes client sites calls e he := h.executes client sites calls e (List.mem_cons_of_mem _ he)

theorem StackOk.cons (hunder : ∀ g ∈ rest, g.Under) (hrest : StackOk rest)
    (hf : ∀ client sites calls e, f = .executing client sites calls e → Executes client sites calls e) :
    StackOk (f :: rest) where
  under g rest' he := by
    obtain ⟨_, rfl⟩ := List.cons.inj he
    exact hunder
  executes client sites calls e he := by
    rcases List.mem_cons.mp he with heq | hmem
    · exact hf client sites calls e heq.symm
    · exact hrest.executes client sites calls e hmem

theorem executes_of_other {g : Frame} (hg : g.inTools = false) :
    ∀ client sites calls e, g = .executing client sites calls e → Executes client sites calls e := by
  intro client sites calls e he
  rw [he] at hg
  cases hg

theorem StackOk.replace (h : StackOk (f :: rest)) {g : Frame}
    (hg : ∀ client sites calls e, g = .executing client sites calls e → Executes client sites calls e) :
    StackOk (g :: rest) := .cons (h.under f rest rfl) h.tail hg

theorem StackOk.push (h : StackOk (f :: rest)) (hf : f.Under) {g : Frame}
    (hg : ∀ client sites calls e, g = .executing client sites calls e → Executes client sites calls e) :
    StackOk (g :: f :: rest) := by
  refine .cons ?_ h hg
  rw [List.forall_mem_cons]
  exact ⟨hf, h.under f rest rfl⟩

theorem StackOk.goOn (h : StackOk (.executing client sites calls e :: rest)) {a : ExecAct}
    (ha : (client.execJob sites calls).Step e a e') : StackOk (.executing client sites calls e' :: rest) := by
  apply h.replace
  intro client' sites' calls' e'' he
  cases he
  exact (h.executes client sites calls e (List.mem_cons_self ..)).step ha

theorem not_launches (h : f.inTools = false) (i : Nat) : ¬ Launches (f :: rest) i := by
  intro ⟨client, sites, calls, e, rest', he, _⟩
  rw [(List.cons.inj he).1] at h
  cases h

theorem under_executing : (Frame.executing client sites calls e).Under ↔ ∃ i, e.pc = .busy i := Iff.rfl

end

/-! ## One thread moves -/

section
variable {s : Threads} {t : List Nat} {stack stack' : List Frame}

@[simp] theorem put_self (s : Threads) (t : List Nat) (stack : List Frame) : put s t stack t = some stack :=
  Function.update_self ..

theorem put_ne (s : Threads) {t u : List Nat} (stack : List Frame) (h : u ≠ t) : put s t stack u = s u :=
  Function.update_of_ne h ..

theorem put_isSome (hlive : s t = some stack) (stack' : List Frame) (u : List Nat) :
    (put s t stack' u).isSome = (s u).isSome := by
  by_cases h : u = t
  · rw [h, put_self, hlive]
    rfl
  · rw [put_ne s stack' h]

theorem Inv.moves (h : Inv s) (hlive : s t = some stack) (hok : StackOk stack')
    (hchildren : ∀ i, (s (i :: t)).isSome → Launches stack' i) : Inv (put s t stack') where
  frames u found hu := by
    by_cases hut : u = t
    · rw [hut, put_self] at hu
      rw [← Option.some.inj hu]
      exact hok
    · rw [put_ne s stack' hut] at hu
      exact h.frames u found hu
  launched u i hi := by
    rw [put_isSome hlive] at hi
    by_cases hut : u = t
    · rw [hut, put_self]
      exact ⟨stack', rfl, hchildren i (by rw [← hut]; exact hi)⟩
    · rw [put_ne s stack' hut]
      exact h.launched u i hi

theorem Inv.childless (h : Inv s) (hlive : s t = some stack) (hno : ∀ i, ¬ Launches stack i) (i : Nat) :
    s (i :: t) = none := by
  by_contra hsome
  obtain ⟨found, hfound, hi⟩ := h.launched t i (Option.isSome_iff_ne_none.mpr hsome)
  rw [hlive] at hfound
  rw [← Option.some.inj hfound] at hi
  exact hno i hi

theorem Inv.put_childless (h : Inv s) (hlive : s t = some stack) (hno : ∀ i, ¬ Launches stack i) (hok : StackOk stack') :
    Inv (put s t stack') := by
  apply h.moves hlive hok
  intro i hi
  rw [h.childless hlive hno i] at hi
  cases hi

theorem Inv.add (h : Inv s) {i : Nat} (hparent : s t = some stack) (hi : Launches stack i) (hnew : s (i :: t) = none)
    (hok : StackOk stack') : Inv (put s (i :: t) stack') where
  frames u found hu := by
    by_cases hui : u = i :: t
    · rw [hui, put_self] at hu
      rw [← Option.some.inj hu]
      exact hok
    · rw [put_ne s stack' hui] at hu
      exact h.frames u found hu
  launched u j hj := by
    by_cases huj : j :: u = i :: t
    · obtain ⟨rfl, rfl⟩ := List.cons.inj huj
      rw [put_ne s stack' (List.cons_ne_self _ _).symm]
      exact ⟨stack, hparent, hi⟩
    · rw [put_ne s stack' huj] at hj
      obtain ⟨found, hfound, hlaunches⟩ := h.launched u j hj
      have hne : u ≠ i :: t := by
        intro heq
        rw [heq, hnew] at hfound
        cases hfound
      rw [put_ne s stack' hne]
      exact ⟨found, hfound, hlaunches⟩

theorem Inv.remove (h : Inv s) (hlive : s t = some []) : Inv (Function.update s t none) where
  frames u found hu := by
    by_cases hut : u = t
    · rw [hut, Function.update_self] at hu
      cases hu
    · rw [Function.update_of_ne hut] at hu
      exact h.frames u found hu
  launched u j hj := by
    have hju : j :: u ≠ t := by
      intro heq
      rw [heq, Function.update_self] at hj
      cases hj
    rw [Function.update_of_ne hju] at hj
    obtain ⟨found, hfound, hlaunches⟩ := h.launched u j hj
    have hut : u ≠ t := by
      intro heq
      rw [heq, hlive] at hfound
      rw [← Option.some.inj hfound] at hlaunches
      obtain ⟨_, _, _, _, _, hnil, _⟩ := hlaunches
      cases hnil
    rw [Function.update_of_ne hut]
    exact ⟨found, hfound, hlaunches⟩

end

section
variable {client : AIClient} {sites : Nat → ToolSite} {calls : List ToolCall} {e e' : ExecState ToolExecution}
  {rest : List Frame}

theorem launches_executing {i : Nat} :
    Launches (.executing client sites calls e :: rest) i ↔ ExecJob.Launched e i := by
  refine ⟨fun ⟨_, _, _, _, _, he, hi⟩ => ?_, fun hi => ⟨_, _, _, _, _, rfl, hi⟩⟩
  cases he
  exact hi

theorem Inv.launched_of_live {s : Threads} {t : List Nat} (h : Inv s)
    (hlive : s t = some (.executing client sites calls e :: rest)) {i : Nat} (hi : (s (i :: t)).isSome) :
    ExecJob.Launched e i := by
  obtain ⟨stack, hstack, hlaunches⟩ := h.launched t i hi
  rw [hlive] at hstack
  rwa [← Option.some.inj hstack, launches_executing] at hlaunches

theorem Inv.not_live_of_ready {s : Threads} {t : List Nat} (h : Inv s)
    (hlive : s t = some (.executing client sites calls e :: rest)) {i : Nat} (hready : e.tasks i = .ready) :
    s (i :: t) = none := by
  by_contra hsome
  have hrunning := (h.launched_of_live hlive (Option.isSome_iff_ne_none.mpr hsome)).1
  rw [hready] at hrunning
  cases hrunning

theorem StackOk.current (h : StackOk (.executing client sites calls e :: rest)) :
    ∃ expected, ExecJob.Inv (client.execJob sites calls) expected e :=
  (h.executes client sites calls e (List.mem_cons_self ..)).inv

theorem StackOk.entered (h : StackOk (.executing client sites calls e' :: rest)) :
    StackOk (entered client calls e'.pc ++ .executing client sites calls e' :: rest) := by
  cases hpc : e'.pc with
  | busy index =>
    cases hcall : calls[index]? with
    | none => simpa [Nesting.entered, hcall] using h
    | some call =>
      simp only [Nesting.entered, hcall, Option.map_some, Option.toList_some, List.singleton_append]
      exact h.push (under_executing.mpr ⟨index, hpc⟩) (executes_of_other rfl)
  | _ => exact h

theorem inv_init : Inv init where
  frames t stack h := by
    unfold init at h
    by_cases ht : t = []
    · rw [if_pos ht] at h
      obtain rfl := Option.some.inj h
      refine ⟨fun f rest he g hg => ?_, fun client sites calls e he => ?_⟩
      · rw [← (List.cons.inj he).2] at hg
        cases hg
      · cases List.mem_singleton.mp he
    · rw [if_neg ht] at h
      cases h
  launched t i h := by
    unfold init at h
    rw [if_neg (List.cons_ne_nil i t)] at h
    cases h

theorem inv_step {s s' : Threads} {l : List Nat × Act} (h : Inv s) (hs : Step s l s') : Inv s' := by
  cases hs with
  | respond client sites calls hlive =>
    apply h.put_childless hlive (not_launches rfl)
    apply (h.frames _ _ hlive).push trivial
    intro client' sites' calls' e he
    cases he
    exact ⟨[], .nil _⟩
  | conclude hlive => exact h.put_childless hlive (not_launches rfl) (h.frames _ _ hlive).tail
  | @main t rest client sites calls e e' hlive hmain =>
    have hok := h.frames _ _ hlive
    obtain ⟨expected, hinv⟩ := hok.current
    apply h.moves hlive (hok.goOn hmain).entered
    intro i hi
    obtain ⟨hlaunched, hpc⟩ := (h.launched_of_live hlive hi).main hinv hmain
    have hnone : entered client calls e'.pc = [] := by
      cases hpc' : e'.pc with
      | busy j => exact absurd hpc' (hpc j)
      | _ => rfl
    rw [hnone]
    exact launches_executing.mpr hlaunched
  | @launchFails t rest client sites calls e e' hlive hfails =>
    apply h.moves hlive ((h.frames _ _ hlive).goOn hfails)
    intro i hi
    exact launches_executing.mpr ((h.launched_of_live hlive hi).launchFails hfails)
  | @start t rest client sites calls e e' call index hlive hstart hcall =>
    have hok := h.frames _ _ hlive
    obtain ⟨expected, hinv⟩ := hok.current
    have hready := (ExecJob.launched_start (i := index) hinv hstart).1
    -- a ready task has no thread yet, so the name of the new one is free
    have hnew := h.not_live_of_ready hlive hready
    have hmoved : Inv (put s t (.executing client sites calls e' :: rest)) := by
      apply h.moves hlive (hok.goOn hstart)
      intro i hi
      exact launches_executing.mpr ((ExecJob.launched_start hinv hstart).2.mpr (.inr (h.launched_of_live hlive hi)))
    apply hmoved.add (put_self s t _)
    · exact launches_executing.mpr ((ExecJob.launched_start hinv hstart).2.mpr (.inl rfl))
    · rw [put_ne s _ (List.cons_ne_self _ _)]
      exact hnew
    · refine ⟨fun f rest he g hg => ?_, fun client sites calls e he => ?_⟩
      · rw [← (List.cons.inj he).2] at hg
        cases hg
      · cases List.mem_singleton.mp he
  | @join t rest client sites calls e e' index hlive hdone hfinish =>
    have hok := h.frames _ _ hlive
    have hne : t ≠ index :: t := (List.cons_ne_self _ _).symm
    -- take the finished thread out first; the other callbacks of `t` are still launched
    have hcomm : Function.update (put s t (.executing client sites calls e' :: rest)) (index :: t) none =
        put (Function.update s (index :: t) none) t (.executing client sites calls e' :: rest) :=
      Function.update_comm hne ..
    rw [hcomm]
    apply (h.remove hdone).moves (by rw [Function.update_of_ne hne]; exact hlive) (hok.goOn hfinish)
    intro i hi
    have hij : i ≠ index := by
      intro heq
      rw [heq, Function.update_self] at hi
      cases hi
    rw [Function.update_of_ne (by simpa using hij)] at hi
    have hindex : ExecJob.Launched e index := h.launched_of_live hlive (by rw [hdone]; rfl)
    exact launches_executing.mpr ((ExecJob.launched_finish hindex.2 hfinish hij).mpr (h.launched_of_live hlive hi))
  | @resume t rest client sites calls e e' index hlive hpc hfinish =>
    have hok := h.frames _ _ hlive
    obtain ⟨expected, hinv⟩ := hok.current
    apply h.put_childless hlive ?_ (hok.goOn hfinish)
    intro i hi
    exact ExecJob.not_launched_busy hinv hpc (launches_executing.mp hi)
  | @leave t rest client sites calls e hlive hpc =>
    have hok := h.frames _ _ hlive
    obtain ⟨expected, hinv⟩ := hok.current
    apply h.put_childless hlive ?_ hok.tail
    intro i hi
    exact ExecJob.not_launched hinv (by rw [hpc]; exact Nat.le_refl _) (launches_executing.mp hi)
  | skip hlive _ => exact h.put_childless hlive (not_launches rfl) (h.frames _ _ hlive).tail
  | ask hlive _ => exact h.put_childless hlive (not_launches rfl) ((h.frames _ _ hlive).replace (executes_of_other rfl))
  | lock hlive _ => exact h.put_childless hlive (not_launches rfl) ((h.frames _ _ hlive).replace (executes_of_other rfl))
  | nest hlive => exact h.put_childless hlive (not_launches rfl) ((h.frames _ _ hlive).push trivial (executes_of_other rfl))
  | unlock hlive => exact h.put_childless hlive (not_launches rfl) (h.frames _ _ hlive).tail

end

/-! ## What each step does to the mutexes -/

section
variable {s s' : Threads} {t u : List Nat}

theorem Inv.above (h : Inv s) : ∀ {u : List Nat}, (s u).isSome → t <:+ u → t ≠ u →
    ∃ stack i, s t = some stack ∧ Launches stack i
  | [], _, ht, hne => absurd (List.eq_nil_of_suffix_nil ht) hne
  | i :: u, hu, ht, hne => by
    obtain ⟨stack, hstack, hlaunches⟩ := h.launched u i hu
    rcases List.suffix_cons_iff.mp ht with heq | hsuffix
    · exact absurd heq hne
    · by_cases htu : t = u
      · exact ⟨stack, i, by rw [htu, hstack], hlaunches⟩
      · exact h.above (by rw [hstack]; rfl) hsuffix htu

theorem Inv.waits (h : Inv s) : ∀ {u : List Nat}, (s u).isSome → ∀ {t}, t <:+ u → ReflTransGen (snapshot s).Waits t u
  | [], _, t, ht => by rw [List.eq_nil_of_suffix_nil ht]
  | i :: u, hu, t, ht => by
    rcases List.suffix_cons_iff.mp ht with heq | hsuffix
    · rw [heq]
    · obtain ⟨stack, hstack, _⟩ := h.launched u i hu
      have hup := h.waits (by rw [hstack]; rfl : (s u).isSome) hsuffix
      exact hup.tail (.callback hu)

theorem isSome_of_wants {tool : Nat} (h : WantsMutex (s u) tool) : (s u).isSome := by
  obtain ⟨⟨rest, hrest⟩, _⟩ := h
  rw [hrest]
  rfl

theorem Inv.linked (h : Inv s) : (snapshot s).Linked := fun _ _ hwants _ hsuffix => h.waits (isSome_of_wants hwants) hsuffix

def Calmer (before after : Option (List Frame)) : Prop :=
  (∀ tool, HoldsMutex after tool → HoldsMutex before tool) ∧ ∀ tool, ¬ WantsMutex after tool

theorem heldFor_calmer (h : ∀ u, s' u = s u ∨ Calmer (s u) (s' u)) (a b : Nat) :
    (snapshot s').HeldFor a b → (snapshot s).HeldFor a b := by
  intro ⟨u, t, hut, hholds, hwants⟩
  have hholds : HoldsMutex (s' u) a := hholds
  have hwants : WantsMutex (s' t) b := hwants
  refine ⟨u, t, hut, ?_, ?_⟩
  · rcases h u with heq | hcalm
    · rwa [heq] at hholds
    · exact hcalm.1 a hholds
  · rcases h t with heq | hcalm
    · rwa [heq] at hwants
    · exact absurd hwants (hcalm.2 b)

def Frame.quiet : Frame → Bool
  | .generation | .executing _ _ _ _ | .calling _ _ => true
  | .locking _ | .invoking _ => false

section
variable {f g : Frame} {rest rest' stack : List Frame}

theorem calmer_none (before : Option (List Frame)) : Calmer before none :=
  ⟨fun _ ⟨_, hnone, _⟩ => (by cases hnone), fun _ ⟨⟨_, hnone⟩, _⟩ => (by cases hnone)⟩

theorem calmer_cons (hg : g.quiet = true) (hsub : ∀ tool, Frame.invoking tool ∈ rest' → .invoking tool ∈ stack) :
    Calmer (some stack) (some (g :: rest')) := by
  refine ⟨fun tool ⟨frames, hframes, hmem⟩ => ?_, fun tool ⟨⟨rest, hrest⟩, _⟩ => ?_⟩
  · rw [← Option.some.inj hframes] at hmem
    rcases List.mem_cons.mp hmem with heq | hmem
    · rw [← heq] at hg
      cases hg
    · exact ⟨stack, rfl, hsub tool hmem⟩
  · rw [(List.cons.inj (Option.some.inj hrest)).1] at hg
    cases hg

theorem calmer_new (client : AIClient) (call : ToolCall) : Calmer none (some [.calling client call]) := by
  refine ⟨fun tool ⟨frames, hframes, hmem⟩ => ?_, fun tool ⟨⟨rest, hrest⟩, _⟩ => ?_⟩
  · rw [← Option.some.inj hframes] at hmem
    cases List.mem_singleton.mp hmem
  · cases hrest

theorem StackOk.calmer_tail (h : StackOk (f :: rest)) : Calmer (some (f :: rest)) (some rest) := by
  refine ⟨fun tool ⟨frames, hframes, hmem⟩ => ?_, fun tool ⟨⟨below, hrest⟩, _⟩ => ?_⟩
  · rw [← Option.some.inj hframes] at hmem
    exact ⟨f :: rest, rfl, List.mem_cons_of_mem _ hmem⟩
  · exact h.under f rest rfl (.locking tool) (by rw [Option.some.inj hrest]; exact List.mem_cons_self ..)

theorem calmer_replace (hg : g.quiet = true) : Calmer (some (f :: rest)) (some (g :: rest)) :=
  calmer_cons hg fun _ hmem => List.mem_cons_of_mem _ hmem

theorem calmer_push (hg : g.quiet = true) : Calmer (some stack) (some (g :: stack)) := calmer_cons hg fun _ hmem => hmem

theorem Calmer.trans {before between after : Option (List Frame)} (h : Calmer before between)
    (h' : Calmer between after) : Calmer before after :=
  ⟨fun tool hholds => h.1 tool (h'.1 tool hholds), h'.2⟩

theorem calmer_entered {client : AIClient} {sites : Nat → ToolSite} {calls : List ToolCall} {e e' : ExecState ToolExecution} :
    Calmer (some (.executing client sites calls e :: rest))
      (some (entered client calls e'.pc ++ .executing client sites calls e' :: rest)) := by
  have hreplace : Calmer (some (.executing client sites calls e :: rest))
      (some (.executing client sites calls e' :: rest)) := calmer_replace rfl
  cases hpc : e'.pc with
  | busy index =>
    cases hcall : calls[index]? with
    | none => simpa [entered, hcall] using hreplace
    | some call =>
      simp only [entered, hcall, Option.map_some, Option.toList_some, List.singleton_append]
      exact hreplace.trans (calmer_push rfl)
  | _ => exact hreplace

end

theorem put_calmer {stack stack' : List Frame} (hlive : s t = some stack)
    (h : Calmer (some stack) (some stack')) : ∀ u, put s t stack' u = s u ∨ Calmer (s u) (put s t stack' u) := by
  intro u
  by_cases hut : u = t
  · rw [hut, put_self, hlive]
    exact .inr h
  · exact .inl (put_ne s stack' hut)

/-- Taking a mutex: who wants another one is not below the thread, which has launched nothing. -/
theorem Inv.heldFor_lock (h : Inv s) {rest : List Frame} {tool : Nat} (hlive : s t = some (.locking tool :: rest))
    (a b : Nat) : (snapshot (put s t (.invoking tool :: rest))).HeldFor a b → (snapshot s).HeldFor a b := by
  intro ⟨u, v, huv, hholds, hwants⟩
  have hholds : HoldsMutex (put s t (.invoking tool :: rest) u) a := hholds
  have hwants : WantsMutex (put s t (.invoking tool :: rest) v) b := hwants
  have hvt : v ≠ t := by
    intro heq
    rw [heq, put_self] at hwants
    obtain ⟨⟨below, hbelow⟩, _⟩ := hwants
    cases hbelow
  rw [put_ne s _ hvt] at hwants
  have hut : u ≠ t := by
    intro heq
    rw [heq] at huv
    obtain ⟨stack, i, hstack, hlaunches⟩ := h.above (isSome_of_wants hwants) huv (Ne.symm hvt)
    rw [hlive] at hstack
    rw [← Option.some.inj hstack] at hlaunches
    exact not_launches rfl i hlaunches
  rw [put_ne s _ hut] at hholds
  exact ⟨u, v, huv, hholds, hwants⟩

/-- Arriving at a lock guard: what the thread and those above it hold is now held for the mutex. -/
theorem heldFor_ask {rest : List Frame} {client : AIClient} {call : ToolCall} {tool : Nat}
    (hlive : s t = some (.calling client call :: rest)) (a b : Nat) :
    (snapshot (put s t (.locking tool :: rest))).HeldFor a b ↔
      (snapshot s).HeldFor a b ∨ (∃ u, u <:+ t ∧ HoldsMutex (s u) a) ∧ ¬ HoldsMutex (s t) tool ∧ b = tool := by
  have hholds (u : List Nat) (k : Nat) : HoldsMutex (put s t (.locking tool :: rest) u) k ↔ HoldsMutex (s u) k := by
    by_cases hut : u = t
    · rw [hut, put_self, hlive]
      simp [HoldsMutex]
    · rw [put_ne s _ hut]
  -- the thread wanted nothing before, so only its new wish is added
  have hno (k : Nat) : ¬ WantsMutex (s t) k := by
    intro ⟨⟨below, hbelow⟩, _⟩
    rw [hlive] at hbelow
    cases hbelow
  constructor
  · intro ⟨u, v, huv, hu, hv⟩
    have hu : HoldsMutex (s u) a := (hholds u a).mp hu
    have hv : WantsMutex (put s t (.locking tool :: rest) v) b := hv
    by_cases hvt : v = t
    · have hown := hv.2
      rw [hholds] at hown
      obtain ⟨⟨below, hbelow⟩, _⟩ := hv
      rw [hvt, put_self] at hbelow
      cases hbelow
      rw [hvt] at huv hown
      exact .inr ⟨⟨u, huv, hu⟩, hown, rfl⟩
    · rw [put_ne s _ hvt] at hv
      exact .inl ⟨u, v, huv, hu, hv⟩
  · intro h
    rcases h with ⟨u, v, huv, hu, hv⟩ | ⟨⟨u, hut, hu⟩, hown, rfl⟩
    · have hvt : v ≠ t := by
        intro heq
        rw [heq] at hv
        exact hno b hv
      refine ⟨u, v, huv, (hholds u a).mpr hu, ?_⟩
      show WantsMutex (put s t (.locking tool :: rest) v) b
      rw [put_ne s _ hvt]
      exact hv
    · refine ⟨u, t, hut, (hholds u a).mpr hu, ⟨rest, put_self s t _⟩, ?_⟩
      rw [hholds]
      exact hown

theorem Inv.heldFor_step (h : Inv s) {l : List Nat × Act} (hs : Step s l s') (hl : l.2 ≠ .ask) (a b : Nat) :
    (snapshot s').HeldFor a b → (snapshot s).HeldFor a b := by
  cases hs with
  | respond client sites calls hlive => exact heldFor_calmer (put_calmer hlive (calmer_push rfl)) a b
  | conclude hlive => exact heldFor_calmer (put_calmer hlive (h.frames _ _ hlive).calmer_tail) a b
  | main hlive _ => exact heldFor_calmer (put_calmer hlive calmer_entered) a b
  | launchFails hlive _ => exact heldFor_calmer (put_calmer hlive (calmer_replace rfl)) a b
  | @start t rest client sites calls e e' call index hlive hstart _ =>
    obtain ⟨expected, hinv⟩ := (h.frames _ _ hlive).current
    have hnew := h.not_live_of_ready hlive (ExecJob.launched_start (i := index) hinv hstart).1
    apply heldFor_calmer
    intro u
    by_cases hut : u = index :: t
    · rw [hut, put_self, hnew]
      exact .inr (calmer_new client call)
    · rw [put_ne _ _ hut]
      exact put_calmer hlive (calmer_replace rfl) u
  | @join t rest client sites calls e e' index hlive hdone _ =>
    apply heldFor_calmer
    intro u
    by_cases hut : u = index :: t
    · rw [hut, Function.update_self]
      exact .inr (calmer_none _)
    · rw [Function.update_of_ne hut]
      exact put_calmer hlive (calmer_replace rfl) u
  | resume _ hlive _ _ => exact heldFor_calmer (put_calmer hlive (calmer_replace rfl)) a b
  | leave hlive _ => exact heldFor_calmer (put_calmer hlive (h.frames _ _ hlive).calmer_tail) a b
  | skip hlive _ => exact heldFor_calmer (put_calmer hlive (h.frames _ _ hlive).calmer_tail) a b
  | ask _ _ => exact absurd rfl hl
  | lock hlive _ => exact h.heldFor_lock hlive a b
  | nest hlive => exact heldFor_calmer (put_calmer hlive (calmer_push rfl)) a b
  | unlock hlive => exact heldFor_calmer (put_calmer hlive (h.frames _ _ hlive).calmer_tail) a b

end

/-! ## Deadlocks -/

/-- A thread that arrives at the lock guard of a mutex it does not own: no chain of mutexes, each
held by a thread or above it while that thread wants the next, leads from this one to a mutex
that the thread or one above it holds. The mutex itself is then not held above the thread. -/
def InOrder (s : Threads) (l : List Nat × Act) : Prop :=
  l.2 = .ask → ∀ client call rest tool, s l.1 = some (.calling client call :: rest) → client.lockedTool call = some tool →
    ¬ HoldsMutex (s l.1) tool → ∀ u k, u <:+ l.1 → HoldsMutex (s u) k → ¬ ReflTransGen (snapshot s).HeldFor tool k

section
variable {s s' : Threads} {l : List Nat × Act}

theorem Inv.deadlocked_iff (h : Inv s) : Deadlocked s ↔ ¬ WaitFor.Acyclic (snapshot s).HeldFor :=
  WaitFor.Snapshot.deadlocked_iff h.linked

theorem not_heldFor_init (a b : Nat) : ¬ (snapshot init).HeldFor a b := by
  intro ⟨_, t, _, _, ⟨below, hbelow⟩, _⟩
  unfold init at hbelow
  by_cases ht : t = []
  · rw [if_pos ht] at hbelow
    cases hbelow
  · rw [if_neg ht] at hbelow
    cases hbelow

theorem acyclic_init : WaitFor.Acyclic (snapshot init).HeldFor := by
  intro a hcycle
  obtain ⟨b, _, hheld⟩ := TransGen.tail'_iff.mp hcycle
  exact not_heldFor_init b a hheld

theorem Inv.acyclic_step (h : Inv s) (hs : Step s l s') (ho : InOrder s l)
    (ha : WaitFor.Acyclic (snapshot s).HeldFor) : WaitFor.Acyclic (snapshot s').HeldFor := by
  by_cases hl : l.2 = .ask
  · cases hs with
    | @ask t rest client call tool hlive htool =>
      by_cases hown : HoldsMutex (s t) tool
      · apply ha.mono
        intro a b hab
        rcases (heldFor_ask hlive a b).mp hab with hold | ⟨_, hnot, _⟩
        · exact hold
        · exact absurd hown hnot
      · apply ha.into (m := tool) (P := fun k => ∃ u, u <:+ t ∧ HoldsMutex (s u) k)
        · intro a b hab
          rcases (heldFor_ask hlive a b).mp hab with hold | ⟨hheld, _, rfl⟩
          · exact .inl hold
          · exact .inr ⟨hheld, rfl⟩
        · intro k ⟨u, hut, hheld⟩
          exact ho rfl client call rest tool hlive htool hown u k hut hheld
    | _ => cases hl
  · exact ha.mono (h.heldFor_step hs hl)

theorem Inv.deadlocked_of_not_inOrder (h : Inv s) (hnot : ¬ InOrder s l) : ∃ s', Step s l s' ∧ Deadlocked s' := by
  obtain ⟨t, act⟩ := l
  unfold InOrder at hnot
  simp only [not_forall, not_not] at hnot
  obtain ⟨rfl, client, call, rest, tool, hlive, htool, hown, u, k, hut, hheld, hchain⟩ := hnot
  have hask : Step s (t, .ask) (put s t (.locking tool :: rest)) := .ask hlive htool
  refine ⟨_, hask, (inv_step h hask).deadlocked_iff.mpr ?_⟩
  intro hacyclic
  have hmono : ReflTransGen (snapshot (put s t (.locking tool :: rest))).HeldFor tool k :=
    ReflTransGen.mono (fun a b hab => (heldFor_ask hlive a b).mpr (.inl hab)) _ _ hchain
  have hclose : (snapshot (put s t (.locking tool :: rest))).HeldFor k tool :=
    (heldFor_ask hlive k tool).mpr (.inr ⟨⟨u, hut, hheld⟩, hown, rfl⟩)
  exact hacyclic tool (.tail' hmono hclose)

end

/-- The prefixes of a run whose arrivals are in order reach no cycle. -/
theorem acyclic_run {ls : List (List Nat × Act)} (ho : ∀ before l after s, ls = before ++ l :: after →
    Lts.Run Step init before s → InOrder s l) {before after : List (List Nat × Act)} (hls : ls = before ++ after)
    {s : Threads} (hrun : Lts.Run Step init before s) : Inv s ∧ WaitFor.Acyclic (snapshot s).HeldFor := by
  induction before using List.reverseRecOn generalizing after s with
  | nil =>
    cases hrun
    exact ⟨inv_init, acyclic_init⟩
  | append_singleton before l ih =>
    obtain ⟨t, hbefore, hlast⟩ := hrun.split
    cases hlast with
    | cons hstep hnil =>
      cases hnil
      rw [List.append_assoc, List.singleton_append] at hls
      obtain ⟨hinv, hacyclic⟩ := ih hls hbefore
      exact ⟨inv_step hinv hstep, hinv.acyclic_step hstep (ho before l after t hls hbefore) hacyclic⟩

theorem inv_run {ls : List (List Nat × Act)} {s : Threads} (hrun : Lts.Run Step init ls s) : Inv s :=
  hrun.invariant (fun _ _ _ h hs => inv_step h hs) inv_init

/-- **When nested generations do not deadlock**: no state of a run is a deadlock exactly when every
arrival at a lock guard in the run is in order. -/
theorem no_deadlock_iff (ls : List (List Nat × Act)) :
    (∀ before after s, ls = before ++ after → Lts.Run Step init before s → ¬ Deadlocked s) ↔
      ∀ before l after s, ls = before ++ l :: after → Lts.Run Step init before s → InOrder s l := by
  constructor
  · intro hno before l after s hls hrun
    by_contra hnot
    obtain ⟨s', hstep, hdead⟩ := (inv_run hrun).deadlocked_of_not_inOrder hnot
    apply hno (before ++ [l]) after s' (by rw [hls]; simp) ?_ hdead
    exact hrun.append (.cons hstep (.nil _))
  · intro ho before after s hls hrun
    obtain ⟨hinv, hacyclic⟩ := acyclic_run ho hls hrun
    rw [hinv.deadlocked_iff, not_not]
    exact hacyclic

/-! ## Tools in an order -/

/-- A thread asks only for mutexes it owns or that rank above all that it and the threads above it hold. -/
def Ascends (rank : Nat → Nat) (s : Threads) (l : List Nat × Act) : Prop :=
  l.2 = .ask → ∀ client call rest tool, s l.1 = some (.calling client call :: rest) → client.lockedTool call = some tool →
    ¬ HoldsMutex (s l.1) tool → ∀ u k, u <:+ l.1 → HoldsMutex (s u) k → rank k < rank tool

theorem ranked_step {rank : Nat → Nat} {s s' : Threads} {l : List Nat × Act} (h : Inv s) (hs : Step s l s')
    (ha : Ascends rank s l) (hr : ∀ a b, (snapshot s).HeldFor a b → rank a < rank b) :
    ∀ a b, (snapshot s').HeldFor a b → rank a < rank b := by
  intro a b hab
  by_cases hl : l.2 = .ask
  · cases hs with
    | @ask t rest client call tool hlive htool =>
      rcases (heldFor_ask hlive a b).mp hab with hold | ⟨⟨u, hut, hheld⟩, hown, rfl⟩
      · exact hr a b hold
      · exact ha rfl client call rest b hlive htool hown u a hut hheld
    | _ => cases hl
  · exact hr a b (h.heldFor_step hs hl a b hab)

/-- **Tools taken in one order never deadlock.** -/
theorem no_deadlock_of_ascends (rank : Nat → Nat) {ls : List (List Nat × Act)} {s : Threads}
    (hrun : Lts.Run (fun s l s' => Step s l s' ∧ Ascends rank s l) init ls s) : ¬ Deadlocked s := by
  have hboth : Inv s ∧ ∀ a b, (snapshot s).HeldFor a b → rank a < rank b := by
    apply hrun.invariant (I := fun s => Inv s ∧ ∀ a b, (snapshot s).HeldFor a b → rank a < rank b)
    · intro s l s' ⟨h, hr⟩ ⟨hs, ha⟩
      exact ⟨inv_step h hs, ranked_step h hs ha hr⟩
    · exact ⟨inv_init, fun a b hab => absurd hab (not_heldFor_init a b)⟩
  obtain ⟨hinv, hranked⟩ := hboth
  rw [hinv.deadlocked_iff, not_not]
  intro a hcycle
  have hlt : rank a < rank a := TransGen.trans_induction_on (motive := fun {b c} _ => rank b < rank c) hcycle
    (fun hbc => hranked _ _ hbc) (fun _ _ => Nat.lt_trans)
  exact Nat.lt_irrefl _ hlt

theorem lockedTool_lookup (id : String) : AIClient.lookupClient.lockedTool (AIClient.lookupCall id) = some 0 := by
  have hconforms : validateValueAgainstSchema .emptyObject AIClient.lookupSpec.inputSchema "$" = .ok "" := by decide +kernel
  have hfind : AIClient.lookupClient.registry.find? (AIClient.lookupCall id).name = some ⟨0, AIClient.lookupSpec⟩ := rfl
  unfold AIClient.lockedTool
  rw [hfind]
  exact if_pos ⟨rfl, hconforms⟩

def anySite (_ : Nat) : ToolSite := { sessionId := "", runId := "", invoke := fun _ _ _ => .error .unknown }

/-- The root generation calls a tool, whose callback runs a generation with two calls of the same
tool: it waits for callbacks that wait for it. -/
theorem reentry_deadlocks : ∃ ls s e rest, Lts.Run Step init ls s ∧
    s [] = some (.executing AIClient.lookupClient anySite [AIClient.lookupCall "b", AIClient.lookupCall "c"] e :: rest) ∧
    e.pc = .collecting 0 0 2 false ∧ Deadlocked s := by
  refine ⟨_, _, _, _, .cons (.respond (t := []) AIClient.lookupClient anySite [AIClient.lookupCall "a"] rfl) <|
    .cons (.main (t := []) rfl rfl) <| .cons (.ask (t := []) rfl (lockedTool_lookup "a")) <|
    .cons (.lock (t := []) rfl ?_) <| .cons (.nest (t := []) rfl) <|
    .cons (.respond (t := []) AIClient.lookupClient anySite [AIClient.lookupCall "b", AIClient.lookupCall "c"] rfl) <|
    .cons (.main (t := []) rfl rfl) <| .cons (.main (t := []) rfl rfl) <| .cons (.main (t := []) rfl rfl) <|
    .cons (.main (t := []) rfl rfl) <| .cons (.start (t := []) 0 rfl rfl rfl) <|
    .cons (.ask (t := [0]) rfl (lockedTool_lookup "b")) <| .nil _, rfl, rfl, ?_⟩
  · intro u hu ⟨frames, hframes, _⟩
    rw [put_ne _ _ hu, put_ne _ _ hu, put_ne _ _ hu, init, if_neg hu] at hframes
    cases hframes
  · refine ⟨[0], 0, [], ⟨⟨[], rfl⟩, ?_⟩, ⟨_, rfl, ?_⟩, .single (.callback rfl)⟩
    · intro ⟨frames, hframes, hmem⟩
      rw [put_self] at hframes
      rw [← Option.some.inj hframes] at hmem
      cases List.mem_singleton.mp hmem
    · exact .tail _ (.tail _ (.head _))

end Nesting

end NeuralPlus
