import NeuralPlus.Locked
import NeuralPlus.Types

/-!
# Session-scoped application state

`SessionState`: a map from keys to values of any type behind one mutex. Each
method is the body of a critical section. `update` touches the map before it
calls the update function, so what it leaves behind depends on how it fails.
The value types are those a `std::any` can hold, `std::any` itself not among
them, and their copies do not throw.
-/

namespace NeuralPlus

open Locked

/-- `std::any` over the value types `Val` of the type tags `Ty`. -/
abbrev AnyValue {Ty : Type} (Val : Ty → Type) := Σ t, Val t

abbrev StateValues {Ty : Type} (Val : Ty → Type) := String → Option (AnyValue Val)

inductive StateResult {Ty : Type} (Val : Ty → Type) where
  | unit
  | contained (found : Bool)
  | value (v : Option (AnyValue Val))

/-- A call of a method. An update function takes its argument by value. -/
inductive StateCall {Ty : Type} (Val : Ty → Type) where
  | set (t : Ty) (key : String) (value : Val t)
  | get (t : Ty) (key : String)
  | update (t : Ty) (key : String) (initialValue : Val t) (updateFunction : Val t → Except Exc (Val t))
  | contains (key : String)
  | erase (key : String)
  | clear

def badAnyCast : Exc := .std "bad any_cast"

section
variable {Ty : Type} [DecidableEq Ty] {Val : Ty → Type}

def anyCast (t : Ty) (stored : AnyValue Val) : Option (Val t) :=
  if h : stored.1 = t then some (h ▸ stored.2) else none

@[simp] theorem anyCast_self (t : Ty) (v : Val t) : anyCast t ⟨t, v⟩ = some v := by
  unfold anyCast
  rw [dif_pos rfl]

namespace StateValues

def assign (key : String) (v : AnyValue Val) (values : StateValues Val) : StateValues Val :=
  Function.update values key (some v)

def tryEmplace (key : String) (v : AnyValue Val) (values : StateValues Val) : StateValues Val :=
  match values key with
  | none => values.assign key v
  | some _ => values

end StateValues

namespace SessionState

def set (t : Ty) (key : String) (value : Val t) : Body (StateValues Val) (Except Exc Unit) :=
  .act (StateValues.assign key ⟨t, value⟩) fun _ => .done (.ok ())

def get (t : Ty) (key : String) : Body (StateValues Val) (Except Exc (Option (Val t))) :=
  .act id fun values =>
    match values key with
    | none => .done (.ok none)
    | some stored =>
      match anyCast t stored with
      | none => .done (.error badAnyCast)
      | some value => .done (.ok (some value))

def update (t : Ty) (key : String) (initialValue : Val t) (updateFunction : Val t → Except Exc (Val t)) :
    Body (StateValues Val) (Except Exc (Val t)) :=
  .act (StateValues.tryEmplace key ⟨t, initialValue⟩) fun values =>
    match (values key).bind (anyCast t) with
    | none => .done (.error badAnyCast)
    | some current =>
      match updateFunction current with
      | .error e => .done (.error e)
      | .ok value => .act (StateValues.assign key ⟨t, value⟩) fun _ => .done (.ok value)

def contains (key : String) : Body (StateValues Val) (Except Exc Bool) :=
  .act id fun values => .done (.ok (values key).isSome)

def erase (key : String) : Body (StateValues Val) (Except Exc Unit) :=
  .act (fun values => Function.update values key none) fun _ => .done (.ok ())

def clear : Body (StateValues Val) (Except Exc Unit) :=
  .act (fun _ _ => none) fun _ => .done (.ok ())

def body : StateCall Val → Body (StateValues Val) (Except Exc (StateResult Val))
  | .set t key value => (set t key value).map (·.map fun _ => .unit)
  | .get t key => (get t key).map (·.map fun v => .value (v.map (⟨t, ·⟩)))
  | .update t key initialValue updateFunction =>
    (update t key initialValue updateFunction).map (·.map fun v => .value (some ⟨t, v⟩))
  | .contains key => (contains key).map (·.map .contained)
  | .erase key => (erase key).map (·.map fun _ => .unit)
  | .clear => clear.map (·.map fun _ => .unit)

end SessionState

/-! ## One update -/

/-- The value an update starts from: the initial one for an absent key, none for a value of another type. -/
def currentValue (values : StateValues Val) (t : Ty) (key : String) (initialValue : Val t) : Option (Val t) :=
  match values key with
  | none => some initialValue
  | some stored => anyCast t stored

/-- The function's result with the key bound to it and all else as it was, or
an exception and the whole map as it was. -/
def AtomicUpdate (values : StateValues Val) (t : Ty) (key : String) (initialValue : Val t)
    (updateFunction : Val t → Except Exc (Val t)) : Prop :=
  let after := (SessionState.update t key initialValue updateFunction).run values
  (∃ current value, currentValue values t key initialValue = some current ∧ updateFunction current = .ok value ∧
      after.2 = .ok value ∧ after.1 key = some ⟨t, value⟩ ∧ ∀ other, other ≠ key → after.1 other = values other) ∨
    ((∃ e, after.2 = .error e ∧
        (currentValue values t key initialValue = none ∨
          ∃ current, currentValue values t key initialValue = some current ∧ updateFunction current = .error e)) ∧
      after.1 = values)

namespace StateValues

omit [DecidableEq Ty] in
@[simp] theorem assign_self (key : String) (v : AnyValue Val) (values : StateValues Val) : values.assign key v key = some v :=
  Function.update_self ..

omit [DecidableEq Ty] in
theorem assign_of_ne {key other : String} (h : other ≠ key) (v : AnyValue Val) (values : StateValues Val) :
    values.assign key v other = values other :=
  Function.update_of_ne h ..

omit [DecidableEq Ty] in
theorem assign_assign (key : String) (v w : AnyValue Val) (values : StateValues Val) :
    (values.assign key v).assign key w = values.assign key w :=
  Function.update_idem ..

omit [DecidableEq Ty] in
theorem tryEmplace_absent {key : String} {values : StateValues Val} (h : values key = none) (v : AnyValue Val) :
    values.tryEmplace key v = values.assign key v := by
  unfold tryEmplace
  rw [h]

omit [DecidableEq Ty] in
theorem tryEmplace_present {key : String} {values : StateValues Val} {stored : AnyValue Val}
    (h : values key = some stored) (v : AnyValue Val) : values.tryEmplace key v = values := by
  unfold tryEmplace
  rw [h]

end StateValues

variable {values : StateValues Val} {t : Ty} {key : String} {initialValue : Val t}
  {updateFunction : Val t → Except Exc (Val t)}

theorem update_wrong_type (h : currentValue values t key initialValue = none) :
    (SessionState.update t key initialValue updateFunction).run values = (values, .error badAnyCast) := by
  unfold currentValue at h
  cases hkey : values key with
  | none =>
    simp only [hkey] at h
    cases h
  | some stored =>
    simp only [hkey] at h
    simp [SessionState.update, Body.run, StateValues.tryEmplace_present hkey, hkey, h]

theorem update_throws {current : Val t} {e : Exc} (h : currentValue values t key initialValue = some current)
    (hf : updateFunction current = .error e) :
    (SessionState.update t key initialValue updateFunction).run values =
      (values.tryEmplace key ⟨t, initialValue⟩, .error e) := by
  unfold currentValue at h
  cases hkey : values key with
  | none =>
    simp only [hkey, Option.some.injEq] at h
    subst h
    simp [SessionState.update, Body.run, StateValues.tryEmplace_absent hkey, hf]
  | some stored =>
    simp only [hkey] at h
    simp [SessionState.update, Body.run, StateValues.tryEmplace_present hkey, hkey, h, hf]

theorem update_returns {current value : Val t} (h : currentValue values t key initialValue = some current)
    (hf : updateFunction current = .ok value) :
    (SessionState.update t key initialValue updateFunction).run values = (values.assign key ⟨t, value⟩, .ok value) := by
  unfold currentValue at h
  cases hkey : values key with
  | none =>
    simp only [hkey, Option.some.injEq] at h
    subst h
    simp [SessionState.update, Body.run, StateValues.tryEmplace_absent hkey, hf, StateValues.assign_assign]
  | some stored =>
    simp only [hkey] at h
    simp [SessionState.update, Body.run, StateValues.tryEmplace_present hkey, hkey, h, hf]

theorem atomicUpdate_iff :
    AtomicUpdate values t key initialValue updateFunction ↔
      ¬ (values key = none ∧ ∃ e, updateFunction initialValue = .error e) := by
  cases hcurrent : currentValue values t key initialValue with
  | none =>
    have hkey : values key ≠ none := by
      intro hkey
      unfold currentValue at hcurrent
      simp only [hkey] at hcurrent
      cases hcurrent
    refine iff_of_true (Or.inr ?_) (fun h => hkey h.1)
    rw [update_wrong_type hcurrent]
    exact ⟨⟨badAnyCast, rfl, Or.inl hcurrent⟩, rfl⟩
  | some current =>
    cases hf : updateFunction current with
    | ok value =>
      refine iff_of_true (Or.inl ?_) ?_
      · rw [update_returns hcurrent hf]
        refine ⟨current, value, hcurrent, hf, rfl, StateValues.assign_self .., ?_⟩
        intro other hother
        exact StateValues.assign_of_ne hother ..
      · rintro ⟨hkey, e, he⟩
        unfold currentValue at hcurrent
        simp only [hkey, Option.some.injEq] at hcurrent
        rw [← hcurrent, he] at hf
        cases hf
    | error e =>
      have hrun := update_throws hcurrent hf
      cases hkey : values key with
      | none =>
        -- The emplaced initial value stays behind.
        unfold currentValue at hcurrent
        simp only [hkey, Option.some.injEq] at hcurrent
        subst hcurrent
        refine iff_of_false ?_ (fun h => h ⟨rfl, e, hf⟩)
        unfold AtomicUpdate
        rw [hrun]
        rintro (⟨_, value, _, _, hresult, _⟩ | ⟨_, hmap⟩)
        · cases hresult
        · have hat : values.tryEmplace key ⟨t, initialValue⟩ key = values key := congrFun hmap key
          rw [StateValues.tryEmplace_absent hkey, StateValues.assign_self, hkey] at hat
          cases hat
      | some stored =>
        refine iff_of_true (Or.inr ?_) (fun h => by cases h.1)
        rw [hrun, StateValues.tryEmplace_present hkey]
        exact ⟨⟨e, rfl, Or.inr ⟨current, hcurrent, hf⟩⟩, rfl⟩

/-! ## Any calls of any threads -/

/-- An update is atomic but for an absent key whose function throws on the
initial value, and all calls together take effect one at a time. -/
theorem sessionState_atomic_iff :
    (∀ (values : StateValues Val) (t : Ty) (key : String) (initialValue : Val t)
        (updateFunction : Val t → Except Exc (Val t)),
      AtomicUpdate values t key initialValue updateFunction ↔
        ¬ (values key = none ∧ ∃ e, updateFunction initialValue = .error e)) ∧
      ∀ (T : Type) [DecidableEq T] (init : StateValues Val) (programs : T → List (StateCall Val)) (schedule : List T)
        (s : State (StateValues Val) (Except Exc (StateResult Val)) (StateCall Val) T),
        Lts.Run (Step SessionState.body) { shared := init, todo := programs } schedule s →
          (s.lock = none → serial SessionState.body init (calls s) = (s.shared, results s)) ∧
            ∀ t, callsOf s t ++ s.todo t = programs t := by
  refine ⟨fun _ _ _ _ _ => atomicUpdate_iff, ?_⟩
  intro T _ init programs schedule s hrun
  have hserial := serializable hrun
  refine ⟨?_, hserial.order⟩
  intro hlock
  rw [hserial.free hlock, hserial.results]

end

def emptyState : StateValues fun _ : Unit => Int := fun _ => none

def failingUpdate : Int → Except Exc Int := fun _ => .error (.std "no")

/-- An absent key whose function throws: the key stays, bound to the initial value. -/
theorem update_throws_leaves_key :
    (SessionState.update () "count" (0 : Int) failingUpdate).run emptyState =
        (emptyState.assign "count" ⟨(), (0 : Int)⟩, .error (.std "no")) ∧
      ¬ AtomicUpdate emptyState () "count" (0 : Int) failingUpdate := by
  refine ⟨rfl, ?_⟩
  rintro (⟨_, value, _, _, hresult, _⟩ | ⟨_, hmap⟩)
  · cases hresult
  · have hat := congrFun hmap "count"
    cases hat

end NeuralPlus
