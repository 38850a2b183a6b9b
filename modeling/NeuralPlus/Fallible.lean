import Mathlib.Data.List.Forall2

/-!
# Computations that throw

Inversion lemmas for `Except`: a chain of binds that returns is taken apart
one bind at a time, and a loop that returns keeps what each of its passes keeps.
-/

namespace Fallible

universe u v

variable {ε : Type u} {α β : Type v}

/-- `if (c) throw e;` -/
def throwIf (c : Prop) [Decidable c] (e : ε) : Except ε Unit :=
  if c then .error e else .ok ()

@[simp] theorem throwIf_eq_ok {c : Prop} [Decidable c] {e : ε} {u : Unit} : throwIf c e = .ok u ↔ ¬ c := by
  unfold throwIf; split <;> simp [*]

@[simp] theorem bind_eq_ok {x : Except ε α} {f : α → Except ε β} {b : β} :
    x >>= f = .ok b ↔ ∃ a, x = .ok a ∧ f a = .ok b := by
  cases x <;> simp [bind, Except.bind]

@[simp] theorem ok_bind (a : α) (f : α → Except ε β) : Except.ok a >>= f = f a := rfl

@[simp] theorem error_bind (e : ε) (f : α → Except ε β) : Except.error e >>= f = .error e := rfl

@[simp] theorem pure_eq_ok (a : α) : (pure a : Except ε α) = .ok a := rfl

@[simp] theorem throw_eq_error (e : ε) : (throw e : Except ε α) = .error e := rfl

def Returns (x : Except ε α) : Prop := ∃ a, x = .ok a

theorem returns_ok (a : α) : Returns (.ok a : Except ε α) := ⟨a, rfl⟩

theorem not_returns_error (e : ε) : ¬ Returns (.error e : Except ε α) := fun ⟨_, h⟩ => by cases h

instance (x : Except ε α) : Decidable (Returns x) :=
  match x with
  | .ok a => .isTrue ⟨a, rfl⟩
  | .error _ => .isFalse fun ⟨_, h⟩ => by cases h

theorem forM_eq_ok {γ : Type v} {f : γ → Except ε Unit} {l : List γ} :
    l.forM f = .ok () ↔ ∀ a ∈ l, f a = .ok () := by
  induction l with
  | nil => simp [List.forM]
  | cons a l ih =>
    rw [show (a :: l).forM f = f a >>= fun _ => l.forM f from rfl, bind_eq_ok, List.forall_mem_cons, ← ih]
    exact ⟨fun ⟨_, h₁, h₂⟩ => ⟨h₁, h₂⟩, fun ⟨h₁, h₂⟩ => ⟨(), h₁, h₂⟩⟩

theorem returns_bind {x : Except ε α} {f : α → Except ε β} : Returns (x >>= f) ↔ ∃ a, x = .ok a ∧ Returns (f a) := by
  cases x with
  | error e => simp [not_returns_error]
  | ok a => simp

theorem returns_bind_of {x : Except ε α} {f : α → Except ε β} (hx : Returns x)
    (hf : ∀ a, x = .ok a → Returns (f a)) : Returns (x >>= f) := by
  obtain ⟨a, ha⟩ := hx
  exact returns_bind.mpr ⟨a, ha, hf a ha⟩

@[simp] theorem returns_bind_ok {x : Except ε α} {f : α → β} :
    Returns (x >>= fun a => .ok (f a) : Except ε β) ↔ Returns x := by
  cases x with
  | error e => exact ⟨fun h => absurd h (not_returns_error e), fun h => absurd h (not_returns_error e)⟩
  | ok a => exact ⟨fun _ => returns_ok a, fun _ => returns_ok (f a)⟩

/-- Two computations and a rest whose success depends on the result of the first alone. -/
theorem returns_both {γ : Type v} {x : Except ε α} {y : Except ε β} {rest : α → β → Except ε γ} {ok : α → Prop}
    (h : ∀ a b, Returns (rest a b) ↔ ok a) :
    Returns (x >>= fun a => y >>= fun b => rest a b) ↔ Returns y ∧ ∃ a, x = .ok a ∧ ok a := by
  constructor
  · intro hr
    obtain ⟨a, ha, hr⟩ := returns_bind.mp hr
    obtain ⟨b, hb, hr⟩ := returns_bind.mp hr
    exact ⟨⟨b, hb⟩, a, ha, (h a b).mp hr⟩
  · intro ⟨⟨b, hb⟩, a, ha, hok⟩
    exact returns_bind.mpr ⟨a, ha, returns_bind.mpr ⟨b, hb, (h a b).mpr hok⟩⟩

theorem foldlM_returns {γ : Type v} {f : α → γ → Except ε α} {ok : γ → Prop} (h : ∀ a x, Returns (f a x) ↔ ok x) :
    ∀ (xs : List γ) (a : α), Returns (xs.foldlM f a) ↔ ∀ x ∈ xs, ok x
  | [], a => by simp [returns_ok]
  | x :: xs, a => by
    rw [List.foldlM_cons, List.forall_mem_cons, ← h a x]
    cases hx : f a x with
    | error e => simp [not_returns_error]
    | ok a' =>
      rw [ok_bind, foldlM_returns h xs a']
      exact ⟨fun hxs => ⟨returns_ok a', hxs⟩, fun hxs => hxs.2⟩

theorem mapM_returns {f : α → Except ε β} : ∀ xs : List α, Returns (xs.mapM f) ↔ ∀ x ∈ xs, Returns (f x)
  | [] => by simp [returns_ok]
  | x :: xs => by
    rw [List.mapM_cons, List.forall_mem_cons, ← mapM_returns xs]
    cases hx : f x with
    | error e => simp [not_returns_error]
    | ok b =>
      rw [ok_bind]
      simp [returns_ok]

theorem mapM_eq_ok {f : α → Except ε β} : ∀ {xs : List α} {ys : List β}, xs.mapM f = .ok ys →
    List.Forall₂ (fun x y => f x = .ok y) xs ys
  | [], _, h => by
    cases h
    exact .nil
  | x :: xs, ys, h => by
    simp only [List.mapM_cons, bind_eq_ok, pure_eq_ok, Except.ok.injEq] at h
    obtain ⟨y, hy, ys', hys, rfl⟩ := h
    exact .cons hy (mapM_eq_ok hys)

/-- Where each image is read back, reading the images one after the other reads them all back. -/
theorem mapM_decodes {γ : Type v} {E : γ → α → Prop} {R : γ → β → Prop} {decode : α → Except ε β}
    (h : ∀ x y, E x y → ∃ z, decode y = .ok z ∧ R x z) {xs : List γ} {ys : List α} (hE : List.Forall₂ E xs ys) :
    ∃ zs, List.Forall₂ R xs zs ∧ ys.mapM decode = .ok zs := by
  induction hE with
  | nil => exact ⟨[], .nil, rfl⟩
  | cons hxy _ ih =>
    obtain ⟨z, hz, hR⟩ := h _ _ hxy
    obtain ⟨zs, hRs, hzs⟩ := ih
    refine ⟨z :: zs, .cons hR hRs, ?_⟩
    rw [List.mapM_cons, hz, ok_bind, hzs]
    rfl

theorem foldlM_decodes {γ δ : Type v} {E : γ → α → Prop} {R : γ → δ → Prop} {step : β → α → Except ε β}
    {put : β → δ → β} (h : ∀ x y, E x y → ∀ s, ∃ z, step s y = .ok (put s z) ∧ R x z) {xs : List γ} {ys : List α}
    (hE : List.Forall₂ E xs ys) (s : β) :
    ∃ zs, List.Forall₂ R xs zs ∧ ys.foldlM step s = .ok (zs.foldl put s) := by
  induction hE generalizing s with
  | nil => exact ⟨[], .nil, rfl⟩
  | cons hxy _ ih =>
    obtain ⟨z, hz, hR⟩ := h _ _ hxy s
    obtain ⟨zs, hRs, hzs⟩ := ih (put s z)
    refine ⟨z :: zs, .cons hR hRs, ?_⟩
    rw [List.foldlM_cons, hz, ok_bind, hzs]
    rfl

theorem mem_of_forall₂ {R : α → β → Prop} {xs : List α} {ys : List β} (h : List.Forall₂ R xs ys) :
    ∀ x ∈ xs, ∃ y ∈ ys, R x y := by
  induction h with
  | nil => exact fun x hx => absurd hx List.not_mem_nil
  | @cons x y xs ys hxy hrest ih =>
    intro x' hx'
    rcases List.mem_cons.mp hx' with rfl | hx'
    · exact ⟨y, List.mem_cons_self .., hxy⟩
    · obtain ⟨y', hy', hr⟩ := ih x' hx'
      exact ⟨y', List.mem_cons_of_mem _ hy', hr⟩

theorem mem_of_mapM {f : α → Except ε β} {xs : List α} {ys : List β} (h : xs.mapM f = .ok ys) :
    ∀ y ∈ ys, ∃ x ∈ xs, f x = .ok y :=
  mem_of_forall₂ (mapM_eq_ok h).flip

theorem foldlM_preorder {γ : Type v} {f : α → γ → Except ε α} {R : α → α → Prop} (hrefl : ∀ a, R a a)
    (htrans : ∀ {a b c}, R a b → R b c → R a c) (hf : ∀ a x b, f a x = .ok b → R a b) :
    ∀ {xs : List γ} {a b : α}, xs.foldlM f a = .ok b → R a b
  | [], a, _, h => by
    rw [← Except.ok.inj h]
    exact hrefl a
  | x :: xs, a, b, h => by
    rw [List.foldlM_cons, bind_eq_ok] at h
    obtain ⟨c, hx, hxs⟩ := h
    exact htrans (hf a x c hx) (foldlM_preorder hrefl htrans hf hxs)

/-! ## What is thrown -/

def Throws (P : ε → Prop) (x : Except ε α) : Prop := ∀ e, x = .error e → P e

section
variable {P : ε → Prop}

theorem throws_ok (a : α) : Throws P (.ok a : Except ε α) := fun _ h => by cases h

theorem throws_error {e : ε} (h : P e) : Throws P (.error e : Except ε α) := by
  intro e' he
  cases he
  exact h

theorem throws_ite {c : Prop} [Decidable c] {x y : Except ε α} (hx : Throws P x) (hy : Throws P y) :
    Throws P (if c then x else y) := by
  by_cases hc : c
  · rwa [if_pos hc]
  · rwa [if_neg hc]

theorem throws_throwIf {c : Prop} [Decidable c] {e : ε} (h : P e) : Throws P (throwIf c e) :=
  throws_ite (throws_error h) (throws_ok ())

theorem throws_bind {x : Except ε α} {f : α → Except ε β} (hx : Throws P x) (hf : ∀ a, Throws P (f a)) :
    Throws P (x >>= f) := by
  cases x with
  | error e => exact throws_error (hx e rfl)
  | ok a => exact hf a

theorem throws_mapM {f : α → Except ε β} (hf : ∀ a, Throws P (f a)) : ∀ xs : List α, Throws P (xs.mapM f)
  | [] => throws_ok []
  | x :: xs => by
    rw [List.mapM_cons]
    exact throws_bind (hf x) fun _ => throws_bind (throws_mapM hf xs) fun _ => throws_ok _

theorem throws_forM {γ : Type v} {f : γ → Except ε Unit} (hf : ∀ x, Throws P (f x)) :
    ∀ xs : List γ, Throws P (xs.forM f)
  | [] => throws_ok ()
  | x :: xs => by
    show Throws P (f x >>= fun _ => xs.forM f)
    exact throws_bind (hf x) fun _ => throws_forM hf xs

theorem throws_foldlM {γ : Type v} {f : α → γ → Except ε α} (hf : ∀ a x, Throws P (f a x)) :
    ∀ (xs : List γ) (a : α), Throws P (xs.foldlM f a)
  | [], a => throws_ok a
  | x :: xs, a => by
    rw [List.foldlM_cons]
    exact throws_bind (hf a x) fun a' => throws_foldlM hf xs a'

end

/-! ## How a computation ends -/

/-- `x` throws what `P` allows, or returns what `Q` asks for. -/
def Ends (P : ε → Prop) (Q : α → Prop) (x : Except ε α) : Prop :=
  match x with
  | .ok a => Q a
  | .error e => P e

section
variable {P : ε → Prop} {Q : α → Prop} {R : β → Prop}

theorem Ends.throws {x : Except ε α} (h : Ends P Q x) : Throws P x := by
  intro e he
  rw [he] at h
  exact h

theorem Throws.ends {x : Except ε α} (h : Throws P x) (hok : ∀ a, x = .ok a → Q a) : Ends P Q x := by
  cases x with
  | error e => exact h e rfl
  | ok a => exact hok a rfl

theorem Ends.returned {x : Except ε α} (h : Ends P Q x) {a : α} (ha : x = .ok a) : Q a := by
  rw [ha] at h
  exact h

theorem Ends.bind {x : Except ε α} {f : α → Except ε β} (hx : Ends P Q x) (hf : ∀ a, Q a → Ends P R (f a)) :
    Ends P R (x >>= f) := by
  cases x with
  | error e => exact hx
  | ok a => exact hf a hx

theorem ends_ite {c : Prop} [Decidable c] {x y : Except ε α} (hx : c → Ends P Q x) (hy : ¬ c → Ends P Q y) :
    Ends P Q (if c then x else y) := by
  by_cases hc : c
  · rw [if_pos hc]
    exact hx hc
  · rw [if_neg hc]
    exact hy hc

/-- What comes after a guard may assume it. -/
theorem ends_throwIf {c : Prop} [Decidable c] {e : ε} (h : P e) : Ends P (fun _ => ¬ c) (throwIf c e) := by
  by_cases hc : c
  · rw [throwIf, if_pos hc]
    exact h
  · rw [throwIf, if_neg hc]
    exact hc

theorem ends_mapM {f : β → Except ε α} (hf : ∀ x, Ends P Q (f x)) :
    ∀ xs : List β, Ends P (fun ys => ∀ y ∈ ys, Q y) (xs.mapM f)
  | [] => fun _ h => absurd h List.not_mem_nil
  | x :: xs => by
    rw [List.mapM_cons]
    exact (hf x).bind fun y hy => (ends_mapM hf xs).bind fun ys hys => List.forall_mem_cons.mpr ⟨hy, hys⟩

theorem ends_foldlM {γ : Type v} {f : α → γ → Except ε α} (hf : ∀ a x, Q a → Ends P Q (f a x)) :
    ∀ (xs : List γ) {a : α}, Q a → Ends P Q (xs.foldlM f a)
  | [], _, ha => ha
  | x :: xs, a, ha => by
    rw [List.foldlM_cons]
    exact (hf a x ha).bind fun _ => ends_foldlM hf xs

end

end Fallible
