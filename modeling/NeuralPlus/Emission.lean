import NeuralPlus.Fallible
import Mathlib.Data.List.Forall2

/-!
# Passes with two outputs

A pass reads items in order and appends to two lists. What an item adds may
depend on the length of the second list, since indices are taken from it.
-/

namespace Emission

open Fallible

universe u v w

variable {α : Type u} {γ : Type v} {κ : Type w}

/-- The items, in order, add these two lists, the second one behind `n` elements. -/
inductive Emitted (Emits : Nat → α → List γ → List κ → Prop) : Nat → List α → List γ → List κ → Prop
  | nil (n : Nat) : Emitted Emits n [] [] []
  | cons {n : Nat} {x : α} {xs : List α} {cs cs' : List γ} {ks ks' : List κ} : Emits n x cs ks →
      Emitted Emits (n + ks.length) xs cs' ks' → Emitted Emits n (x :: xs) (cs ++ cs') (ks ++ ks')

variable {Emits Emits' : Nat → α → List γ → List κ → Prop}

theorem foldlM_emitted {ε : Type} {σ : Type} {step : σ → α → Except ε σ} (left : σ → List γ) (right : σ → List κ)
    (hstep : ∀ s x s', step s x = .ok s' →
      ∃ cs ks, Emits (right s).length x cs ks ∧ left s' = left s ++ cs ∧ right s' = right s ++ ks) :
    ∀ {xs : List α} {s s' : σ}, xs.foldlM step s = .ok s' →
      ∃ cs ks, Emitted Emits (right s).length xs cs ks ∧ left s' = left s ++ cs ∧ right s' = right s ++ ks
  | [], s, s', h => by
    cases h
    exact ⟨[], [], .nil _, (List.append_nil _).symm, (List.append_nil _).symm⟩
  | x :: xs, s, s', h => by
    rw [List.foldlM_cons, bind_eq_ok] at h
    obtain ⟨t, hx, hxs⟩ := h
    obtain ⟨cs, ks, hemits, hleft, hright⟩ := hstep s x t hx
    obtain ⟨cs', ks', hrest, hleft', hright'⟩ := foldlM_emitted left right hstep hxs
    rw [hright, List.length_append] at hrest
    refine ⟨cs ++ cs', ks ++ ks', .cons hemits hrest, ?_, ?_⟩
    · rw [hleft', hleft, List.append_assoc]
    · rw [hright', hright, List.append_assoc]

theorem Emitted.mono {n : Nat} {xs : List α} {cs : List γ} {ks : List κ} (h : Emitted Emits n xs cs ks)
    (himp : ∀ x ∈ xs, ∀ n cs ks, Emits n x cs ks → Emits' n x cs ks) : Emitted Emits' n xs cs ks := by
  induction h with
  | nil n => exact .nil n
  | cons hx _ ih =>
    apply Emitted.cons (himp _ List.mem_cons_self _ _ _ hx)
    exact ih fun x hx => himp x (List.mem_cons_of_mem _ hx)

theorem Emitted.mem_right {n : Nat} {xs : List α} {cs : List γ} {ks : List κ} (h : Emitted Emits n xs cs ks) {k : κ}
    (hk : k ∈ ks) : ∃ n, ∃ x ∈ xs, ∃ cs ks, Emits n x cs ks ∧ k ∈ ks := by
  induction h with
  | nil => cases hk
  | cons hx _ ih =>
    rcases List.mem_append.mp hk with hk | hk
    · exact ⟨_, _, List.mem_cons_self, _, _, hx, hk⟩
    · obtain ⟨n, x, hmem, found⟩ := ih hk
      exact ⟨n, x, List.mem_cons_of_mem _ hmem, found⟩

theorem Emitted.head {n : Nat} {x : α} {xs : List α} {cs : List γ} {ks : List κ} (h : Emitted Emits n (x :: xs) cs ks) :
    ∃ first rest ks', Emits n x first ks' ∧ cs = first ++ rest := by
  cases h with
  | cons hx _ => exact ⟨_, _, _, hx, rfl⟩

theorem Emitted.subset_left {n : Nat} {xs : List α} {cs : List γ} {ks : List κ} (h : Emitted Emits n xs cs ks) {x : α}
    (hx : x ∈ xs) : ∃ n cs' ks', Emits n x cs' ks' ∧ cs' ⊆ cs := by
  induction h with
  | nil => cases hx
  | cons hy _ ih =>
    rcases List.mem_cons.mp hx with rfl | hx
    · exact ⟨_, _, _, hy, List.subset_append_left ..⟩
    · obtain ⟨n, cs', ks', hemits, hsub⟩ := ih hx
      exact ⟨n, cs', ks', hemits, List.Subset.trans hsub (List.subset_append_right ..)⟩

/-- Of two passes over the same items, the one that never adds more to the first output has the shorter one,
strictly so where it adds less for some item. -/
theorem Emitted.length_le {n m : Nat} {xs : List α} {cs cs' : List γ} {ks ks' : List κ} (h : Emitted Emits n xs cs ks)
    (h' : Emitted Emits' m xs cs' ks')
    (hle : ∀ x n m cs ks cs' ks', Emits n x cs ks → Emits' m x cs' ks' → cs.length ≤ cs'.length) :
    cs.length ≤ cs'.length := by
  induction h generalizing m cs' ks' with
  | nil => cases h'; exact Nat.le_refl _
  | cons hx _ ih =>
    cases h' with
    | cons hx' hrest' =>
      have hhead := hle _ _ _ _ _ _ _ hx hx'
      have htail := ih hrest'
      simp only [List.length_append]
      omega

theorem Emitted.length_lt {n m : Nat} {xs : List α} {cs cs' : List γ} {ks ks' : List κ} (h : Emitted Emits n xs cs ks)
    (h' : Emitted Emits' m xs cs' ks')
    (hle : ∀ x n m cs ks cs' ks', Emits n x cs ks → Emits' m x cs' ks' → cs.length ≤ cs'.length) {y : α} (hy : y ∈ xs)
    (hlt : ∀ n m cs ks cs' ks', Emits n y cs ks → Emits' m y cs' ks' → cs.length < cs'.length) :
    cs.length < cs'.length := by
  induction h generalizing m cs' ks' with
  | nil => cases hy
  | cons hx hrest ih =>
    cases h' with
    | cons hx' hrest' =>
      simp only [List.length_append]
      rcases List.mem_cons.mp hy with rfl | hy
      · have hhead := hlt _ _ _ _ _ _ hx hx'
        have htail := hrest.length_le hrest' hle
        omega
      · have hhead := hle _ _ _ _ _ _ _ hx hx'
        have htail := ih hrest' hy
        omega

/-! ## One element for each item -/

def OneEach (isCall : α → Bool) (Image : α → γ → Prop) (callOf : Nat → α → κ) (n : Nat) (x : α) (cs : List γ)
    (ks : List κ) : Prop :=
  if isCall x then cs = [] ∧ ks = [callOf n x] else (∃ c, Image x c ∧ cs = [c]) ∧ ks = []

section
variable {isCall : α → Bool} {Image : α → γ → Prop} {callOf : Nat → α → κ} {xs : List α} {cs : List γ} {ks : List κ}

theorem oneEach_image {n : Nat} {x : α} {c : γ} (hx : isCall x = false) (hc : Image x c) :
    OneEach isCall Image callOf n x [c] [] := by
  unfold OneEach
  rw [hx]
  exact ⟨⟨c, hc, rfl⟩, rfl⟩

theorem oneEach_call {n : Nat} {x : α} (hx : isCall x = true) : OneEach isCall Image callOf n x [] [callOf n x] := by
  unfold OneEach
  rw [hx]
  exact ⟨rfl, rfl⟩

theorem Emitted.images {n : Nat} (h : Emitted (OneEach isCall Image callOf) n xs cs ks) :
    List.Forall₂ Image (xs.filter fun x => !isCall x) cs ∧
      ks = ((xs.filter isCall).zipIdx n).map fun x => callOf x.2 x.1 := by
  induction h with
  | nil => exact ⟨.nil, rfl⟩
  | @cons n x xs cs cs' ks ks' hx _ ih =>
    unfold OneEach at hx
    by_cases hcall : isCall x = true
    · rw [if_pos hcall] at hx
      obtain ⟨rfl, rfl⟩ := hx
      rw [List.filter_cons_of_neg (by simp [hcall]), List.filter_cons_of_pos hcall, List.zipIdx_cons, List.map_cons]
      exact ⟨ih.1, congrArg (callOf n x :: ·) ih.2⟩
    · rw [if_neg hcall] at hx
      obtain ⟨⟨c, hc, rfl⟩, rfl⟩ := hx
      rw [List.filter_cons_of_pos (by simp [hcall]), List.filter_cons_of_neg hcall]
      exact ⟨.cons hc ih.1, ih.2⟩

theorem Emitted.length_images {n : Nat} (h : Emitted (OneEach isCall Image callOf) n xs cs ks) :
    cs.length + ks.length = xs.length := by
  induction h with
  | nil => rfl
  | @cons n x xs cs cs' ks ks' hx _ ih =>
    unfold OneEach at hx
    by_cases hcall : isCall x = true
    · rw [if_pos hcall] at hx
      obtain ⟨rfl, rfl⟩ := hx
      simp only [List.length_append, List.length_cons, List.length_nil] at ih ⊢
      omega
    · rw [if_neg hcall] at hx
      obtain ⟨⟨c, hc, rfl⟩, rfl⟩ := hx
      simp only [List.length_append, List.length_cons, List.length_nil] at ih ⊢
      omega

end

end Emission
