import Mathlib.Data.List.Nodup

/-!
# Lists written by key

A write replaces the first item of its key where it stands, or is appended
where no item has the key. The keys a list begins with stay in place under any
writes, new keys follow in the order of their first write, and the item of a
written key is the last one written.
-/

namespace Keyed

universe u v

variable {α : Type u} {κ : Type v} [DecidableEq κ]

def put (key : α → κ) : List α → α → List α
  | [], x => [x]
  | y :: ys, x => if key y = key x then x :: ys else y :: put key ys x

def putAll (key : α → κ) (items xs : List α) : List α := xs.foldl (put key) items

def find? (key : α → κ) (k : κ) (items : List α) : Option α := items.find? fun x => key x = k

def last? (key : α → κ) (k : κ) (xs : List α) : Option α := find? key k xs.reverse

variable {key : α → κ}

theorem putAll_cons (items : List α) (x : α) (xs : List α) :
    putAll key items (x :: xs) = putAll key (put key items x) xs := rfl

theorem putAll_append (items xs ys : List α) : putAll key items (xs ++ ys) = putAll key (putAll key items xs) ys :=
  List.foldl_append ..

/-! ## The keys -/

theorem keys_put (items : List α) (x : α) :
    (put key items x).map key = if key x ∈ items.map key then items.map key else items.map key ++ [key x] := by
  induction items with
  | nil => simp [put]
  | cons y ys ih =>
    rw [put]
    by_cases h : key y = key x
    · rw [if_pos h]
      simp [h]
    · rw [if_neg h, List.map_cons, ih]
      by_cases hx : key x ∈ ys.map key
      · rw [if_pos hx, if_pos (by simp [hx]), List.map_cons]
      · have hne : key x ∉ (y :: ys).map key := by
          rw [List.map_cons, List.mem_cons]
          rintro (he | hm)
          · exact h he.symm
          · exact hx hm
        rw [if_neg hx, if_neg hne, List.map_cons, List.cons_append]

/-- New keys follow the old ones, each at its first write. -/
theorem keys_putAll (items xs : List α) :
    (putAll key items xs).map key =
      items.map key ++ ((xs.map key).filter fun k => k ∉ items.map key).eraseDups := by
  induction xs generalizing items with
  | nil => simp [putAll]
  | cons x xs ih =>
    rw [putAll_cons, ih, keys_put, List.map_cons]
    by_cases hx : key x ∈ items.map key
    · rw [if_pos hx, List.filter_cons_of_neg (by simpa using hx)]
    · rw [if_neg hx, List.filter_cons_of_pos (by simpa using hx), List.eraseDups_cons, List.filter_filter,
        List.append_assoc, List.singleton_append]
      congr 4
      funext k
      simp [Bool.and_comm, beq_eq_decide]

theorem nodup_put {items : List α} (h : (items.map key).Nodup) (x : α) : ((put key items x).map key).Nodup := by
  rw [keys_put]
  by_cases hx : key x ∈ items.map key
  · rwa [if_pos hx]
  · rw [if_neg hx]
    apply h.append (List.nodup_singleton _)
    intro k hk hkx
    rw [List.mem_singleton] at hkx
    exact hx (hkx ▸ hk)

theorem nodup_putAll {items : List α} (h : (items.map key).Nodup) (xs : List α) :
    ((putAll key items xs).map key).Nodup := by
  induction xs generalizing items with
  | nil => exact h
  | cons x xs ih => exact ih (nodup_put h x)

/-! ## The items -/

theorem find?_put (items : List α) (x : α) (k : κ) :
    find? key k (put key items x) = if key x = k then some x else find? key k items := by
  unfold find?
  induction items with
  | nil =>
    rw [put, List.find?_cons]
    by_cases hk : key x = k <;> simp [hk]
  | cons y ys ih =>
    rw [put]
    by_cases h : key y = key x
    · rw [if_pos h]
      by_cases hk : key x = k <;> simp [h, hk]
    · rw [if_neg h, List.find?_cons, List.find?_cons, ih]
      by_cases hy : key y = k
      · have hk : key x ≠ k := fun hk => h (hy.trans hk.symm)
        simp [hy, hk]
      · simp [hy]

theorem last?_cons (k : κ) (x : α) (xs : List α) :
    last? key k (x :: xs) = (last? key k xs).or (if key x = k then some x else none) := by
  unfold last? find?
  rw [List.reverse_cons, List.find?_append]
  by_cases h : key x = k <;> simp [h]

/-- What is found under a key is its last write, and where it was never written what was there before. -/
theorem find?_putAll (items xs : List α) (k : κ) :
    find? key k (putAll key items xs) = (last? key k xs).or (find? key k items) := by
  induction xs generalizing items with
  | nil => rfl
  | cons x xs ih =>
    rw [putAll_cons, ih, find?_put, last?_cons, Option.or_assoc]
    by_cases h : key x = k <;> simp [h]

theorem last?_eq_of_last {before after : List α} {w : α} (h : ∀ x ∈ after, key x ≠ key w) :
    last? key (key w) (before ++ w :: after) = some w := by
  unfold last? find?
  have hnone : after.reverse.find? (fun x => decide (key x = key w)) = none := by
    rw [List.find?_eq_none]
    intro x hx
    simpa using h x (List.mem_reverse.mp hx)
  rw [List.reverse_append, List.reverse_cons, List.append_assoc, List.find?_append, hnone, Option.none_or,
    List.singleton_append, List.find?_cons, decide_eq_true rfl]

theorem filter_eq_of_find? {items : List α} (h : (items.map key).Nodup) {k : κ} {x : α}
    (hx : find? key k items = some x) : items.filter (fun y => key y = k) = [x] := by
  unfold find? at hx
  induction items with
  | nil => cases hx
  | cons y ys ih =>
    rw [List.map_cons, List.nodup_cons] at h
    by_cases hy : key y = k
    · have hnone : ys.filter (fun z => key z = k) = [] := by
        rw [List.filter_eq_nil_iff]
        intro z hz hzk
        apply h.1
        rw [hy, ← of_decide_eq_true hzk]
        exact List.mem_map_of_mem hz
      rw [List.find?_cons, decide_eq_true hy] at hx
      cases hx
      rw [List.filter_cons_of_pos (by simpa using hy), hnone]
    · rw [List.find?_cons, decide_eq_false hy] at hx
      rw [List.filter_cons_of_neg (by simpa using hy)]
      exact ih h.2 hx

theorem getElem?_put {items : List α} {i : Nat} {y : α} (hy : items[i]? = some y) {x : α} (hne : key y ≠ key x) :
    (put key items x)[i]? = some y := by
  induction items generalizing i with
  | nil => cases hy
  | cons z zs ih =>
    rw [put]
    cases i with
    | zero =>
      rw [List.getElem?_cons_zero] at hy
      cases hy
      rw [if_neg hne, List.getElem?_cons_zero]
    | succ i =>
      rw [List.getElem?_cons_succ] at hy
      by_cases hz : key z = key x
      · rw [if_pos hz, List.getElem?_cons_succ]
        exact hy
      · rw [if_neg hz, List.getElem?_cons_succ]
        exact ih hy

/-- An item whose key is never written keeps its place. -/
theorem getElem?_putAll {items xs : List α} {i : Nat} {y : α} (hy : items[i]? = some y)
    (hne : ∀ x ∈ xs, key x ≠ key y) : (putAll key items xs)[i]? = some y := by
  induction xs generalizing items with
  | nil => exact hy
  | cons x xs ih =>
    rw [List.forall_mem_cons] at hne
    exact ih (getElem?_put hy fun he => hne.1 he.symm) hne.2

end Keyed
