import Mathlib.Order.Defs.LinearOrder
import Mathlib.Order.Defs.Unbundled

/-!
# Ordered maps as association lists

A map is the list of its entries. `insert` walks to the place of its key, so
a list that is sorted by key stays sorted. The lookup equations hold of every
list of entries, sorted or not: a lookup reads the first entry of its key.
-/

namespace OrdMap

universe u v

variable {κ : Type u} {ν : Type v} [DecidableEq κ]

def find? (k : κ) : List (κ × ν) → Option ν
  | [] => none
  | (k', v) :: l => if k' = k then some v else find? k l

def erase (k : κ) (l : List (κ × ν)) : List (κ × ν) :=
  l.filter fun p => p.1 ≠ k

def insert [LT κ] [DecidableLT κ] (k : κ) (v : ν) : List (κ × ν) → List (κ × ν)
  | [] => [(k, v)]
  | (k', v') :: l =>
    if k' = k then (k, v) :: l
    else if k < k' then (k, v) :: (k', v') :: l
    else (k', v') :: insert k v l

/-- The map of a list of entries. The first entry of a key wins. -/
def ofList [LT κ] [DecidableLT κ] (l : List (κ × ν)) : List (κ × ν) :=
  l.foldr (fun p m => insert p.1 p.2 m) []

def update [LT κ] [DecidableLT κ] (m m' : List (κ × ν)) : List (κ × ν) :=
  m'.foldr (fun p m => insert p.1 p.2 m) m

theorem find?_nil (k : κ) : find? k ([] : List (κ × ν)) = none := rfl

theorem find?_cons (k k' : κ) (v : ν) (l : List (κ × ν)) :
    find? k ((k', v) :: l) = if k' = k then some v else find? k l := rfl

theorem find?_mem {k : κ} {v : ν} : ∀ {l : List (κ × ν)}, find? k l = some v → (k, v) ∈ l
  | [], h => by cases h
  | (k', v') :: l, h => by
    rw [find?_cons] at h
    split at h
    · rename_i hk; cases h; subst hk; exact List.mem_cons_self ..
    · exact List.mem_cons_of_mem _ (find?_mem h)

theorem find?_isSome_iff {k : κ} {l : List (κ × ν)} : (find? k l).isSome ↔ k ∈ l.map Prod.fst := by
  induction l with
  | nil => simp [find?_nil]
  | cons p l ih =>
    obtain ⟨k', v⟩ := p
    rw [find?_cons, List.map_cons, List.mem_cons]
    by_cases h : k' = k
    · simp [h]
    · simp [h, Ne.symm h, ih]

/-- A lookup does not tell the order of entries with different keys. -/
theorem find?_perm {l l' : List (κ × ν)} (hperm : l.Perm l') (hnodup : (l.map Prod.fst).Nodup) (k : κ) :
    find? k l = find? k l' := by
  induction hperm with
  | nil => rfl
  | cons p _ ih =>
    obtain ⟨k', v⟩ := p
    rw [find?_cons, find?_cons, ih (List.nodup_cons.mp hnodup).2]
  | swap p q l =>
    obtain ⟨k', v⟩ := p
    obtain ⟨k'', w⟩ := q
    have hne : k'' ≠ k' := by
      rintro rfl
      simp at hnodup
    rw [find?_cons, find?_cons, find?_cons, find?_cons]
    by_cases h : k' = k
    · subst h
      rw [if_neg hne, if_pos rfl, if_pos rfl]
    · rw [if_neg h, if_neg h]
  | trans hfirst _ ih ih' => rw [ih hnodup, ih' ((hfirst.map Prod.fst).nodup_iff.mp hnodup)]

section
variable [LT κ] [DecidableLT κ]

theorem find?_insert (k k' : κ) (v : ν) (l : List (κ × ν)) :
    find? k (insert k' v l) = if k' = k then some v else find? k l := by
  induction l with
  | nil => rfl
  | cons p l ih =>
    obtain ⟨k₁, v₁⟩ := p
    simp only [insert]
    split
    · rename_i h; subst h
      simp only [find?_cons]
      split <;> rfl
    · rename_i h
      split
      · simp only [find?_cons]
      · simp only [find?_cons, ih]
        by_cases h₁ : k₁ = k
        · subst h₁; simp [Ne.symm h]
        · simp [h₁]

theorem find?_insert_ne {k k' : κ} (h : k' ≠ k) (v : ν) (l : List (κ × ν)) :
    find? k (insert k' v l) = find? k l := by
  rw [find?_insert, if_neg h]

theorem find?_ofList (k : κ) (l : List (κ × ν)) : find? k (ofList l) = find? k l := by
  induction l with
  | nil => rfl
  | cons p l ih =>
    obtain ⟨k', v⟩ := p
    rw [show ofList ((k', v) :: l) = insert k' v (ofList l) from rfl, find?_insert, find?_cons, ih]

theorem find?_update (k : κ) (m m' : List (κ × ν)) : find? k (update m m') = (find? k m').or (find? k m) := by
  induction m' with
  | nil => rfl
  | cons p m' ih =>
    obtain ⟨k', v⟩ := p
    rw [show update m ((k', v) :: m') = insert k' v (update m m') from rfl, find?_insert, find?_cons]
    by_cases h : k' = k
    · rw [if_pos h, if_pos h]
      rfl
    · rw [if_neg h, if_neg h, ih]

end

theorem insert_ofList_pair [LT κ] [DecidableLT κ] {k k' : κ} (hne : k ≠ k') (hnot : ¬ k' < k) (r v w : ν) :
    insert k v (ofList [(k', r), (k, w)]) = ofList [(k', r), (k, v)] := by
  have hof (x : ν) : ofList [(k', r), (k, x)] = [(k, x), (k', r)] := by
    show insert k' r [(k, x)] = _
    rw [insert, if_neg hne, if_neg hnot, insert]
  rw [hof, hof, insert, if_pos rfl]

/-! ## Sorted maps -/

def Sorted [LT κ] (l : List (κ × ν)) : Prop := l.Pairwise fun p q => p.1 < q.1

theorem mem_of_mem_insert [LT κ] [DecidableLT κ] {k : κ} {v : ν} {p : κ × ν} {l : List (κ × ν)}
    (h : p ∈ insert k v l) : p = (k, v) ∨ p ∈ l := by
  induction l with
  | nil => exact .inl (List.mem_singleton.mp h)
  | cons q l ih =>
    obtain ⟨k', v'⟩ := q
    simp only [insert] at h
    split at h
    · rcases List.mem_cons.mp h with rfl | h
      · exact .inl rfl
      · exact .inr (List.mem_cons_of_mem _ h)
    · split at h
      · rcases List.mem_cons.mp h with rfl | h
        · exact .inl rfl
        · exact .inr h
      · rcases List.mem_cons.mp h with rfl | h
        · exact .inr (List.mem_cons_self ..)
        · exact (ih h).imp id (List.mem_cons_of_mem _)

section
variable [LT κ] [DecidableLT κ] [IsStrictTotalOrder κ (· < ·)]

theorem Sorted.insert {l : List (κ × ν)} (h : Sorted l) (k : κ) (v : ν) : Sorted (insert k v l) := by
  induction l with
  | nil => exact List.pairwise_singleton _ _
  | cons q l ih =>
    obtain ⟨k', v'⟩ := q
    obtain ⟨hhead, htail⟩ := List.pairwise_cons.mp h
    simp only [OrdMap.insert]
    split
    · next heq =>
      subst heq
      exact List.pairwise_cons.mpr ⟨hhead, htail⟩
    · next hne =>
      split
      · next hlt =>
        refine List.pairwise_cons.mpr ⟨?_, h⟩
        intro p hp
        rcases List.mem_cons.mp hp with rfl | hp
        · exact hlt
        · exact trans_of (· < ·) hlt (hhead p hp)
      · next hge =>
        have hlt : k' < k := by
          rcases trichotomous_of (· < ·) k' k with hlt | heq | hgt
          · exact hlt
          · exact absurd heq hne
          · exact absurd hgt hge
        refine List.pairwise_cons.mpr ⟨?_, ih htail⟩
        intro p hp
        rcases mem_of_mem_insert hp with rfl | hp
        · exact hlt
        · exact hhead p hp

omit [DecidableLT κ] in
theorem Sorted.find?_eq {l : List (κ × ν)} (h : Sorted l) {k : κ} {v : ν} (hm : (k, v) ∈ l) : find? k l = some v := by
  induction l with
  | nil => cases hm
  | cons q l ih =>
    obtain ⟨k', v'⟩ := q
    obtain ⟨hhead, htail⟩ := List.pairwise_cons.mp h
    rw [find?_cons]
    rcases List.mem_cons.mp hm with heq | hm
    · obtain ⟨rfl, rfl⟩ := Prod.mk.inj heq
      rw [if_pos rfl]
    · have hlt : k' < k := hhead _ hm
      rw [if_neg (ne_of_irrefl' hlt).symm, ih htail hm]

/-- A key above all others goes to the end. -/
theorem insert_above {l : List (κ × ν)} {k : κ} (h : ∀ p ∈ l, p.1 < k) (v : ν) :
    OrdMap.insert k v l = l ++ [(k, v)] := by
  induction l with
  | nil => rfl
  | cons q l ih =>
    obtain ⟨k', v'⟩ := q
    have hlt : k' < k := h (k', v') (List.mem_cons_self ..)
    rw [OrdMap.insert, if_neg (ne_of_irrefl' hlt).symm, if_neg (asymm_of (· < ·) hlt)]
    rw [ih fun p hp => h p (List.mem_cons_of_mem _ hp)]
    rfl

end

end OrdMap
