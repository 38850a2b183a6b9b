import Mathlib.Data.List.Forall2
import Mathlib.Data.List.Induction

/-!
# Histories

A list read from left to right, each entry in view of the entries before it;
and two lists read side by side.
-/

namespace History

universe u

variable {α : Type u} {P Q : List α → α → Prop}

/-- `P` holds of each entry and the entries before it. -/
def Holds (P : List α → α → Prop) (l : List α) : Prop :=
  ∀ before a after, l = before ++ a :: after → P before a

theorem Holds.nil : Holds P [] := by
  intro before a after h
  have := congrArg List.length h
  simp at this

/-- An entry of a list is its last one, or an entry of the rest. -/
theorem concat_split {l before after : List α} {last a : α} (h : l ++ [last] = before ++ a :: after) :
    (before = l ∧ a = last ∧ after = []) ∨ ∃ after', after = after' ++ [last] ∧ l = before ++ a :: after' := by
  rcases List.eq_nil_or_concat after with rfl | ⟨after', x, rfl⟩
  · obtain ⟨hl, hlast⟩ := List.append_inj' h rfl
    exact .inl ⟨hl.symm, (List.singleton_inj.mp hlast).symm, rfl⟩
  · rw [List.concat_eq_append, ← List.cons_append, ← List.append_assoc] at h
    obtain ⟨hl, hlast⟩ := List.append_inj' h rfl
    exact .inr ⟨after', by rw [List.concat_eq_append, hlast], hl⟩

/-- A prefix of two parts ends in the first one or in the second. -/
theorem prefix_append_cases {l a b : List α} (h : l <+: a ++ b) :
    l <+: a ∨ ∃ rest, l = a ++ rest ∧ rest <+: b := by
  rcases List.prefix_or_prefix_of_prefix h (List.prefix_append a b) with hl | ⟨rest, rfl⟩
  · exact .inl hl
  · exact .inr ⟨rest, rfl, (List.prefix_append_right_inj a).mp h⟩

theorem Holds.concat {l : List α} {x : α} (h : Holds P l) (hx : P l x) : Holds P (l ++ [x]) := by
  intro before a after he
  obtain ⟨rfl, rfl, _⟩ | ⟨after', _, hl⟩ := concat_split he
  · exact hx
  · exact h before a after' hl

theorem Holds.left {l m : List α} (h : Holds P (l ++ m)) : Holds P l := fun before a after he =>
  h before a (after ++ m) (by rw [he]; simp)

theorem Holds.last {l : List α} {x : α} (h : Holds P (l ++ [x])) : P l x := h l x [] rfl

theorem Holds.append {l m : List α} (hl : Holds P l) (hm : Holds (fun before => P (l ++ before)) m) :
    Holds P (l ++ m) := by
  induction m using List.reverseRecOn with
  | nil => simpa using hl
  | append_singleton m x ih =>
    rw [← List.append_assoc]
    exact (ih hm.left).concat hm.last

theorem holds_append {l m : List α} : Holds P (l ++ m) ↔ Holds P l ∧ Holds (fun before => P (l ++ before)) m := by
  refine ⟨fun h => ⟨h.left, ?_⟩, fun ⟨hl, hm⟩ => hl.append hm⟩
  intro before a after he
  exact h (l ++ before) a after (by rw [he]; simp)

theorem holds_singleton {x : α} : Holds P [x] ↔ P [] x :=
  ⟨fun h => h.last, fun hx => Holds.nil.concat hx⟩

theorem Holds.mono {l : List α} (h : Holds P l) (hi : ∀ before, ∀ a ∈ l, P before a → Q before a) : Holds Q l :=
  fun before a after he => hi before a (by rw [he]; simp) (h before a after he)

theorem Holds.exists_before {l : List α} (h : Holds P l) {a : α} (ha : a ∈ l) : ∃ before, P before a := by
  obtain ⟨before, after, he⟩ := List.append_of_mem ha
  exact ⟨before, h before a after he⟩

/-- Where a step keeps `I` exactly if it meets `C`, `I` holds all along a run exactly if every step of it meets `C`. -/
theorem always_iff_holds {σ : Type u} {f : σ → α → σ} {I : σ → Prop} {C : σ → α → Prop}
    (hstep : ∀ s a, I s → (I (f s a) ↔ C s a)) {s : σ} (hs : I s) (l : List α) :
    (∀ before, before <+: l → I (before.foldl f s)) ↔ Holds (fun before a => C (before.foldl f s) a) l := by
  constructor
  · intro h before a after he
    have hbefore : I (before.foldl f s) := h before (he ▸ List.prefix_append before (a :: after))
    have hnext := h (before ++ [a]) ⟨after, by rw [he, List.append_assoc, List.singleton_append]⟩
    rw [List.foldl_append] at hnext
    exact (hstep _ a hbefore).mp hnext
  · intro h before
    induction before using List.reverseRecOn with
    | nil => exact fun _ => hs
    | append_singleton before a ih =>
      rintro ⟨after, he⟩
      rw [List.append_assoc, List.singleton_append] at he
      rw [List.foldl_append]
      exact (hstep _ a (ih ⟨a :: after, he⟩)).mpr (h before a after he.symm)

/-! ## Blocks -/

def Headed (p : α → Prop) (block : List α) : Prop := ∃ head tail, block = head :: tail ∧ p head ∧ ∀ x ∈ tail, ¬ p x

section
variable {β : Type u} {f : β → List α} {p : α → Prop} {bs : List β}

theorem countP_flatMap_headed [DecidablePred p] (hf : ∀ b ∈ bs, Headed p (f b)) :
    (bs.flatMap f).countP (fun x => decide (p x)) = bs.length := by
  induction bs with
  | nil => rfl
  | cons b bs ih =>
    obtain ⟨⟨head, tail, hb, hhead, htail⟩, hbs⟩ := List.forall_mem_cons.mp hf
    have hnone : tail.countP (fun x => decide (p x)) = 0 :=
      List.countP_eq_zero.mpr fun x hx => by simp [htail x hx]
    rw [List.flatMap_cons, List.countP_append, ih hbs, hb, List.countP_cons_of_pos (by simp [hhead]), hnone,
      List.length_cons]
    omega

/-- A marked entry of a list of blocks heads one of them. -/
theorem flatMap_split {before after : List α} {a : α} (hf : ∀ b ∈ bs, Headed p (f b)) (ha : p a)
    (h : bs.flatMap f = before ++ a :: after) :
    ∃ l b r tail, bs = l ++ b :: r ∧ before = l.flatMap f ∧ f b = a :: tail ∧ after = tail ++ r.flatMap f := by
  induction bs generalizing before with
  | nil => simp at h
  | cons b bs ih =>
    obtain ⟨⟨head, tail, hb, hhead, htail⟩, hbs⟩ := List.forall_mem_cons.mp hf
    rw [List.flatMap_cons, hb, List.cons_append] at h
    cases before with
    | nil =>
      obtain ⟨rfl, rfl⟩ := List.cons.inj h
      exact ⟨[], b, bs, tail, rfl, rfl, hb, rfl⟩
    | cons x before =>
      obtain ⟨rfl, htails⟩ := List.cons.inj h
      -- the rest of the block holds no marked entry
      obtain ⟨c, rfl, hc⟩ | ⟨c, hc, hrest⟩ := List.append_eq_append_iff.mp htails
      · obtain ⟨l, b', r, tail', rfl, rfl, hb', rfl⟩ := ih hbs hc
        exact ⟨b :: l, b', r, tail', rfl, by rw [List.flatMap_cons, hb]; rfl, hb', rfl⟩
      · cases c with
        | nil =>
          rw [List.append_nil] at hc
          have hstart : bs.flatMap f = [] ++ a :: after := hrest.symm
          obtain ⟨l, b', r, tail', rfl, hl, hb', rfl⟩ := ih hbs hstart
          exact ⟨b :: l, b', r, tail', rfl, by rw [List.flatMap_cons, hb, ← hl, hc]; simp, hb', rfl⟩
        | cons y c =>
          obtain ⟨rfl, _⟩ := List.cons.inj hrest
          exact absurd ha (htail a (by rw [hc]; simp))

end

/-! ## Side by side -/

section
variable {β : Type u} {R : α → β → Prop} {as : List α} {bs : List β}

theorem forall_iff_of_forall₂ {P : α → Prop} {Q : β → Prop} (hR : ∀ a b, R a b → (P a ↔ Q b))
    (h : List.Forall₂ R as bs) : (∀ a ∈ as, P a) ↔ ∀ b ∈ bs, Q b := by
  induction h with
  | nil => simp
  | cons hab _ ih => rw [List.forall_mem_cons, List.forall_mem_cons, hR _ _ hab, ih]

theorem forall₂_iff_of_forall₂ {P Q : α → β → Prop} (hR : ∀ a b, R a b → (P a b ↔ Q a b))
    (h : List.Forall₂ R as bs) : List.Forall₂ P as bs ↔ List.Forall₂ Q as bs := by
  induction h with
  | nil => simp
  | cons hab _ ih => rw [List.forall₂_cons, List.forall₂_cons, hR _ _ hab, ih]

theorem forall₂_append_iff {front : List α} (hlen : as.length = bs.length) :
    List.Forall₂ R (front ++ as) bs ↔ front = [] ∧ List.Forall₂ R as bs := by
  constructor
  · intro h
    have := h.length_eq
    rw [List.length_append, ← hlen] at this
    have hnil : front = [] := List.length_eq_zero_iff.mp (by omega)
    rw [hnil] at h
    exact ⟨hnil, h⟩
  · intro ⟨hnil, h⟩
    rw [hnil]
    exact h

end

end History
