import Mathlib.Data.List.Basic

/-!
# Labelled fields

Texts that put optional fields one after the other, each under a label of its
own. Where no label can be taken for another and the values say themselves
where they end, the text tells which fields there are and what they hold.
-/

namespace Fields

universe u v

variable {α : Type u} {β : Type v} {text : β → List α}

/-- What follows a value can be told from it. -/
def SelfDelimiting (text : β → List α) : Prop :=
  ∀ v v' rest rest', text v ++ rest = text v' ++ rest' → v = v' ∧ rest = rest'

def Apart (a b : List α) : Prop := ∀ rest rest', a ++ rest ≠ b ++ rest'

/-- Code words of which none starts another, and a mark that starts none, spell texts that say where they end. -/
theorem selfDelimiting_flatMap {code : β → List α} {stop : List α} (hcode : ∀ c c', c ≠ c' → Apart (code c) (code c'))
    (hstop : ∀ c, Apart (code c) stop) : SelfDelimiting fun cs : List β => cs.flatMap code ++ stop := by
  intro cs cs' rest rest' h
  dsimp only at h
  rw [List.append_assoc, List.append_assoc] at h
  induction cs generalizing cs' with
  | nil =>
    cases cs' with
    | nil => exact ⟨rfl, List.append_cancel_left h⟩
    | cons c' cs' =>
      rw [List.flatMap_cons, List.append_assoc] at h
      exact absurd h.symm (hstop c' _ _)
  | cons c cs ih =>
    rw [List.flatMap_cons, List.append_assoc] at h
    cases cs' with
    | nil => exact absurd h (hstop c _ _)
    | cons c' cs' =>
      rw [List.flatMap_cons, List.append_assoc] at h
      by_cases hc : c = c'
      · subst hc
        obtain ⟨rfl, hrest⟩ := ih cs' (List.append_cancel_left h)
        exact ⟨rfl, hrest⟩
      · exact absurd h (hcode c c' hc _ _)

def render (text : β → List α) : List (List α × Option β) → List α
  | [] => []
  | (_, none) :: fields => render text fields
  | (label, some v) :: fields => label ++ text v ++ render text fields

theorem render_ne {label tail : List α} : ∀ {fields : List (List α × Option β)},
    (∀ field ∈ fields, Apart label field.1) → (∀ rest, tail ≠ label ++ rest) → ∀ rest,
      render text fields ++ tail ≠ label ++ rest
  | [], _, htail, rest => htail rest
  | (_, none) :: fields, h, htail, rest => render_ne (fun field hf => h field (List.mem_cons_of_mem _ hf)) htail rest
  | (label', some v) :: fields, h, _, rest => by
    intro heq
    rw [render, List.append_assoc, List.append_assoc] at heq
    exact h (label', some v) List.mem_cons_self _ _ heq.symm

theorem render_head {sep : α} {tail : List α} (htail : ∀ x ∈ tail.head?, x = sep) :
    ∀ {fields : List (List α × Option β)}, (∀ field ∈ fields, field.1.head? = some sep) →
      ∀ x ∈ (render text fields ++ tail).head?, x = sep
  | [], _, x, hx => htail x hx
  | (_, none) :: fields, h, x, hx => render_head htail (fun field hf => h field (List.mem_cons_of_mem _ hf)) x hx
  | (label, some v) :: fields, h, x, hx => by
    have hlabel : label.head? = some sep := h _ List.mem_cons_self
    rw [render, List.append_assoc, List.append_assoc, List.head?_append, hlabel] at hx
    exact (Option.some.inj hx).symm

/-- **The text of the fields tells the fields**, and what stands behind them. -/
theorem render_inj (htext : SelfDelimiting text) {tail tail' : List α} :
    ∀ {fields fields' : List (List α × Option β)}, fields.map Prod.fst = fields'.map Prod.fst →
      (fields.map Prod.fst).Pairwise Apart →
      (∀ label ∈ fields.map Prod.fst, ∀ rest, tail ≠ label ++ rest ∧ tail' ≠ label ++ rest) →
      render text fields ++ tail = render text fields' ++ tail' → fields = fields' ∧ tail = tail'
  | [], [], _, _, _, h => ⟨rfl, h⟩
  | (label, value) :: fields, (label', value') :: fields', hsame, hapart, htail, h => by
    simp only [List.map_cons, List.cons.injEq] at hsame
    obtain ⟨rfl, hsame⟩ := hsame
    rw [List.map_cons, List.pairwise_cons] at hapart
    rw [List.map_cons, List.forall_mem_cons] at htail
    have hne : ∀ field ∈ fields, Apart label field.1 := fun field hf => hapart.1 _ (List.mem_map_of_mem hf)
    have hne' : ∀ field ∈ fields', Apart label field.1 := by
      intro field hf
      apply hapart.1
      rw [hsame]
      exact List.mem_map_of_mem hf
    cases value with
    | none =>
      cases value' with
      | none =>
        obtain ⟨hfields, htails⟩ := render_inj htext hsame hapart.2 htail.2 h
        exact ⟨by rw [hfields], htails⟩
      | some v' =>
        rw [render, render, List.append_assoc, List.append_assoc] at h
        -- only one of the texts starts with the label
        exact absurd h (render_ne hne (fun rest => (htail.1 rest).1) _)
    | some v =>
      cases value' with
      | none =>
        rw [render, render, List.append_assoc, List.append_assoc] at h
        exact absurd h.symm (render_ne hne' (fun rest => (htail.1 rest).2) _)
      | some v' =>
        rw [render, render] at h
        simp only [List.append_assoc] at h
        -- behind the same label the value ends at the same place
        obtain ⟨rfl, hrest⟩ := htext _ _ _ _ (List.append_cancel_left h)
        obtain ⟨hfields, htails⟩ := render_inj htext hsame hapart.2 htail.2 hrest
        exact ⟨by rw [hfields], htails⟩

theorem word_inj {sep : α} : ∀ {word word' rest rest' : List α}, sep ∉ word → sep ∉ word' →
    (∀ x ∈ rest.head?, x = sep) → (∀ x ∈ rest'.head?, x = sep) → word ++ rest = word' ++ rest' →
      word = word' ∧ rest = rest'
  | [], [], _, _, _, _, _, _, h => ⟨rfl, h⟩
  | [], c :: word', rest, _, _, hword', hrest, _, h => by
    have hc : c = sep := hrest c (by rw [show rest = c :: word' ++ _ from h]; rfl)
    rw [hc] at hword'
    exact absurd List.mem_cons_self hword'
  | c :: word, [], _, rest', hword, _, _, hrest', h => by
    have hc : c = sep := hrest' c (by rw [← show c :: word ++ _ = rest' from h]; rfl)
    rw [hc] at hword
    exact absurd List.mem_cons_self hword
  | c :: word, c' :: word', _, _, hword, hword', hrest, hrest', h => by
    obtain ⟨rfl, htail⟩ := List.cons.inj h
    rw [List.mem_cons, not_or] at hword hword'
    obtain ⟨rfl, hrests⟩ := word_inj hword.2 hword'.2 hrest hrest' htail
    exact ⟨rfl, hrests⟩

end Fields
