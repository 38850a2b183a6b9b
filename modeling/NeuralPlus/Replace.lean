import Mathlib.Data.List.Infix
import Mathlib.Data.List.Sort

/-!
# Leftmost-longest replacement

A text is scanned from its start. Where patterns match, the longest of them is
replaced by a marker and the scan goes on behind it; elsewhere one letter is
copied. `Factors` says which stretches are copied and which are replaced, and
determines them, so the result depends on the set of patterns only.
-/

namespace Replace

universe u v

variable {α : Type u}

/-! ## Matches and factors -/

structure Match (patterns : List (List α)) (s text : List α) : Prop where
  mem : s ∈ patterns
  nonempty : s ≠ []
  isPrefix : s <+: text

def Longest (patterns : List (List α)) (s text : List α) : Prop :=
  Match patterns s text ∧ ∀ t, Match patterns t text → t.length ≤ s.length

/-- No pattern matches at a position inside `r` when `rest` follows it. -/
def Clear (patterns : List (List α)) (r rest : List α) : Prop :=
  ∀ a b s, r = a ++ b → b ≠ [] → ¬ Match patterns s (b ++ rest)

/-- The text is `r₁ s₁ r₂ s₂ … last` with the pairs `(rᵢ, sᵢ)`: nothing matches
inside a run, and each `sᵢ` is the longest match at its place. -/
inductive Factors (patterns : List (List α)) : List α → List (List α × List α) → List α → Prop
  | last {r : List α} (clear : Clear patterns r []) : Factors patterns r [] r
  | step {r s rest last : List α} {fs : List (List α × List α)} (clear : Clear patterns r (s ++ rest))
      (longest : Longest patterns s (s ++ rest)) (tail : Factors patterns rest fs last) :
      Factors patterns (r ++ (s ++ rest)) ((r, s) :: fs) last

def join (marker : List α) : List (List α × List α) → List α → List α
  | [], last => last
  | (r, _) :: fs, last => r ++ (marker ++ join marker fs last)

theorem Clear.nil (patterns : List (List α)) (rest : List α) : Clear patterns [] rest := by
  intro a b s h hb
  exact absurd (List.append_eq_nil_iff.mp h.symm).2 hb

theorem Clear.cons {patterns : List (List α)} {c : α} {r rest : List α}
    (hc : ∀ s, ¬ Match patterns s (c :: (r ++ rest))) (h : Clear patterns r rest) : Clear patterns (c :: r) rest := by
  intro a b s he hb
  cases a with
  | nil =>
    rw [List.nil_append] at he
    rw [← he]
    exact hc s
  | cons x a =>
    rw [List.cons_append, List.cons.injEq] at he
    exact h a b s he.2 hb

theorem Factors.cons {patterns : List (List α)} {c : α} {text last : List α} {fs : List (List α × List α)}
    (hc : ∀ s, ¬ Match patterns s (c :: text)) (h : Factors patterns text fs last) :
    ∃ fs' last', Factors patterns (c :: text) fs' last' ∧
      ∀ marker, join marker fs' last' = c :: join marker fs last := by
  cases h with
  | last clear =>
    refine ⟨[], c :: text, .last (clear.cons ?_), fun _ => rfl⟩
    simpa using hc
  | @step r s rest _ fs clear longest hrest =>
    exact ⟨(c :: r, s) :: fs, last, .step (r := c :: r) (clear.cons hc) longest hrest, fun _ => rfl⟩

/-! ## The factors are determined -/

/-- A run ends where the first match is, so no run of one factorisation goes beyond it. -/
theorem Clear.not_longer {patterns : List (List α)} {r b s text rest : List α} (hs : Match patterns s text)
    (h : Clear patterns (r ++ b) rest) (he : text = b ++ rest) : b = [] := by
  by_contra hb
  refine h r b s rfl hb ?_
  rwa [he] at hs

theorem Longest.unique {patterns : List (List α)} {s t text : List α} (hs : Longest patterns s text)
    (ht : Longest patterns t text) : s = t := by
  have hlength : s.length = t.length := Nat.le_antisymm (ht.2 s hs.1) (hs.2 t ht.1)
  exact (List.prefix_of_prefix_length_le hs.1.isPrefix ht.1.isPrefix hlength.le).eq_of_length hlength

theorem Factors.unique {patterns : List (List α)} {text last last' : List α} {fs fs' : List (List α × List α)}
    (h : Factors patterns text fs last) (h' : Factors patterns text fs' last') : fs = fs' ∧ last = last' := by
  induction h generalizing fs' last' with
  | @last r clear =>
    cases h' with
    | last _ => exact ⟨rfl, rfl⟩
    | @step r' s rest _ _ _ longest _ =>
      -- the other factorisation has a match where this one has none
      refine absurd longest.1 (clear r' (s ++ rest) s rfl ?_ ∘ ?_)
      · intro he
        exact longest.1.nonempty (List.append_eq_nil_iff.mp he).1
      · intro hm
        rwa [List.append_nil]
  | @step r s rest last fs clear longest hrest ih =>
    generalize htext : r ++ (s ++ rest) = text at h'
    cases h' with
    | last clear' =>
      refine absurd longest.1 (clear' r (s ++ rest) s htext.symm ?_ ∘ ?_)
      · intro he
        exact longest.1.nonempty (List.append_eq_nil_iff.mp he).1
      · intro hm
        rwa [List.append_nil]
    | @step r' s' rest' _ fs' clear' longest' hrest' =>
      obtain ⟨hr, htail⟩ : r = r' ∧ s ++ rest = s' ++ rest' := by
        rcases List.append_eq_append_iff.mp htext with ⟨b, hb, he⟩ | ⟨b, hb, he⟩
        · have hnil : b = [] := Clear.not_longer longest.1 (hb ▸ clear') he
          subst hnil
          exact ⟨by rw [hb, List.append_nil], by simpa using he⟩
        · have hnil : b = [] := Clear.not_longer longest'.1 (hb ▸ clear) he
          subst hnil
          exact ⟨by rw [hb, List.append_nil], by simpa using he.symm⟩
      subst hr
      rw [← htail] at longest'
      obtain rfl : s = s' := longest.unique longest'
      rw [List.append_cancel_left_eq] at htail
      subst htail
      obtain ⟨rfl, rfl⟩ := ih hrest'
      exact ⟨rfl, rfl⟩

/-! ## Only the set of patterns counts -/

section
variable {patterns patterns' : List (List α)} (hmem : ∀ s, s ∈ patterns ↔ s ∈ patterns')
include hmem

theorem match_congr {s text : List α} : Match patterns s text ↔ Match patterns' s text := by
  constructor
  · intro h
    exact ⟨(hmem s).mp h.mem, h.nonempty, h.isPrefix⟩
  · intro h
    exact ⟨(hmem s).mpr h.mem, h.nonempty, h.isPrefix⟩

theorem Clear.congr {r rest : List α} (h : Clear patterns r rest) : Clear patterns' r rest := by
  intro a b s he hb hm
  exact h a b s he hb ((match_congr hmem).mpr hm)

theorem Longest.congr {s text : List α} (h : Longest patterns s text) : Longest patterns' s text := by
  refine ⟨(match_congr hmem).mp h.1, ?_⟩
  intro t ht
  exact h.2 t ((match_congr hmem).mpr ht)

theorem Factors.congr {text last : List α} {fs : List (List α × List α)} (h : Factors patterns text fs last) :
    Factors patterns' text fs last := by
  induction h with
  | last clear => exact .last (clear.congr hmem)
  | step clear longest _ ih => exact .step (clear.congr hmem) (longest.congr hmem) ih

end

/-! ## The scan -/

section
variable [DecidableEq α]

def firstMatch (patterns : List (List α)) (text : List α) : Option (List α) :=
  patterns.find? fun s => !s.isEmpty && s.isPrefixOf text

def replace (marker : List α) (patterns : List (List α)) : List α → List α
  | [] => []
  | c :: cs =>
    match firstMatch patterns (c :: cs) with
    | none => c :: replace marker patterns cs
    | some s => marker ++ replace marker patterns (cs.drop (s.length - 1))
termination_by cs => cs.length
decreasing_by all_goals (simp; try omega)

def LongestFirst (patterns : List (List α)) : Prop :=
  patterns.Pairwise fun s t => ∀ text, s <+: text → t <+: text → t.length ≤ s.length

theorem firstMatch_none {patterns : List (List α)} {text : List α} (h : firstMatch patterns text = none) (s : List α) :
    ¬ Match patterns s text := by
  intro hm
  have hs := List.find?_eq_none.mp h s hm.mem
  simp [hm.nonempty, hm.isPrefix] at hs

theorem firstMatch_some {patterns : List (List α)} (hp : LongestFirst patterns) {s text : List α}
    (h : firstMatch patterns text = some s) : Longest patterns s text := by
  obtain ⟨hs, before, after, rfl, hbefore⟩ := List.find?_eq_some_iff_append.mp h
  simp only [Bool.and_eq_true, Bool.not_eq_true', List.isEmpty_eq_false_iff, List.isPrefixOf_iff_prefix] at hs
  refine ⟨⟨by simp, hs.1, hs.2⟩, ?_⟩
  intro t ht
  rcases List.mem_append.mp ht.mem with hmem | hmem
  · have hnot := hbefore t hmem
    rw [List.isPrefixOf_iff_prefix.mpr ht.isPrefix] at hnot
    simp [ht.nonempty] at hnot
  · rcases List.mem_cons.mp hmem with rfl | hmem
    · exact Nat.le_refl _
    · have hordered := List.pairwise_cons.mp (List.pairwise_append.mp hp).2.1
      exact hordered.1 t hmem text hs.2 ht.isPrefix

/-- **The scan replaces the leftmost-longest factors.** -/
theorem replace_factors {patterns : List (List α)} (hp : LongestFirst patterns) (marker text : List α) :
    ∃ fs last, Factors patterns text fs last ∧ replace marker patterns text = join marker fs last := by
  induction hn : text.length using Nat.strongRecOn generalizing text with
  | ind n ih =>
    cases text with
    | nil => exact ⟨[], [], .last (.nil patterns []), by rw [replace]; rfl⟩
    | cons c cs =>
      subst hn
      cases hm : firstMatch patterns (c :: cs) with
      -- nothing matches here: the character belongs to the run in front
      | none =>
        obtain ⟨fs, last, hf, hj⟩ := ih cs.length (by simp) cs rfl
        obtain ⟨fs', last', hf', hj'⟩ := hf.cons (firstMatch_none hm)
        refine ⟨fs', last', hf', ?_⟩
        rw [replace, hm, hj', ← hj]
      | some s =>
        have hlongest := firstMatch_some hp hm
        -- the scan goes on behind the match, and the match is not empty
        obtain ⟨rest, hrest⟩ := hlongest.1.isPrefix
        have hdrop : cs.drop (s.length - 1) = rest := by
          cases s with
          | nil => exact absurd rfl hlongest.1.nonempty
          | cons x s =>
            rw [List.cons_append, List.cons.injEq] at hrest
            rw [← hrest.2]
            simp
        have hlength : rest.length < (c :: cs).length := by
          have := congrArg List.length hrest
          have := List.length_pos_iff.mpr hlongest.1.nonempty
          simp only [List.length_append] at *
          omega
        obtain ⟨fs, last, hf, hj⟩ := ih rest.length hlength rest rfl
        rw [← hrest] at hlongest ⊢
        refine ⟨([], s) :: fs, last, .step (r := []) (.nil _ _) hlongest hf, ?_⟩
        rw [hrest, replace, hm]
        simp only [join, hdrop, hj, List.nil_append]

theorem replace_eq_join {patterns : List (List α)} (hp : LongestFirst patterns) (marker : List α)
    {text last : List α} {fs : List (List α × List α)} (h : Factors patterns text fs last) :
    replace marker patterns text = join marker fs last := by
  obtain ⟨fs', last', hf, hj⟩ := replace_factors hp marker text
  obtain ⟨rfl, rfl⟩ := h.unique hf
  exact hj

theorem replace_congr {patterns patterns' : List (List α)} (hp : LongestFirst patterns)
    (hp' : LongestFirst patterns') (hmem : ∀ s, s ∈ patterns ↔ s ∈ patterns') (marker text : List α) :
    replace marker patterns text = replace marker patterns' text := by
  obtain ⟨fs, last, hf, hj⟩ := replace_factors hp marker text
  rw [hj, replace_eq_join hp' marker (hf.congr hmem)]

theorem replace_of_clear {patterns : List (List α)} (hp : LongestFirst patterns) (marker : List α) {text : List α}
    (h : Clear patterns text []) : replace marker patterns text = text :=
  replace_eq_join hp marker (.last h)

end

/-! ## Patterns that cannot reach into the marker

The marker is a word between two brackets. Patterns that hold no bracket and
do not occur in the word occur nowhere in the result.
-/

theorem infix_split {s a b : List α} {x : α} (hx : x ∉ s) (h : s <:+: a ++ x :: b) : s <:+: a ∨ s <:+: b := by
  induction a with
  | nil =>
    rcases List.infix_cons_iff.mp h with hp | hi
    · rcases List.prefix_cons_iff.mp hp with rfl | ⟨t, rfl, _⟩
      · exact .inl List.nil_infix
      · exact absurd (List.mem_cons_self ..) hx
    · exact .inr hi
  | cons y a ih =>
    rcases List.infix_cons_iff.mp h with hp | hi
    · rcases Nat.le_total s.length (y :: a).length with hle | hle
      · exact .inl (List.prefix_of_prefix_length_le hp (List.prefix_append ..) hle).isInfix
      · -- a longer prefix would hold the letter behind `a`
        by_cases heq : s.length = (y :: a).length
        · exact .inl (List.prefix_of_prefix_length_le hp (List.prefix_append ..) heq.le).isInfix
        · have hnext : (y :: a) ++ [x] <+: y :: a ++ x :: b := ⟨b, by simp⟩
          have hpre : (y :: a) ++ [x] <+: s := by
            apply List.prefix_of_prefix_length_le hnext hp
            rw [List.length_append, List.length_singleton]
            omega
          exact absurd (hpre.subset (by simp)) hx
    · rcases ih hi with hl | hr
      · exact .inl (hl.trans (List.infix_cons (List.infix_refl a)))
      · exact .inr hr

/-- No pattern holds a bracket or is a part of the word; the empty pattern is a part of every word. -/
structure Outside (left right : α) (word : List α) (patterns : List (List α)) : Prop where
  left : ∀ s ∈ patterns, left ∉ s
  right : ∀ s ∈ patterns, right ∉ s
  word : ∀ s ∈ patterns, ¬ s <:+: word

section
variable {left right : α} {word : List α} {patterns : List (List α)} (ho : Outside left right word patterns)
include ho

theorem Outside.nonempty {s : List α} (hs : s ∈ patterns) : s ≠ [] := by
  rintro rfl
  exact ho.word [] hs List.nil_infix

theorem Clear.not_occurs {r rest s : List α} (h : Clear patterns r rest) (hs : s ∈ patterns) : ¬ s <:+: r := by
  rintro ⟨a, b, rfl⟩
  refine h a (s ++ b) s (by simp) ?_ ⟨hs, ho.nonempty hs, ⟨b ++ rest, by simp⟩⟩
  intro he
  exact ho.nonempty hs (List.append_eq_nil_iff.mp he).1

/-- **No pattern occurs in the result.** -/
theorem not_occurs_join {text last s : List α} {fs : List (List α × List α)} (h : Factors patterns text fs last)
    (hs : s ∈ patterns) : ¬ s <:+: join (left :: (word ++ [right])) fs last := by
  induction h with
  | last clear => exact clear.not_occurs ho hs
  | @step r t rest last fs clear _ _ ih =>
    intro hi
    rw [join, List.cons_append] at hi
    rcases infix_split (ho.left s hs) hi with hr | hi
    · exact clear.not_occurs ho hs hr
    · rw [List.append_assoc, List.singleton_append] at hi
      rcases infix_split (ho.right s hs) hi with hw | hi
      · exact ho.word s hs hw
      · exact ih hi

theorem not_occurs_replace [DecidableEq α] (hp : LongestFirst patterns) {s : List α} (hs : s ∈ patterns)
    (text : List α) : ¬ s <:+: replace (left :: (word ++ [right])) patterns text := by
  obtain ⟨fs, last, hf, hj⟩ := replace_factors hp (left :: (word ++ [right])) text
  rw [hj]
  exact not_occurs_join ho hf hs

end

theorem clear_of_not_occurs {patterns : List (List α)} {text : List α} (h : ∀ s ∈ patterns, ¬ s <:+: text) :
    Clear patterns text [] := by
  intro a b s he _ hm
  apply h s hm.mem
  rw [he]
  obtain ⟨t, ht⟩ := hm.isPrefix
  rw [List.append_nil] at ht
  exact ⟨a, t, by rw [List.append_assoc, ht]⟩

theorem replace_idem [DecidableEq α] {left right : α} {word : List α} {patterns : List (List α)}
    (ho : Outside left right word patterns) (hp : LongestFirst patterns) (text : List α) :
    replace (left :: (word ++ [right])) patterns (replace (left :: (word ++ [right])) patterns text) =
      replace (left :: (word ++ [right])) patterns text :=
  replace_of_clear hp _ (clear_of_not_occurs fun _ hs => not_occurs_replace ho hp hs text)

/-! ## Through a code

A letter is written as a non-empty word over another alphabet, such as the
bytes of UTF-8. The first letter of a code word is told apart from the others,
and no code word begins another, so patterns match at the same places.
-/

variable {β : Type v}

structure Code (α : Type u) (β : Type v) where
  encode : α → List β
  lead : β → Prop
  head : ∀ a, ∃ b bs, encode a = b :: bs ∧ lead b ∧ ∀ c ∈ bs, ¬ lead c
  prefixFree : ∀ a b l, encode a <+: encode b ++ l → a = b

namespace Code

variable (code : Code α β)

def word (l : List α) : List β := l.flatMap code.encode

@[simp] theorem word_nil : code.word [] = [] := rfl

@[simp] theorem word_cons (a : α) (l : List α) : code.word (a :: l) = code.encode a ++ code.word l := rfl

@[simp] theorem word_append (l l' : List α) : code.word (l ++ l') = code.word l ++ code.word l' :=
  List.flatMap_append

theorem encode_ne_nil (a : α) : code.encode a ≠ [] := by
  obtain ⟨b, bs, h, _⟩ := code.head a
  rw [h]
  exact List.cons_ne_nil b bs

theorem word_eq_nil {l : List α} : code.word l = [] ↔ l = [] := by
  cases l with
  | nil => simp
  | cons a l => simp [code.encode_ne_nil a]

theorem word_prefix_iff {s text : List α} : code.word s <+: code.word text ↔ s <+: text := by
  constructor
  · intro h
    induction s generalizing text with
    | nil => exact List.nil_prefix
    | cons a s ih =>
      cases text with
      | nil =>
        have hnil := List.prefix_nil.mp h
        exact absurd (code.word_eq_nil.mp hnil) (List.cons_ne_nil a s)
      | cons b text =>
        rw [word_cons, word_cons] at h
        obtain rfl : a = b := code.prefixFree a b _ ((List.prefix_append ..).trans h)
        rw [List.prefix_append_right_inj] at h
        exact List.cons_prefix_cons.mpr ⟨rfl, ih h⟩
  · rintro ⟨t, rfl⟩
    exact ⟨code.word t, (code.word_append s t).symm⟩

theorem word_injective {s t : List α} (h : code.word s = code.word t) : s = t := by
  have hst : s <+: t := code.word_prefix_iff.mp (h ▸ List.prefix_refl _)
  have hts : t <+: s := code.word_prefix_iff.mp (h ▸ List.prefix_refl _)
  exact hst.eq_of_length (Nat.le_antisymm hst.length_le hts.length_le)

/-- A code word list can be cut before a first letter only between two code words. -/
theorem cut {text : List α} {a bs : List β} {b : β} (h : code.word text = a ++ b :: bs) (hb : code.lead b) :
    ∃ x y, text = x ++ y ∧ a = code.word x ∧ b :: bs = code.word y := by
  induction text generalizing a with
  | nil =>
    rw [word_nil] at h
    exact absurd h.symm (by simp)
  | cons c text ih =>
    rw [word_cons] at h
    rcases List.append_eq_append_iff.mp h with ⟨a', rfl, h'⟩ | ⟨d, hd, h'⟩
    · obtain ⟨x, y, rfl, rfl, hy⟩ := ih h'
      exact ⟨c :: x, y, rfl, rfl, hy⟩
    · cases d with
      | nil =>
        rw [List.append_nil] at hd
        rw [List.nil_append] at h'
        exact ⟨[c], text, rfl, by rw [← hd]; simp, h'⟩
      | cons e d =>
        rw [List.cons_append, List.cons.injEq] at h'
        obtain ⟨b', bs', henc, _, hrest⟩ := code.head c
        rw [henc] at hd
        cases a with
        | nil => exact ⟨[], c :: text, rfl, rfl, by rw [word_cons, henc, hd, h'.1, h'.2]; rfl⟩
        | cons f a =>
          rw [List.cons_append, List.cons.injEq] at hd
          rw [hd.2, ← h'.1] at hrest
          exact absurd hb (hrest b (by simp))

theorem match_word {patterns : List (List α)} {s : List β} {text : List α}
    (h : Match (patterns.map code.word) s (code.word text)) : ∃ t, s = code.word t ∧ Match patterns t text := by
  obtain ⟨hmem, hne, hpre⟩ := h
  obtain ⟨t, ht, rfl⟩ := List.mem_map.mp hmem
  refine ⟨t, rfl, ht, ?_, code.word_prefix_iff.mp hpre⟩
  rintro rfl
  exact hne rfl

theorem word_match {patterns : List (List α)} {s text : List α} (h : Match patterns s text) :
    Match (patterns.map code.word) (code.word s) (code.word text) := by
  refine ⟨List.mem_map_of_mem h.mem, ?_, code.word_prefix_iff.mpr h.isPrefix⟩
  intro hnil
  exact h.nonempty (code.word_eq_nil.mp hnil)

theorem clear {patterns : List (List α)} {r rest : List α} (h : Clear patterns r rest) :
    Clear (patterns.map code.word) (code.word r) (code.word rest) := by
  intro a b s he hb hm
  cases b with
  | nil => exact hb rfl
  | cons x b =>
    -- a match starts with the first letter of a code word, so it lies on a boundary
    have hx : code.lead x := by
      obtain ⟨t, _, rfl⟩ := List.mem_map.mp hm.mem
      cases t with
      | nil => exact absurd rfl hm.nonempty
      | cons c t =>
        obtain ⟨b', bs', henc, hlead, _⟩ := code.head c
        have hpre := hm.isPrefix
        rw [word_cons, henc, List.cons_append, List.cons_append] at hpre
        rw [(List.cons_prefix_cons.mp hpre).1] at hlead
        exact hlead
    obtain ⟨y, z, rfl, rfl, hz⟩ := code.cut he hx
    rw [hz, ← word_append] at hm
    obtain ⟨t, rfl, ht⟩ := code.match_word hm
    refine h y z t rfl ?_ ht
    rintro rfl
    exact hb hz

theorem longest {patterns : List (List α)} {s text : List α} (h : Longest patterns s text) :
    Longest (patterns.map code.word) (code.word s) (code.word text) := by
  refine ⟨code.word_match h.1, ?_⟩
  intro b hb
  obtain ⟨t, rfl, ht⟩ := code.match_word hb
  have hts : t <+: s := List.prefix_of_prefix_length_le ht.isPrefix h.1.isPrefix (h.2 t ht)
  exact (code.word_prefix_iff.mpr hts).length_le

theorem factors {patterns : List (List α)} {text last : List α} {fs : List (List α × List α)}
    (h : Factors patterns text fs last) :
    Factors (patterns.map code.word) (code.word text) (fs.map fun f => (code.word f.1, code.word f.2))
      (code.word last) := by
  induction h with
  | last clear => exact .last (code.clear clear)
  | step clear longest _ ih =>
    rw [word_append, word_append, List.map_cons]
    refine .step ?_ ?_ ih
    · rw [← word_append]
      exact code.clear clear
    · rw [← word_append]
      exact code.longest longest

theorem join (marker : List α) (fs : List (List α × List α)) (last : List α) :
    Replace.join (code.word marker) (fs.map fun f => (code.word f.1, code.word f.2)) (code.word last) =
      code.word (Replace.join marker fs last) := by
  induction fs with
  | nil => rfl
  | cons f fs ih => simp only [List.map_cons, Replace.join, word_append, ih]

/-- **Replacing in the coded text is coding the replaced text.** -/
theorem replace [DecidableEq α] [DecidableEq β] {patterns : List (List α)} {coded : List (List β)}
    (hp : LongestFirst patterns) (hc : LongestFirst coded) (hmem : ∀ s, s ∈ coded ↔ s ∈ patterns.map code.word)
    (marker text : List α) :
    Replace.replace (code.word marker) coded (code.word text) = code.word (Replace.replace marker patterns text) := by
  obtain ⟨fs, last, hf, hj⟩ := replace_factors hp marker text
  have hf' := (code.factors hf).congr fun s => (hmem s).symm
  rw [hj, replace_eq_join hc _ hf', code.join]

end Code

end Replace
