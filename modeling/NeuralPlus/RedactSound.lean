import NeuralPlus.Common
import NeuralPlus.Replace

/-!
# Redaction as leftmost-longest replacement

`redact_sensitive_values` works on the bytes of a `std::string`. `redactBytes`
is that function; on text it is `redactSensitiveValues` seen through UTF-8.
-/

namespace NeuralPlus

/-! ## UTF-8 -/

theorem utf8EncodeChar_prefixFree (a b : Char) (l : List UInt8)
    (h : String.utf8EncodeChar a <+: String.utf8EncodeChar b ++ l) : a = b := by
  obtain ⟨t, ht⟩ := h
  have ha := ByteArray.utf8DecodeChar?_utf8EncodeChar_append (b := t.toByteArray) (c := a)
  have hb := ByteArray.utf8DecodeChar?_utf8EncodeChar_append (b := l.toByteArray) (c := b)
  rw [← List.toByteArray_append, ht, List.toByteArray_append, hb] at ha
  exact (Option.some.inj ha).symm

def utf8 : Replace.Code Char UInt8 where
  encode := String.utf8EncodeChar
  lead := UInt8.IsUTF8FirstByte
  head c := by
    cases hc : String.utf8EncodeChar c with
    | nil =>
      have hlength := String.length_utf8EncodeChar c
      have hpos := c.utf8Size_pos
      rw [hc, List.length_nil] at hlength
      omega
    | cons b bs =>
      refine ⟨b, bs, rfl, ?_, ?_⟩
      · have hlt : 0 < (String.utf8EncodeChar c).length := by simp [hc]
        have h : (String.utf8EncodeChar c)[0].IsUTF8FirstByte :=
          UInt8.isUTF8FirstByte_getElem_utf8EncodeChar.mpr rfl
        simpa [hc] using h
      · intro x hx
        obtain ⟨i, hi, rfl⟩ := List.mem_iff_getElem.mp hx
        have hlt : i + 1 < (String.utf8EncodeChar c).length := by simp [hc, hi]
        have h : ¬ (String.utf8EncodeChar c)[i + 1].IsUTF8FirstByte := by
          rw [UInt8.isUTF8FirstByte_getElem_utf8EncodeChar]
          exact Nat.succ_ne_zero i
        simpa [hc] using h
  prefixFree := utf8EncodeChar_prefixFree

def bytes (s : String) : List UInt8 := utf8.word s.toList

theorem length_bytes (s : String) : (bytes s).length = s.utf8ByteSize := by
  rw [← String.size_toByteArray, ← String.utf8Encode_toList, List.utf8Encode, List.size_toByteArray]
  rfl

/-! ## The order of the secrets -/

theorem pairwise_descending {α : Type} (size : α → Nat) (l : List α) :
    (l.insertionSort fun a b => size b ≤ size a).Pairwise fun a b => size b ≤ size a := by
  have : Std.Total fun a b => size b ≤ size a := ⟨fun _ _ => Nat.le_total _ _⟩
  have : IsTrans α fun a b => size b ≤ size a := ⟨fun _ _ _ h h' => Nat.le_trans h' h⟩
  exact List.pairwise_insertionSort _ l

theorem longestFirst_of_descending {α : Type} {l : List (List α)}
    (h : l.Pairwise fun a b => b.length ≤ a.length) : Replace.LongestFirst l :=
  h.imp fun hle _ _ _ => hle

/-- The longest text first, and among the beginnings of one text that is the one with the most characters. -/
theorem longestFirst_toList {l : List String} (h : l.Pairwise fun a b => b.utf8ByteSize ≤ a.utf8ByteSize) :
    Replace.LongestFirst (l.map String.toList) := by
  refine List.pairwise_map.mpr (h.imp ?_)
  intro s t hle text hs ht
  rcases List.prefix_or_prefix_of_prefix hs ht with hst | hts
  · rw [← length_bytes, ← length_bytes] at hle
    have hwords : bytes s <+: bytes t := utf8.word_prefix_iff.mpr hst
    have heq : bytes s = bytes t := hwords.eq_of_length (Nat.le_antisymm hwords.length_le hle)
    rw [utf8.word_injective heq]
  · exact hts.length_le

/-! ## The bytes of a redacted string -/

def redactBytes (secrets : List (List UInt8)) (input : List UInt8) : List UInt8 :=
  Replace.replace (bytes "[REDACTED]") (secrets.insertionSort fun a b => b.length ≤ a.length) input

theorem longestFirst_bytes (secrets : List (List UInt8)) :
    Replace.LongestFirst (secrets.insertionSort fun a b => b.length ≤ a.length) :=
  longestFirst_of_descending (pairwise_descending List.length secrets)

/-- Whatever order the sort leaves secrets of one length in, the result is the same. -/
theorem redactBytes_of_descending {secrets ordered : List (List UInt8)}
    (hordered : ordered.Pairwise fun a b => b.length ≤ a.length) (hmem : ∀ s, s ∈ ordered ↔ s ∈ secrets)
    (input : List UInt8) : Replace.replace (bytes "[REDACTED]") ordered input = redactBytes secrets input := by
  refine Replace.replace_congr (longestFirst_of_descending hordered) (longestFirst_bytes secrets) ?_ _ _
  intro s
  rw [hmem, List.mem_insertionSort]

/-- No secret holds a bracket or is a part of the word in the marker. -/
def Separable (secrets : List (List UInt8)) : Prop :=
  ∀ s ∈ secrets, 91 ∉ s ∧ 93 ∉ s ∧ ¬ s <:+: bytes "REDACTED"

instance (secrets : List (List UInt8)) : Decidable (Separable secrets) :=
  inferInstanceAs (Decidable (∀ s ∈ secrets, 91 ∉ s ∧ 93 ∉ s ∧ ¬ s <:+: bytes "REDACTED"))

theorem marker_bytes : bytes "[REDACTED]" = 91 :: (bytes "REDACTED" ++ [93]) := by decide

theorem Separable.outside {secrets : List (List UInt8)} (h : Separable secrets) :
    Replace.Outside 91 93 (bytes "REDACTED") (secrets.insertionSort fun a b => b.length ≤ a.length) := by
  constructor
  all_goals intro s hs; rw [List.mem_insertionSort] at hs
  · exact (h s hs).1
  · exact (h s hs).2.1
  · exact (h s hs).2.2

/-- **Redaction is leftmost-longest replacement**, by the secrets as a set, and
where no secret reaches into the marker it leaves none behind. -/
theorem redactBytes_leftmost_longest (secrets : List (List UInt8)) (input : List UInt8) :
    (∃ fs last, Replace.Factors secrets input fs last ∧
      redactBytes secrets input = Replace.join (bytes "[REDACTED]") fs last) ∧
    (∀ secrets', (∀ s, s ∈ secrets' ↔ s ∈ secrets) → redactBytes secrets' input = redactBytes secrets input) ∧
    (Separable secrets → (∀ s ∈ secrets, ¬ s <:+: redactBytes secrets input) ∧
      redactBytes secrets (redactBytes secrets input) = redactBytes secrets input) := by
  have hlongest := longestFirst_bytes secrets
  refine ⟨?_, ?_, ?_⟩
  · obtain ⟨fs, last, hf, hj⟩ := Replace.replace_factors hlongest (bytes "[REDACTED]") input
    exact ⟨fs, last, hf.congr fun s => List.mem_insertionSort _, hj⟩
  · intro secrets' hmem
    refine redactBytes_of_descending (pairwise_descending List.length secrets') ?_ input
    intro s
    rw [List.mem_insertionSort, hmem]
  · intro h
    unfold redactBytes
    rw [marker_bytes]
    constructor
    · intro s hs
      exact Replace.not_occurs_replace h.outside hlongest ((List.mem_insertionSort _).mpr hs) input
    · exact Replace.replace_idem h.outside hlongest input

theorem redactBytes_leftmost_longest_key :
    (∀ s ∈ [bytes "key", bytes "key-2"], ¬ s <:+: redactBytes [bytes "key", bytes "key-2"] (bytes "my key-2")) ∧
      redactBytes [bytes "key", bytes "key-2"] (redactBytes [bytes "key", bytes "key-2"] (bytes "my key-2")) =
        redactBytes [bytes "key", bytes "key-2"] (bytes "my key-2") := by
  have hseparable : Separable [bytes "key", bytes "key-2"] := by decide
  exact (redactBytes_leftmost_longest _ (bytes "my key-2")).2.2 hseparable

/-! ## Text -/

theorem redactChars_eq (secrets : List (List Char)) (text : List Char) :
    redactChars secrets text = Replace.replace "[REDACTED]".toList secrets text := by
  induction text using redactChars.induct secrets with
  | case1 => rw [redactChars, Replace.replace]
  | case2 c cs hnone ih => rw [redactChars, Replace.replace, Replace.firstMatch, hnone, ih]
  | case3 c cs s hsome ih =>
    rw [redactChars, Replace.replace, Replace.firstMatch, hsome]
    simp only [ih]

/-- **On text, redaction is redaction of its bytes.** -/
theorem bytes_redactSensitiveValues (secrets : List String) (input : String) :
    bytes (redactSensitiveValues secrets input) = redactBytes (secrets.map bytes) (bytes input) := by
  have hdescending := pairwise_descending String.utf8ByteSize secrets
  simp only [redactSensitiveValues, redactChars_eq, bytes, String.toList_ofList]
  symm
  refine utf8.replace (longestFirst_toList hdescending) (longestFirst_bytes _) ?_ _ _
  intro s
  simp [bytes]

def Free (secrets : List String) (text : String) : Prop := ∀ s ∈ secrets, ¬ s.toList <:+: text.toList

def Apart (secrets : List String) : Prop :=
  ∀ s ∈ secrets, '[' ∉ s.toList ∧ ']' ∉ s.toList ∧ ¬ s.toList <:+: "REDACTED".toList

instance (secrets : List String) (text : String) : Decidable (Free secrets text) :=
  inferInstanceAs (Decidable (∀ s ∈ secrets, ¬ s.toList <:+: text.toList))

instance (secrets : List String) : Decidable (Apart secrets) :=
  inferInstanceAs (Decidable (∀ s ∈ secrets, '[' ∉ s.toList ∧ ']' ∉ s.toList ∧ ¬ s.toList <:+: "REDACTED".toList))

section
variable {secrets : List String}

def orderedSecrets (secrets : List String) : List (List Char) :=
  (secrets.insertionSort fun a b => b.utf8ByteSize ≤ a.utf8ByteSize).map String.toList

theorem mem_orderedSecrets {s : List Char} : s ∈ orderedSecrets secrets ↔ ∃ t ∈ secrets, t.toList = s := by
  unfold orderedSecrets
  simp

theorem longestFirst_orderedSecrets (secrets : List String) : Replace.LongestFirst (orderedSecrets secrets) :=
  longestFirst_toList (pairwise_descending String.utf8ByteSize secrets)

theorem toList_redactSensitiveValues (input : String) :
    (redactSensitiveValues secrets input).toList =
      Replace.replace "[REDACTED]".toList (orderedSecrets secrets) input.toList := by
  rw [redactSensitiveValues, String.toList_ofList, redactChars_eq]
  rfl

theorem Apart.outside (h : Apart secrets) :
    Replace.Outside '[' ']' "REDACTED".toList (orderedSecrets secrets) := by
  constructor
  all_goals intro s hs; obtain ⟨t, ht, rfl⟩ := mem_orderedSecrets.mp hs
  · exact (h t ht).1
  · exact (h t ht).2.1
  · exact (h t ht).2.2

theorem free_redactSensitiveValues (h : Apart secrets) (input : String) :
    Free secrets (redactSensitiveValues secrets input) := by
  intro s hs
  rw [toList_redactSensitiveValues]
  exact Replace.not_occurs_replace h.outside (longestFirst_orderedSecrets secrets)
    (mem_orderedSecrets.mpr ⟨s, hs, rfl⟩) input.toList

theorem redactSensitiveValues_of_free {input : String} (h : Free secrets input) :
    redactSensitiveValues secrets input = input := by
  apply String.toList_inj.mp
  rw [toList_redactSensitiveValues]
  refine Replace.replace_of_clear (longestFirst_orderedSecrets secrets) _ (Replace.clear_of_not_occurs ?_)
  intro s hs
  obtain ⟨t, ht, rfl⟩ := mem_orderedSecrets.mp hs
  exact h t ht

end

end NeuralPlus
