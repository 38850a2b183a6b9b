import Mathlib.Data.List.TakeWhile
import NeuralPlus.TransportSound

/-!
# The URLs that bypass the proxies

`LoopbackUrl` is what the transport promises to send without a proxy: cleartext
HTTP to `localhost`, `127.0.0.1` or `[::1]`, with or without a port.
`is_loopback_http_url` accepts each of them. It reads a bracketed host up to its
closing bracket and nothing behind it, so it accepts more: `Misread` says what.
-/

namespace NeuralPlus

/-! ## Text up to a delimiter -/

section
variable {α : Type} [DecidableEq α] {c : α}

theorem notMem_takeWhile_ne (text : List α) : c ∉ text.takeWhile (· ≠ c) := by
  intro h
  have := List.mem_takeWhile_imp h
  simp at this

theorem takeWhile_ne_of_notMem {field : List α} (h : c ∉ field) : field.takeWhile (· ≠ c) = field := by
  rw [List.takeWhile_eq_self_iff]
  intro x hx
  exact decide_eq_true (ne_of_mem_of_not_mem hx h)

theorem takeWhile_ne_append {field : List α} (h : c ∉ field) (rest : List α) :
    (field ++ c :: rest).takeWhile (· ≠ c) = field := by
  have hall : ∀ x ∈ field, decide (x ≠ c) = true := fun x hx => decide_eq_true (ne_of_mem_of_not_mem hx h)
  rw [List.takeWhile_append_of_pos hall, List.takeWhile_cons_of_neg (by simp), List.append_nil]

/-- What follows the text before the first `c` is empty, or begins with `c`. -/
theorem takeWhile_ne_split (c : α) (text : List α) :
    ∃ rest, text = text.takeWhile (· ≠ c) ++ rest ∧ (rest = [] ∨ rest.head? = some c) := by
  refine ⟨text.dropWhile (· ≠ c), List.takeWhile_append_dropWhile.symm, ?_⟩
  induction text with
  | nil => exact .inl rfl
  | cons x text ih =>
    by_cases h : x = c
    · rw [List.dropWhile_cons_of_neg (by simpa using h), h]
      exact .inr rfl
    · rwa [List.dropWhile_cons_of_pos (by simpa using h)]

theorem takeWhile_ne_split_of_mem {text : List α} (h : c ∈ text) :
    ∃ rest, text = text.takeWhile (· ≠ c) ++ c :: rest := by
  obtain ⟨rest, he, hrest⟩ := takeWhile_ne_split c text
  cases rest with
  | nil =>
    rw [List.append_nil] at he
    exact absurd (he ▸ h) (notMem_takeWhile_ne text)
  | cons x rest =>
    rcases hrest with hrest | hrest
    · cases hrest
    · cases hrest
      exact ⟨rest, he⟩

end

/-! ## Loopback hosts -/

def HttpScheme (url : String) : Prop := asciiEqualCaseInsensitive (String.ofList (url.toList.take 7)) "http://" = true

/-- The text behind the scheme, up to the first of `/`, `?` and `#`. -/
def authority (url : String) : List Char :=
  (url.toList.drop 7).takeWhile fun c => c ≠ '/' && c ≠ '?' && c ≠ '#'

def LoopbackName (name : List Char) : Prop :=
  asciiEqualCaseInsensitive (String.ofList name) "localhost" = true ∨ name = "127.0.0.1".toList

def LoopbackHost (host : List Char) : Prop := LoopbackName host ∨ host = "[::1]".toList

def PortText (port : List Char) : Prop := port = [] ∨ port.head? = some ':'

structure LoopbackUrl (url : String) : Prop where
  scheme : HttpScheme url
  noUser : '@' ∉ authority url
  host : ∃ host port, authority url = host ++ port ∧ LoopbackHost host ∧ PortText port

/-- A bracketed authority that is not `[::1]` with an optional port: a name or
an IPv4 address in the brackets, or text behind them that is not a port. -/
structure Misread (url : String) : Prop where
  scheme : HttpScheme url
  noUser : '@' ∉ authority url
  bracket : ∃ inside rest, authority url = '[' :: (inside ++ ']' :: rest) ∧ ']' ∉ inside ∧
    (LoopbackName inside ∨ inside = "::1".toList ∧ ¬ PortText rest)

theorem LoopbackName.mem {name : List Char} (h : LoopbackName name) {c : Char} (hc : c ∈ name) :
    asciiLower c ∈ "localhost".toList ∨ c ∈ "127.0.0.1".toList := by
  rcases h with h | h
  · left
    unfold asciiEqualCaseInsensitive asciiLowerText at h
    rw [beq_iff_eq, String.toList_ofList] at h
    have hmap : name.map asciiLower = "localhost".toList.map asciiLower := String.ofList_injective h
    have hlower : "localhost".toList.map asciiLower = "localhost".toList := by decide
    rw [← hlower, ← hmap]
    exact List.mem_map_of_mem hc
  · exact .inr (h ▸ hc)

theorem LoopbackName.ne_nil {name : List Char} (h : LoopbackName name) : name ≠ [] := by
  rintro rfl
  rcases h with h | h
  · exact absurd h (by decide)
  · exact absurd h (by decide)

theorem LoopbackName.notMem {name : List Char} (h : LoopbackName name) {c : Char}
    (hc : c = ':' ∨ c = '[' ∨ c = ']') : c ∉ name := by
  intro hm
  have := h.mem hm
  rcases hc with rfl | rfl | rfl <;> exact absurd this (by decide)

theorem LoopbackName.head?_append_ne {name : List Char} (h : LoopbackName name) (port : List Char) :
    (name ++ port).head? ≠ some '[' := by
  intro he
  rw [List.head?_append_of_ne_nil _ h.ne_nil] at he
  exact h.notMem (.inr (.inl rfl)) (List.mem_of_head? he)

/-! ## What the code reads -/

def hostRead (authority : List Char) : List Char :=
  if authority.head? = some '[' then (authority.drop 1).takeWhile (· ≠ ']') else authority.takeWhile (· ≠ ':')

theorem isLoopbackHttpUrl_iff (url : String) :
    isLoopbackHttpUrl url = true ↔
      HttpScheme url ∧ ¬ (authority url = [] ∨ '@' ∈ authority url) ∧
      ¬ ((authority url).head? = some '[' ∧ ']' ∉ authority url) ∧
      (LoopbackName (hostRead (authority url)) ∨ hostRead (authority url) = "::1".toList) := by
  have hunfold : isLoopbackHttpUrl url =
      if asciiEqualCaseInsensitive (String.ofList (url.toList.take 7)) "http://" = false then false
      else if authority url = [] ∨ '@' ∈ authority url then false
      else if (authority url).head? = some '[' ∧ ']' ∉ authority url then false
      else asciiEqualCaseInsensitive (String.ofList (hostRead (authority url))) "localhost" ||
        String.ofList (hostRead (authority url)) = "127.0.0.1" || String.ofList (hostRead (authority url)) = "::1" := rfl
  have hofList : ∀ (host : List Char) (s : String), String.ofList host = s ↔ host = s.toList := by
    intro host s
    constructor
    · rintro rfl
      exact String.toList_ofList.symm
    · rintro rfl
      exact String.ofList_toList
  rw [hunfold]
  unfold HttpScheme LoopbackName
  by_cases hscheme : asciiEqualCaseInsensitive (String.ofList (url.toList.take 7)) "http://" = true
  · rw [if_neg (by simp [hscheme])]
    by_cases huser : authority url = [] ∨ '@' ∈ authority url
    · simp [huser]
    · rw [if_neg huser]
      by_cases hclose : (authority url).head? = some '[' ∧ ']' ∉ authority url
      · simp [hclose]
      · rw [if_neg hclose]
        simp only [hscheme, huser, hclose, hofList, Bool.or_eq_true, decide_eq_true_eq, not_false_eq_true, true_and]
  · simp [hscheme]

theorem hostRead_bracketed {inside : List Char} (h : ']' ∉ inside) (rest : List Char) :
    hostRead ('[' :: (inside ++ ']' :: rest)) = inside := by
  rw [hostRead, if_pos List.head?_cons, List.drop_succ_cons, List.drop_zero]
  exact takeWhile_ne_append h rest

theorem hostRead_plain {host port : List Char} (hhost : LoopbackName host) (hport : PortText port) :
    hostRead (host ++ port) = host := by
  have hcolon : ':' ∉ host := hhost.notMem (.inl rfl)
  rw [hostRead, if_neg (hhost.head?_append_ne port)]
  cases port with
  | nil => rw [List.append_nil, takeWhile_ne_of_notMem hcolon]
  | cons x port =>
    rcases hport with hport | hport
    · cases hport
    · cases hport
      exact takeWhile_ne_append hcolon port

/-! ## The promised hosts, and what else is accepted -/

theorem LoopbackUrl.recognized {url : String} (h : LoopbackUrl url) : isLoopbackHttpUrl url = true := by
  rw [isLoopbackHttpUrl_iff]
  obtain ⟨host, port, ha, hhost, hport⟩ := h.host
  have huser := h.noUser
  refine ⟨h.scheme, ?_⟩
  rcases hhost with hhost | rfl
  · rw [ha] at huser ⊢
    rw [hostRead_plain hhost hport]
    refine ⟨?_, fun hc => hhost.head?_append_ne port hc.1, .inl hhost⟩
    rintro (he | he)
    · exact hhost.ne_nil (List.append_eq_nil_iff.mp he).1
    · exact huser he
  · have he : "[::1]".toList ++ port = '[' :: ("::1".toList ++ ']' :: port) := rfl
    rw [ha, he] at huser ⊢
    rw [hostRead_bracketed (by decide)]
    refine ⟨?_, fun hc => hc.2 (by simp), .inr rfl⟩
    rintro (hn | hm)
    · cases hn
    · exact huser hm

theorem Misread.recognized {url : String} (h : Misread url) : isLoopbackHttpUrl url = true := by
  rw [isLoopbackHttpUrl_iff]
  obtain ⟨inside, rest, ha, hinside, hname⟩ := h.bracket
  have huser := h.noUser
  refine ⟨h.scheme, ?_⟩
  rw [ha] at huser ⊢
  rw [hostRead_bracketed hinside]
  refine ⟨?_, fun hc => hc.2 (by simp), hname.imp_right And.left⟩
  rintro (hn | hm)
  · cases hn
  · exact huser hm

theorem bracketed_inj {inside inside' rest rest' : List Char} (h : ']' ∉ inside) (h' : ']' ∉ inside')
    (he : '[' :: (inside ++ ']' :: rest) = '[' :: (inside' ++ ']' :: rest')) : inside = inside' ∧ rest = rest' := by
  have hi : inside = inside' := by rw [← hostRead_bracketed h rest, he, hostRead_bracketed h']
  subst hi
  rw [List.cons.injEq, List.append_cancel_left_eq, List.cons.injEq] at he
  exact ⟨rfl, he.2.2⟩

theorem Misread.not_loopbackUrl {url : String} (h : Misread url) : ¬ LoopbackUrl url := by
  intro hl
  obtain ⟨inside, rest, ha, hinside, hname⟩ := h.bracket
  obtain ⟨host, port, hb, hhost, hport⟩ := hl.host
  rw [ha] at hb
  rcases hhost with hhost | rfl
  · apply hhost.head?_append_ne port
    rw [← hb, List.head?_cons]
  · obtain ⟨rfl, rfl⟩ := bracketed_inj hinside (show ']' ∉ "::1".toList by decide) hb
    rcases hname with hname | ⟨_, hrest⟩
    · exact hname.notMem (.inl rfl) (by decide)
    · exact hrest hport

/-- What is recognized is a promised host or a misread bracket. -/
theorem loopbackUrl_or_misread {url : String} (h : isLoopbackHttpUrl url = true) : LoopbackUrl url ∨ Misread url := by
  rw [isLoopbackHttpUrl_iff] at h
  obtain ⟨hscheme, huser, hclose, hname⟩ := h
  rw [not_or] at huser
  by_cases hb : (authority url).head? = some '['
  · obtain ⟨text, ha⟩ : ∃ text, authority url = '[' :: text := by
      cases ha : authority url with
      | nil => exact absurd ha huser.1
      | cons x text =>
        rw [ha] at hb
        cases hb
        exact ⟨text, rfl⟩
    -- a bracket that is not closed is not recognized
    have hmem : ']' ∈ text := by
      by_contra hn
      refine hclose ⟨hb, ?_⟩
      rw [ha, List.mem_cons]
      rintro (he | hm)
      · exact absurd he (by decide)
      · exact hn hm
    obtain ⟨rest, ht⟩ := takeWhile_ne_split_of_mem hmem
    have hinside : ']' ∉ text.takeWhile (· ≠ ']') := notMem_takeWhile_ne text
    generalize text.takeWhile (· ≠ ']') = inside at ht hinside
    subst ht
    rw [ha, hostRead_bracketed hinside] at hname
    rcases hname with hname | hname
    · exact .inr ⟨hscheme, huser.2, inside, rest, ha, hinside, .inl hname⟩
    · by_cases hport : PortText rest
      · left
        refine ⟨hscheme, huser.2, "[::1]".toList, rest, ?_, .inr rfl, hport⟩
        rw [ha, hname]
        rfl
      · exact .inr ⟨hscheme, huser.2, inside, rest, ha, hinside, .inr ⟨hname, hport⟩⟩
  · obtain ⟨port, ha, hport⟩ := takeWhile_ne_split ':' (authority url)
    have hread : hostRead (authority url) = (authority url).takeWhile (· ≠ ':') := if_neg hb
    rw [hread] at hname
    rcases hname with hname | hname
    · exact .inl ⟨hscheme, huser.2, _, port, ha, .inl hname, hport⟩
    · refine absurd ?_ (notMem_takeWhile_ne (c := ':') (authority url))
      rw [hname]
      decide

theorem isLoopbackHttpUrl_exact (url : String) :
    (isLoopbackHttpUrl url = true ↔ LoopbackUrl url) ↔ ¬ Misread url := by
  constructor
  · intro h hm
    exact hm.not_loopbackUrl (h.mp hm.recognized)
  · intro hm
    constructor
    · intro h
      exact (loopbackUrl_or_misread h).resolve_right hm
    · exact LoopbackUrl.recognized

theorem isLoopbackHttpUrl_text_behind_bracket :
    ¬ (isLoopbackHttpUrl "http://[::1]evil.com/" = true ↔ LoopbackUrl "http://[::1]evil.com/") := by
  have hmisread : Misread "http://[::1]evil.com/" := by
    refine ⟨by unfold HttpScheme; decide, by decide, "::1".toList, "evil.com".toList, by decide, by decide, .inr ⟨rfl, ?_⟩⟩
    rintro (h | h) <;> exact absurd h (by decide)
  intro h
  exact hmisread.not_loopbackUrl (h.mp (by decide))

end NeuralPlus
