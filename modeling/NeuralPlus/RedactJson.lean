import NeuralPlus.JsonTree
import NeuralPlus.RedactSound

/-!
# Redaction of JSON trees

`redact_json_strings` rewrites string values in place and rebuilds each object
under its redacted names. Two names of one object that redact to the same text
leave one member, the last of them in the order of names.
-/

namespace NeuralPlus

open JsonValue

variable {secrets : List String}

/-! ## One node -/

theorem redactJsonElements_eq (secrets : List String) (xs : List JsonValue) :
    redactJsonElements secrets xs = xs.map (redactJsonStrings secrets) := by
  induction xs with
  | nil => rfl
  | cons x xs ih => rw [redactJsonElements, ih, List.map_cons]

theorem redactJsonStrings_array (secrets : List String) (xs : List JsonValue) :
    redactJsonStrings secrets (.array xs) = .array (xs.map (redactJsonStrings secrets)) := by
  rw [redactJsonStrings, redactJsonElements_eq]

theorem mem_redactJsonMembers {m acc : List (String × JsonValue)} {p : String × JsonValue}
    (h : p ∈ redactJsonMembers secrets m acc) :
    p ∈ acc ∨ ∃ q ∈ m, p = (redactSensitiveValues secrets q.1, redactJsonStrings secrets q.2) := by
  induction m generalizing acc with
  | nil => exact .inl (by rwa [redactJsonMembers] at h)
  | cons q m ih =>
    rw [redactJsonMembers] at h
    rcases ih h with h | ⟨q', hq, rfl⟩
    · rcases OrdMap.mem_of_mem_insert h with rfl | h
      · exact .inr ⟨q, List.mem_cons_self .., rfl⟩
      · exact .inl h
    · exact .inr ⟨q', List.mem_cons_of_mem _ hq, rfl⟩

theorem sorted_redactJsonMembers {m acc : List (String × JsonValue)} (h : OrdMap.Sorted acc) :
    OrdMap.Sorted (redactJsonMembers secrets m acc) := by
  induction m generalizing acc with
  | nil => rwa [redactJsonMembers]
  | cons q m ih =>
    rw [redactJsonMembers]
    exact ih (h.insert _ _)

/-- The member is the last one whose name redacts as its name does. -/
def Last (secrets : List String) (m : List (String × JsonValue)) (key : String) : Prop :=
  ∀ p ∈ m, redactSensitiveValues secrets p.1 = redactSensitiveValues secrets key → p.1 ≤ key

theorem find?_redactJsonMembers {m : List (String × JsonValue)} (hm : OrdMap.Sorted m) (acc : List (String × JsonValue))
    (name : String) (w : JsonValue) :
    OrdMap.find? name (redactJsonMembers secrets m acc) = some w ↔
      (∃ p ∈ m, redactSensitiveValues secrets p.1 = name ∧ Last secrets m p.1 ∧ redactJsonStrings secrets p.2 = w) ∨
        (∀ p ∈ m, redactSensitiveValues secrets p.1 ≠ name) ∧ OrdMap.find? name acc = some w := by
  induction m generalizing acc with
  | nil => simp [redactJsonMembers]
  | cons q m ih =>
    obtain ⟨hhead, htail⟩ := List.pairwise_cons.mp hm
    rw [redactJsonMembers, ih htail, OrdMap.find?_insert]
    constructor
    · rintro (⟨p, hp, hname, hlast, hw⟩ | ⟨hnone, hacc⟩)
      · refine .inl ⟨p, List.mem_cons_of_mem _ hp, hname, ?_, hw⟩
        intro p' hp' heq
        rcases List.mem_cons.mp hp' with rfl | hp'
        · exact (hhead p hp).le
        · exact hlast p' hp' heq
      · split at hacc
        · next heq =>
          refine .inl ⟨q, List.mem_cons_self .., heq, ?_, Option.some.inj hacc⟩
          intro p hp hsame
          rcases List.mem_cons.mp hp with rfl | hp
          · exact le_rfl
          · exact absurd (hsame.trans heq) (hnone p hp)
        · next hne =>
          refine .inr ⟨?_, hacc⟩
          intro p hp
          rcases List.mem_cons.mp hp with rfl | hp
          · exact hne
          · exact hnone p hp
    · rintro (⟨p, hp, hname, hlast, hw⟩ | ⟨hnone, hacc⟩)
      · rcases List.mem_cons.mp hp with rfl | hp
        · refine .inr ⟨?_, by rw [if_pos hname, hw]⟩
          -- a later member of this name would not be below it
          intro p' hp' heq
          exact absurd (hhead p' hp') (not_lt_of_ge (hlast p' (List.mem_cons_of_mem _ hp') (heq.trans hname.symm)))
        · exact .inl ⟨p, hp, hname, fun p' hp' => hlast p' (List.mem_cons_of_mem _ hp'), hw⟩
      · refine .inr ⟨fun p hp => hnone p (List.mem_cons_of_mem _ hp), ?_⟩
        rw [if_neg (hnone q (List.mem_cons_self ..)), hacc]

/-! ## The whole tree -/

theorem ordered_redactJsonStrings (secrets : List String) (j : JsonValue) : (redactJsonStrings secrets j).Ordered := by
  induction j using treeInduction with
  | array xs ih =>
    rw [redactJsonStrings_array]
    apply ordered_array
    intro y hy
    obtain ⟨x, hx, rfl⟩ := List.mem_map.mp hy
    exact ih x hx
  | object m ih =>
    rw [redactJsonStrings]
    apply ordered_object (sorted_redactJsonMembers List.Pairwise.nil)
    intro p hp
    obtain ⟨q, hq, rfl⟩ := (mem_redactJsonMembers hp).resolve_left (by simp)
    exact ih q hq
  | _ =>
    rw [redactJsonStrings] <;> try exact fun _ h => JsonValue.noConfusion h
    all_goals intro m hm; cases hm

def redactTree (secrets : List String) (tree : JsonTree) : JsonTree :=
  ⟨redactJsonStrings secrets tree.value, ordered_redactJsonStrings secrets tree.value⟩

/-- **No string value and no member name holds a secret**, at any depth. -/
theorem free_of_text (h : Apart secrets) (j : JsonValue) :
    ∀ t, Text t (redactJsonStrings secrets j) → Free secrets t := by
  induction j using treeInduction with
  | string s =>
    intro t ht
    rw [redactJsonStrings, text_string] at ht
    subst ht
    exact free_redactSensitiveValues h s
  | array xs ih =>
    intro t ht
    rw [redactJsonStrings_array, text_array] at ht
    obtain ⟨y, hy, ht⟩ := ht
    obtain ⟨x, hx, rfl⟩ := List.mem_map.mp hy
    exact ih x hx t ht
  | object m ih =>
    intro t ht
    rw [redactJsonStrings, text_object] at ht
    obtain ⟨p, hp, ht⟩ := ht
    obtain ⟨q, hq, rfl⟩ := (mem_redactJsonMembers hp).resolve_left (by simp)
    rcases ht with rfl | ht
    · exact free_redactSensitiveValues h q.1
    · exact ih q hq t ht
  | _ =>
    rintro t (ht | ⟨m, v, hm, _⟩)
    · cases ht
    · cases hm

theorem redactJsonMembers_of_free {m acc : List (String × JsonValue)} (hs : OrdMap.Sorted (acc ++ m))
    (hm : ∀ p ∈ m, redactSensitiveValues secrets p.1 = p.1 ∧ redactJsonStrings secrets p.2 = p.2) :
    redactJsonMembers secrets m acc = acc ++ m := by
  induction m generalizing acc with
  | nil => rw [redactJsonMembers, List.append_nil]
  | cons q m ih =>
    obtain ⟨hname, hvalue⟩ := hm q (List.mem_cons_self ..)
    have habove : ∀ p ∈ acc, p.1 < q.1 := fun p hp =>
      (List.pairwise_append.mp hs).2.2 p hp q (List.mem_cons_self ..)
    have hsplit : acc ++ [q] ++ m = acc ++ q :: m := by simp
    rw [redactJsonMembers, hname, hvalue, OrdMap.insert_above habove, ih (hsplit ▸ hs), hsplit]
    exact fun p hp => hm p (List.mem_cons_of_mem _ hp)

theorem redactJsonStrings_of_free {j : JsonValue} (ho : j.Ordered) (h : ∀ t, Text t j → Free secrets t) :
    redactJsonStrings secrets j = j := by
  induction j using treeInduction with
  | string s => rw [redactJsonStrings, redactSensitiveValues_of_free (h s (.inl .refl))]
  | array xs ih =>
    rw [redactJsonStrings_array]
    congr 1
    refine (List.map_congr_left ?_).trans (List.map_id xs)
    intro x hx
    exact ih x hx (ho.mono (.element hx .refl)) fun t ht => h t (text_array.mpr ⟨x, hx, ht⟩)
  | object m ih =>
    have hmembers : redactJsonMembers secrets m [] = [] ++ m := by
      refine redactJsonMembers_of_free (ho m .refl) ?_
      intro p hp
      refine ⟨redactSensitiveValues_of_free (h p.1 (text_object.mpr ⟨p, hp, .inl rfl⟩)), ?_⟩
      exact ih p hp (ho.mono (.member hp .refl)) fun t ht => h t (text_object.mpr ⟨p, hp, .inr ht⟩)
    rw [redactJsonStrings, hmembers, List.nil_append]
  | _ =>
    rw [redactJsonStrings] <;> try exact fun _ h => JsonValue.noConfusion h

/-! ## Places -/

def redactStep (secrets : List String) : Step → Step
  | .index i => .index i
  | .name key => .name (redactSensitiveValues secrets key)

/-- A member is kept unless a later one of its object takes its redacted name. -/
def KeptStep (secrets : List String) : Step → JsonValue → Prop
  | .name key, .object m => Last secrets m key
  | _, _ => True

def Kept (secrets : List String) : List Step → JsonValue → Prop
  | [], _ => True
  | step :: path, j => KeptStep secrets step j ∧ ∀ x, child? step j = some x → Kept secrets path x

theorem child?_redactJsonStrings {j : JsonValue} (ho : j.Ordered) (step : Step) (w : JsonValue) :
    child? step (redactJsonStrings secrets j) = some w ↔
      ∃ place x, child? place j = some x ∧ KeptStep secrets place j ∧ redactStep secrets place = step ∧
        redactJsonStrings secrets x = w := by
  cases j with
  | array xs =>
    rw [redactJsonStrings_array]
    constructor
    · intro h
      cases step with
      | index i =>
        obtain ⟨x, hx, rfl⟩ := Option.map_eq_some_iff.mp (List.getElem?_map.symm.trans h)
        exact ⟨.index i, x, hx, trivial, rfl, rfl⟩
      | name key => cases h
    · rintro ⟨place, x, hx, _, rfl, rfl⟩
      cases place with
      | index i =>
        show (xs.map _)[i]? = _
        rw [List.getElem?_map, show xs[i]? = some x from hx, Option.map_some]
      | name key => cases hx
  | object m =>
    rw [redactJsonStrings]
    constructor
    · intro h
      cases step with
      | index i => cases h
      | name key =>
        -- of the members that redact to one name the last is the one that is found
        have hfind := (find?_redactJsonMembers (ho m .refl) [] key w).mp h
        obtain ⟨p, hp, hname, hlast, hw⟩ := hfind.resolve_right (by simp [OrdMap.find?_nil])
        exact ⟨.name p.1, p.2, (ho m .refl).find?_eq hp, hlast, by rw [redactStep, hname], hw⟩
    · rintro ⟨place, x, hx, hkept, rfl, rfl⟩
      cases place with
      | index i => cases hx
      | name key =>
        exact (find?_redactJsonMembers (ho m .refl) [] _ _).mpr (.inl ⟨(key, x), OrdMap.find?_mem hx, rfl, hkept, rfl⟩)
  | _ =>
    have hleaf {k : JsonValue} (hk : ∀ step, child? step k = none)
        (hk' : ∀ step, child? step (redactJsonStrings secrets k) = none) :
        (child? step (redactJsonStrings secrets k) = some w ↔
          ∃ place x, child? place k = some x ∧ KeptStep secrets place k ∧ redactStep secrets place = step ∧
            redactJsonStrings secrets x = w) := by
      simp [hk, hk']
    refine hleaf ?_ ?_ <;> intro step <;> cases step <;> rfl

/-- **Where a value of the redacted tree comes from.** -/
theorem at?_redactJsonStrings {j : JsonValue} (ho : j.Ordered) (path : List Step) (w : JsonValue) :
    at? path (redactJsonStrings secrets j) = some w ↔
      ∃ place v, at? place j = some v ∧ Kept secrets place j ∧ place.map (redactStep secrets) = path ∧
        redactJsonStrings secrets v = w := by
  induction path generalizing j with
  | nil =>
    constructor
    · intro h
      exact ⟨[], j, rfl, trivial, rfl, Option.some.inj h⟩
    · rintro ⟨place, v, hv, _, hpath, rfl⟩
      obtain rfl := List.map_eq_nil_iff.mp hpath
      rw [← Option.some.inj hv]
      rfl
  | cons step path ih =>
    rw [at?_cons]
    constructor
    · rintro ⟨y, hy, hw⟩
      obtain ⟨first, x, hx, hstep, rfl, rfl⟩ := (child?_redactJsonStrings ho step y).mp hy
      obtain ⟨place, v, hv, hkept, rfl, rfl⟩ := (ih (ho.child hx)).mp hw
      refine ⟨first :: place, v, at?_cons.mpr ⟨x, hx, hv⟩, ⟨hstep, ?_⟩, rfl, rfl⟩
      intro x' hx'
      rwa [← Option.some.inj (hx.symm.trans hx')]
    · rintro ⟨place, v, hv, hkept, hpath, rfl⟩
      cases place with
      | nil => cases hpath
      | cons first place =>
        obtain ⟨rfl, rfl⟩ := List.cons.inj hpath
        obtain ⟨x, hx, hv⟩ := at?_cons.mp hv
        refine ⟨redactJsonStrings secrets x, (child?_redactJsonStrings ho _ _).mpr ⟨first, x, hx, hkept.1, rfl, rfl⟩, ?_⟩
        exact (ih (ho.child hx)).mpr ⟨place, v, hv, hkept.2 x hx, rfl, rfl⟩

/-! ## Responses -/

/-- What the adapters rely on where they parse this text: members come sorted,
and what was read is read again from its dump. -/
structure JsonText.Reads (json : JsonText) (text : String) : Prop where
  ordered : ∀ v, json.parse text = some v → v.Ordered
  parse_dump : ∀ v, json.parse text = some v → json.parse (json.dump v) = some v

def SecretFree (secrets : List String) (json : JsonText) (response : HttpResponse) : Prop :=
  (∀ header ∈ response.headers, Free secrets header.value) ∧
    match json.parse response.body with
    | some v => ∀ t, Text t v → Free secrets t
    | none => Free secrets response.body

theorem redactSensitiveResponse_of_free {json : JsonText} {response : HttpResponse} (hjson : json.Reads response.body)
    (hfree : SecretFree secrets json response) :
    (redactSensitiveResponse json secrets response).headers = response.headers ∧
      json.parse (redactSensitiveResponse json secrets response).body = json.parse response.body := by
  unfold redactSensitiveResponse
  split
  · exact ⟨rfl, rfl⟩
  · obtain ⟨hheaders, hbody⟩ := hfree
    constructor
    · refine (List.map_congr_left ?_).trans (List.map_id _)
      intro header hheader
      rw [redactSensitiveValues_of_free (hheaders header hheader)]
      rfl
    · cases hp : json.parse response.body with
      | none =>
        rw [hp] at hbody
        show json.parse (redactSensitiveValues secrets response.body) = none
        rw [redactSensitiveValues_of_free hbody, hp]
      | some v =>
        rw [hp] at hbody
        show json.parse (json.dump (redactJsonStrings secrets v)) = some v
        rw [redactJsonStrings_of_free (hjson.ordered v hp) hbody, hjson.parse_dump v hp]

/-! ## Redacted trees -/

def Scalar (v : JsonValue) : Prop := v.isNull = true ∨ v.isBoolean = true ∨ v.isNumber = true

theorem redactJsonStrings_scalar {v : JsonValue} (h : Scalar v) : redactJsonStrings secrets v = v := by
  cases v with
  | string s => simp [Scalar, isNull, isBoolean, isNumber] at h
  | array xs => simp [Scalar, isNull, isBoolean, isNumber] at h
  | object m => simp [Scalar, isNull, isBoolean, isNumber] at h
  | _ => rw [redactJsonStrings] <;> exact fun _ h => JsonValue.noConfusion h

/-- **Redaction of a tree**: no text keeps a secret; each place of the result
holds the redacted value of a place of the tree, and only a member that a later
one of its object covers is lost; scalars and lengths stay; a clean tree stays. -/
theorem redactTree_sound (h : Apart secrets) (tree : JsonTree) :
    (∀ t, Text t (redactTree secrets tree).value → Free secrets t) ∧
    (∀ path w, at? path (redactTree secrets tree).value = some w ↔
      ∃ place v, at? place tree.value = some v ∧ Kept secrets place tree.value ∧
        place.map (redactStep secrets) = path ∧ redactJsonStrings secrets v = w) ∧
    (∀ v, Scalar v → redactJsonStrings secrets v = v) ∧
    (∀ xs, ∃ ys, redactJsonStrings secrets (.array xs) = .array ys ∧ ys.length = xs.length) ∧
    ((∀ t, Text t tree.value → Free secrets t) → redactTree secrets tree = tree) ∧
    ∀ json response, JsonText.Reads json response.body → SecretFree secrets json response →
      (redactSensitiveResponse json secrets response).headers = response.headers ∧
        json.parse (redactSensitiveResponse json secrets response).body = json.parse response.body := by
  refine ⟨free_of_text h tree.value, at?_redactJsonStrings tree.ordered, fun _ => redactJsonStrings_scalar, ?_, ?_, ?_⟩
  · intro xs
    exact ⟨xs.map (redactJsonStrings secrets), redactJsonStrings_array secrets xs, List.length_map _⟩
  · intro hfree
    obtain ⟨value, ordered⟩ := tree
    unfold redactTree
    congr 1
    exact redactJsonStrings_of_free ordered hfree
  · intro json response
    exact redactSensitiveResponse_of_free

def echoTree : JsonTree where
  value := .object [("[REDACTED]", .unsigned 1), ("secret", .unsigned 2)]
  ordered := by
    apply ordered_object
    · exact List.pairwise_pair.mpr (by decide)
    · intro p hp m hm
      simp only [List.mem_cons, List.not_mem_nil, or_false] at hp
      rcases hp with rfl | rfl <;> cases hm

/-- The member "[REDACTED]" gives way to the redacted "secret". -/
theorem scalar_not_kept :
    ¬ ∀ (secrets : List String) (tree : JsonTree) (place : List Step) (v : JsonValue), Apart secrets →
      at? place tree.value = some v → Scalar v →
        at? (place.map (redactStep secrets)) (redactTree secrets tree).value = some v := by
  intro h
  have hkept := h ["secret"] echoTree [.name "[REDACTED]"] (.unsigned 1) (by decide) rfl (.inr (.inr rfl))
  exact absurd hkept (by decide +kernel)

def plainJson : JsonText where
  parse text := if text = "\x7b\"a\":\"b\"\x7d" then some (.object [("a", .string "b")]) else none
  dump _ := "\x7b\"a\":\"b\"\x7d"

theorem redactTree_sound_echo :
    (∀ t, Text t (redactTree ["secret"] echoTree).value → Free ["secret"] t) ∧
      plainJson.parse (redactSensitiveResponse plainJson ["secret"] ⟨200, [], "\x7b\"a\":\"b\"\x7d"⟩).body =
        plainJson.parse "\x7b\"a\":\"b\"\x7d" := by
  have hparse : plainJson.parse "\x7b\"a\":\"b\"\x7d" = some (.object [("a", .string "b")]) := by decide
  have hreads : plainJson.Reads "\x7b\"a\":\"b\"\x7d" := by
    constructor
    all_goals intro v hv; rw [hparse, Option.some.injEq] at hv; subst hv
    · apply ordered_object (List.pairwise_singleton _ _)
      intro p hp m hm
      rw [List.mem_singleton] at hp
      subst hp
      cases hm
    · exact hparse
  have hfree : SecretFree ["secret"] plainJson ⟨200, [], "\x7b\"a\":\"b\"\x7d"⟩ := by
    refine ⟨by simp, ?_⟩
    rw [hparse]
    intro t ht
    rcases text_object_singleton.mp ht with rfl | rfl
    · decide
    · decide
  have hapart : Apart ["secret"] := by decide
  have hsound := redactTree_sound hapart echoTree
  exact ⟨hsound.1, (hsound.2.2.2.2.2 plainJson _ hreads hfree).2⟩

end NeuralPlus
