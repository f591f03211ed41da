import AuthCore.Proofs.Password.CostBlock
import AuthCore.Proofs.Password.Verification
import AuthCore.Proofs.Text.Base64Canonical

set_option autoImplicit false

namespace AuthCore

namespace Text

/-- Nonempty fields in a text: between two of them stands at least one separator, and any number
of separators may stand anywhere else outside them. -/
inductive Fields (sep : Char) : List (List Char) → List Char → Prop where
  | nil : Fields sep [] []
  | separator {fields : List (List Char)} {cs : List Char} (h : Fields sep fields cs) :
    Fields sep fields (sep :: cs)
  | last {field : List Char} (hne : field ≠ []) (hfree : sep ∉ field) : Fields sep [field] field
  | field {field cs : List Char} {fields : List (List Char)} (hne : field ≠ [])
    (hfree : sep ∉ field) (h : Fields sep fields cs) :
    Fields sep (field :: fields) (field ++ sep :: cs)

theorem not_mem_of_mem_split {sep : Char} {cs piece : List Char} (h : piece ∈ split sep cs) :
    sep ∉ piece := by
  induction cs generalizing piece with
  | nil => simp_all [split]
  | cons c cs ih =>
    obtain ⟨first, rest, hrest⟩ := List.exists_cons_of_ne_nil (split_ne_nil sep cs)
    by_cases hc : c = sep
    · rw [split, if_pos hc] at h
      rcases List.mem_cons.mp h with rfl | h
      · simp
      · exact ih h
    · simp only [split, hc, ↓reduceIte, hrest, List.mem_cons] at h ih
      rcases h with rfl | h
      · simp [Ne.symm hc, ih (.inl rfl)]
      · exact ih (.inr h)

theorem fields_iff {sep : Char} {fields : List (List Char)} {cs : List Char} :
    Fields sep fields cs ↔ (split sep cs).filter (fun f => !f.isEmpty) = fields := by
  constructor
  · intro h
    induction h with
    | nil => rfl
    | separator _ ih => simpa [split] using ih
    | last hne hfree => simp [split_of_not_mem hfree, hne]
    | field hne hfree _ ih => simp [split_append hfree, hne, ih]
  · rintro rfl
    generalize hpieces : split sep cs = pieces
    induction pieces generalizing cs with
    | nil => exact absurd hpieces (split_ne_nil sep cs)
    | cons piece pieces ih =>
      have hfree : sep ∉ piece := by
        have hmem : piece ∈ split sep cs := by simp [hpieces]
        exact not_mem_of_mem_split hmem
      rcases split_eq_cons hpieces with ⟨rfl, rfl⟩ | ⟨tail, rfl, htail⟩
      · cases cs with
        | nil => exact .nil
        | cons c cs => exact .last (by simp) hfree
      · cases piece with
        | nil => exact .separator (ih htail)
        | cons c piece => exact .field (by simp) hfree (ih htail)

end Text

namespace Password

theorem base64_eq_iff {bs bs' : Bytes} : base64 bs = base64 bs' ↔ bs = bs' := by
  constructor
  · intro h
    have hread : Text.Base64.decodeChars? (base64 bs) = some bs' :=
      Text.Base64.decodeChars?_eq_some_iff.mpr h
    exact Option.some.inj ((Text.Base64.decodeChars?_encodeWith bs).symm.trans hread)
  · rintro rfl
    rfl

theorem cost?_chars (c : Cost) : cost? c.chars = some c := cost?_eq_some_iff.mpr c.block_chars

theorem Cost.chars_injective {c c' : Cost} (h : c.chars = c'.chars) : c = c' := by
  have hread := cost?_chars c
  rw [h, cost?_chars] at hread
  exact (Option.some.inj hread).symm

theorem encode_eq_encode_iff {p p' : Params} {salt salt' digest digest' : Bytes} :
    encode p salt digest = encode p' salt' digest' ↔
      p.cost = p'.cost ∧ salt = salt' ∧ digest = digest' := by
  constructor
  · intro h
    have hpieces := split_encode p salt digest
    rw [h, split_encode p' salt' digest'] at hpieces
    simp only [List.cons.injEq, true_and, and_true, base64_eq_iff] at hpieces
    obtain ⟨hcost, hsalt, hdigest⟩ := hpieces
    exact ⟨Cost.chars_injective hcost.symm, hsalt.symm, hdigest.symm⟩
  · rintro ⟨hcost, rfl, rfl⟩
    rw [encode, hcost, encode]

namespace Encoded

theorem read?_eq_some_iff {stored : String} {e : Encoded} : read? stored = some e ↔
    Text.Fields '$' [e.algorithm, e.version, e.params, e.salt, e.digest] stored.toList := by
  rw [Text.fields_iff]
  constructor
  · intro h
    unfold read? at h
    split at h
    · cases h
      assumption
    · cases h
  · intro h
    simp only [read?, h]

theorem saltBytes?_eq_some_iff {e : Encoded} {salt : Bytes} :
    e.saltBytes? = some salt ↔ e.salt = base64 salt :=
  Text.Base64.decodeChars?_eq_some_iff

theorem digestBytes?_eq_some_iff {e : Encoded} {digest : Bytes} :
    e.digestBytes? = some digest ↔ e.digest = base64 digest :=
  Text.Base64.decodeChars?_eq_some_iff

theorem agrees_eq_true_iff {e : Encoded} {p : Params} : e.agrees p = true ↔
    e.algorithm = Password.algorithm ∧ e.version = Password.version ∧ p.cost.Block e.params ∧
      (∃ salt, e.salt = base64 salt ∧ salt.length = p.saltLength) ∧
      ∃ digest, e.digest = base64 digest ∧ digest.length = p.outputLength := by
  simp only [agrees, Bool.and_eq_true, beq_iff_eq, cost?, cost?_eq_some_iff,
    Option.map_eq_some_iff, saltBytes?_eq_some_iff, digestBytes?_eq_some_iff, and_assoc]

theorem agrees_encode_iff {p q : Params} {salt digest : Bytes} :
    agrees ⟨Password.algorithm, Password.version, p.cost.chars, base64 salt, base64 digest⟩ q =
      true ↔ q.cost = p.cost ∧ q.saltLength = salt.length ∧ q.outputLength = digest.length := by
  rw [agrees_eq_true_iff]
  simp only [base64_eq_iff, exists_eq_left', true_and, ← cost?_eq_some_iff, cost?_chars,
    Option.some.injEq]
  rw [eq_comm, eq_comm (a := salt.length), eq_comm (a := digest.length)]

end Encoded

theorem read?_encode_eq_none {p : Params} {salt digest : Bytes} (h : salt = [] ∨ digest = []) :
    Encoded.read? (encode p salt digest) = none := by
  rw [Option.eq_none_iff_forall_ne_some]
  intro e he
  have hfields := Text.fields_iff.mp (Encoded.read?_eq_some_iff.mp he)
  rw [split_encode] at hfields
  have hempty : [] ∈ [base64 salt, base64 digest] := by
    rcases h with rfl | rfl
    · exact .head _
    · exact .tail _ (.head _)
  have hcount := congrArg List.length hfields
  have hrest : ([algorithm, version, p.cost.chars].filter fun f => !f.isEmpty).length ≤ 3 :=
    List.length_filter_le _ _
  have hlast : ([base64 salt, base64 digest].filter fun f => !f.isEmpty).length < 2 :=
    List.length_filter_lt_length_iff_exists.mpr ⟨[], hempty, by simp⟩
  rw [show [[], algorithm, version, p.cost.chars, base64 salt, base64 digest] =
    [] :: ([algorithm, version, p.cost.chars] ++ [base64 salt, base64 digest]) from rfl,
    List.filter_cons_of_neg (by simp), List.filter_append, List.length_append] at hcount
  simp only [List.length_cons, List.length_nil] at hcount
  omega

/-- A written text is read back in all its fields, and agrees with the parameters that have its
costs and lengths. The text tells costs, salt and digest; without salt or digest it is not read; and
a salt that is read off any text stands there in its written form. -/
theorem encoded_text_round_trip :
    (∀ (p : Params) (salt digest : Bytes), salt ≠ [] → digest ≠ [] →
      ∃ e, Encoded.read? (encode p salt digest) = some e ∧ e.algorithm = "argon2id".toList ∧
        e.version = "v=19".toList ∧ e.cost? = some p.cost ∧ e.saltBytes? = some salt ∧
        e.digestBytes? = some digest ∧ ∀ q : Params, e.agrees q = true ↔
          q.cost = p.cost ∧ q.saltLength = salt.length ∧ q.outputLength = digest.length) ∧
    (∀ (p p' : Params) (salt salt' digest digest' : Bytes),
      encode p salt digest = encode p' salt' digest' →
        p.cost = p'.cost ∧ salt = salt' ∧ digest = digest') ∧
    (∀ (p : Params) (salt digest : Bytes), salt = [] ∨ digest = [] →
      Encoded.read? (encode p salt digest) = none) ∧
    ∀ (stored : String) (e : Encoded), Encoded.read? stored = some e → ∀ salt : Bytes,
      e.saltBytes? = some salt ↔ e.salt = base64 salt := by
  refine ⟨fun p salt digest hsalt hdigest => ?_, fun _ _ _ _ _ _ => encode_eq_encode_iff.mp,
    fun _ _ _ => read?_encode_eq_none, fun _ _ _ _ => Encoded.saltBytes?_eq_some_iff⟩
  exact ⟨_, read?_encode p hsalt hdigest, rfl, rfl, cost?_chars p.cost,
    Text.Base64.decodeChars?_encodeWith salt, Text.Base64.decodeChars?_encodeWith digest,
    fun _ => Encoded.agrees_encode_iff⟩

theorem encoded_text_round_trip_sample :
    (∃ e, Encoded.read? "$argon2id$v=19$m=262144,t=3,p=4$c2FsdHNhbHQ=$ZGlnZXN0" = some e ∧
      e.cost? = some Params.current.cost ∧ e.saltBytes? = some (Text.Utf8.encode "saltsalt") ∧
      e.digestBytes? = some (Text.Utf8.encode "digest")) ∧
    Encoded.read? "$argon2id$v=19$m=262144,t=3,p=4$c2FsdHNhbHQ=$" = none := by
  obtain ⟨hread, _, hnone, _⟩ := encoded_text_round_trip
  have hfull : encode Params.current (Text.Utf8.encode "saltsalt") (Text.Utf8.encode "digest") =
      "$argon2id$v=19$m=262144,t=3,p=4$c2FsdHNhbHQ=$ZGlnZXN0" := by decide +kernel
  have hbare : encode Params.current (Text.Utf8.encode "saltsalt") [] =
      "$argon2id$v=19$m=262144,t=3,p=4$c2FsdHNhbHQ=$" := by decide +kernel
  obtain ⟨e, he, _, _, hcost, hsalt, hdigest, _⟩ :=
    hread Params.current (Text.Utf8.encode "saltsalt") (Text.Utf8.encode "digest") (by decide)
      (by decide)
  rw [hfull] at he
  refine ⟨⟨e, he, hcost, hsalt, hdigest⟩, ?_⟩
  rw [← hbare]
  exact hnone _ _ _ (.inr rfl)

end Password

end AuthCore
