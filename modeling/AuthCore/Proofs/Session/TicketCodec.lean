import AuthCore.Proofs.Json.Slots
import AuthCore.Proofs.Text.Utf8RoundTrip
import AuthCore.Proofs.Time.InstantText
import AuthCore.Session.Ticket

set_option autoImplicit false

namespace AuthCore.Session

open AuthCore.Json (Plain Value)

def Ticket.Representable (t : Ticket) : Prop :=
  (∀ i ∈ t.properties.issuedAt, i.Representable) ∧ ∀ i ∈ t.properties.expiresAt, i.Representable

def Ticket.settle (t : Ticket) : Ticket :=
  { t with properties :=
    { t.properties with
      issuedAt := t.properties.issuedAt.map Time.Instant.settle
      expiresAt := t.properties.expiresAt.map Time.Instant.settle } }

theorem Claim.plain_toJson (c : Claim) : Plain c.toJson := by
  apply Json.plain_record
  simp only [List.forall_mem_cons]
  exact ⟨.text _, .text _, by simp⟩

theorem Claim.ofJson?_toJson (c : Claim) : Claim.ofJson? c.toJson = some c := by
  have hread := Json.record?_filled
    [("type", some (.text c.kind)), ("value", some (.text c.value))]
    (show ["type", "value"].Nodup by decide)
  change Json.record? ["type", "value"] c.toJson = _ at hread
  rw [Claim.ofJson?, hread]
  rfl

theorem claims?_toJson (cs : List Claim) :
    claims? (.array (cs.map Claim.toJson)) = some cs :=
  Json.mapM_map fun c _ => Claim.ofJson?_toJson c

def Principal.slots (p : Principal) : List (String × Option Value) :=
  [("owner_id", some (.text p.owner.text)), ("name", p.name.map Value.text),
    ("claims", if p.claims.isEmpty then none else some (.array (p.claims.map Claim.toJson)))]

theorem Principal.toJson_eq (p : Principal) : p.toJson = .record (Json.filled p.slots) := by
  unfold Principal.toJson Principal.slots
  cases p.name <;> split <;> rfl

theorem Principal.plain_toJson (p : Principal) : Plain p.toJson := by
  rw [p.toJson_eq]
  apply Json.plain_filled
  simp only [Principal.slots, List.forall_mem_cons, Option.mem_def, Option.map_eq_some_iff]
  refine ⟨?_, ?_, ?_, by simp⟩
  · intro v hv
    cases hv
    exact .text _
  · rintro v ⟨s, _, rfl⟩
    exact .text _
  · intro v hv
    split at hv
    · cases hv
    · cases hv
      refine .array fun v hv => ?_
      obtain ⟨c, _, rfl⟩ := List.mem_map.mp hv
      exact c.plain_toJson

theorem Principal.ofJson?_toJson (p : Principal) : Principal.ofJson? p.toJson = some p := by
  have hread : Json.record? ["owner_id", "name", "claims"] p.toJson = some ⟨p.slots⟩ := by
    rw [p.toJson_eq]
    exact Json.record?_filled p.slots
      (show ["owner_id", "name", "claims"].Nodup by decide)
  have howner : Record.required? ⟨p.slots⟩ "owner_id" uuid? = some p.owner := p.owner.read?_text
  have hname : Json.optional? ⟨p.slots⟩ "name" Value.text? = some (p.name.map id) :=
    Json.optional?_map (w := id) rfl fun _ _ => rfl
  have hclaims : Record.withDefault? ⟨p.slots⟩ "claims" [] claims? = some p.claims :=
    Json.withDefault?_unless rfl (fun h => (List.isEmpty_iff.mp h).symm) (claims?_toJson p.claims)
  simp only [Principal.ofJson?, hread, howner, hname, hclaims, Option.bind_eq_bind,
    Option.bind_some, Option.map_id, id_eq, Option.pure_def]

def Properties.slots (p : Properties) : List (String × Option Value) :=
  [("items", if p.items.isEmpty then none else some (itemsJson p.items)),
    ("issued_at", p.issuedAt.map instantJson), ("expires_at", p.expiresAt.map instantJson),
    ("is_persistent", some (.bool p.isPersistent)), ("allow_refresh", some (.bool p.allowRefresh))]

theorem Properties.toJson_eq (p : Properties) : p.toJson = .record (Json.filled p.slots) := by
  unfold Properties.toJson Properties.slots
  cases p.issuedAt <;> cases p.expiresAt <;> split <;> rfl

theorem plain_itemsJson (m : Text.OrderedMap) : Plain (itemsJson m) := by
  apply Json.plain_record
  intro e he
  obtain ⟨x, _, rfl⟩ := List.mem_map.mp he
  exact .text _

theorem items?_itemsJson (m : Text.OrderedMap) : items? (itemsJson m) = some m := by
  have hread : Json.textMembers? (itemsJson m) = some m.entries := by
    rw [itemsJson, Value.record, List.map_map]
    exact Json.mapM_map fun _ _ => rfl
  rw [items?, hread, Option.map_some, m.ofPairs_entries]

theorem Properties.plain_toJson (p : Properties) : Plain p.toJson := by
  rw [p.toJson_eq]
  apply Json.plain_filled
  simp only [Properties.slots, List.forall_mem_cons, Option.mem_def, Option.map_eq_some_iff]
  refine ⟨?_, ?_, ?_, ?_, ?_, by simp⟩
  · intro v hv
    split at hv
    · cases hv
    · cases hv
      exact plain_itemsJson p.items
  · rintro v ⟨i, _, rfl⟩
    exact .text _
  · rintro v ⟨i, _, rfl⟩
    exact .text _
  · intro v hv
    cases hv
    exact .bool _
  · intro v hv
    cases hv
    exact .bool _

theorem instant?_write {i : Time.Instant} (h : i.Representable) :
    instant? (.text (Time.Rfc3339.write i)) = some i.settle := by
  rw [instant?, Value.text, Value.text?, Option.bind_some, Time.Rfc3339.read?_write h]

theorem Properties.ofJson?_toJson {p : Properties} (hissued : ∀ i ∈ p.issuedAt, i.Representable)
    (hexpires : ∀ i ∈ p.expiresAt, i.Representable) :
    Properties.ofJson? p.toJson = some { p with
      issuedAt := p.issuedAt.map Time.Instant.settle
      expiresAt := p.expiresAt.map Time.Instant.settle } := by
  have hread : Json.record? ["items", "issued_at", "expires_at", "is_persistent", "allow_refresh"]
      p.toJson = some ⟨p.slots⟩ := by
    rw [p.toJson_eq]
    exact Json.record?_filled p.slots (show ["items", "issued_at", "expires_at",
      "is_persistent", "allow_refresh"].Nodup by decide)
  have hitems : Record.withDefault? ⟨p.slots⟩ "items" .empty items? = some p.items :=
    Json.withDefault?_unless rfl (fun h => (Text.OrderedMap.eq_empty_of_isEmpty h).symm)
      (items?_itemsJson p.items)
  have hissuedAt : Json.optional? ⟨p.slots⟩ "issued_at" instant? =
      some (p.issuedAt.map Time.Instant.settle) :=
    Json.optional?_map (w := Time.Rfc3339.write) rfl fun i hi => instant?_write (hissued i hi)
  have hexpiresAt : Json.optional? ⟨p.slots⟩ "expires_at" instant? =
      some (p.expiresAt.map Time.Instant.settle) :=
    Json.optional?_map (w := Time.Rfc3339.write) rfl fun i hi => instant?_write (hexpires i hi)
  have hpersistent : Record.withDefault? ⟨p.slots⟩ "is_persistent" false Value.bool? =
      some p.isPersistent := rfl
  have hrefresh : Record.withDefault? ⟨p.slots⟩ "allow_refresh" false Value.bool? =
      some p.allowRefresh := rfl
  simp only [Properties.ofJson?, hread, hitems, hissuedAt, hexpiresAt, hpersistent, hrefresh,
    Option.bind_eq_bind, Option.bind_some, Option.pure_def]

def Ticket.slots (t : Ticket) : List (String × Option Value) :=
  [("scheme", some (.text t.scheme)), ("principal", some t.principal.toJson),
    ("properties", some t.properties.toJson)]

theorem Ticket.plain_toJson (t : Ticket) : Plain t.toJson := by
  apply Json.plain_record
  simp only [List.forall_mem_cons]
  exact ⟨.text _, t.principal.plain_toJson, t.properties.plain_toJson, by simp⟩

theorem Ticket.ofJson?_toJson {t : Ticket} (h : t.Representable) :
    Ticket.ofJson? t.toJson = some t.settle := by
  have hread : Json.record? ["scheme", "principal", "properties"] t.toJson = some ⟨t.slots⟩ :=
    Json.record?_filled t.slots
      (show ["scheme", "principal", "properties"].Nodup by decide)
  have hscheme : Record.required? ⟨t.slots⟩ "scheme" Value.text? = some t.scheme := rfl
  have hprincipal : Record.required? ⟨t.slots⟩ "principal" Principal.ofJson? = some t.principal :=
    t.principal.ofJson?_toJson
  have hproperties := Properties.ofJson?_toJson h.1 h.2
  have hfound : Record.withDefault? ⟨t.slots⟩ "properties" {} Properties.ofJson? =
      Properties.ofJson? t.properties.toJson := rfl
  simp only [Ticket.ofJson?, hread, hscheme, hprincipal, hfound, hproperties,
    Option.bind_eq_bind, Option.bind_some, Option.pure_def]
  rfl

theorem Ticket.decode_encode {t : Ticket} (h : t.Representable) :
    Ticket.decode t.encode = .ok t.settle := by
  have hbody :
      Json.ofBytes? (Text.Utf8.encodeChars (Json.writeChars t.toJson)) = some t.toJson := by
    rw [Json.ofBytes?, Text.Utf8.scan_encodeChars]
    exact Json.read?_writeChars t.plain_toJson
  simp only [Ticket.encode, Ticket.decode, ↓reduceIte, hbody, Option.bind_some,
    Ticket.ofJson?_toJson h]

end AuthCore.Session
