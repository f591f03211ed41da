import AuthCore.Proofs.Session.TicketCodec
import AuthCore.Proofs.Time.CivilTime

set_option autoImplicit false

namespace AuthCore.Session

/-- Every ticket whose moments a text can name: all but those with a leap second inside a minute,
whose text is that of the second after it. -/
def Ticket.Civil (t : Ticket) : Prop :=
  (∀ i ∈ t.properties.issuedAt, i.Civil) ∧ ∀ i ∈ t.properties.expiresAt, i.Civil

instance (t : Ticket) : Decidable t.Representable := inferInstanceAs (Decidable (_ ∧ _))

instance (t : Ticket) : Decidable t.Civil := inferInstanceAs (Decidable (_ ∧ _))

theorem Ticket.Civil.representable {t : Ticket} (h : t.Civil) : t.Representable :=
  ⟨fun i hi => (h.1 i hi).1, fun i hi => (h.2 i hi).1⟩

theorem map_settle_eq_iff {o : Option Time.Instant} (h : ∀ i ∈ o, i.Representable) :
    o.map Time.Instant.settle = o ↔ ∀ i ∈ o, i.Civil := by
  cases o with
  | none => simp
  | some i => simpa using Time.Instant.settle_eq_iff (h i rfl)

theorem Ticket.settle_eq_iff {t : Ticket} (h : t.Representable) : t.settle = t ↔ t.Civil := by
  rw [Ticket.Civil, ← map_settle_eq_iff h.1, ← map_settle_eq_iff h.2]
  constructor
  · intro heq
    have hproperties := congrArg Ticket.properties heq
    exact ⟨congrArg Properties.issuedAt hproperties, congrArg Properties.expiresAt hproperties⟩
  · rintro ⟨hissued, hexpires⟩
    rw [Ticket.settle, hissued, hexpires]

theorem civil_of_instant? {v : Json.Value} {i : Time.Instant} (h : instant? v = some i) :
    i.Civil := by
  obtain ⟨s, _, hread⟩ := Option.bind_eq_some_iff.mp h
  exact Time.Rfc3339.civil_of_read? hread

theorem civil_of_optional? {r : Record Json.Value} {name : String} {o : Option Time.Instant}
    (h : Json.optional? r name instant? = some o) : ∀ i ∈ o, i.Civil := by
  unfold Json.optional? at h
  split at h
  · cases h
    simp
  · cases h
    simp
  · obtain ⟨i, hi, rfl⟩ := Option.map_eq_some_iff.mp h
    rintro j ⟨⟩
    exact civil_of_instant? hi

theorem Properties.civil_of_ofJson? {v : Json.Value} {p : Properties}
    (h : Properties.ofJson? v = some p) :
    (∀ i ∈ p.issuedAt, i.Civil) ∧ ∀ i ∈ p.expiresAt, i.Civil := by
  simp only [Properties.ofJson?, Option.bind_eq_bind, Option.bind_eq_some_iff] at h
  obtain ⟨_, _, _, _, issuedAt, hissued, expiresAt, hexpires, _, _, _, _, h⟩ := h
  cases h
  exact ⟨civil_of_optional? hissued, civil_of_optional? hexpires⟩

theorem Ticket.civil_of_ofJson? {v : Json.Value} {t : Ticket} (h : Ticket.ofJson? v = some t) :
    t.Civil := by
  simp only [Ticket.ofJson?, Option.bind_eq_bind, Option.bind_eq_some_iff] at h
  obtain ⟨_, _, _, _, _, _, properties, hproperties, h⟩ := h
  cases h
  unfold Record.withDefault? at hproperties
  split at hproperties
  · exact Properties.civil_of_ofJson? hproperties
  · cases hproperties
    exact ⟨by simp, by simp⟩

theorem Ticket.civil_of_decode {bytes : Bytes} {t : Ticket} (h : Ticket.decode bytes = .ok t) :
    t.Civil := by
  unfold Ticket.decode at h
  split at h
  · cases h
  · split at h
    · split at h
      · rename_i hread
        cases h
        obtain ⟨v, _, hv⟩ := Option.bind_eq_some_iff.mp hread
        exact Ticket.civil_of_ofJson? hv
      · cases h
    · cases h

theorem Ticket.civil_settle {t : Ticket} (h : t.Representable) : t.settle.Civil :=
  Ticket.civil_of_decode (Ticket.decode_encode h)

theorem Ticket.decode_encode_civil {t : Ticket} (h : t.Civil) : Ticket.decode t.encode = .ok t := by
  rw [Ticket.decode_encode h.representable, (Ticket.settle_eq_iff h.representable).mpr h]

theorem Ticket.encode_settle {t : Ticket} (h : t.Representable) : t.settle.encode = t.encode := by
  have hjson {i : Time.Instant} (hi : i.Representable) :
      instantJson i.settle = instantJson i := by
    rw [instantJson, instantJson, Time.Rfc3339.write, Time.Rfc3339.write,
      Time.Rfc3339.writeChars_settle hi]
  have hmember {name : String} {o : Option Time.Instant} (ho : ∀ i ∈ o, i.Representable) :
      member name instantJson (o.map Time.Instant.settle) = member name instantJson o := by
    cases o with
    | none => rfl
    | some i => rw [Option.map_some, member, member, hjson (ho i rfl)]
  rw [encode, encode, toJson, toJson, Properties.toJson, Properties.toJson, settle,
    hmember h.1, hmember h.2]

/-- Two tickets have one stored form just when it names one ticket. -/
theorem Ticket.encode_eq_iff {t t' : Ticket} (h : t.Representable) (h' : t'.Representable) :
    t.encode = t'.encode ↔ t.settle = t'.settle := by
  constructor
  · intro heq
    have hread := Ticket.decode_encode h
    rw [heq, Ticket.decode_encode h'] at hread
    exact (Except.ok.inj hread).symm
  · intro heq
    rw [← Ticket.encode_settle h, heq, Ticket.encode_settle h']

/-- The stored form begins with the version and is read back as the ticket that it names: the very
ticket that was stored, unless one of its moments lies in a leap second inside a minute. Tickets
that are named alike have one stored form, and no others. Every payload that is read gives a ticket
without such moments, and writing it again loses nothing. -/
theorem ticket_codec_round_trip :
    (∀ t : Ticket, t.encode.head? = some formatVersion) ∧
    (∀ t : Ticket, t.Civil → Ticket.decode t.encode = .ok t) ∧
    (∀ t : Ticket, t.Representable →
      Ticket.decode t.encode = .ok t.settle ∧ (t.settle = t ↔ t.Civil)) ∧
    (∀ t t' : Ticket, t.Representable → t'.Representable →
      (t.encode = t'.encode ↔ t.settle = t'.settle)) ∧
    (∀ t t' : Ticket, t.Civil → t'.Civil → t.encode = t'.encode → t = t') ∧
    ∀ (bytes : Bytes) (t : Ticket), Ticket.decode bytes = .ok t →
      t.Civil ∧ Ticket.decode t.encode = .ok t := by
  refine ⟨fun t => rfl, fun t h => Ticket.decode_encode_civil h,
    fun t h => ⟨Ticket.decode_encode h, Ticket.settle_eq_iff h⟩, fun t t' => Ticket.encode_eq_iff,
    fun t t' h h' heq => ?_, fun bytes t h => ?_⟩
  · have hsettled := (Ticket.encode_eq_iff h.representable h'.representable).mp heq
    rwa [(Ticket.settle_eq_iff h.representable).mpr h,
      (Ticket.settle_eq_iff h'.representable).mpr h'] at hsettled
  · have hcivil := Ticket.civil_of_decode h
    exact ⟨hcivil, Ticket.decode_encode_civil hcivil⟩

def longTicket : Ticket where
  scheme := "pass\"word\\"
  principal :=
    { owner := ⟨List.replicate 16 7, rfl⟩, name := some "Zoë\n", claims := [⟨"", "😀"⟩, ⟨"", "😀"⟩] }
  properties :=
    { items := .ofPairs [("\t", "/"), ("", "")], issuedAt := some ⟨1483228799, 1500000000⟩,
      expiresAt := some ⟨Time.Instant.lastSecond, 1⟩ }

theorem ticket_codec_round_trip_long : Ticket.decode longTicket.encode = .ok longTicket := by
  obtain ⟨_, hcivil, _⟩ := ticket_codec_round_trip
  have hlong : longTicket.Civil := by decide
  exact hcivil longTicket hlong

def earlyLeap : Ticket :=
  { longTicket with properties :=
    { longTicket.properties with issuedAt := some ⟨1483228798, 1500000000⟩ } }

/-- A ticket with a leap second inside a minute does not come back: its stored form is that of
another ticket. -/
theorem early_leap_read_as_another :
    earlyLeap.Representable ∧ Ticket.decode earlyLeap.encode ≠ .ok earlyLeap ∧
      earlyLeap.settle ≠ earlyLeap ∧ earlyLeap.settle.encode = earlyLeap.encode := by
  have hearly : earlyLeap.Representable ∧ ¬ earlyLeap.Civil := by decide
  have hother : earlyLeap.settle ≠ earlyLeap :=
    fun heq => hearly.2 ((Ticket.settle_eq_iff hearly.1).mp heq)
  refine ⟨hearly.1, fun hread => hother ?_, hother, Ticket.encode_settle hearly.1⟩
  rw [Ticket.decode_encode hearly.1] at hread
  exact Except.ok.inj hread

end AuthCore.Session
