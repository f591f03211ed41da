import AuthCore.Proofs.Json.Documents
import AuthCore.Proofs.Json.RecordEdits
import AuthCore.Proofs.Session.TicketRoundTrip
import AuthCore.Proofs.Text.Utf8Pieces
import Mathlib.Logic.Relation

set_option autoImplicit false

namespace AuthCore.Session

open Json (Value Document)

inductive ItemChange (change : Value → Value → Prop) : Value → Value → Prop where
  | item {front back : List Value} {v w : Value} (h : change v w) :
    ItemChange change (.array (front ++ v :: back)) (.array (front ++ w :: back))

def Claim.Edit : Value → Value → Prop :=
  Json.Edit ["type", "value"] (fun _ => none) fun _ _ _ => False

def Principal.default? : String → Option Value
  | "name" => some .null
  | "claims" => some (.array [])
  | _ => none

def Principal.Inner : String → Value → Value → Prop
  | "claims" => ItemChange Claim.Edit
  | _ => fun _ _ => False

def Principal.Edit : Value → Value → Prop :=
  Json.Edit ["owner_id", "name", "claims"] Principal.default? Principal.Inner

def Properties.default? : String → Option Value
  | "items" => some (.object [])
  | "issued_at" => some .null
  | "expires_at" => some .null
  | "is_persistent" => some (.bool false)
  | "allow_refresh" => some (.bool false)
  | _ => none

def Properties.Edit : Value → Value → Prop :=
  Json.Edit ["items", "issued_at", "expires_at", "is_persistent", "allow_refresh"]
    Properties.default? fun _ _ _ => False

def Ticket.default? : String → Option Value
  | "properties" => some (.object [])
  | _ => none

def Ticket.Inner : String → Value → Value → Prop
  | "principal" => Principal.Edit
  | "properties" => Properties.Edit
  | _ => fun _ _ => False

/-- One change that keeps a stored ticket: in the ticket, its principal, its properties or one of
its claims. -/
def Ticket.Edit : Value → Value → Prop :=
  Json.Edit ["scheme", "principal", "properties"] Ticket.default? Ticket.Inner

theorem Claim.ofJson?_edit {v w : Value} (h : Claim.Edit v w) :
    Claim.ofJson? v = Claim.ofJson? w := by
  refine Json.bind_congr_of_edit h fun r s halike => ?_
  have hkind : r.required? "type" Value.text? = s.required? "type" Value.text? :=
    Json.required?_congr (halike _) rfl nofun
  have hvalue : r.required? "value" Value.text? = s.required? "value" Value.text? :=
    Json.required?_congr (halike _) rfl nofun
  rw [hkind, hvalue]

theorem claims?_edit {v w : Value} (h : ItemChange Claim.Edit v w) : claims? v = claims? w := by
  obtain ⟨h⟩ := h
  simp only [claims?, Value.items?, Option.bind_some, List.mapM_append, List.mapM_cons,
    Claim.ofJson?_edit h]

theorem Principal.ofJson?_edit {v w : Value} (h : Principal.Edit v w) :
    Principal.ofJson? v = Principal.ofJson? w := by
  refine Json.bind_congr_of_edit h fun r s halike => ?_
  have howner : r.required? "owner_id" uuid? = s.required? "owner_id" uuid? :=
    Json.required?_congr (halike _) rfl nofun
  have hname : Json.optional? r "name" Value.text? = Json.optional? s "name" Value.text? :=
    Json.optional?_congr (halike _) (by rintro _ ⟨⟩; rfl) nofun
  have hclaims : r.withDefault? "claims" [] claims? = s.withDefault? "claims" [] claims? :=
    Json.withDefault?_congr (halike _) (by rintro _ ⟨⟩; rfl) fun _ _ h => claims?_edit h
  rw [howner, hname, hclaims]

theorem Properties.ofJson?_edit {v w : Value} (h : Properties.Edit v w) :
    Properties.ofJson? v = Properties.ofJson? w := by
  refine Json.bind_congr_of_edit h fun r s halike => ?_
  have hitems : r.withDefault? "items" .empty items? = s.withDefault? "items" .empty items? :=
    Json.withDefault?_congr (halike _) (by rintro _ ⟨⟩; rfl) nofun
  have hissued : Json.optional? r "issued_at" instant? = Json.optional? s "issued_at" instant? :=
    Json.optional?_congr (halike _) (by rintro _ ⟨⟩; rfl) nofun
  have hexpires : Json.optional? r "expires_at" instant? = Json.optional? s "expires_at" instant? :=
    Json.optional?_congr (halike _) (by rintro _ ⟨⟩; rfl) nofun
  have hpersistent : r.withDefault? "is_persistent" false Value.bool? =
      s.withDefault? "is_persistent" false Value.bool? :=
    Json.withDefault?_congr (halike _) (by rintro _ ⟨⟩; rfl) nofun
  have hrefresh : r.withDefault? "allow_refresh" false Value.bool? =
      s.withDefault? "allow_refresh" false Value.bool? :=
    Json.withDefault?_congr (halike _) (by rintro _ ⟨⟩; rfl) nofun
  rw [hitems, hissued, hexpires, hpersistent, hrefresh]

theorem Ticket.ofJson?_edit {v w : Value} (h : Ticket.Edit v w) :
    Ticket.ofJson? v = Ticket.ofJson? w := by
  refine Json.bind_congr_of_edit h fun r s halike => ?_
  have hscheme : r.required? "scheme" Value.text? = s.required? "scheme" Value.text? :=
    Json.required?_congr (halike _) rfl nofun
  have hprincipal : r.required? "principal" Principal.ofJson? =
      s.required? "principal" Principal.ofJson? :=
    Json.required?_congr (halike _) rfl fun _ _ h => Principal.ofJson?_edit h
  have hproperties : r.withDefault? "properties" {} Properties.ofJson? =
      s.withDefault? "properties" {} Properties.ofJson? :=
    Json.withDefault?_congr (halike _) (by rintro _ ⟨⟩; rfl) fun _ _ h => Properties.ofJson?_edit h
  rw [hscheme, hprincipal, hproperties]

/-- Stored tickets that differ by any number of such changes, back and forth. -/
def Ticket.SameContent : Value → Value → Prop := Relation.EqvGen Ticket.Edit

theorem Ticket.ofJson?_sameContent {v w : Value} (h : Ticket.SameContent v w) :
    Ticket.ofJson? v = Ticket.ofJson? w := by
  induction h with
  | rel _ _ h => exact Ticket.ofJson?_edit h
  | refl => rfl
  | symm _ _ _ ih => exact ih.symm
  | trans _ _ _ _ _ ih ih' => exact ih.trans ih'

theorem Ticket.sameContent_member (name : String) {v w : Value}
    (h : Relation.EqvGen (Ticket.Inner name) v w) (ms : List (Option String × Value)) :
    Ticket.SameContent (.object ((some name, v) :: ms)) (.object ((some name, w) :: ms)) := by
  induction h with
  | rel _ _ h => exact .rel _ _ (.member h)
  | refl _ => exact .refl _
  | symm _ _ _ ih => exact .symm _ _ ih
  | trans _ _ _ _ _ ih ih' => exact .trans _ _ _ ih ih'

inductive ItemFault (fault : Value → Prop) : Value → Prop where
  | item {vs : List Value} {v : Value} (hmem : v ∈ vs) (h : fault v) : ItemFault fault (.array vs)

def Claim.Fault : Value → Prop :=
  Json.Fault ["type", "value"] ["type", "value"] fun _ _ => False

def Principal.InnerFault : String → Value → Prop
  | "claims" => ItemFault Claim.Fault
  | _ => fun _ => False

def Principal.Fault : Value → Prop :=
  Json.Fault ["owner_id", "name", "claims"] ["owner_id"] Principal.InnerFault

def Properties.Fault : Value → Prop :=
  Json.Fault ["items", "issued_at", "expires_at", "is_persistent", "allow_refresh"] []
    fun _ _ => False

def Ticket.InnerFault : String → Value → Prop
  | "principal" => Principal.Fault
  | "properties" => Properties.Fault
  | _ => fun _ => False

/-- A field that stands twice in the ticket, its principal, its properties or one of its claims, or
one without a default that is missing. -/
def Ticket.Fault : Value → Prop :=
  Json.Fault ["scheme", "principal", "properties"] ["scheme", "principal"] Ticket.InnerFault

theorem Claim.ofJson?_fault {v : Value} (h : Claim.Fault v) : Claim.ofJson? v = none := by
  refine Json.bind_eq_none_of_fault (by decide) (by simp) h (fun r name hname hnone => ?_) nofun
  simp only [List.mem_cons, List.not_mem_nil, or_false] at hname
  rcases hname with rfl | rfl
  · simp [Record.required?, hnone]
  · simp [Record.required?, hnone]

theorem claims?_fault {v : Value} (h : ItemFault Claim.Fault v) : claims? v = none := by
  obtain ⟨hmem, h⟩ := h
  obtain ⟨front, back, rfl⟩ := List.append_of_mem hmem
  simp only [claims?, Value.items?, Option.bind_some, List.mapM_append, List.mapM_cons,
    Claim.ofJson?_fault h]
  cases front.mapM Claim.ofJson? <;> rfl

theorem Principal.ofJson?_fault {v : Value} (h : Principal.Fault v) :
    Principal.ofJson? v = none := by
  refine Json.bind_eq_none_of_fault (by decide) (by simp) h (fun r name hname hnone => ?_)
    fun r name v hv hsome => ?_
  · rw [List.mem_singleton.mp hname] at hnone
    simp [Record.required?, hnone]
  · unfold Principal.InnerFault at hv
    split at hv
    · simp [Record.withDefault?, hsome, claims?_fault hv]
    · exact hv.elim

theorem Properties.ofJson?_fault {v : Value} (h : Properties.Fault v) :
    Properties.ofJson? v = none :=
  Json.bind_eq_none_of_fault (by decide) (by simp) h nofun nofun

theorem Ticket.ofJson?_fault {v : Value} (h : Ticket.Fault v) : Ticket.ofJson? v = none := by
  refine Json.bind_eq_none_of_fault (by decide) (by simp) h (fun r name hname hnone => ?_)
    fun r name v hv hsome => ?_
  · simp only [List.mem_cons, List.not_mem_nil, or_false] at hname
    rcases hname with rfl | rfl
    · simp [Record.required?, hnone]
    · simp [Record.required?, hnone]
  · unfold Ticket.InnerFault at hv
    split at hv
    · simp [Record.required?, hsome, Principal.ofJson?_fault hv]
    · simp [Record.withDefault?, hsome, Properties.ofJson?_fault hv]
    · exact hv.elim

def Blanks (bs : Bytes) : Prop := ∀ b ∈ bs, b = 0x20 ∨ b = 0x09 ∨ b = 0x0A ∨ b = 0x0D

instance (bs : Bytes) : Decidable (Blanks bs) := List.decidableBAll _ bs

theorem blank_scan_iff {bs : Bytes} : Json.Blank (Text.Utf8.scan bs) ↔ Blanks bs := by
  constructor
  · intro h
    have hnarrow : ∀ piece ∈ Text.Utf8.scan bs, Text.Utf8.Narrow piece := by
      intro piece hpiece
      have hc := h piece hpiece
      simp only [Json.Reader.isBlank, Bool.or_eq_true, beq_iff_eq] at hc
      rcases hc with ((rfl | rfl) | rfl) | rfl
      all_goals exact ⟨_, rfl, by decide, by decide⟩
    rw [Text.Utf8.scan_eq_map_of_narrow hnarrow] at h
    intro b hb
    have hc := h _ (List.mem_map_of_mem hb)
    have hall : ∀ n < 256, Json.Reader.isBlank (some (Char.ofNat n)) = true →
        n = 0x20 ∨ n = 0x09 ∨ n = 0x0A ∨ n = 0x0D := by decide +kernel
    simp only [← UInt8.toNat_inj]
    exact hall b.toNat b.toNat_lt hc
  · intro h
    rw [Text.Utf8.scan_of_lt fun b hb => by rcases h b hb with rfl | rfl | rfl | rfl <;> decide]
    intro c hc
    obtain ⟨b, hb, rfl⟩ := List.mem_map.mp hc
    rcases h b hb with rfl | rfl | rfl | rfl <;> decide

def Refused (payload : Bytes) : Prop :=
  ∃ f : Failure, Ticket.decode payload = .error f ∧ f.kind = .serialization

theorem decode_body {v : Value} {body : Bytes} (h : Document v (Text.Utf8.scan body)) :
    Ticket.decode (formatVersion :: body) = match Ticket.ofJson? v with
      | some t => .ok t
      | none => .error (.json "no session ticket") := by
  have hread : Json.ofBytes? body = some v := Json.read?_eq_some_iff.mpr h
  cases hticket : Ticket.ofJson? v with
  | none => rw [Ticket.decode, if_pos rfl, hread, Option.bind_some, hticket]
  | some t => rw [Ticket.decode, if_pos rfl, hread, Option.bind_some, hticket]

theorem document_of_decode {body : Bytes} {t : Ticket}
    (h : Ticket.decode (formatVersion :: body) = .ok t) :
    ∃ v, Document v (Text.Utf8.scan body) ∧ Ticket.ofJson? v = some t := by
  rw [Ticket.decode, if_pos rfl] at h
  split at h
  · rename_i hread
    cases h
    obtain ⟨v, hv, ht⟩ := Option.bind_eq_some_iff.mp hread
    exact ⟨v, Json.read?_eq_some_iff.mp hv, ht⟩
  · cases h

theorem refused_of_none {body : Bytes} (h : (Json.ofBytes? body).bind Ticket.ofJson? = none) :
    Refused (formatVersion :: body) :=
  ⟨.json "no session ticket", by rw [Ticket.decode, if_pos rfl, h], rfl⟩

theorem refused_version {version : UInt8} (h : version ≠ formatVersion) (body : Bytes) :
    Refused (version :: body) :=
  ⟨.ticketVersion version, by rw [Ticket.decode, if_neg h], rfl⟩

theorem Ticket.ofJson?_number (n : Json.Number) : Ticket.ofJson? (.number n) = none := rfl

theorem ofBytes?_followed {v : Value} {body : Bytes} {t : Ticket}
    (h : Document v (Text.Utf8.scan body)) (ht : Ticket.ofJson? v = some t) (extra : Bytes) :
    Json.ofBytes? (body ++ extra) =
      if (Json.Reader.skip (Text.Utf8.scan extra)).isEmpty then some v else none := by
  have hnumber : ∀ n, v ≠ .number n := by
    rintro n rfl
    rw [Ticket.ofJson?_number] at ht
    cases ht
  have hscan : Text.Utf8.scan (body ++ extra) = Text.Utf8.scan body ++ Text.Utf8.scan extra :=
    Text.Utf8.scanFrom_append h.getLast?_ne extra
  rw [Json.ofBytes?, hscan, Json.read?_followed h hnumber]

theorem decode_followed {body : Bytes} {t : Ticket}
    (h : Ticket.decode (formatVersion :: body) = .ok t) (extra : Bytes) :
    (Blanks extra → Ticket.decode (formatVersion :: (body ++ extra)) = .ok t) ∧
      (¬ Blanks extra → Refused (formatVersion :: (body ++ extra))) := by
  obtain ⟨v, hv, ht⟩ := document_of_decode h
  have hread := ofBytes?_followed hv ht extra
  rw [← blank_scan_iff, ← Json.isEmpty_skip_iff]
  constructor
  · intro hblank
    rw [if_pos hblank] at hread
    rw [Ticket.decode, if_pos rfl, hread, Option.bind_some, ht]
  · intro hmore
    rw [if_neg hmore] at hread
    exact refused_of_none (by rw [hread]; rfl)

/-- A stored ticket is read from the content of its document. Whatever is read has the text of a
value behind the version; every text of every value with the same content is read as the same
ticket; a value with a fault is refused in every text; behind a ticket only blanks may follow; and
no other version is read. -/
theorem presentation_free :
    (∀ body t, Ticket.decode (formatVersion :: body) = .ok t →
      ∃ v, Document v (Text.Utf8.scan body)) ∧
    (∀ body t v w body', Ticket.decode (formatVersion :: body) = .ok t →
      Document v (Text.Utf8.scan body) → Ticket.SameContent v w →
      Document w (Text.Utf8.scan body') → Ticket.decode (formatVersion :: body') = .ok t) ∧
    (∀ v body, Ticket.Fault v → Document v (Text.Utf8.scan body) →
      Refused (formatVersion :: body)) ∧
    (∀ body t extra, Ticket.decode (formatVersion :: body) = .ok t →
      (Blanks extra → Ticket.decode (formatVersion :: (body ++ extra)) = .ok t) ∧
        (¬ Blanks extra → Refused (formatVersion :: (body ++ extra)))) ∧
    ∀ version body, version ≠ formatVersion → Refused (version :: body) := by
  refine ⟨fun body t h => ?_, fun body t v w body' h hv hsame hw => ?_, fun v body hfault hv => ?_,
    fun _ _ extra h => decode_followed h extra, fun _ body h => refused_version h body⟩
  · obtain ⟨v, hv, _⟩ := document_of_decode h
    exact ⟨v, hv⟩
  · rw [decode_body hw, ← Ticket.ofJson?_sameContent hsame, ← decode_body hv, h]
  · refine refused_of_none ?_
    rw [Json.ofBytes?, Json.read?_eq_some_iff.mpr hv, Option.bind_some, Ticket.ofJson?_fault hfault]

def bareTicket : Ticket where
  scheme := "Cookies"
  principal := { owner := ⟨List.replicate 16 5, rfl⟩ }
  properties := {}

def ownerText : String := "05050505-0505-0505-0505-050505050505"

def writtenOut : Value :=
  .object [(some "scheme", .text "Cookies"),
    (some "principal", .object [(some "owner_id", .text ownerText), (some "name", .null)]),
    (some "properties", .object [(some "is_persistent", .bool false)])]

def writtenOutText : Bytes := Text.Utf8.encode <|
  "\x7b\"scheme\":\"Cookies\",\"principal\":\x7b\"owner_id\":\"" ++ ownerText ++
  "\",\"name\":null\x7d,\"properties\":\x7b\"is_persistent\":false\x7d\x7d"

def rearranged : Value :=
  .object [(some "principal", .object
    [(some "x", .array [.number (.decimal false 1 999), .string none]),
      (some "owner_id", .text ownerText)]), (some "scheme", .text "Cookies")]

def rearrangedText : Bytes := Text.Utf8.encode <|
  "\x7b \"principal\" :\x7b\"\\u0078\":[1e999 , \"\\udC00\"],\"owner_id\":\"" ++ ownerText ++
  "\"\x7d,\n\t\"scheme\":\"Cookies\"\x7d"

def repeatedText : Bytes := Text.Utf8.encode "\x7b\"scheme\":\"a\",\"scheme\":\"a\"\x7d"

theorem writtenOut_sameContent_rearranged : Ticket.SameContent writtenOut rearranged := by
  have hname : Principal.Edit (.object [(some "owner_id", .text ownerText)])
      (.object [(some "name", .null), (some "owner_id", .text ownerText)]) := .default (by simp) rfl
  have hunknown : Principal.Edit (.object [(some "owner_id", .text ownerText)])
      (.object [(some "x", .array [.number (.decimal false 1 999), .string none]),
        (some "owner_id", .text ownerText)]) := .unknown (by decide) _
  have hflag : Properties.Edit (.object []) (.object [(some "is_persistent", .bool false)]) :=
    .default (by simp) rfl
  have hproperties (ms : List (Option String × Value)) (hfree : ∀ m ∈ ms, m.1 ≠ some "properties") :
      Ticket.Edit (.object ms) (.object ((some "properties", .object []) :: ms)) :=
    .default hfree rfl
  refine .trans _ _ _ (.rel _ _ (.reorder (List.reverse_perm _).symm)) ?_
  refine .trans _ _ _ (Ticket.sameContent_member "properties" (.symm _ _ (.rel _ _ hflag)) _) ?_
  refine .trans _ _ _ (.symm _ _ (.rel _ _ (hproperties _ (by simp)))) ?_
  refine Ticket.sameContent_member "principal" ?_ _
  exact .trans _ _ _ (.rel _ _ (.reorder (.swap _ _ _)))
    (.trans _ _ _ (.symm _ _ (.rel _ _ hname)) (.rel _ _ hunknown))

theorem presentation_free_rearranged :
    Ticket.decode (formatVersion :: writtenOutText) = .ok bareTicket ∧
    Ticket.decode (formatVersion :: rearrangedText) = .ok bareTicket ∧
    Ticket.decode (formatVersion :: (rearrangedText ++ [0x0A])) = .ok bareTicket ∧
    Refused (formatVersion :: (rearrangedText ++ [0x0A, 0x2C])) ∧
    Refused (formatVersion :: repeatedText) ∧ Refused (2 :: rearrangedText) := by
  obtain ⟨_, hsame, hfault, hextra, hversion⟩ := presentation_free
  have hread : Json.ofBytes? writtenOutText = some writtenOut := by decide +kernel
  have hticket : Ticket.ofJson? writtenOut = some bareTicket := by decide +kernel
  have hwritten : Ticket.decode (formatVersion :: writtenOutText) = .ok bareTicket := by
    rw [decode_body (Json.read?_eq_some_iff.mp hread), hticket]
  have hread' : Json.ofBytes? rearrangedText = some rearranged := by decide +kernel
  have hrearranged := hsame _ _ _ _ _ hwritten (Json.read?_eq_some_iff.mp hread)
    writtenOut_sameContent_rearranged (Json.read?_eq_some_iff.mp hread')
  have hrepeated : Ticket.Fault (.object ([] ++ (some "scheme", .text "a") ::
      ([] ++ (some "scheme", .text "a") :: []))) := .repeated (by decide)
  have hread'' : Json.ofBytes? repeatedText =
      some (.object [(some "scheme", .text "a"), (some "scheme", .text "a")]) := by decide +kernel
  exact ⟨hwritten, hrearranged, (hextra _ _ [0x0A] hrearranged).1 (by decide),
    (hextra _ _ [0x0A, 0x2C] hrearranged).2 (by decide),
    hfault _ _ hrepeated (Json.read?_eq_some_iff.mp hread''), hversion _ _ (by decide)⟩

end AuthCore.Session
