import AuthCore.Proofs.Text.Utf8RoundTrip
import AuthCore.Signing.Repository

set_option autoImplicit false

namespace AuthCore

section Outcomes

variable {α β : Type} {x : Except Failure α} {next : α → Except Failure β}

theorem bind_eq_ok_iff {b : β} : x >>= next = .ok b ↔ ∃ a, x = .ok a ∧ next a = .ok b := by
  cases x <;> simp [Bind.bind, Except.bind]

theorem bind_eq_error_iff {f : Failure} :
    x >>= next = .error f ↔ x = .error f ∨ ∃ a, x = .ok a ∧ next a = .error f := by
  cases x <;> simp [Bind.bind, Except.bind]

end Outcomes

namespace Asn1.Pem

open Text (stripLead?)

theorem stripLead?_eq_some {lead cs rest : List Char} (h : stripLead? lead cs = some rest) :
    cs = lead ++ rest := by
  induction lead generalizing cs with
  | nil => simpa [stripLead?] using h
  | cons l lead ih =>
    cases cs with
    | nil => simp [stripLead?] at h
    | cons c cs =>
      rw [stripLead?] at h
      split at h
      · rename_i hl
        rw [ih h, hl, List.cons_append]
      · cases h

def afterBegin? (cs : List Char) : Option (List Char) :=
  (stripLead? beginMark cs).orElse fun _ => afterPreamble? cs

/-- The bytes of a document of the label after its begin mark. -/
def inside? (label : String) (after : List Char) : Option Bytes := do
  let rest ← stripLead? (label.toList ++ dashes) after
  let body ← stripLineEnd? rest
  let reversed := (dropLineEnd? body.reverse).getD body.reverse
  let reversed ← stripTail? (endMark ++ label.toList ++ dashes) reversed
  let reversed ← dropLineEnd? reversed
  let symbols ← joinLines? reversed.reverse
  Text.Base64.decodeChars? symbols

theorem decode?_eq (label text : String) :
    decode? label text = (afterBegin? text.toList).bind (inside? label) := by
  unfold decode? afterBegin?
  dsimp only
  cases stripLead? beginMark text.toList <;> rfl

theorem label_prefix_of_decode? {label text : String} {bs : Bytes}
    (h : decode? label text = some bs) :
    ∃ after, afterBegin? text.toList = some after ∧ label.toList ++ dashes <+: after := by
  rw [decode?_eq] at h
  obtain ⟨after, hafter, h⟩ := Option.bind_eq_some_iff.mp h
  obtain ⟨rest, hrest, _⟩ := Option.bind_eq_some_iff.mp h
  exact ⟨after, hafter, rest, (stripLead?_eq_some hrest).symm⟩

/-- A text holds no documents under two labels, unless one label begins the other. -/
theorem decode?_labels {first second text : String} {bs cs : Bytes}
    (hfirst : decode? first text = some bs) (hsecond : decode? second text = some cs) :
    first.toList ++ dashes <+: second.toList ++ dashes ∨
      second.toList ++ dashes <+: first.toList ++ dashes := by
  obtain ⟨after, hafter, hlead⟩ := label_prefix_of_decode? hfirst
  obtain ⟨after', hafter', hlead'⟩ := label_prefix_of_decode? hsecond
  obtain rfl : after = after' := Option.some.inj (hafter.symm.trans hafter')
  exact List.prefix_or_prefix_of_prefix hlead hlead'

def symbols (label : String) (bs : Bytes) : List Char :=
  let lines := Digest.Words.chunks lineWidth (Text.Base64.encodeWith Text.Base64.standard ['='] bs)
  beginMark ++ label.toList ++ dashes ++ '\n' :: lines.flatMap (· ++ ['\n']) ++
    endMark ++ label.toList ++ dashes ++ ['\n']

def write (label : String) (bs : Bytes) : String := String.ofList (symbols label bs)

theorem decode?_write {label : String} {bs : Bytes}
    (h : (afterBegin? (symbols label bs)).bind (inside? label) = some bs) :
    decode? label (write label bs) = some bs := by
  rw [decode?_eq, write, String.toList_ofList, h]

end Asn1.Pem

namespace Rsa

open Asn1

def IsPlain (pem : String) : Prop :=
  (Pem.decode? "PRIVATE KEY" pem).isSome ∨ (Pem.decode? "RSA PRIVATE KEY" pem).isSome

def IsEncrypted (pem : String) : Prop := (Pem.decode? "ENCRYPTED PRIVATE KEY" pem).isSome

theorem isPlain_of_readPlain? {pem : String} {k : PrivateKey} (h : readPlain? pem = some k) :
    IsPlain pem := by
  unfold readPlain? at h
  cases hpkcs8 : Pem.decode? "PRIVATE KEY" pem with
  | some bs => exact .inl (Option.isSome_of_eq_some hpkcs8)
  | none =>
    rw [hpkcs8] at h
    obtain ⟨bs, hbs, _⟩ := Option.bind_eq_some_iff.mp h
    exact .inr (Option.isSome_of_eq_some hbs)

theorem readPlain?_of_readPkcs1? {pem : String} {bs : Bytes} {k : PrivateKey}
    (hpem : Pem.decode? "RSA PRIVATE KEY" pem = some bs) (hread : readPkcs1? bs = some k) :
    readPlain? pem = some k := by
  have hother : Pem.decode? "PRIVATE KEY" pem = none := by
    cases hpkcs8 : Pem.decode? "PRIVATE KEY" pem with
    | none => rfl
    | some cs => exact absurd (Pem.decode?_labels hpem hpkcs8) (by decide)
  simp [readPlain?, hother, hpem, hread]

theorem isEncrypted_of_readEncrypted? {passphrase pem : String} {k : PrivateKey}
    (h : readEncrypted? passphrase pem = some k) : IsEncrypted pem := by
  obtain ⟨bs, hbs, _⟩ := Option.bind_eq_some_iff.mp h
  exact Option.isSome_of_eq_some hbs

/-- The one mode that a passphrase, or its absence, commits the decoder to. -/
theorem decodePrivateKey_eq_ok_iff {pem : String} {passphrase : Option String} {k : PrivateKey} :
    decodePrivateKey pem passphrase = .ok k ↔
      passphrase = none ∧ IsPlain pem ∧ readPlain? pem = some k ∨
        ∃ s, passphrase = some s ∧ IsEncrypted pem ∧ readEncrypted? s pem = some k := by
  cases passphrase with
  | none =>
    unfold decodePrivateKey
    cases h : readPlain? pem with
    | none => simp
    | some found => simp [isPlain_of_readPlain? h]
  | some s =>
    unfold decodePrivateKey
    cases h : readEncrypted? s pem with
    | none => simp [h]
    | some found => simp [h, isEncrypted_of_readEncrypted? h]

theorem valid_of_readPkcs1? {bs : Bytes} {k : PrivateKey} (h : readPkcs1? bs = some k) :
    k.Valid := by
  simp only [readPkcs1?, Option.bind_eq_bind, Option.bind_eq_some_iff] at h
  obtain ⟨e, -, items, -, numbers, -, h⟩ := h
  split at h
  · split at h
    · rename_i hvalid
      cases h
      exact hvalid
    · cases h
  · cases h

theorem valid_of_readPkcs8? {bs : Bytes} {k : PrivateKey} (h : readPkcs8? bs = some k) :
    k.Valid := by
  simp only [readPkcs8?, Option.bind_eq_bind, Option.bind_eq_some_iff] at h
  obtain ⟨e, -, items, -, h⟩ := h
  split at h
  · simp only [Option.bind_eq_some_iff] at h
    obtain ⟨v, -, a, -, parameters, -, content, -, h⟩ := h
    split at h
    · exact valid_of_readPkcs1? h
    · cases h
  · cases h

theorem valid_of_decodePrivateKey {pem : String} {passphrase : Option String} {k : PrivateKey}
    (h : decodePrivateKey pem passphrase = .ok k) : k.Valid := by
  rcases decodePrivateKey_eq_ok_iff.mp h with ⟨-, -, hread⟩ | ⟨s, -, -, hread⟩
  · unfold readPlain? at hread
    cases hpkcs8 : (Pem.decode? "PRIVATE KEY" pem).bind readPkcs8? with
    | some k' =>
      obtain rfl : k' = k := by simpa [hpkcs8] using hread
      obtain ⟨bs, -, hbs⟩ := Option.bind_eq_some_iff.mp hpkcs8
      exact valid_of_readPkcs8? hbs
    | none =>
      rw [hpkcs8] at hread
      obtain ⟨bs, -, hbs⟩ := Option.bind_eq_some_iff.mp hread
      exact valid_of_readPkcs1? hbs
  · obtain ⟨bs, -, hread⟩ := Option.bind_eq_some_iff.mp hread
    obtain ⟨plain, -, hplain⟩ := Option.bind_eq_some_iff.mp hread
    exact valid_of_readPkcs8? hplain

end Rsa

namespace Signing

open Rsa (IsPlain IsEncrypted)

def HoldsKeyFile (disk : Files.Disk) (dir source pem : String) : Prop :=
  findKeyFile dir (disk dir) = .ok source ∧ readKeyFile source (disk source) = .ok pem

def keyDisk (pem : String) : Files.Disk
  | "JWK" => .directory [("signing.pem", true)]
  | "JWK/signing.pem" => .file (Text.Utf8.encode pem)
  | _ => .missing

theorem holdsKeyFile_keyDisk (pem : String) :
    HoldsKeyFile (keyDisk pem) "JWK" "JWK/signing.pem" pem := by
  have hcandidates : candidates [("signing.pem", true)] = ["signing.pem"] := by decide
  have hpath : Files.join "JWK" "signing.pem" = "JWK/signing.pem" := by decide +kernel
  constructor
  · simp [findKeyFile, keyDisk, hcandidates, only, Except.map, hpath]
  · simp [readKeyFile, keyDisk, Text.Utf8.decode?_encode]

theorem loadMaterial_eq_ok_iff {disk : Files.Disk} {dir : String} {passphrase : Option String}
    {m : KeyMaterial} : loadMaterial disk dir passphrase = .ok m ↔
      ∃ pem, HoldsKeyFile disk dir m.source pem ∧
        Rsa.decodePrivateKey pem passphrase = .ok m.key ∧ m.key.encodable = true := by
  unfold loadMaterial loadPrivateKey KeyMaterial.ofPrivateKey HoldsKeyFile
  constructor
  · intro h
    obtain ⟨⟨path, key⟩, hload, hmaterial⟩ := bind_eq_ok_iff.mp h
    obtain ⟨path', hpath, hload⟩ := bind_eq_ok_iff.mp hload
    obtain ⟨pem, hpem, hload⟩ := bind_eq_ok_iff.mp hload
    obtain ⟨key', hkey, hload⟩ := bind_eq_ok_iff.mp hload
    cases hload
    dsimp only at hmaterial
    split at hmaterial
    · rename_i hencodable
      cases hmaterial
      exact ⟨pem, ⟨hpath, hpem⟩, hkey, hencodable⟩
    · cases hmaterial
  · rintro ⟨pem, ⟨hpath, hpem⟩, hkey, hencodable⟩
    simp [hpath, hpem, hkey, hencodable, Bind.bind, Except.bind, Pure.pure, Except.pure]

theorem valid_of_loadMaterial {disk : Files.Disk} {dir : String} {passphrase : Option String}
    {m : KeyMaterial} (h : loadMaterial disk dir passphrase = .ok m) :
    m.key.Valid ∧ m.key.encodable = true := by
  obtain ⟨pem, -, hkey, hencodable⟩ := loadMaterial_eq_ok_iff.mp h
  exact ⟨Rsa.valid_of_decodePrivateKey hkey, hencodable⟩

theorem findKeyFile_kind {dir : String} {node : Files.Node} {f : Failure}
    (h : findKeyFile dir node = .error f) : f.kind = .credential := by
  unfold findKeyFile at h
  split at h
  case h_4 =>
    unfold only at h
    split at h
    · cases h
      rfl
    · cases h
    · cases h
      rfl
  all_goals
    cases h
    rfl

theorem readKeyFile_kind {path : String} {node : Files.Node} {f : Failure}
    (h : readKeyFile path node = .error f) : f.kind = .credential := by
  unfold readKeyFile at h
  split at h
  case h_1 =>
    split at h
    · cases h
    · cases h
      rfl
  all_goals
    cases h
    rfl

theorem decodePrivateKey_kind {pem : String} {passphrase : Option String} {f : Failure}
    (h : Rsa.decodePrivateKey pem passphrase = .error f) : f.kind = .credential := by
  unfold Rsa.decodePrivateKey at h
  split at h
  all_goals
    split at h
    · cases h
    · cases h
      rfl

theorem loadMaterial_kind {disk : Files.Disk} {dir : String} {passphrase : Option String}
    {f : Failure} (h : loadMaterial disk dir passphrase = .error f) : f.kind = .credential := by
  unfold loadMaterial loadPrivateKey at h
  rcases bind_eq_error_iff.mp h with h | ⟨_, _, h⟩
  · rcases bind_eq_error_iff.mp h with h | ⟨_, _, h⟩
    · exact findKeyFile_kind h
    rcases bind_eq_error_iff.mp h with h | ⟨_, _, h⟩
    · exact readKeyFile_kind h
    rcases bind_eq_error_iff.mp h with h | ⟨_, _, h⟩
    · exact decodePrivateKey_kind h
    · cases h
  · dsimp only [KeyMaterial.ofPrivateKey] at h
    split at h
    · cases h
    · cases h
      rfl

namespace Repository

variable {r : Repository} {disk : Files.Disk} {m : KeyMaterial}

theorem material_of_kept (h : r.cell.value = some m) (disk : Files.Disk) :
    r.material disk = (.ok m, r) := by
  simp [material, Once.get, h]

theorem material_of_load (h : r.cell.value = none)
    (hload : loadMaterial disk r.keyDir r.passphrase = .ok m) :
    r.material disk = (.ok m, { r with cell := ⟨some m, r.cell.attempts + 1⟩ }) := by
  simp [material, Once.get, h, hload]

theorem material_of_fault {f : Failure} (h : r.cell.value = none)
    (hload : loadMaterial disk r.keyDir r.passphrase = .error f) :
    r.material disk = (.error f, { r with cell := ⟨none, r.cell.attempts + 1⟩ }) := by
  simp [material, Once.get, h, hload]

theorem fresh_material (h : r.cell.value = none) (disk : Files.Disk) :
    (r.material disk).1 = loadMaterial disk r.keyDir r.passphrase := by
  cases hload : loadMaterial disk r.keyDir r.passphrase with
  | ok m => rw [material_of_load h hload]
  | error f => rw [material_of_fault h hload]

/-- A repository of this directory and passphrase that was used on the disks of `seen`: it keeps
what one of them gave, or none of them gave anything. -/
structure Used (dir : String) (passphrase : Option String) (seen : List Files.Disk)
    (r : Repository) : Prop where
  keyDir_eq : r.keyDir = dir
  passphrase_eq : r.passphrase = passphrase
  kept : ∀ m, r.cell.value = some m → ∃ disk ∈ seen, loadMaterial disk dir passphrase = .ok m
  unkept : r.cell.value = none →
    ∀ disk ∈ seen, ∃ f, loadMaterial disk dir passphrase = .error f

variable {dir : String} {passphrase : Option String} {seen : List Files.Disk}

theorem Used.new : Used dir passphrase [] (new dir passphrase) where
  keyDir_eq := rfl
  passphrase_eq := rfl
  kept _ h := by cases h
  unkept _ _ h := by cases h

theorem Used.next (h : Used dir passphrase seen r) (disk : Files.Disk) :
    Used dir passphrase (seen ++ [disk]) (r.material disk).2 := by
  obtain ⟨rfl, rfl, hkept, hunkept⟩ := h
  cases hvalue : r.cell.value with
  | some m =>
    rw [material_of_kept hvalue]
    refine ⟨rfl, rfl, fun m' hm' => ?_, fun hnone => by simp [hvalue] at hnone⟩
    obtain ⟨d, hd, hload⟩ := hkept m' hm'
    exact ⟨d, List.mem_append_left _ hd, hload⟩
  | none =>
    cases hload : loadMaterial disk r.keyDir r.passphrase with
    | ok m =>
      rw [material_of_load hvalue hload]
      refine ⟨rfl, rfl, fun m' hm' => ?_, fun hnone => by cases hnone⟩
      obtain rfl : m = m' := Option.some.inj hm'
      exact ⟨disk, by simp, hload⟩
    | error f =>
      rw [material_of_fault hvalue hload]
      refine ⟨rfl, rfl, fun _ hm' => (by cases hm'), fun _ d hd => ?_⟩
      rcases List.mem_append.mp hd with hd | hd
      · exact hunkept hvalue d hd
      · exact ⟨f, List.mem_singleton.mp hd ▸ hload⟩

theorem Used.answer (h : Used dir passphrase seen r) (disk : Files.Disk) :
    (∃ m, (r.material disk).1 = .ok m ∧
      ∃ d ∈ seen ++ [disk], loadMaterial d dir passphrase = .ok m) ∨
    ∃ f, (r.material disk).1 = .error f ∧ f.kind = .credential ∧
      ∀ d ∈ seen ++ [disk], ∀ m, loadMaterial d dir passphrase ≠ .ok m := by
  have hnext := h.next disk
  obtain ⟨rfl, rfl, -, -⟩ := h
  cases hvalue : r.cell.value with
  | some m =>
    rw [material_of_kept hvalue] at hnext ⊢
    exact .inl ⟨m, rfl, hnext.kept m hvalue⟩
  | none =>
    cases hload : loadMaterial disk r.keyDir r.passphrase with
    | ok m => exact .inl ⟨m, by rw [material_of_load hvalue hload], disk, by simp, hload⟩
    | error f =>
      rw [material_of_fault hvalue hload] at hnext ⊢
      refine .inr ⟨f, rfl, loadMaterial_kind hload, fun d hd m hm => ?_⟩
      obtain ⟨f', hf'⟩ := hnext.unkept rfl d hd
      cases hf'.symm.trans hm

def smallKey : Rsa.PrivateKey := ⟨⟨55, 3⟩, 7, 5, 11⟩

def smallDer : Bytes :=
  [0x30, 27, 2, 1, 0, 2, 1, 55, 2, 1, 3, 2, 1, 7, 2, 1, 5, 2, 1, 11, 2, 1, 3, 2, 1, 7, 2, 1, 1]

def smallPem : String := Asn1.Pem.write "RSA PRIVATE KEY" smallDer

theorem readPlain?_smallPem : Rsa.readPlain? smallPem = some smallKey :=
  Rsa.readPlain?_of_readPkcs1? (Asn1.Pem.decode?_write (by decide +kernel)) (by decide +kernel)

end Repository

end Signing

end AuthCore
