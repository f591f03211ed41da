import AuthCore.Password.Secret
import AuthCore.Proofs.Loading.FirstSuccess
import AuthCore.Proofs.Signing.KeyMode

set_option autoImplicit false

namespace AuthCore

open Once (failures)

namespace Password.Secret

/-- The bytes of a load that can be kept. -/
def usable? : Except Failure Bytes → Option Bytes
  | .ok (b :: bs) => some (b :: bs)
  | _ => none

theorem toOption_accept (source : String) (load : Except Failure Bytes) :
    (accept source load).toOption = usable? load := by
  match load with
  | .ok [] => rfl
  | .ok (_ :: _) => rfl
  | .error _ => rfl

theorem expose_of_kept {s : Secret} {bs : Bytes} (h : s.cell.value = some bs)
    (load : Except Failure Bytes) : s.expose load = (.ok bs, s) := by
  simp [expose, Once.get_loaded h]

theorem expose_unloaded {s : Secret} (h : s.cell.value = none) (load : Except Failure Bytes) :
    s.expose load = (accept s.source load,
      { s with cell := ⟨usable? load, s.cell.attempts + 1⟩ }) := by
  simp [expose, Once.get_unloaded h, toOption_accept]

def exposeAll (s : Secret) : List (Except Failure Bytes) → List (Except Failure Bytes) × Secret
  | [] => ([], s)
  | load :: loads =>
    let (answer, s) := s.expose load
    let (answers, s) := exposeAll s loads
    (answer :: answers, s)

theorem exposeAll_eq (s : Secret) (loads : List (Except Failure Bytes)) :
    s.exposeAll loads = ((s.cell.getAll (loads.map (accept s.source))).1,
      { s with cell := (s.cell.getAll (loads.map (accept s.source))).2 }) := by
  induction loads generalizing s with
  | nil => rfl
  | cons load loads ih => simp only [exposeAll, expose, List.map_cons, Once.getAll_cons, ih]

/-- A secret of a source after uses that would load `loads` and were answered by `answers`. -/
structure Exposed (s : Secret) (source : String) (loads answers : List (Except Failure Bytes)) :
    Prop where
  same : ∀ bs, .ok bs ∈ answers → loads.findSome? usable? = some bs
  isLoaded_eq : s.isLoaded = (loads.findSome? usable?).isSome
  attempts_eq : s.cell.attempts = failures answers + s.isLoaded.toNat
  /-- The next use does not load: neither its answer nor the secret depends on what it would. -/
  kept : ∀ bs, loads.findSome? usable? = some bs → ∀ load, s.expose load = (.ok bs, s)
  /-- The next use loads. What it loads is the answer, and is kept if it is usable. -/
  retried : loads.findSome? usable? = none → ∀ load,
    (s.expose load).1 = accept source load ∧
      (s.expose load).2.isLoaded = (usable? load).isSome ∧
      (s.expose load).2.cell.attempts = s.cell.attempts + 1

theorem exposed (source : String) (loads : List (Except Failure Bytes)) :
    ((new source).exposeAll loads).2.Exposed source loads ((new source).exposeAll loads).1 := by
  have hvalue : (Once.empty.getAll (loads.map (accept source))).2.value =
      loads.findSome? usable? := by
    rw [Once.value_getAll, List.findSome?_map, Function.comp_def]
    simp only [toOption_accept]
    rfl
  have hrun : (new source).exposeAll loads = ((Once.empty.getAll (loads.map (accept source))).1,
      ⟨source, (Once.empty.getAll (loads.map (accept source))).2⟩) := exposeAll_eq _ _
  rw [hrun]
  constructor
  case same =>
    intro bs h
    exact hvalue ▸ Once.value_of_mem_answers h
  case isLoaded_eq => exact congrArg Option.isSome hvalue
  case attempts_eq => exact Once.attempts_getAll_empty _
  case kept =>
    intro bs h load
    exact expose_of_kept (hvalue.trans h) load
  case retried =>
    intro h load
    rw [expose_unloaded (hvalue.trans h)]
    exact ⟨rfl, rfl, rfl⟩

end Password.Secret

namespace Signing

/-- What a repository gives out: its key, or one of the forms made from the key. -/
inductive Given where
  | material (m : KeyMaterial)
  | publicJwk (k : Jwk)
  | jwks (s : Jwks)
  | credential (c : Credential)

inductive Use where
  | material
  | publicJwk
  | jwks
  | credential

def Use.given : Use → KeyMaterial → Given
  | material, m => .material m
  | publicJwk, m => .publicJwk m.jwk
  | jwks, m => .jwks (.single m.jwk)
  | credential, m => .credential m.credential

namespace Repository

def answer (r : Repository) (disk : Files.Disk) : Use → Except Failure Given × Repository
  | .material =>
    let (answer, r) := r.material disk
    (answer.map .material, r)
  | .publicJwk =>
    let (answer, r) := r.publicJwk disk
    (answer.map .publicJwk, r)
  | .jwks =>
    let (answer, r) := r.jwks disk
    (answer.map .jwks, r)
  | .credential =>
    let (answer, r) := r.credential disk
    (answer.map .credential, r)

theorem answer_eq (r : Repository) (disk : Files.Disk) (use : Use) :
    r.answer disk use = ((r.material disk).1.map use.given, (r.material disk).2) := by
  cases use
  all_goals
    simp only [answer, publicJwk, jwks, credential]
    cases (r.material disk).1 <;> rfl

def answerAll (r : Repository) : List (Use × Files.Disk) → List (Except Failure Given) × Repository
  | [] => ([], r)
  | (use, disk) :: calls =>
    let (answer, r) := r.answer disk use
    let (answers, r) := answerAll r calls
    (answer :: answers, r)

variable {keyDir : String} {passphrase : Option String}

def key? (keyDir : String) (passphrase : Option String) (call : Use × Files.Disk) :
    Option KeyMaterial :=
  (loadMaterial call.2 keyDir passphrase).toOption

/-- A repository after uses that were answered by `answers`. -/
structure Asked (r : Repository) (keyDir : String) (passphrase : Option String)
    (calls : List (Use × Files.Disk)) (answers : List (Except Failure Given)) : Prop where
  same : ∀ use disk given, ((use, disk), .ok given) ∈ calls.zip answers →
    ∃ m, calls.findSome? (key? keyDir passphrase) = some m ∧ given = use.given m
  isLoaded_eq : r.isLoaded = (calls.findSome? (key? keyDir passphrase)).isSome
  attempts_eq : r.loadAttempts = failures answers + r.isLoaded.toNat
  /-- The next use does not load: neither its answer nor the repository depends on the disk. -/
  kept : ∀ m, calls.findSome? (key? keyDir passphrase) = some m → ∀ use disk,
    r.answer disk use = (.ok (use.given m), r)
  /-- The next use loads. It gives out what it loads, and keeps it. -/
  retried : calls.findSome? (key? keyDir passphrase) = none → ∀ use disk,
    (r.answer disk use).1 = (loadMaterial disk keyDir passphrase).map use.given ∧
      (r.answer disk use).2.isLoaded = (key? keyDir passphrase (use, disk)).isSome ∧
      (r.answer disk use).2.loadAttempts = r.loadAttempts + 1

theorem answerAll_cell (r : Repository) (calls : List (Use × Files.Disk)) :
    (r.answerAll calls).2 = { r with
      cell := (r.cell.getAll (calls.map fun c => loadMaterial c.2 r.keyDir r.passphrase)).2 } ∧
    failures (r.answerAll calls).1 =
      failures (r.cell.getAll (calls.map fun c => loadMaterial c.2 r.keyDir r.passphrase)).1 := by
  induction calls generalizing r with
  | nil => exact ⟨rfl, rfl⟩
  | cons call calls ih =>
    obtain ⟨use, disk⟩ := call
    obtain ⟨hrepository, hfailures⟩ := ih (r.answer disk use).2
    rw [answer_eq] at hrepository hfailures
    simp only [answerAll, answer_eq, List.map_cons, Once.getAll_cons]
    refine ⟨hrepository, ?_⟩
    rw [Once.failures_cons, Once.failures_cons (r.cell.get _).1, hfailures]
    congr 1
    dsimp only [material]
    cases (r.cell.get (loadMaterial disk r.keyDir r.passphrase)).1 <;> rfl

theorem material_unloaded {r : Repository} (h : r.cell.value = none) (disk : Files.Disk) :
    r.material disk = (loadMaterial disk r.keyDir r.passphrase,
      { r with
        cell := ⟨(loadMaterial disk r.keyDir r.passphrase).toOption, r.cell.attempts + 1⟩ }) := by
  simp [material, Once.get_unloaded h]

theorem material_ok {r : Repository} {disk : Files.Disk} {m : KeyMaterial}
    (h : (r.material disk).1 = .ok m) : (r.material disk).2.cell.value = some m :=
  Once.get_ok (Prod.ext h rfl)

theorem value_of_mem_answerAll {r : Repository} {calls : List (Use × Files.Disk)} {use : Use}
    {disk : Files.Disk} {given : Given}
    (h : ((use, disk), .ok given) ∈ calls.zip (r.answerAll calls).1) :
    ∃ m, (r.answerAll calls).2.cell.value = some m ∧ given = use.given m := by
  induction calls generalizing r with
  | nil => cases h
  | cons call calls ih =>
    obtain ⟨first, state⟩ := call
    simp only [answerAll, List.zip_cons_cons] at h
    rcases List.mem_cons.mp h with h | h
    · obtain ⟨hcall, hanswer⟩ := Prod.mk.inj h
      obtain ⟨rfl, rfl⟩ := Prod.mk.inj hcall
      rw [answer_eq] at hanswer
      cases hm : (r.material disk).1 with
      | error f => rw [hm] at hanswer; cases hanswer
      | ok m =>
        rw [hm] at hanswer
        refine ⟨m, ?_, Except.ok.inj hanswer⟩
        simp only [answerAll, answer_eq, (answerAll_cell _ calls).1, Once.value_getAll,
          material_ok hm, Option.some_or]
    · exact ih h

theorem asked (keyDir : String) (passphrase : Option String) (calls : List (Use × Files.Disk)) :
    ((new keyDir passphrase).answerAll calls).2.Asked keyDir passphrase calls
      ((new keyDir passphrase).answerAll calls).1 := by
  obtain ⟨hrepository, hfailures⟩ := answerAll_cell (new keyDir passphrase) calls
  have hvalue : ((new keyDir passphrase).answerAll calls).2.cell.value =
      calls.findSome? (key? keyDir passphrase) := by
    rw [hrepository, Once.value_getAll, List.findSome?_map]
    rfl
  constructor
  case same =>
    intro use disk given h
    exact hvalue ▸ value_of_mem_answerAll h
  case isLoaded_eq => exact congrArg Option.isSome hvalue
  case attempts_eq =>
    rw [hfailures, hrepository]
    exact Once.attempts_getAll_empty _
  case kept =>
    intro m h use disk
    rw [answer_eq, material_of_kept (hvalue.trans h)]
    rfl
  case retried =>
    intro h use disk
    have hdir : ((new keyDir passphrase).answerAll calls).2.keyDir = keyDir := by
      rw [hrepository]
      rfl
    have hpassphrase : ((new keyDir passphrase).answerAll calls).2.passphrase = passphrase := by
      rw [hrepository]; rfl
    rw [answer_eq, material_unloaded (hvalue.trans h), hdir, hpassphrase]
    exact ⟨rfl, rfl, rfl⟩

end Repository

end Signing

/-- Whatever a variable or a loader gives from use to use, and whatever becomes of the key
directory: the first usable load is what every use sees that does not fail, no use after it loads,
and before it every use does. The credential of the key is the one that its published form names. -/
theorem credentials_loaded_once (source : String) (loads : List (Except Failure Bytes))
    (keyDir : String) (passphrase : Option String) (calls : List (Signing.Use × Files.Disk)) :
    let secret := (Password.Secret.new source).exposeAll loads
    let repository := (Signing.Repository.new keyDir passphrase).answerAll calls
    secret.2.Exposed source loads secret.1 ∧
    repository.2.Asked keyDir passphrase calls repository.1 ∧
    ∀ m : Signing.KeyMaterial, m.credential.kid = m.jwk.kid ∧
      m.credential.header =
        .record [("typ", .text "JWT"), ("alg", .text m.jwk.alg), ("kid", .text m.jwk.kid)] :=
  ⟨Password.Secret.exposed source loads, Signing.Repository.asked keyDir passphrase calls,
    fun _ => ⟨rfl, rfl⟩⟩

end AuthCore
