import AuthCore.Proofs.Loading.LazyCredentials
import AuthCore.Proofs.Server.ValidatedArguments
import AuthCore.Server.Startup

set_option autoImplicit false

namespace AuthCore

namespace Password.Secret

def Gives (setting : Option Bytes) (bs : Bytes) : Prop :=
  setting = some bs ∧ bs ≠ [] ∧ (Text.Utf8.decode? bs).isSome

inductive Withheld (name : String) : Option Bytes → Failure → Prop where
  | unset : Withheld name none (.variableMissing name)
  | undecodable {bs : Bytes} (h : Text.Utf8.decode? bs = none) :
    Withheld name (some bs) (.variableMissing name)
  | blank : Withheld name (some []) (.secretEmpty ("env:" ++ name))

def ofSetting (name : String) (setting : Option Bytes) : Except Failure Bytes :=
  accept ("env:" ++ name) (loadVariable name setting)

variable {name : String} {setting : Option Bytes}

theorem gives_or_withheld (name : String) (setting : Option Bytes) :
    (∃ bs, Gives setting bs) ∨ ∃ f, Withheld name setting f := by
  cases setting with
  | none => exact .inr ⟨_, .unset⟩
  | some bs =>
    cases htext : Text.Utf8.decode? bs with
    | none => exact .inr ⟨_, .undecodable htext⟩
    | some text =>
      cases bs with
      | nil => exact .inr ⟨_, .blank⟩
      | cons b bs => exact .inl ⟨b :: bs, rfl, List.cons_ne_nil b bs, by rw [htext]; rfl⟩

theorem ofSetting_of_gives {bs : Bytes} (h : Gives setting bs) :
    ofSetting name setting = .ok bs := by
  obtain ⟨rfl, hne, htext⟩ := h
  obtain ⟨b, rest, rfl⟩ := List.exists_cons_of_ne_nil hne
  rw [ofSetting, loadVariable, Option.filter, if_pos htext]
  rfl

theorem ofSetting_of_withheld {f : Failure} (h : Withheld name setting f) :
    ofSetting name setting = .error f := by
  cases h with
  | unset => rfl
  | undecodable htext =>
    rw [ofSetting, loadVariable, Option.filter, if_neg (by simp [htext])]
    rfl
  | blank => rfl

theorem ofSetting_eq_ok_iff {bs : Bytes} : ofSetting name setting = .ok bs ↔ Gives setting bs := by
  refine ⟨fun h => ?_, ofSetting_of_gives⟩
  rcases gives_or_withheld name setting with ⟨cs, hcs⟩ | ⟨f, hf⟩
  · cases (ofSetting_of_gives hcs).symm.trans h
    exact hcs
  · cases (ofSetting_of_withheld hf).symm.trans h

theorem ofSetting_eq_error_iff {f : Failure} :
    ofSetting name setting = .error f ↔ Withheld name setting f := by
  refine ⟨fun h => ?_, ofSetting_of_withheld⟩
  rcases gives_or_withheld name setting with ⟨cs, hcs⟩ | ⟨g, hg⟩
  · cases (ofSetting_of_gives hcs).symm.trans h
  · cases (ofSetting_of_withheld hg).symm.trans h
    exact hg

end Password.Secret

namespace Server

open Password (Secret)
open Signing (KeyMaterial Repository)

def Context.holding (c : Config.Settings) (environment : List (String × Bytes)) (bs : Bytes)
    (m : KeyMaterial) : Context where
  hasher := .new .current c.password.maxConcurrentHashes
  secret := { Secret.ofVariable c.password.secretEnv with cell := ⟨some bs, 1⟩ }
  keys := { Repository.ofSettings c.signing environment with cell := ⟨some m, 1⟩ }
  tokens := .new c.signing.issuer c.signing.audience c.signing.tokenTtlMinutes
  sessions := .ofSettings c.session

def loadKey (c : Config.Signing) (environment : List (String × Bytes)) (disk : Files.Disk) :
    Except Failure KeyMaterial :=
  Signing.loadMaterial disk c.keyDir (Repository.passphraseOf (environment.lookup c.passphraseEnv))

theorem ofSettings_eq {c : Config.Settings} (hvalid : c.validate = .ok ())
    (environment : List (String × Bytes)) (disk : Files.Disk) :
    (Context.ofSettings c environment disk).outcome = (do
      let bs ← Secret.ofSetting c.password.secretEnv (environment.lookup c.password.secretEnv)
      let m ← loadKey c.signing environment disk
      return Context.holding c environment bs m) := by
  unfold Context.ofSettings Secret.ofSetting loadKey Context.holding
  dsimp only
  rw [Noted.outcome_note_bind, assemble_outcome hvalid, Secret.expose_unloaded rfl,
    Repository.material_unloaded rfl, ← Secret.toOption_accept ("env:" ++ c.password.secretEnv)]
  dsimp only [Secret.ofVariable, Secret.new, Repository.ofSettings, Repository.new, Once.empty]
  cases Secret.accept ("env:" ++ c.password.secretEnv) _ with
  | error f => rfl
  | ok bs => cases Signing.loadMaterial disk c.signing.keyDir _ <;> rfl

variable {w : Surroundings} {health : Cache.Manager → Except Failure Bool}

def startup (w : Surroundings) (health : Cache.Manager → Except Failure Bool) :
    Except Failure Service := do
  let (_, started) ← boot w health
  started.outcome

structure Accepted (w : Surroundings) (health : Cache.Manager → Except Failure Bool)
    (c : Config.Settings) (cache : Cache.Manager) (bs : Bytes) (m : KeyMaterial) : Prop where
  settings_eq : w.settings = .ok c
  valid : c.validate = .ok ()
  cache_eq : Cache.Manager.new c.cache w.attempt = .ok cache
  healthy : health cache = .ok true
  secret : Secret.Gives (w.environment.lookup c.password.secretEnv) bs
  key : ∃ pem, Signing.HoldsKeyFile w.disk c.signing.keyDir m.source pem ∧
    Rsa.decodePrivateKey pem
      (Repository.passphraseOf (w.environment.lookup c.signing.passphraseEnv)) = .ok m.key

/-- The first check of a start that is not passed, by its failure. -/
inductive FailsFirst (w : Surroundings) (health : Cache.Manager → Except Failure Bool) :
    Failure → Prop where
  | settings {f : Failure} (hc : w.settings = .error f) : FailsFirst w health f
  | cache {c : Config.Settings} {f : Failure} (hc : w.settings = .ok c)
    (hcache : Cache.Manager.new c.cache w.attempt = .error f) : FailsFirst w health f
  | health {c : Config.Settings} {cache : Cache.Manager} {f : Failure} (hc : w.settings = .ok c)
    (hcache : Cache.Manager.new c.cache w.attempt = .ok cache) (hhealth : health cache = .error f) :
    FailsFirst w health f
  | unwell {c : Config.Settings} {cache : Cache.Manager} (hc : w.settings = .ok c)
    (hcache : Cache.Manager.new c.cache w.attempt = .ok cache)
    (hhealth : health cache = .ok false) : FailsFirst w health .cacheUnhealthy
  | secret {c : Config.Settings} {cache : Cache.Manager} {f : Failure} (hc : w.settings = .ok c)
    (hcache : Cache.Manager.new c.cache w.attempt = .ok cache) (hhealth : health cache = .ok true)
    (hsecret : Secret.Withheld c.password.secretEnv (w.environment.lookup c.password.secretEnv) f) :
    FailsFirst w health f
  | key {c : Config.Settings} {cache : Cache.Manager} {bs : Bytes} {f : Failure}
    (hc : w.settings = .ok c) (hcache : Cache.Manager.new c.cache w.attempt = .ok cache)
    (hhealth : health cache = .ok true)
    (hsecret : Secret.Gives (w.environment.lookup c.password.secretEnv) bs)
    (hkey : loadKey c.signing w.environment w.disk = .error f) : FailsFirst w health f

theorem checkHealth_eq_ok_iff {answer : Except Failure Bool} {u : Unit} :
    checkHealth answer = .ok u ↔ answer = .ok true := by
  match answer with
  | .ok true => simp [checkHealth, Bind.bind, Except.bind, Pure.pure, Except.pure]
  | .ok false => simp [checkHealth, Bind.bind, Except.bind, throw, throwThe, MonadExceptOf.throw]
  | .error f => simp [checkHealth, Bind.bind, Except.bind]

theorem checkHealth_eq_error_iff {answer : Except Failure Bool} {f : Failure} :
    checkHealth answer = .error f ↔
      answer = .error f ∨ answer = .ok false ∧ f = .cacheUnhealthy := by
  match answer with
  | .ok true => simp [checkHealth, Bind.bind, Except.bind, Pure.pure, Except.pure]
  | .ok false =>
    simp [checkHealth, Bind.bind, Except.bind, throw, throwThe, MonadExceptOf.throw, eq_comm]
  | .error g => simp [checkHealth, Bind.bind, Except.bind]

theorem loadKey_eq_ok_iff {c : Config.Signing} {environment : List (String × Bytes)}
    {disk : Files.Disk} {m : KeyMaterial} : loadKey c environment disk = .ok m ↔
      (∃ pem, Signing.HoldsKeyFile disk c.keyDir m.source pem ∧ Rsa.decodePrivateKey pem
        (Repository.passphraseOf (environment.lookup c.passphraseEnv)) = .ok m.key) ∧
      Nat.gcd m.key.p m.key.q = 1 := by
  rw [loadKey, Signing.loadMaterial_eq_ok_iff]
  simp only [Rsa.PrivateKey.encodable, beq_iff_eq]
  constructor
  · rintro ⟨pem, hfile, hkey, hcoprime⟩
    exact ⟨⟨pem, hfile, hkey⟩, hcoprime⟩
  · rintro ⟨⟨pem, hfile, hkey⟩, hcoprime⟩
    exact ⟨pem, hfile, hkey, hcoprime⟩

theorem valid_of_settings {c : Config.Settings} (hc : w.settings = .ok c) :
    c.validate = .ok () := by
  obtain ⟨layers, -, -, hvalid⟩ := Config.load_eq_ok_iff.mp hc
  exact hvalid

theorem startup_of_settings {c : Config.Settings} (hc : w.settings = .ok c) :
    startup w health = (do
      let cache ← Cache.Manager.new c.cache w.attempt
      checkHealth (health cache)
      let bs ← Secret.ofSetting c.password.secretEnv (w.environment.lookup c.password.secretEnv)
      let m ← loadKey c.signing w.environment w.disk
      return (⟨c, cache, .holding c w.environment bs m⟩ : Service)) := by
  have hboot : startup w health = (start c w health).outcome := by
    unfold startup boot
    rw [hc]
    rfl
  rw [hboot, start_outcome, ofSettings_eq (valid_of_settings hc)]
  simp only [bind_assoc, pure_bind]

theorem startup_eq_ok_iff {service : Service} :
    startup w health = .ok service ↔ ∃ c cache bs m, Accepted w health c cache bs m ∧
      Nat.gcd m.key.p m.key.q = 1 ∧ service = ⟨c, cache, .holding c w.environment bs m⟩ := by
  constructor
  · intro h
    obtain ⟨⟨c, started⟩, hboot, -⟩ := bind_eq_ok_iff.mp h
    obtain ⟨c', hc, -⟩ := bind_eq_ok_iff.mp hboot
    rw [startup_of_settings hc] at h
    obtain ⟨cache, hcache, h⟩ := bind_eq_ok_iff.mp h
    obtain ⟨u, hhealth, h⟩ := bind_eq_ok_iff.mp h
    obtain ⟨bs, hsecret, h⟩ := bind_eq_ok_iff.mp h
    obtain ⟨m, hkey, h⟩ := bind_eq_ok_iff.mp h
    cases h
    obtain ⟨hfile, hcoprime⟩ := loadKey_eq_ok_iff.mp hkey
    exact ⟨c', cache, bs, m, ⟨hc, valid_of_settings hc, hcache,
      checkHealth_eq_ok_iff.mp hhealth, Secret.ofSetting_eq_ok_iff.mp hsecret, hfile⟩, hcoprime,
      rfl⟩
  · rintro ⟨c, cache, bs, m, h, hcoprime, rfl⟩
    rw [startup_of_settings h.settings_eq]
    refine bind_eq_ok_iff.mpr ⟨cache, h.cache_eq, ?_⟩
    refine bind_eq_ok_iff.mpr ⟨(), checkHealth_eq_ok_iff.mpr h.healthy, ?_⟩
    refine bind_eq_ok_iff.mpr ⟨bs, Secret.ofSetting_eq_ok_iff.mpr h.secret, ?_⟩
    exact bind_eq_ok_iff.mpr ⟨m, loadKey_eq_ok_iff.mpr ⟨h.key, hcoprime⟩, rfl⟩

theorem failsFirst_of_startup {f : Failure} (h : startup w health = .error f) :
    FailsFirst w health f := by
  cases hc : w.settings with
  | error g =>
    have hstartup : startup w health = .error g := by rw [startup, boot, hc]; rfl
    cases hstartup.symm.trans h
    exact .settings hc
  | ok c =>
    rw [startup_of_settings hc] at h
    rcases bind_eq_error_iff.mp h with hcache | ⟨cache, hcache, h⟩
    · exact .cache hc hcache
    rcases bind_eq_error_iff.mp h with hhealth | ⟨u, hhealth, h⟩
    · rcases checkHealth_eq_error_iff.mp hhealth with hfailed | ⟨hunwell, rfl⟩
      · exact .health hc hcache hfailed
      · exact .unwell hc hcache hunwell
    have hwell := checkHealth_eq_ok_iff.mp hhealth
    rcases bind_eq_error_iff.mp h with hsecret | ⟨bs, hsecret, h⟩
    · exact .secret hc hcache hwell (Secret.ofSetting_eq_error_iff.mp hsecret)
    have hgives := Secret.ofSetting_eq_ok_iff.mp hsecret
    rcases bind_eq_error_iff.mp h with hkey | ⟨m, hkey, h⟩
    · exact .key hc hcache hwell hgives hkey
    · cases h

theorem startup_of_failsFirst {f : Failure} (h : FailsFirst w health f) :
    startup w health = .error f := by
  cases h with
  | settings hc =>
    rw [startup, boot, hc]
    rfl
  | cache hc hcache =>
    rw [startup_of_settings hc, hcache]
    rfl
  | health hc hcache hhealth =>
    rw [startup_of_settings hc]
    refine bind_eq_error_iff.mpr (.inr ⟨_, hcache, ?_⟩)
    exact bind_eq_error_iff.mpr (.inl (checkHealth_eq_error_iff.mpr (.inl hhealth)))
  | unwell hc hcache hhealth =>
    rw [startup_of_settings hc]
    refine bind_eq_error_iff.mpr (.inr ⟨_, hcache, ?_⟩)
    exact bind_eq_error_iff.mpr (.inl (checkHealth_eq_error_iff.mpr (.inr ⟨hhealth, rfl⟩)))
  | secret hc hcache hhealth hsecret =>
    rw [startup_of_settings hc]
    refine bind_eq_error_iff.mpr (.inr ⟨_, hcache, ?_⟩)
    refine bind_eq_error_iff.mpr (.inr ⟨(), checkHealth_eq_ok_iff.mpr hhealth, ?_⟩)
    exact bind_eq_error_iff.mpr (.inl (Secret.ofSetting_of_withheld hsecret))
  | key hc hcache hhealth hsecret hkey =>
    rw [startup_of_settings hc]
    refine bind_eq_error_iff.mpr (.inr ⟨_, hcache, ?_⟩)
    refine bind_eq_error_iff.mpr (.inr ⟨(), checkHealth_eq_ok_iff.mpr hhealth, ?_⟩)
    refine bind_eq_error_iff.mpr (.inr ⟨_, Secret.ofSetting_of_gives hsecret, ?_⟩)
    exact bind_eq_error_iff.mpr (.inl hkey)

inductive Task where
  | hash (salt : Bytes) (password : String)
  | verify (stored candidate : String)
  | issue (owner jti : Uuid) (now : Time.Instant)
  | jwks

def Task.Answer : Task → Type
  | hash .. => Except Failure String
  | verify .. => Password.Verification
  | issue .. => Except Failure Token.Issued
  | jwks => Except Failure Signing.Jwks

namespace Context

/-- The answer to a task, with the credentials as the context comes by them when it needs them:
the secret by the load `load`, the key from `disk`. -/
def perform (context : Context) (load : Except Failure Bytes) (disk : Files.Disk) :
    (task : Task) → task.Answer × Context
  | .hash salt password =>
    let (key, secret) := context.secret.expose load
    (context.hasher.hash key salt password, { context with secret := secret })
  | .verify stored candidate =>
    let (key, secret) := context.secret.expose load
    (context.hasher.verify key stored candidate, { context with secret := secret })
  | .issue owner jti now =>
    let (credential, keys) := context.keys.credential disk
    (credential >>= fun c => context.tokens.issue c owner jti now, { context with keys := keys })
  | .jwks =>
    let (answer, keys) := context.keys.jwks disk
    (answer, { context with keys := keys })

def performWith (context : Context) (bs : Bytes) (m : KeyMaterial) : (task : Task) → task.Answer
  | .hash salt password => context.hasher.hash (.ok bs) salt password
  | .verify stored candidate => context.hasher.verify (.ok bs) stored candidate
  | .issue owner jti now => context.tokens.issue m.credential owner jti now
  | .jwks => .ok (.single m.jwk)

theorem perform_holding {context : Context} {bs : Bytes} {m : KeyMaterial}
    (hsecret : context.secret.cell.value = some bs) (hkeys : context.keys.cell.value = some m)
    (load : Except Failure Bytes) (disk : Files.Disk) (task : Task) :
    context.perform load disk task = (context.performWith bs m task, context) := by
  cases task with
  | hash salt password => rw [perform, Secret.expose_of_kept hsecret]; rfl
  | verify stored candidate => rw [perform, Secret.expose_of_kept hsecret]; rfl
  | issue owner jti now =>
    rw [perform, Repository.credential, Repository.material_of_kept hkeys]; rfl
  | jwks =>
    rw [perform, Repository.jwks, Repository.publicJwk, Repository.material_of_kept hkeys]; rfl

end Context

structure Call where
  environment : List (String × Bytes)
  disk : Files.Disk
  task : Task

def Service.performAll (service : Service) :
    List Call → List ((task : Task) × task.Answer) × Service
  | [] => ([], service)
  | call :: calls =>
    let name := service.settings.password.secretEnv
    let (answer, context) := service.context.perform
      (Secret.loadVariable name (call.environment.lookup name)) call.disk call.task
    let (answers, service) := performAll { service with context := context } calls
    (⟨call.task, answer⟩ :: answers, service)

theorem Service.performAll_holding {service : Service} {bs : Bytes} {m : KeyMaterial}
    (hsecret : service.context.secret.cell.value = some bs)
    (hkeys : service.context.keys.cell.value = some m) (calls : List Call) :
    service.performAll calls =
      (calls.map fun call => ⟨call.task, service.context.performWith bs m call.task⟩, service) := by
  induction calls with
  | nil => rfl
  | cons call calls ih =>
    simp only [performAll, Context.perform_holding hsecret hkeys, ih, List.map_cons]

/-- A start comes to a service exactly if everything is found and accepted and the factors of the
key have no common divisor; else it comes to the failure of the first check that is not passed, of
settings, cache, health, secret and key. A service that has started holds the secret and the key
that were accepted, and answers with them whatever becomes of variables and files. -/
theorem startup_checks (w : Surroundings) (health : Cache.Manager → Except Failure Bool) :
    ((∃ service, startup w health = .ok service) ↔
      ∃ c cache bs m, Accepted w health c cache bs m ∧ Nat.gcd m.key.p m.key.q = 1) ∧
    (∀ f, startup w health = .error f ↔ FailsFirst w health f) ∧
    ∀ service, startup w health = .ok service →
      ∃ bs m, Accepted w health service.settings service.cache bs m ∧
        service.context.secret.isLoaded = true ∧ service.context.keys.isLoaded = true ∧
        ∀ calls, service.performAll calls =
          (calls.map fun call => ⟨call.task, service.context.performWith bs m call.task⟩,
            service) := by
  refine ⟨⟨?_, ?_⟩, fun f => ⟨failsFirst_of_startup, startup_of_failsFirst⟩, ?_⟩
  · rintro ⟨service, h⟩
    obtain ⟨c, cache, bs, m, haccepted, hcoprime, -⟩ := startup_eq_ok_iff.mp h
    exact ⟨c, cache, bs, m, haccepted, hcoprime⟩
  · rintro ⟨c, cache, bs, m, haccepted, hcoprime⟩
    exact ⟨_, startup_eq_ok_iff.mpr ⟨c, cache, bs, m, haccepted, hcoprime, rfl⟩⟩
  · intro service h
    obtain ⟨c, cache, bs, m, haccepted, -, rfl⟩ := startup_eq_ok_iff.mp h
    exact ⟨bs, m, haccepted, rfl, rfl, Service.performAll_holding rfl rfl⟩

def plainly (pem : String) : Surroundings where
  formats := Config.Format.known
  disk := Signing.keyDisk pem
  environment := [("WARDEN_HASH_SECRET", [0x73])]
  logFilter := none
  attempt := .connected

theorem layer?_hashSecret :
    Config.Environment.layer? [("WARDEN_HASH_SECRET", [0x73])] = some [] := by
  have hname : Config.Environment.name? "WARDEN_HASH_SECRET" = none := by decide +kernel
  simp [Config.Environment.layer?, hname]

theorem fileLayer?_missing {formats : List Config.Format} {disk : Files.Disk} {path : String}
    (h : disk path = .missing) (hendings : ∀ f ∈ formats, ∀ ending ∈ f.endings,
      disk (Config.withEnding path ending) = .missing) :
    Config.fileLayer? formats disk path = some [] := by
  have hnone : Config.findFile formats disk path = none := by
    rw [Config.findFile, h]
    refine List.findSome?_eq_none_iff.mpr fun f hf => List.findSome?_eq_none_iff.mpr ?_
    intro ending hending
    rw [hendings f hf ending hending]
  rw [Config.fileLayer?, hnone]

theorem keyDisk_missing (pem : String) {path : String} (h : path ≠ "JWK")
    (hfile : path ≠ "JWK/signing.pem") : Signing.keyDisk pem path = .missing := by
  unfold Signing.keyDisk
  split
  · exact absurd rfl h
  · exact absurd rfl hfile
  · rfl

theorem settings_plainly (pem : String) : (plainly pem).settings = .ok {} := by
  have habsent : ∀ path ∈ ["config/default", "config/" ++ "development"],
      (path ≠ "JWK" ∧ path ≠ "JWK/signing.pem") ∧
        ∀ f ∈ Config.Format.known, ∀ ending ∈ f.endings,
          Config.withEnding path ending ≠ "JWK" ∧
            Config.withEnding path ending ≠ "JWK/signing.pem" := by
    decide +kernel
  have hlayer : ∀ path ∈ ["config/default", "config/" ++ "development"],
      Config.fileLayer? Config.Format.known (Signing.keyDisk pem) path = some [] := by
    intro path hpath
    obtain ⟨hplain, hended⟩ := habsent path hpath
    refine fileLayer?_missing (keyDisk_missing pem hplain.1 hplain.2) fun f hf ending hending => ?_
    obtain ⟨hdirectory, hfile⟩ := hended f hf ending hending
    exact keyDisk_missing pem hdirectory hfile
  have hlayers : Config.layers? Config.Format.known (Signing.keyDisk pem)
      [("WARDEN_HASH_SECRET", [0x73])] "development" = some [[], [], []] := by
    rw [Config.layers?, hlayer _ (by simp), hlayer _ (by simp), layer?_hashSecret]
    rfl
  change Config.load Config.Format.known (Signing.keyDisk pem) [("WARDEN_HASH_SECRET", [0x73])]
    "development" = _
  rw [Config.load, hlayers]
  rfl

theorem accepted_plainly {pem : String} {key : Rsa.PrivateKey}
    (hread : Rsa.readPlain? pem = some key) :
    Accepted (plainly pem) (fun _ => .ok true) {} (.memory (.ofSettings {})) [0x73]
      ⟨"JWK/signing.pem", key⟩ where
  settings_eq := settings_plainly pem
  valid := rfl
  cache_eq := rfl
  healthy := rfl
  secret := ⟨rfl, by decide, by decide⟩
  key := ⟨pem, Signing.holdsKeyFile_keyDisk pem, Rsa.decodePrivateKey_eq_ok_iff.mpr
    (.inl ⟨rfl, Rsa.isPlain_of_readPlain? hread, hread⟩)⟩

/-- A service starts with a key of two small factors, and holds its credentials. -/
theorem small_key_starts :
    ∃ service, startup (plainly Repository.smallPem) (fun _ => .ok true) = .ok service ∧
      service.context.secret.isLoaded = true ∧ service.context.keys.isLoaded = true := by
  obtain ⟨hstarts, -, hholds⟩ := startup_checks (plainly Repository.smallPem) fun _ => .ok true
  obtain ⟨service, hservice⟩ := hstarts.mpr
    ⟨_, _, _, _, accepted_plainly Repository.readPlain?_smallPem, by decide⟩
  obtain ⟨bs, m, -, hsecret, hkeys, -⟩ := hholds service hservice
  exact ⟨service, hservice, hsecret, hkeys⟩

def squareKey : Rsa.PrivateKey := ⟨⟨121, 3⟩, 7, 11, 11⟩

def squareDer : Bytes :=
  [0x30, 27, 2, 1, 0, 2, 1, 121, 2, 1, 3, 2, 1, 7, 2, 1, 11, 2, 1, 11, 2, 1, 7, 2, 1, 7, 2, 1, 1]

def squarePem : String := Asn1.Pem.write "RSA PRIVATE KEY" squareDer

theorem readPlain?_squarePem : Rsa.readPlain? squarePem = some squareKey :=
  Rsa.readPlain?_of_readPkcs1? (Asn1.Pem.decode?_write (by decide +kernel)) (by decide +kernel)

/-- Everything is found and accepted, yet no service starts, since the key has a factor twice. -/
theorem square_key_accepted_not_ready :
    Accepted (plainly squarePem) (fun _ => .ok true) {} (.memory (.ofSettings {})) [0x73]
      ⟨"JWK/signing.pem", squareKey⟩ ∧
    ∀ service, startup (plainly squarePem) (fun _ => .ok true) ≠ .ok service := by
  refine ⟨accepted_plainly readPlain?_squarePem, fun service h => ?_⟩
  obtain ⟨c, cache, bs, m, haccepted, hcoprime, -⟩ := startup_eq_ok_iff.mp h
  obtain rfl : ({} : Config.Settings) = c :=
    Except.ok.inj ((settings_plainly squarePem).symm.trans haccepted.settings_eq)
  obtain ⟨pem, ⟨hfile, hpem⟩, hkey⟩ := haccepted.key
  obtain ⟨hfile', hpem'⟩ := Signing.holdsKeyFile_keyDisk squarePem
  have hsource : "JWK/signing.pem" = m.source := Except.ok.inj (hfile'.symm.trans hfile)
  rw [← hsource] at hpem
  obtain rfl : squarePem = pem := Except.ok.inj (hpem'.symm.trans hpem)
  have hread := Rsa.decodePrivateKey_eq_ok_iff.mpr (.inl
    ⟨rfl, Rsa.isPlain_of_readPlain? readPlain?_squarePem, readPlain?_squarePem⟩)
  have hsquare : squareKey = m.key := Except.ok.inj (hread.symm.trans hkey)
  rw [← hsquare] at hcoprime
  exact absurd hcoprime (by decide)

end Server

end AuthCore
