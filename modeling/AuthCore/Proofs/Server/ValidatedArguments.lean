import AuthCore.Proofs.Cache.RemoteScan
import AuthCore.Proofs.Signing.KeyMode
import AuthCore.Proofs.Time.Timeline
import AuthCore.Server.Context

set_option autoImplicit false

namespace AuthCore

namespace Cache.Remote

variable {σ : Type}

theorem answer_client (server : Server σ) (r : Request) (now : Time.Instant) (s : Remote × σ) :
    ∃ handle, (answer server r now s).2.1 = { s.1 with handle := handle } := by
  obtain ⟨c, t⟩ := s
  cases r with
  | close => exact ⟨c.handle.release.2, rfl⟩
  | _ =>
    refine ⟨c.handle, ?_⟩
    simp only [answer]
    cases c.handle.acquire <;> rfl

theorem transcript_client (server : Server σ) (requests : List (Nat × Request))
    (start : Time.Instant) (s : Remote × σ) :
    ∃ handle, (Time.transcript (answer server) start requests s).2.1 =
      { s.1 with handle := handle } := by
  induction requests generalizing start s with
  | nil => exact ⟨s.1.handle, rfl⟩
  | cons request rest ih =>
    obtain ⟨handle, hstep⟩ := answer_client server request.2 (start.addNanos request.1) s
    obtain ⟨handle', hrest⟩ :=
      ih (start.addNanos request.1) (answer server request.2 (start.addNanos request.1) s).2
    exact ⟨handle', by rw [Time.transcript, hrest, hstep]⟩

theorem exchange_recorder {α : Type} (c : Remote)
    (reply : Time.Instant → Command → List Command → Outcome) (now : Time.Instant) (name : String)
    (command : Command) (read : Reply → Option α) (sent : List Command) :
    (c.exchange (recorder reply) now name command read sent).2 = sent ++ [command] := by
  unfold exchange recorder
  dsimp only
  split
  · rfl
  · rfl
  · split <;> rfl

theorem sent_setDefault (c : Remote) (reply : Time.Instant → Command → List Command → Outcome)
    (now : Time.Instant) (key : String) (value : Bytes) (sent : List Command) :
    (answer (recorder reply) (.setDefault key value) now (c, sent)).2.2 =
      if c.handle.isHeld then
        sent ++ [c.setCommand key value (c.defaultTtlSeconds * Time.nanosPerSecond)]
      else sent := by
  obtain ⟨⟨name, slot⟩, keyPrefix, timeoutMs, defaultTtlSeconds, batch⟩ := c
  cases slot with
  | held client => simp [answer, Handle.acquire, Handle.isHeld, perform, exchange_recorder]
  | released => rfl
  | poisoned => rfl

end Cache.Remote

theorem Cache.Manager.new_remote {c : Config.Cache} {attempt : Attempt} {client : Remote}
    (h : Manager.new c attempt = .ok (.remote client)) :
    client.keyPrefix = c.redis.keyPrefix ∧ client.defaultTtlSeconds = c.defaultTtlSeconds := by
  obtain ⟨provider, -, h⟩ := bind_eq_ok_iff.mp h
  cases provider with
  | memory => cases h
  | remote =>
    obtain ⟨made, hmade, h⟩ := bind_eq_ok_iff.mp h
    cases h
    unfold Remote.connect at hmade
    split at hmade
    · split at hmade <;> cases hmade
      exact ⟨rfl, rfl⟩
    · cases hmade

namespace Server

/-- The most permits that a semaphore has. -/
def permitLimit : Nat := limit64 / 8 - 1

/-- The most bytes that a buffer holds. -/
def bufferLimit : Nat := limit63 - 1

/-- The longest lifetime of an entry that a server takes, in milliseconds. -/
def expiryLimit : Nat := limit63 - 1

def defaultExpiry (c : Config.Cache) : Nat :=
  Cache.Remote.milliseconds (c.defaultTtlSeconds * Time.nanosPerSecond)

theorem defaultExpiry_eq (c : Config.Cache) :
    defaultExpiry c = max 1 (min (c.defaultTtlSeconds * 1000) (limit64 - 1)) := by
  have hms : c.defaultTtlSeconds * Time.nanosPerSecond / 1000000 = c.defaultTtlSeconds * 1000 := by
    rw [Time.nanosPerSecond]
    omega
  rw [defaultExpiry, Cache.Remote.milliseconds, hms]

theorem defaultExpiry_pos (c : Config.Cache) : 1 ≤ defaultExpiry c := Nat.le_max_left _ _

theorem defaultExpiry_le_iff {c : Config.Cache} :
    defaultExpiry c ≤ expiryLimit ↔ c.defaultTtlSeconds ≤ expiryLimit / 1000 := by
  rw [defaultExpiry_eq, expiryLimit, limit63, limit64]
  omega

theorem assemble_outcome {c : Config.Settings} (hvalid : c.validate = .ok ())
    (secret : Password.Secret) (load : Except Failure Bytes) (keys : Signing.Repository)
    (disk : Files.Disk) :
    (Context.assemble c secret load keys disk).outcome = (do
      let _ ← (secret.expose load).1
      let _ ← (keys.material disk).1
      return {
        hasher := .new .current c.password.maxConcurrentHashes
        secret := (secret.expose load).2
        keys := (keys.material disk).2
        tokens := .new c.signing.issuer c.signing.audience c.signing.tokenTtlMinutes
        sessions := .ofSettings c.session }) := by
  unfold Context.assemble
  simp only [Noted.outcome_bind, Noted.outcome_quiet, Noted.outcome_pure, loadSecret_outcome,
    loadKeys_outcome, hvalid]
  cases (secret.expose load).1 <;> cases (keys.material disk).1 <;> rfl

theorem loadVariable_kind {name : String} {setting : Option Bytes} {f : Failure}
    (h : Password.Secret.loadVariable name setting = .error f) : f.kind = .credential := by
  unfold Password.Secret.loadVariable at h
  split at h <;> cases h
  rfl

theorem expose_kind {name : String} {setting : Option Bytes} {f : Failure}
    (h : ((Password.Secret.ofVariable name).expose
      (Password.Secret.loadVariable name setting)).1 = .error f) : f.kind = .credential := by
  have hfirst (load : Except Failure Bytes) :
      ((Password.Secret.ofVariable name).expose load).1 =
        Password.Secret.accept ("env:" ++ name) load := by
    simp only [Password.Secret.expose, Password.Secret.ofVariable, Password.Secret.new, Once.get,
      Once.empty]
    cases Password.Secret.accept ("env:" ++ name) load <;> rfl
  rw [hfirst, Password.Secret.accept.eq_def] at h
  split at h
  · cases h
    rfl
  · exact loadVariable_kind h

theorem ofSettings_outcome {c : Config.Settings} (hvalid : c.validate = .ok ())
    (environment : List (String × Bytes)) (disk : Files.Disk) :
    (∃ f, (Context.ofSettings c environment disk).outcome = .error f ∧ f.kind = .credential) ∨
    ∃ secret keys, (Context.ofSettings c environment disk).outcome = .ok {
      hasher := .new .current c.password.maxConcurrentHashes
      secret := secret
      keys := keys
      tokens := .new c.signing.issuer c.signing.audience c.signing.tokenTtlMinutes
      sessions := .ofSettings c.session } := by
  unfold Context.ofSettings
  dsimp only
  rw [Noted.outcome_note_bind, assemble_outcome hvalid]
  generalize hload : Password.Secret.loadVariable c.password.secretEnv
    (environment.lookup c.password.secretEnv) = load
  cases hsecret : ((Password.Secret.ofVariable c.password.secretEnv).expose load).1 with
  | error f => exact .inl ⟨f, rfl, expose_kind (hload ▸ hsecret)⟩
  | ok bs =>
    cases hkey : ((Signing.Repository.ofSettings c.signing environment).material disk).1 with
    | error f =>
      rw [Signing.Repository.fresh_material rfl] at hkey
      exact .inl ⟨f, rfl, Signing.loadMaterial_kind hkey⟩
    | ok m => exact .inr ⟨_, _, rfl⟩

/-- Each number is one that its callee takes: a semaphore its permits, a buffer its bytes, and the
server the lifetime of an entry. -/
structure InRange (permits nonceBytes expiry : Nat) : Prop where
  permits_pos : 1 ≤ permits
  permits_le : permits ≤ permitLimit
  nonceBytes_le : nonceBytes ≤ bufferLimit
  expiry_pos : 1 ≤ expiry
  expiry_le : expiry ≤ expiryLimit

/-- What a service passes on whose settings are valid. A callee that does not take its number apart,
nothing but credentials keeps its context from being built; its tokens live as long as they are set
to, its session keys and its commands are made from the numbers of the settings, and all callees
take these exactly for settings that keep to three upper bounds, which no rule states. -/
theorem validated_arguments {c : Config.Settings} (hvalid : c.validate = .ok ())
    (environment : List (String × Bytes)) (disk : Files.Disk) :
    ((∃ f, (Context.ofSettings c environment disk).outcome = .error f ∧ f.kind = .credential) ∨
      ∃ context, (Context.ofSettings c environment disk).outcome = .ok context ∧
        context.hasher.slots = c.password.maxConcurrentHashes ∧
        context.tokens.lifetime = c.signing.tokenTtlMinutes ∧
        ∀ random owner, Session.Key.generate random context.sessions.keyPrefix owner
            context.sessions.nonceBytes =
          .ok ⟨Session.Key.compose c.session.keyPrefix owner
            (Text.Base64.encodeUrl (random c.session.nonceBytes)), owner⟩) ∧
    (∀ attempt client, Cache.Manager.new c.cache attempt = .ok (.remote client) →
      ∀ reply requests start now key value,
        let s := (Time.transcript (Cache.Remote.answer (Cache.Remote.recorder reply)) start
          requests (client, [])).2
        (Cache.Remote.answer (Cache.Remote.recorder reply) (.setDefault key value) now s).2.2 =
          if s.1.handle.isHeld then
            s.2 ++ [[Cache.Remote.arg "SET", Cache.Remote.arg (c.cache.redis.keyPrefix ++ key),
              value, Cache.Remote.arg "PX", Cache.Remote.number (defaultExpiry c.cache)]]
          else s.2) ∧
    (InRange c.password.maxConcurrentHashes c.session.nonceBytes (defaultExpiry c.cache) ↔
      c.password.maxConcurrentHashes ≤ permitLimit ∧ c.session.nonceBytes ≤ bufferLimit ∧
        c.cache.defaultTtlSeconds ≤ expiryLimit / 1000) := by
  obtain ⟨hnonce, -, -, hleast, hmost, hslots, -⟩ :=
    (Config.Settings.validate_eq_ok_iff c).mp hvalid
  refine ⟨?_, ?_, fun h => ⟨h.permits_le, h.nonceBytes_le, defaultExpiry_le_iff.mp h.expiry_le⟩,
    fun ⟨hpermits, hbuffer, httl⟩ => ⟨Nat.pos_of_ne_zero hslots, hpermits, hbuffer,
      defaultExpiry_pos c.cache, defaultExpiry_le_iff.mpr httl⟩⟩
  · refine (ofSettings_outcome hvalid environment disk).imp_right fun ⟨secret, keys, h⟩ =>
      ⟨_, h, ?_, ?_, fun random owner => ?_⟩
    · exact Nat.max_eq_right (Nat.pos_of_ne_zero hslots)
    · dsimp only [Token.Issuer.new]
      omega
    · have hlong : ¬ c.session.nonceBytes < Session.Key.leastNonce := Nat.not_lt_of_le hnonce
      simp [Session.Key.generate, Session.Store.ofSettings, hlong]
  · intro attempt client hclient reply requests start now key value s
    obtain ⟨hkeyPrefix, httl⟩ := Cache.Manager.new_remote hclient
    obtain ⟨handle, hs⟩ : ∃ handle, s.1 = { client with handle := handle } :=
      Cache.Remote.transcript_client (Cache.Remote.recorder reply) requests start (client, [])
    clear_value s
    obtain ⟨client', sent⟩ := s
    obtain rfl : client' = { client with handle := handle } := hs
    rw [Cache.Remote.sent_setDefault]
    simp only [Cache.Remote.setCommand, Cache.Remote.prefixed, hkeyPrefix, httl, defaultExpiry]

def longLived : Config.Settings :=
  { cache := { provider := "redis", defaultTtlSeconds := limit64 - 1 } }

theorem longLived_expiry_refused : longLived.validate = .ok () ∧
    ∃ client, Cache.Manager.new longLived.cache .connected = .ok (.remote client) ∧
      (Cache.Remote.answer (Cache.Remote.recorder fun _ _ _ => .silence) (.setDefault "k" [0x76])
        ⟨0, 0⟩ (client, [])).2.2 =
          [["SET", "k", "v", "PX", "18446744073709551615"].map Cache.Remote.arg] ∧
      ¬ InRange longLived.password.maxConcurrentHashes longLived.session.nonceBytes
        (defaultExpiry longLived.cache) := by
  have hvalid : longLived.validate = .ok () := rfl
  obtain ⟨-, hsent, hrange⟩ := validated_arguments hvalid [] fun _ => .missing
  have hnew : Cache.Manager.new longLived.cache .connected =
      .ok (.remote ⟨.new "redis" (), "", 2000, limit64 - 1, 250⟩) := rfl
  refine ⟨hvalid, _, hnew, ?_, fun h => absurd (hrange.mp h).2.2 (by decide)⟩
  have h := hsent _ _ hnew (fun _ _ _ => .silence) [] ⟨0, 0⟩ ⟨0, 0⟩ "k" [0x76]
  exact h.trans (by decide)

end Server

end AuthCore
