import AuthCore.Config.Settings
import AuthCore.Failure
import AuthCore.Token.Lifetime

set_option autoImplicit false

namespace AuthCore.Config

def leastNonceBytes : Nat := 16

namespace Settings

def validate (s : Settings) : Except Failure Unit :=
  if s.session.nonceBytes < leastNonceBytes then
    .error (.nonceLengthRefused leastNonceBytes s.session.nonceBytes)
  else if s.session.keyPrefix.isEmpty ∨ '_' ∈ s.session.keyPrefix.toList then
    .error .keyPrefixRefused
  else if s.signing.tokenTtlMinutes < 1 ∨ Token.longestLifetime < s.signing.tokenTtlMinutes then
    .error (.tokenLifetimeRefused Token.longestLifetime s.signing.tokenTtlMinutes)
  else if s.password.maxConcurrentHashes = 0 then .error .noHashSlots
  else if s.cache.operationTimeoutMs = 0 then .error .noOperationTimeout
  else .ok ()

def Valid (s : Settings) : Prop :=
  leastNonceBytes ≤ s.session.nonceBytes ∧ s.session.keyPrefix.isEmpty = false ∧
    '_' ∉ s.session.keyPrefix.toList ∧ 1 ≤ s.signing.tokenTtlMinutes ∧
    s.signing.tokenTtlMinutes ≤ Token.longestLifetime ∧ s.password.maxConcurrentHashes ≠ 0 ∧
    s.cache.operationTimeoutMs ≠ 0

theorem validate_eq_ok_iff (s : Settings) : s.validate = .ok () ↔ s.Valid := by
  unfold validate Valid
  split
  · simp; omega
  · split
    · rename_i h
      rcases h with h | h <;> simp [h]
    · rename_i h
      have ⟨hempty, hmem⟩ := not_or.mp h
      split
      · simp; omega
      · split
        · rename_i hzero
          simp [hzero]
        · split
          · rename_i hzero
            simp [hzero]
          · simp [hempty, hmem]
            omega

theorem kind_of_validate {s : Settings} {f : Failure} (h : s.validate = .error f) :
    f.kind = .configuration := by
  unfold validate at h
  repeat' split at h
  all_goals cases h
  all_goals rfl

theorem map_validate_eq_ok_iff {found s : Settings} :
    (found.validate.map fun _ => found) = .ok s ↔ found = s ∧ s.validate = .ok () := by
  cases hvalid : found.validate with
  | ok u =>
    refine ⟨fun h => ?_, fun h => congrArg Except.ok h.1⟩
    cases h
    exact ⟨rfl, hvalid⟩
  | error f =>
    refine ⟨fun h => (by cases h), fun ⟨hfound, h⟩ => ?_⟩
    subst hfound
    cases hvalid.symm.trans h

theorem kind_of_map_validate {s : Settings} {f : Failure}
    (h : (s.validate.map fun _ => s) = .error f) : f.kind = .configuration := by
  cases hvalid : s.validate with
  | ok u =>
    rw [hvalid] at h
    cases h
  | error f' =>
    rw [hvalid] at h
    cases h
    exact kind_of_validate hvalid

end Settings

end AuthCore.Config
