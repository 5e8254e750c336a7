import ChronoShare.Ccnx.Verifier
import ChronoShare.Support.Chain

/-!
# Whether a verification returns

A call goes on with the key object of the publisher, and comes back from the
meta object at once, since the certificate of their common publisher is in the
cache by then.  So it returns exactly if the chain of key objects ends, and
among finitely many published objects a chain that does not end comes back to
an object.
-/

namespace ChronoShare

namespace Ccnx

namespace Verifier

variable (platform : Platform) (published : Published) (now : Int)

/-- The key object that a call goes on with. -/
def signer (cache : CertCache) (pco : ContentObject) : Option ContentObject :=
  match cache.usable now pco.publisherPublicKeyDigest with
  | some _ => none
  | none =>
      match findCert platform published now pco with
      | .error _ => none
      | .ok found =>
          if found.cert.keyHash = rootKeyDigest then none
          else some found.keyObject

/-- The call returns, or an exception leaves it. -/
def Terminates (cache : CertCache) (pco : ContentObject) : Prop :=
  ∃ fuel, verify platform published now fuel cache pco ≠ none

variable {platform published now} {cache target : CertCache}
  {pco keyObject : ContentObject} {verdict : Verdict} {found : Found}

theorem terminates_iff_verified :
    Terminates platform published now cache pco ↔ ∃ verdict target,
      Verified platform published now cache pco verdict target := by
  constructor
  · rintro ⟨fuel, returns⟩
    obtain ⟨⟨verdict, target⟩, returned⟩ :=
      Option.ne_none_iff_exists'.mp returns
    exact ⟨verdict, target, verified_iff.mpr ⟨fuel, returned⟩⟩
  · rintro ⟨verdict, target, verified⟩
    obtain ⟨fuel, returned⟩ := verified_iff.mp verified
    refine ⟨fuel, ?_⟩
    rw [returned]
    exact Option.some_ne_none _

theorem signer_eq_some_iff :
    signer platform published now cache pco = some keyObject ↔
      cache.usable now pco.publisherPublicKeyDigest = none ∧
        ∃ found, findCert platform published now pco = .ok found ∧
          found.cert.keyHash ≠ rootKeyDigest ∧ found.keyObject = keyObject := by
  rw [signer]
  cases known : cache.usable now pco.publisherPublicKeyDigest with
  | some cert => simp
  | none =>
      cases checked : findCert platform published now pco with
      | error reason => simp
      | ok found => simp

theorem signer_congr (same : cache.usable now = target.usable now) :
    signer platform published now cache =
      signer platform published now target := by
  funext pco
  rw [signer, signer, same]

theorem signer_published
    (following : signer platform published now cache pco = some keyObject) :
    keyObject ∈ published.objects := by
  obtain ⟨-, found, checked, -, rfl⟩ := signer_eq_some_iff.mp following
  exact (findCert_ok checked).published

theorem Verified.ends
    (verified : Verified platform published now cache pco verdict target) :
    Chain.Ends (signer platform published now cache) pco := by
  induction verified with
  | cached known =>
      apply Chain.Ends.last
      rw [signer, known]
  | failed unknown checked =>
      apply Chain.Ends.last
      rw [signer, unknown]
      simp only [checked]
  | root unknown checked isRoot =>
      apply Chain.Ends.last
      rw [signer, unknown]
      simp only [checked, if_pos isRoot]
  | keyRejected unknown checked other _ ends =>
      rw [signer_congr (CertCache.usable_erase unknown)] at ends
      exact .step (signer_eq_some_iff.mpr
        ⟨unknown, _, checked, other, rfl⟩) ends
  | metaRejected unknown checked other _ _ ends _ =>
      rw [signer_congr (CertCache.usable_erase unknown)] at ends
      exact .step (signer_eq_some_iff.mpr
        ⟨unknown, _, checked, other, rfl⟩) ends
  | link unknown checked other _ _ ends _ =>
      rw [signer_congr (CertCache.usable_erase unknown)] at ends
      exact .step (signer_eq_some_iff.mpr
        ⟨unknown, _, checked, other, rfl⟩) ends

theorem verified_of_key
    (unknown : cache.usable now pco.publisherPublicKeyDigest = none)
    (checked : findCert platform published now pco = .ok found)
    (other : found.cert.keyHash ≠ rootKeyDigest)
    (key : Verified platform published now
      (cache.erase pco.publisherPublicKeyDigest) found.keyObject
        verdict target) :
    ∃ verdict target,
      Verified platform published now cache pco verdict target := by
  cases verdict with
  | rejected reason => exact ⟨_, _, .keyRejected unknown checked other key⟩
  | accepted =>
      obtain ⟨cert, known⟩ := key.entries.2 rfl
      rw [(findCert_ok checked).samePublisher] at known
      have metaVerified : Verified platform published now target
          found.metaObject (signed platform found.metaObject cert) target :=
        .cached known
      cases outcome : signed platform found.metaObject cert with
      | accepted =>
          rw [outcome] at metaVerified
          exact ⟨_, _, .link unknown checked other key metaVerified⟩
      | rejected reason =>
          rw [outcome] at metaVerified
          exact ⟨_, _, .metaRejected unknown checked other key metaVerified⟩

theorem verified_of_ends
    (ends : Chain.Ends (signer platform published now cache) pco) :
    ∃ verdict target,
      Verified platform published now cache pco verdict target := by
  generalize following : signer platform published now cache = next at ends
  induction ends generalizing cache with
  | @last pco none =>
      subst following
      cases known : cache.usable now pco.publisherPublicKeyDigest with
      | some cert => exact ⟨_, _, .cached known⟩
      | none =>
          cases checked : findCert platform published now pco with
          | error reason => exact ⟨_, _, .failed known checked⟩
          | ok found =>
              by_cases isRoot : found.cert.keyHash = rootKeyDigest
              · exact ⟨_, _, .root known checked isRoot⟩
              · have further := signer_eq_some_iff.mpr
                  ⟨known, found, checked, isRoot, rfl⟩
                rw [none] at further
                cases further
  | @step pco keyObject first _ induction =>
      subst following
      obtain ⟨unknown, found, checked, other, rfl⟩ :=
        signer_eq_some_iff.mp first
      obtain ⟨verdict, target, key⟩ :=
        induction (signer_congr (CertCache.usable_erase unknown))
      exact verified_of_key unknown checked other key

/-- A verification returns exactly if the key objects of the signers do not
come back to one of them. -/
theorem terminates_iff_not_loops (platform : Platform) (published : Published)
    (now : Int) (cache : CertCache) (pco : ContentObject) :
    Terminates platform published now cache pco ↔
      ¬ Chain.Loops (signer platform published now cache) pco := by
  have finite : ∀ object keyObject,
      signer platform published now cache object = some keyObject →
        keyObject ∈ published.objects := fun _ _ => signer_published
  rw [terminates_iff_verified, ← Chain.ends_iff_not_loops finite]
  exact ⟨fun ⟨_, _, verified⟩ => verified.ends, verified_of_ends⟩

/-- The digest of the byte `02`. -/
def alexDigest : Hash :=
  [0xDB, 0xC1, 0xB4, 0xC9, 0x00, 0xFF, 0xE4, 0x8D, 0x57, 0x5B, 0x5D, 0xA5,
    0xC6, 0x38, 0x04, 0x01, 0x25, 0xF6, 0x5D, 0xB0, 0xFE, 0x3E, 0x24, 0x49,
    0x4B, 0x76, 0xEA, 0x98, 0x64, 0x57, 0xD9, 0x86]

/-- The key `/a/k`. -/
def alexKeyName : Name := ⟨[[0x61], [0x6B]]⟩

def alexKey : ContentObject :=
  ⟨alexKeyName, .key, alexKeyName, alexDigest, [2], []⟩

/-- The object `/a/info/k`. -/
def alexMeta : ContentObject :=
  ⟨⟨[[0x61], info, [0x6B]]⟩, .data, alexKeyName, alexDigest, [], []⟩

def alexPlatform : Platform where
  sha256 := fun _ => alexDigest
  verifySignature := fun _ _ => true
  parse := fun _ => .parsed (some [("Valid_to", some "2000000000")])
  lexicalCast := fun _ => some 2000000000

/-- The verification of the key goes on with the key, over and over. -/
theorem self_signed_not_terminates :
    ¬ ∀ platform published now cache pco,
      Terminates platform published now cache pco := by
  intro always
  obtain ⟨fuel, returns⟩ := always alexPlatform
    (.ofList [alexKey, alexMeta]) 1700000000 [] alexKey
  apply returns
  clear returns
  induction fuel with
  | zero => rfl
  | succ fuel induction =>
      rw [verify_link fuel rfl rfl (by decide)]
      exact congrArg (onAccepted · _) induction

end Verifier

end Ccnx

end ChronoShare
