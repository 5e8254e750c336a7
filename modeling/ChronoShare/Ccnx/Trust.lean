import ChronoShare.Ccnx.Verifier

/-!
# What the cache of certificates vouches for

An object is accepted along a chain of published certificates, which ends at
the root key or at a certificate in the cache.  The two ends are not checked
alike: of an object whose publisher is in the cache only the signature is.
-/

namespace ChronoShare

namespace Ccnx

namespace Verifier

variable (platform : Platform) (published : Published) (now : Int)

/-- The caches that calls at any times leave behind. -/
inductive Produced : CertCache → Prop where
  | empty : Produced []
  | call {cache target : CertCache} {pco : ContentObject} {now : Int}
      {fuel : Nat} {verdict : Verdict} :
      Produced cache →
      verify platform published now fuel cache pco = some (verdict, target) →
        Produced target

def Accepts (cache : CertCache) (pco : ContentObject) : Prop :=
  ∃ fuel target, verify platform published now fuel cache pco =
    some (.accepted, target)

/-- The object is signed by the key, which has a chain of published
certificates that ends at the root key. -/
inductive Certified : ContentObject → Bytes → Prop where
  | root {pco : ContentObject} {found : Found} :
      findCert platform published now pco = .ok found →
      found.cert.keyHash = rootKeyDigest →
      platform.verifySignature pco found.cert.rawKeyBytes = true →
        Certified pco found.cert.rawKeyBytes
  | link {pco : ContentObject} {found : Found} {key : Bytes} :
      findCert platform published now pco = .ok found →
      found.cert.keyHash ≠ rootKeyDigest →
      Certified found.keyObject key →
      platform.verifySignature found.metaObject key = true →
      platform.verifySignature pco found.cert.rawKeyBytes = true →
        Certified pco found.cert.rawKeyBytes

/-- The object is signed by the key, and its chain of certificates ends at an
object that is signed by a key in the cache. -/
inductive RestsOn (cache : CertCache) (last : ContentObject) :
    ContentObject → Bytes → Prop where
  | cached {cert : Cert} :
      cache.usable now last.publisherPublicKeyDigest = some cert →
      platform.verifySignature last cert.rawKeyBytes = true →
        RestsOn cache last last cert.rawKeyBytes
  | link {pco : ContentObject} {found : Found} {key : Bytes} :
      cache.usable now pco.publisherPublicKeyDigest = none →
      findCert platform published now pco = .ok found →
      found.cert.keyHash ≠ rootKeyDigest →
      RestsOn cache last found.keyObject key →
      platform.verifySignature found.metaObject key = true →
      platform.verifySignature pco found.cert.rawKeyBytes = true →
        RestsOn cache last pco found.cert.rawKeyBytes

/-- Different keys among the published contents have different digests. -/
def CollisionFree : Prop :=
  ∀ left ∈ published.objects, ∀ right ∈ published.objects,
    platform.sha256 left.content = platform.sha256 right.content →
      left.content = right.content

/-- The object is signed by the key, and the key is trusted with the cache. -/
inductive Trusted (cache : CertCache) : ContentObject → Bytes → Prop where
  | cached {pco : ContentObject} {cert : Cert} :
      cache.usable now pco.publisherPublicKeyDigest = some cert →
      platform.verifySignature pco cert.rawKeyBytes = true →
        Trusted cache pco cert.rawKeyBytes
  | root {pco : ContentObject} {found : Found} :
      cache.usable now pco.publisherPublicKeyDigest = none →
      findCert platform published now pco = .ok found →
      found.cert.keyHash = rootKeyDigest →
      platform.verifySignature pco found.cert.rawKeyBytes = true →
        Trusted cache pco found.cert.rawKeyBytes
  | link {pco : ContentObject} {found : Found} {key : Bytes} :
      cache.usable now pco.publisherPublicKeyDigest = none →
      findCert platform published now pco = .ok found →
      found.cert.keyHash ≠ rootKeyDigest →
      Trusted cache found.keyObject key →
      platform.verifySignature found.metaObject key = true →
      platform.verifySignature pco found.cert.rawKeyBytes = true →
        Trusted cache pco found.cert.rawKeyBytes

/-- The certificates in the cache are those of published keys. -/
def Made (cache : CertCache) : Prop :=
  ∀ digest cert, cache.find digest = some cert →
    digest = platform.sha256 cert.rawKeyBytes ∧
      ∃ object ∈ published.objects, object.content = cert.rawKeyBytes

variable {platform published now} {cache target : CertCache}
  {pco last : ContentObject} {verdict : Verdict} {found : Found}
  {key other : Bytes} {cert : Cert}

theorem signed_eq_accepted_iff :
    signed platform pco cert = .accepted ↔
      platform.verifySignature pco cert.rawKeyBytes = true := by
  rw [signed]
  split_ifs with verified
  · exact ⟨fun _ => verified, fun _ => rfl⟩
  · exact ⟨nofun, fun yes => absurd yes verified⟩

theorem made_erase (made : Made platform published cache) (digest : Hash) :
    Made platform published (cache.erase digest) := by
  intro other cert here
  rw [CertCache.find_erase] at here
  split_ifs at here
  exact made other cert here

theorem made_insert (made : Made platform published cache)
    (checked : found.Checked platform published now pco) :
    Made platform published (cache.insert found.cert) := by
  intro digest cert here
  rw [CertCache.find_insert] at here
  split_ifs at here with same
  · cases known : cache.find digest with
    | some before =>
        rw [known] at here
        exact made digest cert (known.trans here)
    | none =>
        rw [known] at here
        obtain rfl : found.cert = cert := Option.some.inj here
        rw [same, checked.keyHash, checked.rawKeyBytes]
        exact ⟨rfl, found.keyObject, checked.published, rfl⟩
  · exact made digest cert here

theorem Verified.made
    (verified : Verified platform published now cache pco verdict target)
    (made : Made platform published cache) :
    Made platform published target := by
  induction verified with
  | cached known => exact made
  | failed unknown checked => exact made_erase made _
  | root unknown checked isRoot =>
      exact made_insert (made_erase made _) (findCert_ok checked)
  | keyRejected unknown checked other _ keyMade =>
      exact keyMade (made_erase made _)
  | metaRejected unknown checked other _ _ keyMade metaMade =>
      exact metaMade (keyMade (made_erase made _))
  | link unknown checked other _ _ keyMade metaMade =>
      exact made_insert (metaMade (keyMade (made_erase made _)))
        (findCert_ok checked)

/-- Every run of calls keeps to certificates of published keys. -/
theorem Produced.made (produced : Produced platform published cache) :
    Made platform published cache := by
  induction produced with
  | empty =>
      intro digest cert here
      cases here
  | call _ returned made => exact (verified_of_verify returned).made made

theorem rawKeyBytes_unique (distinct : CollisionFree platform published)
    (made : Made platform published cache)
    (checked : found.Checked platform published now pco)
    (known : cache.find pco.publisherPublicKeyDigest = some cert) :
    cert.rawKeyBytes = found.cert.rawKeyBytes := by
  obtain ⟨digest, object, member, content⟩ := made _ _ known
  rw [checked.publisher, checked.keyHash, ← content] at digest
  rw [checked.rawKeyBytes, ← content]
  exact (distinct _ checked.published _ member digest).symm

theorem trusted_congr (same : cache.usable now = target.usable now)
    (trusted : Trusted platform published now cache pco key) :
    Trusted platform published now target pco key := by
  induction trusted with
  | cached known verified =>
      rw [same] at known
      exact .cached known verified
  | root unknown checked isRoot verified =>
      rw [same] at unknown
      exact .root unknown checked isRoot verified
  | link unknown checked other _ metaVerified verified trusted =>
      rw [same] at unknown
      exact .link unknown checked other trusted metaVerified verified

theorem Trusted.key_eq
    (trusted : Trusted platform published now cache pco key) :
    (∃ cert, cache.usable now pco.publisherPublicKeyDigest = some cert ∧
      cert.rawKeyBytes = key) ∨
      (cache.usable now pco.publisherPublicKeyDigest = none ∧
        ∃ found, findCert platform published now pco = .ok found ∧
          found.cert.rawKeyBytes = key) := by
  cases trusted with
  | cached known _ => exact .inl ⟨_, known, rfl⟩
  | root unknown checked _ _ => exact .inr ⟨unknown, _, checked, rfl⟩
  | link unknown checked _ _ _ _ => exact .inr ⟨unknown, _, checked, rfl⟩

theorem Trusted.key_unique
    (left : Trusted platform published now cache pco key)
    (right : Trusted platform published now cache pco other) :
    key = other := by
  rcases left.key_eq with ⟨cert, known, rfl⟩ | ⟨unknown, found, checked, rfl⟩
  · rcases right.key_eq with ⟨_, same, rfl⟩ | ⟨unknown, -⟩
    · rw [Option.some.inj (known.symm.trans same)]
    · cases unknown.symm.trans known
  · rcases right.key_eq with ⟨_, known, -⟩ | ⟨-, _, same, rfl⟩
    · cases unknown.symm.trans known
    · rw [Except.ok.inj (checked.symm.trans same)]

theorem Verified.of_usable
    (verified : Verified platform published now cache pco verdict target)
    (known : cache.usable now pco.publisherPublicKeyDigest = some cert) :
    verdict = signed platform pco cert := by
  cases verified with
  | cached here =>
      obtain rfl := Option.some.inj (here.symm.trans known)
      rfl
  | failed unknown _ => cases unknown.symm.trans known
  | root unknown _ _ => cases unknown.symm.trans known
  | keyRejected unknown _ _ _ => cases unknown.symm.trans known
  | metaRejected unknown _ _ _ _ => cases unknown.symm.trans known
  | link unknown _ _ _ _ => cases unknown.symm.trans known

theorem Verified.trusted (distinct : CollisionFree platform published)
    (verified : Verified platform published now cache pco verdict target)
    (made : Made platform published cache) (accepted : verdict = .accepted) :
    ∃ entry, target.usable now pco.publisherPublicKeyDigest = some entry ∧
      Trusted platform published now cache pco entry.rawKeyBytes := by
  induction verified with
  | cached known =>
      exact ⟨_, known, .cached known (signed_eq_accepted_iff.mp accepted)⟩
  | failed unknown checked => cases accepted
  | @root cache pco found unknown checked isRoot =>
      have checks := findCert_ok checked
      refine ⟨_, usable_insert checks renewed_refl, ?_⟩
      rw [CertCache.find_erase, if_pos rfl]
      exact .root unknown checked isRoot (signed_eq_accepted_iff.mp accepted)
  | keyRejected unknown checked other _ _ => cases accepted
  | metaRejected unknown checked other _ _ _ _ => cases accepted
  | @link cache middle target pco found unknown checked other key metaVerified
      keyTrusted _ =>
      have checks := findCert_ok checked
      have erased := made_erase made pco.publisherPublicKeyDigest
      obtain ⟨entry, known, trusted⟩ := keyTrusted erased rfl
      rw [checks.samePublisher] at known
      have metaSigned : platform.verifySignature found.metaObject
          entry.rawKeyBytes = true :=
        signed_eq_accepted_iff.mp (metaVerified.of_usable known).symm
      have objectTrusted : Trusted platform published now cache pco
          found.cert.rawKeyBytes :=
        .link unknown checked other
          (trusted_congr (CertCache.usable_erase unknown) trusted) metaSigned
          (signed_eq_accepted_iff.mp accepted)
      refine ⟨_, usable_insert checks
        (key.entries.1.trans metaVerified.entries.1), ?_⟩
      cases before : target.find pco.publisherPublicKeyDigest with
      | none => exact objectTrusted
      | some earlier =>
          have sameKey := rawKeyBytes_unique distinct
            (metaVerified.made (key.made erased)) checks before
          rw [Option.getD_some, sameKey]
          exact objectTrusted

theorem Trusted.verified (distinct : CollisionFree platform published)
    (trusted : Trusted platform published now cache pco key)
    (same : target.usable now = cache.usable now)
    (made : Made platform published target) :
    ∃ final, Verified platform published now target pco .accepted final := by
  induction trusted generalizing target with
  | cached known verified =>
      rw [← same] at known
      rw [← signed_eq_accepted_iff.mpr verified]
      exact ⟨_, .cached known⟩
  | root unknown checked isRoot verified =>
      rw [← same] at unknown
      rw [← signed_eq_accepted_iff.mpr verified]
      exact ⟨_, .root unknown checked isRoot⟩
  | @link pco found key unknown checked other keyTrusted metaSigned verified
      induction =>
      rw [← same] at unknown
      have erased := made_erase made pco.publisherPublicKeyDigest
      have sameErased := CertCache.usable_erase unknown
      obtain ⟨middle, keyVerified⟩ := induction (sameErased.trans same) erased
      obtain ⟨entry, known, entryTrusted⟩ :=
        keyVerified.trusted distinct erased rfl
      have sameKey : key = entry.rawKeyBytes := keyTrusted.key_unique
        (trusted_congr (sameErased.trans same) entryTrusted)
      rw [(findCert_ok checked).samePublisher] at known
      rw [sameKey] at metaSigned
      have metaVerified : Verified platform published now middle
          found.metaObject .accepted middle := by
        rw [← signed_eq_accepted_iff.mpr metaSigned]
        exact .cached known
      rw [← signed_eq_accepted_iff.mpr verified]
      exact ⟨_, .link unknown checked other keyVerified metaVerified⟩

theorem accepts_iff (distinct : CollisionFree platform published)
    (made : Made platform published cache) :
    Accepts platform published now cache pco ↔
      ∃ key, Trusted platform published now cache pco key := by
  constructor
  · rintro ⟨fuel, target, returned⟩
    obtain ⟨entry, -, trusted⟩ :=
      (verified_of_verify returned).trusted distinct made rfl
    exact ⟨_, trusted⟩
  · rintro ⟨key, trusted⟩
    obtain ⟨target, verified⟩ := trusted.verified distinct rfl made
    obtain ⟨fuel, returned⟩ := verified_iff.mp verified
    exact ⟨fuel, target, returned⟩

theorem trusted_nil_iff :
    Trusted platform published now [] pco key ↔
      Certified platform published now pco key := by
  constructor
  · intro trusted
    induction trusted with
    | cached known _ => cases known
    | root _ checked isRoot verified => exact .root checked isRoot verified
    | link _ checked other _ metaSigned verified certified =>
        exact .link checked other certified metaSigned verified
  · intro certified
    induction certified with
    | root checked isRoot verified => exact .root rfl checked isRoot verified
    | link checked other _ metaSigned verified trusted =>
        exact .link rfl checked other trusted metaSigned verified

theorem RestsOn.trusted
    (rests : RestsOn platform published now cache last pco key) :
    Trusted platform published now cache pco key := by
  induction rests with
  | cached known verified => exact .cached known verified
  | link unknown checked other _ metaSigned verified trusted =>
      exact .link unknown checked other trusted metaSigned verified

theorem Trusted.rests_or_certified
    (trusted : Trusted platform published now cache pco key) :
    (∃ last, RestsOn platform published now cache last pco key) ∨
      Certified platform published now pco key := by
  induction trusted with
  | cached known verified => exact .inl ⟨_, .cached known verified⟩
  | root _ checked isRoot verified =>
      exact .inr (.root checked isRoot verified)
  | link unknown checked other _ metaSigned verified ends =>
      rcases ends with ⟨last, rests⟩ | certified
      · exact .inl ⟨last, .link unknown checked other rests metaSigned verified⟩
      · exact .inr (.link checked other certified metaSigned verified)

/-- The chain of published certificates goes through the object where the other
chain ends. -/
theorem RestsOn.certified_last
    (rests : RestsOn platform published now cache last pco key)
    (certified : Certified platform published now pco other) :
    ∃ final, Certified platform published now last final := by
  induction rests generalizing other with
  | cached _ _ => exact ⟨_, certified⟩
  | link _ checked notRoot _ _ _ induction =>
      cases certified with
      | root same isRoot _ =>
          obtain rfl := Except.ok.inj (checked.symm.trans same)
          exact absurd isRoot notRoot
      | link same _ keyCertified _ _ =>
          obtain rfl := Except.ok.inj (checked.symm.trans same)
          exact induction keyCertified

theorem RestsOn.certified (distinct : CollisionFree platform published)
    (made : Made platform published cache)
    (rests : RestsOn platform published now cache last pco key)
    (certified : Certified platform published now last other) :
    Certified platform published now pco key := by
  induction rests with
  | cached known _ =>
      have here := (CertCache.usable_eq_some.mp known).1
      cases certified with
      | root checked isRoot verified =>
          rw [rawKeyBytes_unique distinct made (findCert_ok checked) here]
          exact .root checked isRoot verified
      | link checked notRoot keyCertified metaSigned verified =>
          rw [rawKeyBytes_unique distinct made (findCert_ok checked) here]
          exact .link checked notRoot keyCertified metaSigned verified
  | link _ checked notRoot _ metaSigned verified keyCertified =>
      exact .link checked notRoot keyCertified metaSigned verified

/-- What is accepted with a cache is accepted without it exactly if the objects
that are only checked against the cache are certified themselves. -/
theorem cache_vouches_iff (distinct : CollisionFree platform published)
    (produced : Produced platform published cache) (now : Int)
    (pco : ContentObject) :
    (Accepts platform published now cache pco →
        Accepts platform published now [] pco) ↔
      ∀ last key, RestsOn platform published now cache last pco key →
        ∃ other, Certified platform published now last other := by
  have made := produced.made
  have without : Accepts platform published now [] pco ↔
      ∃ key, Certified platform published now pco key := by
    rw [accepts_iff distinct Produced.empty.made]
    simp only [trusted_nil_iff]
  rw [accepts_iff distinct made, without]
  constructor
  · intro kept last key rests
    obtain ⟨other, certified⟩ := kept ⟨key, rests.trusted⟩
    exact rests.certified_last certified
  · rintro ends ⟨key, trusted⟩
    rcases trusted.rests_or_certified with ⟨last, rests⟩ | certified
    · obtain ⟨other, certified⟩ := ends last key rests
      exact ⟨key, rests.certified distinct made certified⟩
    · exact ⟨key, certified⟩

/-- The name `/r/k`. -/
def rootKeyName : Name := ⟨[[0x72], [0x6B]]⟩

/-- The content stands for the bytes of the root key. -/
def rootKey : ContentObject :=
  ⟨rootKeyName, .key, rootKeyName, rootKeyDigest, [1], []⟩

/-- The object `/r/info/k`. -/
def rootMeta : ContentObject :=
  ⟨⟨[[0x72], info, [0x6B]]⟩, .data, rootKeyName, rootKeyDigest, [], []⟩

/-- An object `/b/d` that the root key has signed. -/
def rootSigned (type : ContentType) : ContentObject :=
  ⟨⟨[[0x62], [0x64]]⟩, type, rootKeyName, rootKeyDigest, [3], []⟩

def rootPlatform : Platform where
  sha256 := fun bytes =>
    if bytes = [1] then rootKeyDigest
    else
      [0xE3, 0xB0, 0xC4, 0x42, 0x98, 0xFC, 0x1C, 0x14, 0x9A, 0xFB, 0xF4, 0xC8,
        0x99, 0x6F, 0xB9, 0x24, 0x27, 0xAE, 0x41, 0xE4, 0x64, 0x9B, 0x93, 0x4C,
        0xA4, 0x95, 0x99, 0x1B, 0x78, 0x52, 0xB8, 0x55]
  verifySignature := fun _ _ => true
  parse := fun _ => .parsed (some [("Valid_to", some "2000000000")])
  lexicalCast := fun _ => some 2000000000

def rootCache : CertCache :=
  [(rootKeyDigest, ⟨rootKeyName, rootKeyDigest, [1], ⟨"", "", 0, 2000000000⟩⟩)]

theorem produced_rootCache :
    Produced rootPlatform (.ofList [rootKey, rootMeta]) rootCache := by
  have returned : verify rootPlatform (.ofList [rootKey, rootMeta]) 1700000000 1
      [] (rootSigned .data) = some (.accepted, rootCache) := rfl
  exact .call .empty returned

theorem collisionFree_root :
    CollisionFree rootPlatform (.ofList [rootKey, rootMeta]) := by
  unfold CollisionFree
  decide

/-- Data is accepted with the cache and without it. -/
theorem cache_vouches_iff_data :
    Accepts rootPlatform (.ofList [rootKey, rootMeta]) 1700000000 []
      (rootSigned .data) := by
  apply (cache_vouches_iff collisionFree_root produced_rootCache 1700000000
    (rootSigned .data)).mpr
  · intro last key rests
    cases rests with
    | cached _ _ => exact ⟨_, .root rfl rfl rfl⟩
    | link unknown _ _ _ _ _ => cases unknown
  · exact ⟨1, rootCache, rfl⟩

/-- As a key, which does not start with the name of the root key, it is accepted
with the cache only. -/
theorem cached_key_vouches :
    ¬ ∀ platform published cache now pco, CollisionFree platform published →
      Produced platform published cache →
      (∀ digest cert, cache.find digest = some cert →
        cert.validity now = .withinValidTimeSpan) →
      Accepts platform published now cache pco →
        Accepts platform published now [] pco := by
  intro always
  have valid : ∀ digest cert, rootCache.find digest = some cert →
      cert.validity 1700000000 = .withinValidTimeSpan := by
    intro digest cert here
    obtain ⟨entry, found, rfl⟩ := Option.map_eq_some_iff.mp here
    obtain rfl := List.mem_singleton.mp (List.mem_of_find?_eq_some found)
    rfl
  obtain ⟨fuel, target, accepted⟩ := always _ _ rootCache 1700000000
    (rootSigned .key) collisionFree_root produced_rootCache valid
      ⟨1, rootCache, rfl⟩
  cases fuel with
  | zero => cases accepted
  | succ fuel => cases accepted

end Verifier

end Ccnx

end ChronoShare
