import ChronoShare.Ccnx.NameText
import ChronoShare.SyncLog.Store

/-!
# Certificates and their verification

A content object is accepted if it is signed by a key that is in the cache of
certificates, or by a published key that is the root key or is accepted itself.
The clock stands still during a call, and running out of fuel is no verdict.
-/

namespace ChronoShare

/-- `IsZero`. -/
def Hash.isZero (hash : Hash) : Bool :=
  hash = [] ∨ hash = [0]

namespace Ccnx

inductive ContentType where
  | data
  | key
  | other
  deriving DecidableEq, Repr

structure ContentObject where
  name : Name
  type : ContentType
  keyName : Name
  publisherPublicKeyDigest : Hash
  content : Bytes
  signature : Bytes
  deriving DecidableEq, Repr

/-- What the parser makes of a text: an error, or the names and texts of the
elements inside the root, if there is one. -/
inductive XmlDocument where
  | error
  | parsed (root : Option (List (String × Option String)))
  deriving DecidableEq, Repr

/-- The libraries: the digest, the check of a signature against the bytes of a
key, the parser, and the numbers that texts are cast to. -/
structure Platform where
  sha256 : Bytes → Hash
  verifySignature : ContentObject → Bytes → Bool
  parse : Bytes → XmlDocument
  lexicalCast : String → Option Int

/-- The objects that have been published, and which of them is the answer to an
interest. -/
structure Published where
  objects : List ContentObject
  get : Name → Option ContentObject
  answered : ∀ name object, get name = some object → object ∈ objects

/-- Every interest is answered with the first object below its name. -/
def Published.ofList (objects : List ContentObject) : Published where
  objects
  get := fun name => objects.find? fun object =>
    name.comps.isPrefixOf object.name.comps
  answered := fun _ _ answer => List.mem_of_find?_eq_some answer

structure CertMeta where
  realworldID : String
  affiliation : String
  validFrom : Int
  validTo : Int
  deriving DecidableEq, Repr

structure Cert where
  name : Name
  keyHash : Hash
  rawKeyBytes : Bytes
  certMeta : CertMeta
  deriving DecidableEq, Repr

inductive Validity where
  | notYetValid
  | withinValidTimeSpan
  | expired
  | other
  deriving DecidableEq, Repr

namespace Cert

/-- One element; an element without a text is an exception, and so is a time
that is no number. -/
def updateElement (platform : Platform) (certMeta : CertMeta)
    (child : String × Option String) : Option CertMeta :=
  match child with
  | (_, none) => none
  | (elemName, some text) =>
      if elemName = "Name" then
        some { certMeta with realworldID := text }
      else if elemName = "Affiliation" then
        some { certMeta with affiliation := text }
      else if elemName = "Valid_to" then
        (platform.lexicalCast text).map fun validTo => { certMeta with validTo }
      else
        some certMeta

/-- A document without a root is an exception, and one that cannot be parsed
changes nothing. -/
def updateMeta (platform : Platform) (metaObject : ContentObject)
    (certMeta : CertMeta) : Option CertMeta :=
  match platform.parse (metaObject.content ++ [0]) with
  | .error => some certMeta
  | .parsed none => none
  | .parsed (some children) =>
      children.foldlM (updateElement platform) certMeta

def construct (platform : Platform) (keyObject metaObject : ContentObject) :
    Option Cert :=
  (updateMeta platform metaObject ⟨"", "", 0, 0⟩).map fun certMeta =>
    { name := keyObject.name
      keyHash := platform.sha256 keyObject.content
      rawKeyBytes := keyObject.content
      certMeta }

def validity (cert : Cert) (now : Int) : Validity :=
  if cert.certMeta.validFrom = 0 ∧ cert.certMeta.validTo = 0 then .other
  else if now < cert.certMeta.validFrom then .notYetValid
  else if now ≥ cert.certMeta.validTo then .expired
  else .withinValidTimeSpan

end Cert

abbrev CertCache := List (Hash × Cert)

namespace CertCache

variable (cache : CertCache)

def find (digest : Hash) : Option Cert :=
  (List.find? (fun entry => entry.1 = digest) cache).map (·.2)

def erase (digest : Hash) : CertCache :=
  List.filter (fun entry => entry.1 ≠ digest) cache

/-- An entry that is there is kept. -/
def insert (cert : Cert) : CertCache :=
  match cache.find cert.keyHash with
  | none => (cert.keyHash, cert) :: cache
  | some _ => cache

/-- The certificate of a digest, if it is within its time span. -/
def usable (now : Int) (digest : Hash) : Option Cert :=
  (cache.find digest).filter fun cert =>
    cert.validity now = .withinValidTimeSpan

variable {cache} {digest other : Hash} {cert : Cert} {now : Int}

theorem find_erase :
    (cache.erase digest).find other =
      if other = digest then none else cache.find other := by
  rw [find, erase, List.find?_filter]
  split_ifs with same
  · rw [List.find?_eq_none.mpr]
    · rfl
    · intro entry _
      simp [same]
  · rw [find]
    congr 2
    funext entry
    by_cases here : entry.1 = other
    · simp [here, same]
    · simp [here]

theorem find_insert :
    (cache.insert cert).find digest =
      if digest = cert.keyHash then some ((cache.find digest).getD cert)
      else cache.find digest := by
  rw [insert]
  cases known : cache.find cert.keyHash with
  | some entry =>
      split_ifs with same
      · rw [same, known]
        rfl
      · rfl
  | none =>
      split_ifs with same
      · rw [same, known, find, List.find?_cons_of_pos (by simp)]
        rfl
      · rw [find, List.find?_cons_of_neg (by simpa using Ne.symm same), find]

theorem usable_eq_some :
    cache.usable now digest = some cert ↔
      cache.find digest = some cert ∧
        cert.validity now = .withinValidTimeSpan := by
  rw [usable, Option.filter_eq_some_iff, decide_eq_true_eq]

theorem usable_erase (unknown : cache.usable now digest = none) :
    (cache.erase digest).usable now = cache.usable now := by
  funext other
  by_cases same : other = digest
  · subst same
    rw [unknown, usable, find_erase, if_pos rfl]
    rfl
  · rw [usable, find_erase, if_neg same, usable]

end CertCache

namespace Verifier

def rootKeyDigest : Hash :=
  [0xA7, 0xD9, 0x8B, 0x81, 0xDE, 0x13, 0xFC, 0x56, 0xC5, 0xA6, 0x92, 0xB4,
    0x44, 0x93, 0x6E, 0x56, 0x70, 0x9D, 0x52, 0x6F, 0x70, 0xED, 0x39, 0xEF,
    0xB5, 0xE2, 0x03, 0x29, 0xA5, 0x53, 0x3E, 0x68]

/-- The call returns false, or an exception leaves it. -/
inductive Rejection where
  | refused
  | thrown
  deriving DecidableEq, Repr

inductive Verdict where
  | accepted
  | rejected (reason : Rejection)
  deriving DecidableEq, Repr

def partialName (name : Name) (start n : Int) : Except Rejection Name :=
  (name.getPartialName start n).mapError fun _ => .thrown

/-- The name of a key object starts with its key name without the last
component. -/
def checkPrefix (keyNamePrefix contentName : Name) : Except Rejection Unit :=
  if keyNamePrefix.size ≥ contentName.size then
    throw .refused
  else do
    let start ← partialName contentName 0 keyNamePrefix.size
    if start.equals keyNamePrefix then pure () else throw .refused

/-- The component `info`. -/
def info : Bytes := [0x69, 0x6E, 0x66, 0x6F]

def metaName (pco : ContentObject) : Except Rejection Name := do
  let keyNameSize : Int := pco.keyName.size
  if keyNameSize < 2 then
    throw .refused
  let keyNamePrefix ← partialName pco.keyName 0 (keyNameSize - 1)
  if pco.type = .key then
    checkPrefix keyNamePrefix pco.name
  let last ← partialName pco.keyName (keyNameSize - 1) 0
  return (keyNamePrefix.append ⟨[info]⟩).append last

/-- The certificate of a key with the two objects it is made of. -/
structure Found where
  cert : Cert
  keyObject : ContentObject
  metaObject : ContentObject

variable (platform : Platform) (published : Published) (now : Int)

/-- All that is checked before the question whether the key is trusted. -/
def checkCert (pco keyObject metaObject : ContentObject) :
    Except Rejection Found :=
  let publisher := keyObject.publisherPublicKeyDigest
  if publisher.isZero ∨ publisher ≠ metaObject.publisherPublicKeyDigest then
    .error .refused
  else
    match Cert.construct platform keyObject metaObject with
    | none => .error .thrown
    | some cert =>
        if cert.validity now ≠ .withinValidTimeSpan then
          .error .refused
        else if pco.publisherPublicKeyDigest ≠ cert.keyHash then
          .error .refused
        else
          .ok ⟨cert, keyObject, metaObject⟩

def findCert (pco : ContentObject) : Except Rejection Found := do
  let metaName ← metaName pco
  match published.get pco.keyName, published.get metaName with
  | some keyObject, some metaObject =>
      checkCert platform now pco keyObject metaObject
  | _, _ => throw .refused

/-- What has been checked of a certificate. -/
structure Found.Checked (pco : ContentObject) (found : Found) : Prop where
  published : found.keyObject ∈ published.objects
  samePublisher : found.keyObject.publisherPublicKeyDigest =
    found.metaObject.publisherPublicKeyDigest
  valid : found.cert.validity now = .withinValidTimeSpan
  publisher : pco.publisherPublicKeyDigest = found.cert.keyHash
  keyHash : found.cert.keyHash = platform.sha256 found.keyObject.content
  rawKeyBytes : found.cert.rawKeyBytes = found.keyObject.content

/-- `verifySignature` and `verified`. -/
def signed (pco : ContentObject) (cert : Cert) : Verdict :=
  if platform.verifySignature pco cert.rawKeyBytes then .accepted
  else .rejected .refused

/-- The last steps: the certificate is cached and the object checked. -/
def conclude (pco : ContentObject) (cert : Cert) (cache : CertCache) :
    Verdict × CertCache :=
  (signed platform pco cert, cache.insert cert)

/-- Goes on with the cache that an accepted object leaves. -/
def onAccepted (outcome : Option (Verdict × CertCache))
    (rest : CertCache → Option (Verdict × CertCache)) :
    Option (Verdict × CertCache) :=
  match outcome with
  | some (.accepted, cache) => rest cache
  | other => other

def verify : Nat → CertCache → ContentObject → Option (Verdict × CertCache)
  | 0, _, _ => none
  | fuel + 1, cache, pco =>
      match cache.usable now pco.publisherPublicKeyDigest with
      | some cert => some (signed platform pco cert, cache)
      | none =>
          -- a certificate that is not valid any more is erased
          let cache := cache.erase pco.publisherPublicKeyDigest
          match findCert platform published now pco with
          | .error reason => some (.rejected reason, cache)
          | .ok ⟨cert, keyObject, metaObject⟩ =>
              if cert.keyHash = rootKeyDigest then
                some (conclude platform pco cert cache)
              else
                onAccepted (verify fuel cache keyObject) fun cache =>
                  onAccepted (verify fuel cache metaObject) fun cache =>
                    some (conclude platform pco cert cache)

section

variable {platform published now}

theorem checkCert_ok {pco keyObject metaObject : ContentObject} {found : Found}
    (member : keyObject ∈ published.objects)
    (checked : checkCert platform now pco keyObject metaObject = .ok found) :
    found.Checked platform published now pco := by
  rw [checkCert] at checked
  split at checked
  · cases checked
  · rename_i samePublisher
    split at checked
    · cases checked
    · rename_i cert constructed
      obtain ⟨certMeta, -, rfl⟩ := Option.map_eq_some_iff.mp constructed
      split at checked
      · cases checked
      · rename_i valid
        split at checked
        · cases checked
        · rename_i publisher
          cases checked
          refine ⟨member, ?_, not_not.mp valid, not_not.mp publisher, rfl, rfl⟩
          exact not_not.mp (not_or.mp samePublisher).2

theorem findCert_ok {pco : ContentObject} {found : Found}
    (checked : findCert platform published now pco = .ok found) :
    found.Checked platform published now pco := by
  rw [findCert] at checked
  cases named : metaName pco with
  | error reason =>
      rw [named] at checked
      cases checked
  | ok name =>
      rw [named] at checked
      dsimp only [bind, Except.bind] at checked
      split at checked
      · rename_i keyObject metaObject keyFound _
        exact checkCert_ok (published.answered _ _ keyFound) checked
      · cases checked

end

/-- Certificates are found in the cache, or made of published objects that are
checked first, the key object before the meta object. -/
inductive Verified :
    CertCache → ContentObject → Verdict → CertCache → Prop where
  | cached {cache : CertCache} {pco : ContentObject} {cert : Cert} :
      cache.usable now pco.publisherPublicKeyDigest = some cert →
        Verified cache pco (signed platform pco cert) cache
  | failed {cache : CertCache} {pco : ContentObject} {reason : Rejection} :
      cache.usable now pco.publisherPublicKeyDigest = none →
      findCert platform published now pco = .error reason →
        Verified cache pco (.rejected reason)
          (cache.erase pco.publisherPublicKeyDigest)
  | root {cache : CertCache} {pco : ContentObject} {found : Found} :
      cache.usable now pco.publisherPublicKeyDigest = none →
      findCert platform published now pco = .ok found →
      found.cert.keyHash = rootKeyDigest →
        Verified cache pco (signed platform pco found.cert)
          ((cache.erase pco.publisherPublicKeyDigest).insert found.cert)
  | keyRejected {cache target : CertCache} {pco : ContentObject}
      {found : Found} {reason : Rejection} :
      cache.usable now pco.publisherPublicKeyDigest = none →
      findCert platform published now pco = .ok found →
      found.cert.keyHash ≠ rootKeyDigest →
      Verified (cache.erase pco.publisherPublicKeyDigest) found.keyObject
        (.rejected reason) target →
          Verified cache pco (.rejected reason) target
  | metaRejected {cache middle target : CertCache} {pco : ContentObject}
      {found : Found} {reason : Rejection} :
      cache.usable now pco.publisherPublicKeyDigest = none →
      findCert platform published now pco = .ok found →
      found.cert.keyHash ≠ rootKeyDigest →
      Verified (cache.erase pco.publisherPublicKeyDigest) found.keyObject
        .accepted middle →
      Verified middle found.metaObject (.rejected reason) target →
        Verified cache pco (.rejected reason) target
  | link {cache middle target : CertCache} {pco : ContentObject}
      {found : Found} :
      cache.usable now pco.publisherPublicKeyDigest = none →
      findCert platform published now pco = .ok found →
      found.cert.keyHash ≠ rootKeyDigest →
      Verified (cache.erase pco.publisherPublicKeyDigest) found.keyObject
        .accepted middle →
      Verified middle found.metaObject .accepted target →
        Verified cache pco (signed platform pco found.cert)
          (target.insert found.cert)

section

variable {platform published now} {cache target : CertCache}
  {pco : ContentObject} {verdict : Verdict} {found : Found} {fuel : Nat}

theorem onAccepted_eq_some {outcome : Option (Verdict × CertCache)}
    {rest : CertCache → Option (Verdict × CertCache)} :
    onAccepted outcome rest = some (verdict, target) ↔
      (∃ reason, verdict = .rejected reason ∧
        outcome = some (.rejected reason, target)) ∨
        ∃ middle, outcome = some (.accepted, middle) ∧
          rest middle = some (verdict, target) := by
  constructor
  · intro returned
    rcases outcome with _ | ⟨_ | reason, middle⟩
    · cases returned
    · exact .inr ⟨middle, rfl, returned⟩
    · cases returned
      exact .inl ⟨reason, rfl, rfl⟩
  · rintro (⟨reason, rfl, rfl⟩ | ⟨middle, rfl, later⟩)
    · rfl
    · exact later

theorem verify_link (fuel : Nat)
    (unknown : cache.usable now pco.publisherPublicKeyDigest = none)
    (checked : findCert platform published now pco = .ok found)
    (other : found.cert.keyHash ≠ rootKeyDigest) :
    verify platform published now (fuel + 1) cache pco =
      onAccepted (verify platform published now fuel
          (cache.erase pco.publisherPublicKeyDigest) found.keyObject)
        fun middle => onAccepted
          (verify platform published now fuel middle found.metaObject)
          fun target => some (conclude platform pco found.cert target) := by
  rw [verify, unknown]
  simp only [checked, if_neg other]

theorem verified_of_verify
    (returned : verify platform published now fuel cache pco =
      some (verdict, target)) :
    Verified platform published now cache pco verdict target := by
  induction fuel generalizing cache pco verdict target with
  | zero => cases returned
  | succ fuel induction =>
      cases known : cache.usable now pco.publisherPublicKeyDigest with
      | some cert =>
          rw [verify, known] at returned
          cases returned
          exact .cached known
      | none =>
          cases checked : findCert platform published now pco with
          | error failure =>
              rw [verify, known] at returned
              simp only [checked] at returned
              cases returned
              exact .failed known checked
          | ok found =>
              by_cases isRoot : found.cert.keyHash = rootKeyDigest
              · rw [verify, known] at returned
                simp only [checked, if_pos isRoot] at returned
                cases returned
                exact .root known checked isRoot
              · rw [verify_link fuel known checked isRoot] at returned
                rcases onAccepted_eq_some.mp returned with
                  ⟨reason, rfl, rejected⟩ | ⟨middle, keyAccepted, rest⟩
                · exact .keyRejected known checked isRoot (induction rejected)
                · rcases onAccepted_eq_some.mp rest with
                    ⟨reason, rfl, rejected⟩ | ⟨later, metaAccepted, concluded⟩
                  · exact .metaRejected known checked isRoot
                      (induction keyAccepted) (induction rejected)
                  · cases concluded
                    exact .link known checked isRoot (induction keyAccepted)
                      (induction metaAccepted)

theorem verify_of_verified
    (verified : Verified platform published now cache pco verdict target) :
    ∃ least, ∀ fuel, least ≤ fuel →
      verify platform published now (fuel + 1) cache pco =
        some (verdict, target) := by
  induction verified with
  | cached known =>
      refine ⟨0, fun fuel _ => ?_⟩
      rw [verify, known]
  | failed unknown checked =>
      refine ⟨0, fun fuel _ => ?_⟩
      rw [verify, unknown]
      simp only [checked]
  | root unknown checked isRoot =>
      refine ⟨0, fun fuel _ => ?_⟩
      rw [verify, unknown]
      simp only [checked, if_pos isRoot, conclude]
  | keyRejected unknown checked other _ keyReturns =>
      obtain ⟨least, keyReturns⟩ := keyReturns
      refine ⟨least + 1, fun fuel enough => ?_⟩
      obtain ⟨fuel, rfl⟩ := Nat.exists_eq_succ_of_ne_zero (by omega : fuel ≠ 0)
      rw [verify_link _ unknown checked other, onAccepted_eq_some]
      exact .inl ⟨_, rfl, keyReturns fuel (Nat.le_of_succ_le_succ enough)⟩
  | metaRejected unknown checked other _ _ keyReturns metaReturns =>
      obtain ⟨keyLeast, keyReturns⟩ := keyReturns
      obtain ⟨metaLeast, metaReturns⟩ := metaReturns
      refine ⟨max keyLeast metaLeast + 1, fun fuel enough => ?_⟩
      obtain ⟨fuel, rfl⟩ := Nat.exists_eq_succ_of_ne_zero (by omega : fuel ≠ 0)
      rw [verify_link _ unknown checked other, onAccepted_eq_some]
      refine .inr ⟨_, keyReturns fuel (by omega), ?_⟩
      rw [onAccepted_eq_some]
      exact .inl ⟨_, rfl, metaReturns fuel (by omega)⟩
  | link unknown checked other _ _ keyReturns metaReturns =>
      obtain ⟨keyLeast, keyReturns⟩ := keyReturns
      obtain ⟨metaLeast, metaReturns⟩ := metaReturns
      refine ⟨max keyLeast metaLeast + 1, fun fuel enough => ?_⟩
      obtain ⟨fuel, rfl⟩ := Nat.exists_eq_succ_of_ne_zero (by omega : fuel ≠ 0)
      rw [verify_link _ unknown checked other, onAccepted_eq_some]
      refine .inr ⟨_, keyReturns fuel (by omega), ?_⟩
      rw [onAccepted_eq_some]
      exact .inr ⟨_, metaReturns fuel (by omega), rfl⟩

theorem verified_iff :
    Verified platform published now cache pco verdict target ↔
      ∃ fuel, verify platform published now fuel cache pco =
        some (verdict, target) := by
  constructor
  · intro verified
    obtain ⟨least, returns⟩ := verify_of_verified verified
    exact ⟨least + 1, returns least (le_refl least)⟩
  · rintro ⟨fuel, returned⟩
    exact verified_of_verify returned

/-- New entries of the cache are within their time span. -/
def Renewed (now : Int) (cache target : CertCache) : Prop :=
  ∀ digest cert, target.find digest = some cert →
    cache.find digest = some cert ∨ cert.validity now = .withinValidTimeSpan

theorem renewed_refl : Renewed now cache cache :=
  fun _ _ here => .inl here

theorem Renewed.trans {middle : CertCache}
    (first : Renewed now cache middle) (second : Renewed now middle target) :
    Renewed now cache target := by
  intro digest cert here
  rcases second digest cert here with before | valid
  · exact first digest cert before
  · exact .inr valid

theorem renewed_erase (digest : Hash) :
    Renewed now cache (cache.erase digest) := by
  intro other cert here
  rw [CertCache.find_erase] at here
  split_ifs at here
  exact .inl here

theorem renewed_insert {cert : Cert}
    (valid : cert.validity now = .withinValidTimeSpan) :
    Renewed now cache (cache.insert cert) := by
  intro digest other here
  rw [CertCache.find_insert] at here
  split_ifs at here with same
  · cases known : cache.find digest with
    | none =>
        rw [known] at here
        obtain rfl : cert = other := Option.some.inj here
        exact .inr valid
    | some before =>
        rw [known] at here
        exact .inl here
  · exact .inl here

/-- The certificate that is inserted at the end can be used, or another one
that has been inserted under its digest since the start. -/
theorem usable_insert (checked : found.Checked platform published now pco)
    (renewed : Renewed now (cache.erase pco.publisherPublicKeyDigest) target) :
    (target.insert found.cert).usable now pco.publisherPublicKeyDigest =
      some ((target.find pco.publisherPublicKeyDigest).getD found.cert) := by
  rw [CertCache.usable_eq_some, CertCache.find_insert, if_pos checked.publisher]
  refine ⟨rfl, ?_⟩
  cases known : target.find pco.publisherPublicKeyDigest with
  | none => exact checked.valid
  | some cert =>
      rcases renewed _ _ known with before | valid
      · rw [CertCache.find_erase, if_pos rfl] at before
        cases before
      · exact valid

theorem Verified.entries
    (verified : Verified platform published now cache pco verdict target) :
    Renewed now cache target ∧ (verdict = .accepted →
      ∃ cert, target.usable now pco.publisherPublicKeyDigest = some cert) := by
  induction verified with
  | cached known => exact ⟨renewed_refl, fun _ => ⟨_, known⟩⟩
  | failed unknown checked => exact ⟨renewed_erase _, nofun⟩
  | root unknown checked isRoot =>
      have checks := findCert_ok checked
      exact ⟨(renewed_erase _).trans (renewed_insert checks.valid),
        fun _ => ⟨_, usable_insert checks renewed_refl⟩⟩
  | keyRejected unknown checked other _ keyEntries =>
      exact ⟨(renewed_erase _).trans keyEntries.1, nofun⟩
  | metaRejected unknown checked other _ _ keyEntries metaEntries =>
      exact ⟨((renewed_erase _).trans keyEntries.1).trans metaEntries.1, nofun⟩
  | @link cache middle target pco found unknown checked other _ _ keyEntries
      metaEntries =>
      have checks := findCert_ok checked
      have inner := keyEntries.1.trans metaEntries.1
      have before := (renewed_erase pco.publisherPublicKeyDigest).trans inner
      exact ⟨before.trans (renewed_insert checks.valid),
        fun _ => ⟨_, usable_insert checks inner⟩⟩

end

end Verifier

end Ccnx

end ChronoShare
