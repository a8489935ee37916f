import ReductStore.Cache
import ReductStore.Shared.Machine
import ReductStore.Shared.Text
import ReductStore.Storage.Record

set_option autoImplicit false

namespace ReductStore.Auth

open Caching

inductive IpAddr where
  | v4 (bits : BitVec 32)
  | v6 (bits : BitVec 128)
  deriving DecidableEq

class Platform where
  sha256 : List UInt8 → List UInt8
  parseIp : List Char → Option IpAddr
  renderIp : IpAddr → String

structure Permissions where
  fullAccess : Bool
  read : List String
  write : List String
  deriving DecidableEq

structure Token where
  name : String
  value : String
  createdAt : Int
  permissions : Option Permissions
  isProvisioned : Bool
  expiresAt : Option Int
  ttl : Option UInt64
  lastAccess : Option Int
  ipAllowlist : List String
  deriving DecidableEq

section Secrets

def hexValue (char : Char) : Option Nat :=
  if '0' ≤ char ∧ char ≤ '9' then some (char.toNat - '0'.toNat)
  else if 'a' ≤ char ∧ char ≤ 'f' then some (char.toNat - 'a'.toNat + 10)
  else if 'A' ≤ char ∧ char ≤ 'F' then some (char.toNat - 'A'.toNat + 10)
  else none

def hexDecode : List Char → Option (List UInt8)
  | [] => some []
  | [_] => none
  | high :: low :: rest => do
    let high ← hexValue high
    let low ← hexValue low
    let bytes ← hexDecode rest
    pure (UInt8.ofNat (16 * high + low) :: bytes)

def hexEncode (bytes : List UInt8) : List Char :=
  bytes.flatMap fun byte => [Nat.digitChar (byte.toNat / 16), Nat.digitChar (byte.toNat % 16)]

def sha256Prefix : String := "sha256:"

def saltLen : Nat := 16

def hashLen : Nat := 32

def isHashedTokenSecret (value : String) : Bool := value.startsWith sha256Prefix

variable [Platform]

def saltedSha256 (candidate : String) (salt : List UInt8) : List UInt8 :=
  Platform.sha256 (salt ++ candidate.toUTF8.toList)

def hashTokenSecret (value : String) (salt : Except ReductError (List UInt8)) : Except ReductError String := do
  let salt ← salt
  let hash := saltedSha256 value salt
  pure (sha256Prefix ++ String.ofList (hexEncode salt) ++ ":" ++ String.ofList (hexEncode hash))

def verifyTokenSecret (stored candidate : String) : Bool :=
  if isHashedTokenSecret stored then
    match Text.splitOnce ':' (stored.toList.drop sha256Prefix.length) with
    | none => false
    | some (saltHex, hashHex) =>
      match hexDecode saltHex, hexDecode hashHex with
      | some salt, some expectedHash =>
        salt.length = saltLen && expectedHash.length = hashLen && expectedHash = saltedSha256 candidate salt
      | _, _ => false
  -- a plain text of an older version
  else stored = candidate

end Secrets

section Checks

def parseBearerToken (authorizationHeader : String) : Except ReductError String :=
  if authorizationHeader.startsWith "Bearer " then .ok (authorizationHeader.drop 7).toString
  else .error (unauthorized "No bearer token in request header")

def fromTimestampMicros (micros : Int) : Option Int :=
  let seconds := micros.fdiv 1000000
  if -8334601228800 ≤ seconds ∧ seconds ≤ 8210266876799 then some (micros * 1000) else none

def systemAuditEntryPrefix : String := "audit"

def resolveLastAccessFromCache (cache : List (String × UInt64)) (tokenName : String) : Option Int :=
  let timestamps := cache.filterMap fun (entryName, timestamp) =>
    match entryName.toList.splitOn '/' with
    | [namespacePart, _, foundToken] =>
      if namespacePart = systemAuditEntryPrefix.toList ∧ foundToken = tokenName.toList then some timestamp.toNat
      else none
    | _ => none
  timestamps.max?.bind fun timestamp => fromTimestampMicros (UInt64.ofNat timestamp).toInt64.toInt

def tokenIsExpired (token : Token) (now : Int) : Bool :=
  let expired := match token.expiresAt with
    | some expiry => expiry ≤ now
    | none => false
  let unused := match token.ttl with
    | some ttl =>
      let lastAccess := max (token.lastAccess.getD token.createdAt) token.createdAt
      decide (ttl.toInt64.toInt < (now - lastAccess).tdiv 1000000000)
    | none => false
  expired || unused

def checkTokenLifetime (token : Token) (now : Int) : Except ReductError Unit :=
  if tokenIsExpired token now then .error (unauthorized "Token has expired") else .ok ()

def networkPart {width : Nat} (prefixLen : Nat) (address : BitVec width) : BitVec width :=
  address &&& (if prefixLen = 0 then 0 else BitVec.allOnes width <<< (width - prefixLen))

variable [Platform]

def cidrMatches (network prefixText : List Char) (clientIp : IpAddr) : Bool :=
  match Text.parseUnsigned 256 prefixText with
  | none => false
  | some prefixLen =>
    match Platform.parseIp network, clientIp with
    | some (.v4 net), .v4 client => decide (prefixLen ≤ 32) && networkPart prefixLen net = networkPart prefixLen client
    | some (.v6 net), .v6 client => decide (prefixLen ≤ 128) && networkPart prefixLen net = networkPart prefixLen client
    | _, _ => false

def ipAllowlistEntryMatches (entry : String) (clientIp : IpAddr) : Bool :=
  match Text.splitOnce '/' entry.toList with
  | some (network, prefixText) => cidrMatches network prefixText clientIp
  | none => Platform.parseIp entry.toList = some clientIp

def checkTokenIpAllowlist (token : Token) (clientIp : Option IpAddr) : Except ReductError Unit :=
  if token.ipAllowlist = [] then .ok ()
  else
    match clientIp with
    | none => .error (unauthorized "Client IP is required for this token")
    | some clientIp =>
      if token.ipAllowlist.any fun entry => ipAllowlistEntryMatches entry clientIp then .ok ()
      else .error (unauthorized ("Token is not allowed for client IP " ++ Platform.renderIp clientIp))

end Checks

structure EntryInfo where
  name : String
  recordCount : Nat
  latestRecord : UInt64

inductive AuditReply where
  | noStorage
  | bucketNotFound
  | failed
  | entries (entries : List EntryInfo)

structure Surroundings where
  now : Int
  instant : Nat
  secret : String
  salt : Except ReductError (List UInt8)
  save : Except ReductError Unit
  arrangement : Arrangement Token
  audit : AuditReply
  accessed : Nat
  checked : String → Nat
  cacheOrder : Arrangement (String × ExpiringValue Token)

structure TokenCreateRequest where
  permissions : Permissions
  expiresAt : Option Int
  ttl : Option UInt64
  ipAllowlist : List String

structure TokenCreateResponse where
  value : String
  createdAt : Int

structure TokenRepository where
  repo : List Token
  lastAccessCache : List (String × UInt64)
  lastAccessCacheUpdatedAt : Option Nat
  authCache : Cache String Token

namespace TokenRepository

def authCacheSize : Nat := 1024

-- `Duration::MAX` in nanoseconds
def authCacheTtl : Nat := 2 ^ 64 * 1000000000 - 1

def loaded (tokens : List Token) : TokenRepository :=
  { repo := tokens, lastAccessCache := [], lastAccessCacheUpdatedAt := none
    authCache := { store := [], size := authCacheSize, ttl := authCacheTtl } }

def tokenLastAccessCacheTtl : Nat := 10000000000

def lastAccessIsFresh (repository : TokenRepository) (now : Nat) : Bool :=
  repository.lastAccessCacheUpdatedAt.any fun updated => now - updated < tokenLastAccessCacheTtl

def refreshLastAccessCacheIfNeeded (repository : TokenRepository) (surroundings : Surroundings) : TokenRepository :=
  if repository.lastAccessIsFresh surroundings.instant then repository
  else
    match surroundings.audit with
    | .noStorage => repository
    | .bucketNotFound =>
      { repository with lastAccessCache := [], lastAccessCacheUpdatedAt := some surroundings.instant }
    | .failed => repository
    | .entries entries =>
      { repository with
        lastAccessCache := (entries.filter fun entry =>
          decide (0 < entry.recordCount) && entry.name.startsWith (systemAuditEntryPrefix ++ "/")).map fun entry =>
            (entry.name, entry.latestRecord)
        lastAccessCacheUpdatedAt := some surroundings.instant }

def populateTokenLastAccess (repository : TokenRepository) (surroundings : Surroundings) (token : Token) :
    Token × TokenRepository :=
  let repository := repository.refreshLastAccessCacheIfNeeded surroundings
  ({ token with lastAccess := resolveLastAccessFromCache repository.lastAccessCache token.name }, repository)

def populateIfTtl (repository : TokenRepository) (surroundings : Surroundings) (token : Token) :
    Token × TokenRepository :=
  if token.ttl.isSome then repository.populateTokenLastAccess surroundings token else (token, repository)

def clearAuthCache (repository : TokenRepository) : TokenRepository :=
  { repository with authCache := { repository.authCache with store := [] } }

def find (repository : TokenRepository) (name : String) : Option Token :=
  repository.repo.find? fun token => token.name = name

def insertToken (repository : TokenRepository) (token : Token) (arrangement : Arrangement Token) : TokenRepository :=
  { repository with
    repo := arrangement.order (token :: repository.repo.filter fun other => other.name ≠ token.name) }

def saveAndClear {Result : Type} (repository : TokenRepository) (surroundings : Surroundings) (result : Result) :
    Except ReductError Result × TokenRepository :=
  match surroundings.save with
  | .error failure => (.error failure, repository)
  | .ok () => (.ok result, repository.clearAuthCache)

def permissionMatches (entry : String) : Bool :=
  entry ≠ "" && entry.toList.all fun char =>
    char = '*' || char = '_' || char = '-' || ('a' ≤ char && char ≤ 'z') || ('A' ≤ char && char ≤ 'Z') ||
      ('0' ≤ char && char ≤ '9')

section Calls

variable [Platform]

def newValue (name : String) (surroundings : Surroundings) : String := name ++ "-" ++ surroundings.secret

def generateToken (repository : TokenRepository) (name : String) (request : TokenCreateRequest)
    (surroundings : Surroundings) : Except ReductError TokenCreateResponse × TokenRepository :=
  if name = "" then (.error (unprocessableEntity "Token name can't be empty"), repository)
  else if (repository.find name).isSome then
    (.error (conflict ("Token '" ++ name ++ "' already exists")), repository)
  else
    match (request.permissions.read ++ request.permissions.write).find? fun entry =>
        !entry.startsWith "$" && !permissionMatches entry with
    | some entry =>
      (.error (unprocessableEntity
        ("Permission can contain only bucket names or wildcard '*', got '" ++ entry ++ "'")), repository)
    | none =>
      if request.ttl = some 0 then
        (.error (unprocessableEntity "Token TTL must be greater than zero"), repository)
      else if request.expiresAt.any fun expiresAt => expiresAt < surroundings.now then
        (.error (unprocessableEntity "Token expiration date must not be in the past"), repository)
      else
        let value := newValue name surroundings
        match hashTokenSecret value surroundings.salt with
        | .error failure => (.error failure, repository)
        | .ok secret =>
          let token : Token :=
            { name, value := secret, createdAt := surroundings.now, permissions := some request.permissions
              isProvisioned := false, expiresAt := request.expiresAt, ttl := request.ttl, lastAccess := none
              ipAllowlist := request.ipAllowlist }
          (repository.insertToken token surroundings.arrangement).saveAndClear surroundings
            { value, createdAt := surroundings.now }

def ensureHashedTokenSecret (token : Token) (surroundings : Surroundings) : Except ReductError Token :=
  if isHashedTokenSecret token.value then .ok token
  else (hashTokenSecret token.value surroundings.salt).map fun secret => { token with value := secret }

def tokenDoesNotExist (name : String) : ReductError := notFound ("Token '" ++ name ++ "' doesn't exist")

def updateToken (repository : TokenRepository) (token : Token) (surroundings : Surroundings) :
    Except ReductError Unit × TokenRepository :=
  if (repository.find token.name).isNone then (.error (tokenDoesNotExist token.name), repository)
  else
    match ensureHashedTokenSecret token surroundings with
    | .error failure => (.error failure, repository)
    | .ok token => (repository.insertToken token surroundings.arrangement).saveAndClear surroundings ()

def Token.hasFullAccess (token : Token) : Bool := token.permissions.any Permissions.fullAccess

def removeToken (repository : TokenRepository) (name : String) (surroundings : Surroundings) :
    Except ReductError Unit × TokenRepository :=
  match repository.find name with
  | none => (.error (tokenDoesNotExist name), repository)
  | some token =>
    if token.isProvisioned then
      (.error (conflict ("Can't remove provisioned token '" ++ name ++ "'")), repository)
    else if Token.hasFullAccess token && (repository.repo.filter Token.hasFullAccess).length = 1 then
      (.error (conflict
        ("Can't remove token '" ++ name ++ "': at least one full-access token must remain")), repository)
    else
      let repository := { repository with
        repo := surroundings.arrangement.order (repository.repo.filter fun other => other.name ≠ name) }
      repository.saveAndClear surroundings ()

def rotateToken (repository : TokenRepository) (name : String) (surroundings : Surroundings) :
    Except ReductError TokenCreateResponse × TokenRepository :=
  match repository.find name with
  | none => (.error (tokenDoesNotExist name), repository)
  | some token =>
    if token.isProvisioned then
      (.error (conflict ("Can't rotate provisioned token '" ++ name ++ "'")), repository)
    else if token.expiresAt.any fun expiry => expiry ≤ surroundings.now then
      (.error (unprocessableEntity ("Can't rotate expired token '" ++ name ++ "'")), repository)
    else
      let value := newValue name surroundings
      match hashTokenSecret value surroundings.salt with
      | .error failure => (.error failure, repository)
      | .ok secret =>
        -- the token is changed in its place
        let repository := { repository with
          repo := repository.repo.map fun other : Token =>
            if other.name = name then
              { other with value := secret, createdAt := surroundings.now, lastAccess := some surroundings.now }
            else other }
        repository.saveAndClear surroundings { value, createdAt := surroundings.now }

def changeBuckets (repository : TokenRepository) (change : List String → List String) : TokenRepository :=
  { repository with
    repo := repository.repo.map fun token =>
      { token with
        permissions := token.permissions.map fun permissions =>
          { permissions with read := change permissions.read, write := change permissions.write } } }

omit [Platform] in
def removeBucketFromTokens (repository : TokenRepository) (bucket : String) (surroundings : Surroundings) :
    Except ReductError Unit × TokenRepository :=
  (repository.changeBuckets fun buckets => buckets.filter fun other => other ≠ bucket).saveAndClear surroundings ()

omit [Platform] in
def renameBucket (repository : TokenRepository) (oldName newName : String) (surroundings : Surroundings) :
    Except ReductError Unit × TokenRepository :=
  (repository.changeBuckets fun buckets =>
    buckets.map fun other => if other = oldName then newName else other).saveAndClear surroundings ()

def checkToken (token : Token) (clientIp : Option IpAddr) (now : Int) : Except ReductError Unit := do
  checkTokenLifetime token now
  checkTokenIpAllowlist token clientIp

def validateToken (repository : TokenRepository) (header : Option String) (clientIp : Option IpAddr)
    (surroundings : Surroundings) : Except ReductError Token × TokenRepository :=
  match parseBearerToken (header.getD "") with
  | .error failure => (.error failure, repository)
  | .ok value =>
    let (cached, authCache) := repository.authCache.get value surroundings.accessed
    match cached with
    | some token =>
      let (token, repository) := { repository with authCache }.populateIfTtl surroundings token
      match checkToken token clientIp surroundings.now with
      | .error failure =>
        (.error failure, { repository with authCache := (repository.authCache.remove value).2 })
      | .ok () => (.ok token, repository)
    | none =>
      match repository.repo.find? fun token => verifyTokenSecret token.value value with
      | none => (.error (unauthorized "Invalid token"), repository)
      | some token =>
        let (token, repository) := repository.populateIfTtl surroundings token
        match checkToken token clientIp surroundings.now with
        | .error failure => (.error failure, repository)
        | .ok () =>
          (.ok token,
            { repository with
              authCache := (repository.authCache.insert value token surroundings.accessed surroundings.checked
                surroundings.cacheOrder).2 })

inductive Call where
  | generateToken (name : String) (request : TokenCreateRequest)
  | updateToken (token : Token)
  | removeToken (name : String)
  | rotateToken (name : String)
  | removeBucketFromTokens (bucket : String)
  | renameBucket (oldName newName : String)
  | validateToken (header : Option String) (clientIp : Option IpAddr)

def perform (repository : TokenRepository) : Call × Surroundings → TokenRepository
  | (.generateToken name request, surroundings) => (repository.generateToken name request surroundings).2
  | (.updateToken token, surroundings) => (repository.updateToken token surroundings).2
  | (.removeToken name, surroundings) => (repository.removeToken name surroundings).2
  | (.rotateToken name, surroundings) => (repository.rotateToken name surroundings).2
  | (.removeBucketFromTokens bucket, surroundings) => (repository.removeBucketFromTokens bucket surroundings).2
  | (.renameBucket oldName newName, surroundings) => (repository.renameBucket oldName newName surroundings).2
  | (.validateToken header clientIp, surroundings) => (repository.validateToken header clientIp surroundings).2

def decideFromMap (repository : TokenRepository) (header : Option String) (clientIp : Option IpAddr)
    (surroundings : Surroundings) : Except ReductError Token :=
  (repository.clearAuthCache.validateToken header clientIp surroundings).1

structure Agrees (stored cached : Token) : Prop where
  fields : cached = { stored with lastAccess := cached.lastAccess }
  access : stored.ttl = none → cached.lastAccess = stored.lastAccess

def Coherent (repository : TokenRepository) : Prop :=
  ∀ value cached, (value, cached) ∈ Cache.pairs repository.authCache.store →
    ∃ stored, repository.repo.find? (fun token => verifyTokenSecret token.value value) = some stored ∧
      Agrees stored cached

omit [Platform] in
theorem populateIfTtl_agrees (repository : TokenRepository) (surroundings : Surroundings) (stored : Token) :
    Agrees stored (repository.populateIfTtl surroundings stored).1 := by
  unfold populateIfTtl
  split
  · next timed => exact ⟨rfl, fun none => by simp [none] at timed⟩
  · exact ⟨rfl, fun _ => rfl⟩

omit [Platform] in
theorem Agrees.populateIfTtl {stored cached : Token} (agrees : Agrees stored cached) (repository : TokenRepository)
    (surroundings : Surroundings) :
    repository.populateIfTtl surroundings cached = repository.populateIfTtl surroundings stored := by
  obtain ⟨fields, access⟩ := agrees
  generalize cached.lastAccess = last at fields access
  subst fields
  unfold TokenRepository.populateIfTtl
  by_cases timed : stored.ttl.isSome
  · rw [if_pos timed, if_pos timed]
    rfl
  · have same : last = stored.lastAccess := access (Option.not_isSome_iff_eq_none.mp timed)
    subst same
    rfl

omit [Platform] in
theorem refresh_frame (repository : TokenRepository) (surroundings : Surroundings) (cache : Cache String Token) :
    ({ repository with authCache := cache }).refreshLastAccessCacheIfNeeded surroundings =
      { repository.refreshLastAccessCacheIfNeeded surroundings with authCache := cache } ∧
    (repository.refreshLastAccessCacheIfNeeded surroundings).repo = repository.repo ∧
    (repository.refreshLastAccessCacheIfNeeded surroundings).authCache = repository.authCache := by
  unfold refreshLastAccessCacheIfNeeded
  by_cases fresh : repository.lastAccessIsFresh surroundings.instant
  · rw [if_pos fresh]
    exact ⟨if_pos fresh, rfl, rfl⟩
  · rw [if_neg fresh]
    refine ⟨(if_neg fresh).trans ?_, ?_, ?_⟩ <;> cases surroundings.audit <;> rfl

omit [Platform] in
theorem populateIfTtl_frame (repository : TokenRepository) (surroundings : Surroundings) (cache : Cache String Token)
    (token : Token) :
    (({ repository with authCache := cache }).populateIfTtl surroundings token).1 =
      (repository.populateIfTtl surroundings token).1 ∧
    (repository.populateIfTtl surroundings token).2.repo = repository.repo ∧
    (repository.populateIfTtl surroundings token).2.authCache = repository.authCache := by
  obtain ⟨same, sameRepo, sameCache⟩ := refresh_frame repository surroundings cache
  unfold populateIfTtl
  split
  · refine ⟨?_, sameRepo, sameCache⟩
    simp only [populateTokenLastAccess, same]
  · exact ⟨rfl, rfl, rfl⟩

theorem coherent_empty {repository : TokenRepository} (empty : repository.authCache.store = []) :
    repository.Coherent := by
  intro value cached member
  rw [empty] at member
  exact absurd member List.not_mem_nil

theorem Coherent.of_subset {before after : TokenRepository} (coherent : before.Coherent) (repo : after.repo = before.repo)
    (fewer : ∀ pair ∈ Cache.pairs after.authCache.store, pair ∈ Cache.pairs before.authCache.store) : after.Coherent := by
  intro value cached member
  rw [repo]
  exact coherent value cached (fewer _ member)

theorem validateToken_coherent {repository : TokenRepository} (coherent : repository.Coherent)
    (header : Option String) (clientIp : Option IpAddr) (surroundings : Surroundings) :
    (repository.validateToken header clientIp surroundings).1 =
      repository.decideFromMap header clientIp surroundings ∧
    (repository.validateToken header clientIp surroundings).2.Coherent := by
  unfold decideFromMap validateToken
  cases parsed : parseBearerToken (header.getD "") with
  | error failure => exact ⟨rfl, coherent⟩
  | ok value =>
    have missed : (repository.clearAuthCache.authCache.get value surroundings.accessed).1 = none := rfl
    have sameRepo : repository.clearAuthCache.repo = repository.repo := rfl
    simp only [missed, sameRepo]
    cases hit : (repository.authCache.get value surroundings.accessed).1 with
    | some cached =>
      obtain ⟨stored, found, agrees⟩ := coherent value cached (Cache.mem_of_find hit)
      have values : Cache.pairs (repository.authCache.get value surroundings.accessed).2.store =
          Cache.pairs repository.authCache.store := Cache.pairs_get _ _
      generalize (repository.authCache.get value surroundings.accessed).2 = authCache at values
      obtain ⟨cleared, kept, keptCache⟩ := populateIfTtl_frame { repository with authCache } surroundings
        { repository.authCache with store := [] } stored
      simp only [found, agrees.populateIfTtl, clearAuthCache, cleared]
      have content (pair : String × Token) : pair ∈ Cache.pairs
          ({ repository with authCache }.populateIfTtl surroundings stored).2.authCache.store ↔
            pair ∈ Cache.pairs repository.authCache.store := by rw [keptCache, values]
      cases checkToken ({ repository with authCache }.populateIfTtl surroundings stored).1 clientIp surroundings.now with
      | error failure =>
        exact ⟨rfl, coherent.of_subset kept fun pair member => (content pair).mp (Cache.mem_of_mem_remove member)⟩
      | ok passed => exact ⟨rfl, coherent.of_subset kept fun pair member => (content pair).mp member⟩
    | none =>
      cases found : repository.repo.find? fun token => verifyTokenSecret token.value value with
      | none => exact ⟨rfl, coherent⟩
      | some stored =>
        obtain ⟨same, kept, keptCache⟩ := populateIfTtl_frame repository surroundings
          { repository.authCache with store := [] } stored
        simp only [clearAuthCache, same]
        cases checkToken (repository.populateIfTtl surroundings stored).1 clientIp surroundings.now with
        | error failure => exact ⟨rfl, coherent.of_subset kept fun pair member => keptCache ▸ member⟩
        | ok passed =>
          refine ⟨rfl, fun key cached member => ?_⟩
          dsimp only at member ⊢
          rw [kept]
          rw [keptCache] at member
          rcases Cache.mem_of_mem_insert member with new | old
          · cases new
            exact ⟨stored, found, populateIfTtl_agrees repository surroundings stored⟩
          · exact coherent key cached old

def Mutates (repository : TokenRepository) (surroundings : Surroundings) (after : TokenRepository) : Prop :=
  after = repository ∨ ∃ changed : TokenRepository, changed.authCache = repository.authCache ∧
    after = (changed.saveAndClear surroundings ()).2

theorem Mutates.coherent {repository after : TokenRepository} {surroundings : Surroundings}
    (mutates : repository.Mutates surroundings after) (coherent : repository.Coherent)
    (saved : surroundings.save = .ok () ∨ repository.authCache.store = []) : after.Coherent := by
  rcases mutates with rfl | ⟨changed, sameCache, rfl⟩
  · exact coherent
  · apply coherent_empty
    unfold saveAndClear
    rcases saved with saved | empty
    · rw [saved]
      rfl
    · cases surroundings.save with
      | error failure => rwa [sameCache]
      | ok done => rfl

omit [Platform] in
theorem mutates_saveAndClear {Result : Type} {repository changed : TokenRepository} {surroundings : Surroundings}
    (result : Result) (sameCache : changed.authCache = repository.authCache) :
    repository.Mutates surroundings (changed.saveAndClear surroundings result).2 := by
  refine .inr ⟨changed, sameCache, ?_⟩
  unfold saveAndClear
  cases surroundings.save <;> rfl

theorem mutates_generateToken (repository : TokenRepository) (name : String) (request : TokenCreateRequest)
    (surroundings : Surroundings) :
    repository.Mutates surroundings (repository.generateToken name request surroundings).2 := by
  simp only [generateToken]
  repeat' split
  all_goals first | exact .inl rfl | exact mutates_saveAndClear _ rfl

theorem mutates_updateToken (repository : TokenRepository) (token : Token) (surroundings : Surroundings) :
    repository.Mutates surroundings (repository.updateToken token surroundings).2 := by
  unfold updateToken
  repeat' split
  all_goals first | exact .inl rfl | exact mutates_saveAndClear _ rfl

omit [Platform] in
theorem mutates_removeToken (repository : TokenRepository) (name : String) (surroundings : Surroundings) :
    repository.Mutates surroundings (repository.removeToken name surroundings).2 := by
  simp only [removeToken]
  repeat' split
  all_goals first | exact .inl rfl | exact mutates_saveAndClear _ rfl

theorem mutates_rotateToken (repository : TokenRepository) (name : String) (surroundings : Surroundings) :
    repository.Mutates surroundings (repository.rotateToken name surroundings).2 := by
  simp only [rotateToken]
  repeat' split
  all_goals first | exact .inl rfl | exact mutates_saveAndClear _ rfl

omit [Platform] in
def SavedOrUncached (repository : TokenRepository) : Call × Surroundings → Prop
  | (.validateToken _ _, _) => True
  | (_, surroundings) => surroundings.save = .ok () ∨ repository.authCache.store = []

theorem coherent_perform {repository : TokenRepository} (coherent : repository.Coherent)
    (operation : Call × Surroundings) (allowed : repository.SavedOrUncached operation) :
    (repository.perform operation).Coherent := by
  obtain ⟨call, surroundings⟩ := operation
  cases call with
  | generateToken name request =>
    exact (mutates_generateToken repository name request surroundings).coherent coherent allowed
  | updateToken token => exact (mutates_updateToken repository token surroundings).coherent coherent allowed
  | removeToken name => exact (mutates_removeToken repository name surroundings).coherent coherent allowed
  | rotateToken name => exact (mutates_rotateToken repository name surroundings).coherent coherent allowed
  | removeBucketFromTokens bucket =>
    have mutates : repository.Mutates surroundings (repository.removeBucketFromTokens bucket surroundings).2 :=
      mutates_saveAndClear _ rfl
    exact mutates.coherent coherent allowed
  | renameBucket oldName newName =>
    have mutates : repository.Mutates surroundings (repository.renameBucket oldName newName surroundings).2 :=
      mutates_saveAndClear _ rfl
    exact mutates.coherent coherent allowed
  | validateToken header clientIp => exact (validateToken_coherent coherent header clientIp surroundings).2

theorem decideFromMap_stored {repository : TokenRepository} {header : Option String} {clientIp : Option IpAddr}
    {surroundings : Surroundings} {token : Token}
    (accepted : repository.decideFromMap header clientIp surroundings = .ok token) :
    ∃ value stored, parseBearerToken (header.getD "") = .ok value ∧ stored ∈ repository.repo ∧
      verifyTokenSecret stored.value value = true ∧ stored.permissions = token.permissions := by
  unfold decideFromMap validateToken at accepted
  cases parsed : parseBearerToken (header.getD "") with
  | error failure => simp [parsed] at accepted
  | ok value =>
    have missed : (repository.clearAuthCache.authCache.get value surroundings.accessed).1 = none := rfl
    cases found : repository.clearAuthCache.repo.find? fun token => verifyTokenSecret token.value value with
    | none => simp [parsed, missed, found] at accepted
    | some stored =>
      have agrees := populateIfTtl_agrees repository.clearAuthCache surroundings stored
      simp only [parsed, missed, found] at accepted
      split at accepted
      · cases accepted
      · cases accepted
        refine ⟨value, stored, rfl, List.mem_of_find?_eq_some found, ?_, ?_⟩
        · simpa using List.find?_some found
        · rw [agrees.fields]

end Calls

section Example

instance plainPlatform : Platform where
  sha256 _ := []
  parseIp _ := none
  renderIp _ := ""

instance (repository : TokenRepository) (operation : Call × Surroundings) :
    Decidable (repository.SavedOrUncached operation) :=
  match operation with
  | (.validateToken _ _, _) => isTrue trivial
  | (.generateToken _ _, _) | (.updateToken _, _) | (.removeToken _, _) | (.rotateToken _, _)
  | (.removeBucketFromTokens _, _) | (.renameBucket _ _, _) => inferInstanceAs (Decidable (_ ∨ _))

def quietCall (save : Except ReductError Unit) : Surroundings :=
  { now := 0, instant := 0, secret := "", salt := .ok [], save, arrangement := ⟨id, fun _ => .refl _⟩
    audit := .noStorage, accessed := 0, checked := fun _ => 0, cacheOrder := ⟨id, fun _ => .refl _⟩ }

def plainToken : Token :=
  { name := "reader", value := "secret", createdAt := 0
    permissions := some { fullAccess := false, read := ["data"], write := [] }, isProvisioned := false
    expiresAt := none, ttl := none, lastAccess := none, ipAllowlist := [] }

def usedAndRemoved (save : Except ReductError Unit) : List (Call × Surroundings) :=
  [(.validateToken (some "Bearer secret") none, quietCall (.ok ())), (.removeToken "reader", quietCall save)]

end Example

end TokenRepository

end ReductStore.Auth
