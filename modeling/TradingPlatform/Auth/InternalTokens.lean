import Mathlib.Data.Rat.Floor
import TradingPlatform.Base.ExpiringStore
import TradingPlatform.Base.JsonText
import TradingPlatform.Base.Text

/-! # Tokens between services

A request carries the HMAC of what it asks for. The nonce of each accepted request is a key that
expires. Times are in seconds since the epoch; headers are read as Latin-1.
-/

namespace TradingPlatform.Auth

open Base

inductive AuthMode where
  | enforce | logOnly
  deriving DecidableEq

/-- The environment; a variable that is not set is empty. -/
structure InternalAuth where
  mode : AuthMode
  tolerance : ℤ
  allowedServiceIds : List String
  globalSecret : String
  serviceSecrets : String → String

/-- The two digests, in hex. -/
structure TokenHashing where
  hmac : String → String → String
  sha256 : List UInt8 → String

def lowerChar (c : Char) : Char :=
  if c.isUpper ∨ (192 ≤ c.toNat ∧ c.toNat ≤ 222 ∧ c.toNat ≠ 215) then Char.ofNat (c.toNat + 32)
  else c

def upperChar (c : Char) : List Char := if c = 'ß' then ['S', 'S'] else [c.toUpper]

/-- `re.sub(r"[^A-Z0-9_]", "_", service_id.upper())` -/
def serviceKey (serviceId : String) : String :=
  String.ofList ((serviceId.toList.flatMap upperChar).map fun c =>
    if c.isUpper ∨ c.isDigit ∨ c = '_' then c else '_')

/-- `_get_service_secret` -/
def InternalAuth.serviceSecret (config : InternalAuth) (serviceId : String) : String :=
  if config.serviceSecrets (serviceKey serviceId) ≠ "" then
    config.serviceSecrets (serviceKey serviceId)
  else config.globalSecret

/-- `_is_service_id_allowed` -/
def InternalAuth.allows (config : InternalAuth) (serviceId : String) : Bool :=
  String.ofList (serviceId.toList.map lowerChar) ∈ config.allowedServiceIds

/-- What Redis does with a command: it replies, or the call raises and the command may have run. -/
inductive RedisAnswer where
  | replies | raises (executed : Bool)
  deriving DecidableEq

/-- Headers that are absent are `none`; a body that cannot be read is `none`. -/
structure InternalRequest where
  token : Option String
  timestamp : Option String
  nonce : Option String
  serviceId : Option String
  userId : Option String
  strategyId : Option String
  bodyHash : Option String
  method : String
  path : String
  query : String
  body : Option (List UInt8)
  redis : RedisAnswer

structure InternalTokenClaims where
  serviceId : String
  userId : Option String
  strategyId : Option String
  nonce : String
  timestamp : ℤ
  deriving DecidableEq

inductive AuthError where
  /-- Redis failed in enforce mode. -/
  | serviceUnavailable
  /-- `hmac.compare_digest` refuses texts that are not ASCII. -/
  | typeError
  deriving DecidableEq

/-! ## The signature -/

structure TokenPayload where
  serviceId : String
  method : String
  path : String
  query : String
  timestamp : String
  nonce : String
  userId : String
  strategyId : String
  bodyHash : String
  deriving DecidableEq

/-- `json.dumps(payload_dict, separators=(",", ":"), sort_keys=True)` -/
def TokenPayload.text (payload : TokenPayload) : String :=
  jsonDumps (sortKeys
    [("service_id", payload.serviceId), ("method", payload.method), ("path", payload.path),
      ("query", payload.query), ("timestamp", payload.timestamp), ("nonce", payload.nonce),
      ("user_id", payload.userId), ("strategy_id", payload.strategyId),
      ("body_hash", payload.bodyHash)])

theorem TokenPayload.text_inj {payload payload' : TokenPayload} :
    payload.text = payload'.text ↔ payload = payload' := by
  constructor
  · intro h
    have hmembers := jsonDumps_inj.mp h
    simp [sortKeys] at hmembers
    cases payload
    cases payload'
    simp_all
  · intro h
    rw [h]

def compareDigest (a b : String) : Except AuthError Bool :=
  if (a.toList.all fun c => c.toNat < 128) ∧ (b.toList.all fun c => c.toNat < 128) then
    .ok (a = b)
  else .error .typeError

/-- `_verify_hmac_signature` -/
def verifyHmacSignature (H : TokenHashing) (config : InternalAuth) (token : String)
    (payload : TokenPayload) : Except AuthError Bool :=
  if config.serviceSecret payload.serviceId = "" then .ok false
  else compareDigest token (H.hmac (config.serviceSecret payload.serviceId) payload.text)

/-! ## The checks -/

/-- A text that is empty counts as absent. -/
def given (text : Option String) : Option String := text.filter fun s => s ≠ ""

/-- `int(timestamp)` reads no more than 4300 digits. -/
def parseTimestamp (timestamp : String) : Option ℤ :=
  if (timestamp.toList.filter Char.isDigit).length ≤ 4300 then parseInt timestamp else none

/-- The timestamp, if it is within the tolerance. -/
def timestampInRange (tolerance : ℤ) (timestamp : String) (now : ℚ) : Option ℤ :=
  (parseTimestamp timestamp).filter fun ts => |⌊now⌋ - ts| ≤ tolerance

def bodyMethods : List String := ["POST", "PUT", "PATCH", "DELETE"]

/-- The body is read for the four methods only; in `log_only` mode it need not be readable. -/
def bodyVerified (H : TokenHashing) (mode : AuthMode) (method : String)
    (bodyHash : Option String) (body : Option (List UInt8)) : Bool :=
  match given bodyHash with
  | none => String.ofList (method.toList.map Char.toUpper) ∉ bodyMethods
  | some hash =>
      if method ∈ bodyMethods then
        match body with
        | some bytes => H.sha256 bytes = hash
        | none => mode = .logOnly
      else hash = H.sha256 []

def nonceKey (serviceId nonce : String) : String :=
  "internal_nonce:" ++ serviceId ++ ":" ++ nonce

inductive NonceResult where
  | ok | nonceTooLong | replayDetected
  deriving DecidableEq

def maxNonceLength : ℕ := 128

abbrev NonceStore := ExpiringStore String Unit

/-- `_check_nonce_unique` -/
def checkNonceUnique (nonces : NonceStore) (now : ℚ) (redis : RedisAnswer)
    (nonce serviceId : String) (toleranceSeconds : ℤ) (mode : AuthMode) :
    NonceStore × Except AuthError NonceResult :=
  if maxNonceLength < nonce.length then (nonces, .ok .nonceTooLong)
  else
    let written := nonces.setNx now (nonceKey serviceId nonce) (toleranceSeconds * 2) ()
    match redis with
    | .replies => (written.1, .ok (if written.2 then .ok else .replayDetected))
    | .raises executed =>
        (if executed then written.1 else nonces,
          match mode with
          | .enforce => .error .serviceUnavailable
          | .logOnly => .ok .ok)

def InternalRequest.payload (request : InternalRequest) (serviceId timestamp nonce : String) :
    TokenPayload where
  serviceId
  method := request.method
  path := request.path
  query := request.query
  timestamp
  nonce
  userId := request.userId.getD ""
  strategyId := request.strategyId.getD ""
  bodyHash := request.bodyHash.getD ""

/-- The checks that come before the nonce's; the claims are what the request then stands for. -/
def verifyRequest (H : TokenHashing) (config : InternalAuth) (now : ℚ)
    (request : InternalRequest) : Except AuthError (Option InternalTokenClaims) :=
  match given request.token, given request.timestamp, given request.nonce,
    given request.serviceId with
  | some token, some timestamp, some nonce, some serviceId =>
      if config.allows serviceId then
        match timestampInRange config.tolerance timestamp now with
        | none => .ok none
        | some ts =>
            match verifyHmacSignature H config token
              (request.payload serviceId timestamp nonce) with
            | .error error => .error error
            | .ok false => .ok none
            | .ok true =>
                if bodyVerified H config.mode request.method request.bodyHash request.body then
                  .ok (some ⟨serviceId, request.userId, request.strategyId, nonce, ts⟩)
                else .ok none
      else .ok none
  | _, _, _, _ => .ok none

def verifyInternalToken (H : TokenHashing) (config : InternalAuth) (nonces : NonceStore) (now : ℚ)
    (request : InternalRequest) :
    NonceStore × Except AuthError (Option InternalTokenClaims) :=
  match verifyRequest H config now request with
  | .error error => (nonces, .error error)
  | .ok none => (nonces, .ok none)
  | .ok (some claims) =>
      let checked := checkNonceUnique nonces now request.redis claims.nonce claims.serviceId
        config.tolerance config.mode
      (checked.1, checked.2.map fun result => if result = .ok then some claims else none)

/-! ## What an accepted request is -/

/-- What the checks before the nonce's establish. -/
structure Verifies (H : TokenHashing) (config : InternalAuth) (now : ℚ) (request : InternalRequest)
    (claims : InternalTokenClaims) (token timestamp : String) : Prop where
  hasToken : given request.token = some token
  hasTimestamp : given request.timestamp = some timestamp
  hasNonce : given request.nonce = some claims.nonce
  hasService : given request.serviceId = some claims.serviceId
  allowed : config.allows claims.serviceId = true
  parsed : parseTimestamp timestamp = some claims.timestamp
  inRange : |⌊now⌋ - claims.timestamp| ≤ config.tolerance
  signed : verifyHmacSignature H config token
    (request.payload claims.serviceId timestamp claims.nonce) = .ok true
  body : bodyVerified H config.mode request.method request.bodyHash request.body = true
  userId : claims.userId = request.userId
  strategyId : claims.strategyId = request.strategyId

variable {H : TokenHashing} {config : InternalAuth} {now : ℚ} {request : InternalRequest}
  {claims : InternalTokenClaims} {nonces : NonceStore}

theorem timestampInRange_eq_some {tolerance ts : ℤ} {timestamp : String} :
    timestampInRange tolerance timestamp now = some ts ↔
      parseTimestamp timestamp = some ts ∧ |⌊now⌋ - ts| ≤ tolerance := by
  rw [timestampInRange, Option.filter_eq_some_iff, decide_eq_true_eq]

theorem verifyHmacSignature_eq_true {token : String} {payload : TokenPayload}
    (h : verifyHmacSignature H config token payload = .ok true) :
    config.serviceSecret payload.serviceId ≠ "" ∧
      token = H.hmac (config.serviceSecret payload.serviceId) payload.text := by
  unfold verifyHmacSignature at h
  split at h
  · cases h
  · rename_i hsecret
    unfold compareDigest at h
    split at h
    · exact ⟨hsecret, of_decide_eq_true (Except.ok.inj h)⟩
    · cases h

/-- A body that must be signed is the one whose digest the header has. -/
theorem bodyVerified_eq_true {method : String} {bodyHash : Option String}
    {body : Option (List UInt8)} (hmethod : method ∈ bodyMethods)
    (h : bodyVerified H .enforce method bodyHash body = true) :
    ∃ bytes, body = some bytes ∧ H.sha256 bytes = bodyHash.getD "" := by
  unfold bodyVerified at h
  split at h
  · have hupper : ∀ m ∈ bodyMethods, String.ofList (m.toList.map Char.toUpper) ∈ bodyMethods := by
      decide
    exact absurd (hupper method hmethod) (of_decide_eq_true h)
  · rename_i hash hgiven
    have hheader : bodyHash = some hash := (Option.filter_eq_some_iff.mp hgiven).1
    rw [if_pos hmethod] at h
    split at h
    · rename_i bytes
      refine ⟨bytes, rfl, ?_⟩
      rw [hheader]
      exact of_decide_eq_true h
    · cases h

theorem verifyRequest_eq_some : verifyRequest H config now request = .ok (some claims) ↔
    ∃ token timestamp, Verifies H config now request claims token timestamp := by
  constructor
  · intro h
    unfold verifyRequest at h
    split at h
    · rename_i token timestamp nonce serviceId htoken htimestamp hnonce hservice
      split at h
      · rename_i hallowed
        split at h
        · cases h
        · rename_i ts hts
          have ⟨hparsed, hrange⟩ := timestampInRange_eq_some.mp hts
          split at h
          · cases h
          · cases h
          · rename_i hsigned
            split at h
            · rename_i hbody
              cases h
              exact ⟨token, timestamp, htoken, htimestamp, hnonce, hservice, hallowed, hparsed,
                hrange, hsigned, hbody, rfl, rfl⟩
            · cases h
      · cases h
    · cases h
  · intro ⟨token, timestamp, h⟩
    have hts := timestampInRange_eq_some.mpr ⟨h.parsed, h.inRange⟩
    unfold verifyRequest
    simp only [h.hasToken, h.hasTimestamp, h.hasNonce, h.hasService, h.allowed, if_true, hts,
      h.signed, h.body, ← h.userId, ← h.strategyId]

theorem checkNonceUnique_eq_ok {redis : RedisAnswer} {nonce serviceId : String} {tolerance : ℤ} :
    (checkNonceUnique nonces now redis nonce serviceId tolerance .enforce).2 = .ok .ok ↔
      nonce.length ≤ maxNonceLength ∧ redis = .replies ∧
        nonces.get now (nonceKey serviceId nonce) = none := by
  unfold checkNonceUnique
  split
  · rename_i hlong
    apply iff_of_false
    · intro h
      cases h
    · intro ⟨hshort, _⟩
      exact absurd hlong (not_lt.mpr hshort)
  · rename_i hshort
    cases redis with
    | raises executed =>
        apply iff_of_false
        · intro h
          cases h
        · intro ⟨_, hredis, _⟩
          cases hredis
    | replies =>
        rw [← @ExpiringStore.setNx_eq_true _ _ _ _ () _ (tolerance * 2)]
        dsimp only
        split
        · rename_i hset
          exact iff_of_true rfl ⟨not_lt.mp hshort, rfl, hset⟩
        · rename_i hkept
          apply iff_of_false
          · intro h
            cases h
          · intro ⟨_, _, hset⟩
            exact hkept hset

theorem checkNonceUnique_sets {nonce serviceId : String} {tolerance : ℤ} {mode : AuthMode}
    (hshort : nonce.length ≤ maxNonceLength)
    (hfree : nonces.get now (nonceKey serviceId nonce) = none) :
    (checkNonceUnique nonces now .replies nonce serviceId tolerance mode).1 =
      nonces.setex now (nonceKey serviceId nonce) (tolerance * 2) () := by
  unfold checkNonceUnique
  rw [if_neg (not_lt.mpr hshort), ExpiringStore.setNx_of_none hfree]

/-- In enforce mode a request is accepted if its checks pass and its nonce's key is free. -/
theorem verifyInternalToken_eq_some (henforce : config.mode = .enforce) :
    (verifyInternalToken H config nonces now request).2 = .ok (some claims) ↔
      verifyRequest H config now request = .ok (some claims) ∧
        claims.nonce.length ≤ maxNonceLength ∧ request.redis = .replies ∧
        nonces.get now (nonceKey claims.serviceId claims.nonce) = none := by
  unfold verifyInternalToken
  split
  · rename_i hverify
    simp [hverify]
  · rename_i hverify
    simp [hverify]
  · rename_i found hverify
    rw [hverify, henforce]
    dsimp only
    constructor
    · intro h
      cases hresult : (checkNonceUnique nonces now request.redis found.nonce found.serviceId
          config.tolerance .enforce).2 with
      | error error =>
          rw [hresult] at h
          cases h
      | ok result =>
          rw [hresult] at h
          cases result with
          | ok =>
              cases h
              exact ⟨rfl, checkNonceUnique_eq_ok.mp hresult⟩
          | nonceTooLong => cases h
          | replayDetected => cases h
    · intro ⟨hfound, hnonce⟩
      cases hfound
      rw [checkNonceUnique_eq_ok.mpr hnonce]
      rfl

/-- Redis has set a free nonce's key, or nothing. -/
theorem verifyInternalToken_store :
    (verifyInternalToken H config nonces now request).1 = nonces ∨
      ∃ key, (verifyInternalToken H config nonces now request).1 =
        (nonces.setNx now key (config.tolerance * 2) ()).1 := by
  unfold verifyInternalToken
  split
  · exact Or.inl rfl
  · exact Or.inl rfl
  · rename_i found _
    unfold checkNonceUnique
    split
    · exact Or.inl rfl
    · dsimp only
      split
      · exact Or.inr ⟨nonceKey found.serviceId found.nonce, rfl⟩
      · rename_i executed _
        cases executed with
        | false => exact Or.inl rfl
        | true => exact Or.inr ⟨nonceKey found.serviceId found.nonce, rfl⟩

/-- An accepted request has set its nonce's key. -/
theorem verifyInternalToken_sets (henforce : config.mode = .enforce)
    (h : (verifyInternalToken H config nonces now request).2 = .ok (some claims)) :
    (verifyInternalToken H config nonces now request).1 =
      nonces.setex now (nonceKey claims.serviceId claims.nonce) (config.tolerance * 2) () := by
  have ⟨hverify, hshort, hredis, hfree⟩ := (verifyInternalToken_eq_some henforce).mp h
  unfold verifyInternalToken
  rw [hverify, hredis]
  exact checkNonceUnique_sets hshort hfree

end TradingPlatform.Auth
