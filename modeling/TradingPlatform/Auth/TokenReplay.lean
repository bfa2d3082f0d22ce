import TradingPlatform.Auth.InternalTokens
import TradingPlatform.Base.Run

/-! # Replayed service tokens

The nonce's key lives for twice the tolerance from the time of the request, and the timestamp is
accepted until the end of its last second. A token that is accepted in the first second of its
time is accepted again in the last.
-/

namespace TradingPlatform.Auth

open Base

structure TokenIdentity where
  serviceId : String
  timestamp : ℤ
  nonce : String
  signature : String
  deriving DecidableEq

structure AcceptedToken where
  token : TokenIdentity
  acceptedAt : ℚ
  deriving DecidableEq

/-- The keys, and the tokens accepted so far. -/
structure TokenRun where
  nonces : NonceStore
  accepted : List AcceptedToken

def TokenRun.start (nonces : NonceStore) : TokenRun := ⟨nonces, []⟩

structure Presented where
  request : InternalRequest
  now : ℚ

/-- What a request presents as its token, if it can be read. -/
def InternalRequest.identity (request : InternalRequest) : Option TokenIdentity :=
  match given request.token, given request.timestamp, given request.nonce,
    given request.serviceId with
  | some token, some timestamp, some nonce, some serviceId =>
      (parseTimestamp timestamp).map fun ts => ⟨serviceId, ts, nonce, token⟩
  | _, _, _, _ => none

/-- The claims that the call returns. -/
def TokenRun.verified (H : TokenHashing) (config : InternalAuth) (s : TokenRun) (p : Presented) :
    Option InternalTokenClaims :=
  match (verifyInternalToken H config s.nonces p.now p.request).2 with
  | .ok claims => claims
  | .error _ => none

def tokenStep (H : TokenHashing) (config : InternalAuth) (s : TokenRun) (p : Presented) :
    TokenRun where
  nonces := (verifyInternalToken H config s.nonces p.now p.request).1
  accepted :=
    match s.verified H config p, p.request.identity with
    | some _, some token => ⟨token, p.now⟩ :: s.accepted
    | _, _ => s.accepted

def NotReplayed (H : TokenHashing) (config : InternalAuth) (s : TokenRun) (p : Presented) : Prop :=
  s.verified H config p ≠ none → ∀ a ∈ s.accepted, p.request.identity ≠ some a.token

instance (H : TokenHashing) (config : InternalAuth) (s : TokenRun) (p : Presented) :
    Decidable (NotReplayed H config s p) :=
  inferInstanceAs (Decidable (s.verified H config p ≠ none →
    ∀ a ∈ s.accepted, p.request.identity ≠ some a.token))

/-! ## What is signed -/

/-- A call that a client makes. -/
structure SignedCall where
  serviceId : String
  method : String
  path : String
  query : String
  timestamp : String
  nonce : String
  userId : String
  strategyId : String
  body : List UInt8

def SignedCall.payload (H : TokenHashing) (call : SignedCall) : TokenPayload :=
  ⟨call.serviceId, call.method, call.path, call.query, call.timestamp, call.nonce, call.userId,
    call.strategyId, H.sha256 call.body⟩

/-- A token that is the HMAC of a text was made by a holder of the secret, for a call of it. -/
def Unforged (H : TokenHashing) (signed : String → SignedCall → Prop) (request : InternalRequest) :
    Prop :=
  ∀ secret text, secret ≠ "" → request.token = some (H.hmac secret text) →
    ∃ call, signed secret call ∧ (call.payload H).text = text

/-- An accepted request is a call that a holder of its service's secret has signed. -/
def AsSigned (H : TokenHashing) (config : InternalAuth) (signed : String → SignedCall → Prop)
    (s : TokenRun) (p : Presented) : Prop :=
  ∀ claims, s.verified H config p = some claims →
    ∃ call, signed (config.serviceSecret claims.serviceId) call ∧
      call.serviceId = claims.serviceId ∧ call.nonce = claims.nonce ∧
      call.method = p.request.method ∧ call.path = p.request.path ∧
      call.query = p.request.query ∧ call.userId = p.request.userId.getD "" ∧
      call.strategyId = p.request.strategyId.getD "" ∧
      (p.request.method ∈ bodyMethods → p.request.body = some call.body)

/-- An accepted token is not presented again, or before its key expires, or when its timestamp
is past the tolerance. -/
def Spaced (config : InternalAuth) (s : TokenRun) (p : Presented) : Prop :=
  ∀ a ∈ s.accepted, p.request.identity = some a.token →
    p.now < a.acceptedAt + config.tolerance * 2 ∨
      a.token.timestamp + config.tolerance < ⌊p.now⌋

instance (config : InternalAuth) (s : TokenRun) (p : Presented) : Decidable (Spaced config s p) :=
  inferInstanceAs (Decidable (∀ a ∈ s.accepted, p.request.identity = some a.token →
    p.now < a.acceptedAt + config.tolerance * 2 ∨
      a.token.timestamp + config.tolerance < ⌊p.now⌋))

variable {H : TokenHashing} {config : InternalAuth} {s : TokenRun} {p : Presented}
  {claims : InternalTokenClaims}

/-! ## One request -/

theorem verified_eq_some : s.verified H config p = some claims ↔
    (verifyInternalToken H config s.nonces p.now p.request).2 = .ok (some claims) := by
  unfold TokenRun.verified
  cases (verifyInternalToken H config s.nonces p.now p.request).2 with
  | error error => exact iff_of_false (Option.some_ne_none claims).symm nofun
  | ok found => exact ⟨congrArg Except.ok, Except.ok.inj⟩

theorem identity_of_verifies {now : ℚ} {request : InternalRequest} {token timestamp : String}
    (h : Verifies H config now request claims token timestamp) :
    request.identity = some ⟨claims.serviceId, claims.timestamp, claims.nonce, token⟩ := by
  unfold InternalRequest.identity
  simp only [h.hasToken, h.hasTimestamp, h.hasNonce, h.hasService, h.parsed, Option.map_some]

/-- What holds of an accepted request. -/
theorem accepted_spec (henforce : config.mode = .enforce)
    (h : s.verified H config p = some claims) :
    ∃ token timestamp, Verifies H config p.now p.request claims token timestamp ∧
      p.request.identity = some ⟨claims.serviceId, claims.timestamp, claims.nonce, token⟩ ∧
      s.nonces.get p.now (nonceKey claims.serviceId claims.nonce) = none := by
  obtain ⟨hverify, _, _, hfree⟩ :=
    (verifyInternalToken_eq_some henforce).mp (verified_eq_some.mp h)
  obtain ⟨token, timestamp, hverifies⟩ := verifyRequest_eq_some.mp hverify
  exact ⟨token, timestamp, hverifies, identity_of_verifies hverifies, hfree⟩

theorem asSigned {signed : String → SignedCall → Prop} (henforce : config.mode = .enforce)
    (hsha : Function.Injective H.sha256) (hunforged : Unforged H signed p.request) :
    AsSigned H config signed s p := by
  intro claims hverified
  obtain ⟨token, timestamp, h, _, _⟩ := accepted_spec henforce hverified
  have ⟨hsecret, htoken⟩ := verifyHmacSignature_eq_true h.signed
  have hpresented : p.request.token = some token := (Option.filter_eq_some_iff.mp h.hasToken).1
  rw [htoken] at hpresented
  obtain ⟨call, hsigned, htext⟩ := hunforged _ _ hsecret hpresented
  have hpayload := TokenPayload.text_inj.mp htext
  refine ⟨call, hsigned, congrArg TokenPayload.serviceId hpayload,
    congrArg TokenPayload.nonce hpayload, congrArg TokenPayload.method hpayload,
    congrArg TokenPayload.path hpayload, congrArg TokenPayload.query hpayload,
    congrArg TokenPayload.userId hpayload, congrArg TokenPayload.strategyId hpayload, ?_⟩
  intro hmethod
  have hhash : H.sha256 call.body = p.request.bodyHash.getD "" :=
    congrArg TokenPayload.bodyHash hpayload
  have hbody := h.body
  rw [henforce] at hbody
  obtain ⟨bytes, hread, hbytes⟩ := bodyVerified_eq_true hmethod hbody
  rw [hread, hsha (hhash.trans hbytes.symm)]

/-! ## The invariant -/

/-- The key of each accepted nonce is there, and stays for its time to live. -/
def Remembered (config : InternalAuth) (s : TokenRun) : Prop :=
  ∀ a ∈ s.accepted, s.nonces.LivesUntil (nonceKey a.token.serviceId a.token.nonce)
    (a.acceptedAt + config.tolerance * 2)

theorem remembered_step (henforce : config.mode = .enforce) (htolerance : 0 ≤ config.tolerance)
    (h : Remembered config s) : Remembered config (tokenStep H config s p) := by
  have httl : (0 : ℚ) ≤ config.tolerance * 2 := by
    have : (0 : ℚ) ≤ config.tolerance := Int.cast_nonneg htolerance
    linarith
  have hkept : ∀ a ∈ s.accepted, (tokenStep H config s p).nonces.LivesUntil
      (nonceKey a.token.serviceId a.token.nonce) (a.acceptedAt + config.tolerance * 2) := by
    intro a ha
    rcases @verifyInternalToken_store H config p.now p.request s.nonces with hsame | ⟨key, hset⟩
    · rw [tokenStep, hsame]
      exact h a ha
    · rw [tokenStep, hset]
      exact (h a ha).setNx httl
  cases hverified : s.verified H config p with
  | none =>
      have hsame : (tokenStep H config s p).accepted = s.accepted := by
        rw [tokenStep, hverified]
      intro a ha
      rw [hsame] at ha
      exact hkept a ha
  | some claims =>
      obtain ⟨token, _, _, hidentity, _⟩ := accepted_spec henforce hverified
      have hnew : (tokenStep H config s p).accepted =
          ⟨⟨claims.serviceId, claims.timestamp, claims.nonce, token⟩, p.now⟩ :: s.accepted := by
        rw [tokenStep, hverified, hidentity]
      intro a ha
      rw [hnew] at ha
      rcases List.mem_cons.mp ha with heq | hold
      · rw [heq, tokenStep, verifyInternalToken_sets henforce (verified_eq_some.mp hverified)]
        exact ExpiringStore.livesUntil_setex
      · exact hkept a hold

theorem notReplayed (henforce : config.mode = .enforce) (h : Remembered config s)
    (hspaced : Spaced config s p) : NotReplayed H config s p := by
  intro hverified a ha hidentity
  obtain ⟨claims, hclaims⟩ := Option.ne_none_iff_exists'.mp hverified
  obtain ⟨token, timestamp, hverifies, hsame, hfree⟩ := accepted_spec henforce hclaims
  have htoken : a.token = ⟨claims.serviceId, claims.timestamp, claims.nonce, token⟩ :=
    Option.some.inj (hidentity.symm.trans hsame)
  rcases hspaced a ha hidentity with hearly | hlate
  · apply (h a ha).get_ne_none hearly
    rw [htoken]
    exact hfree
  · rw [htoken] at hlate
    have hrange := (abs_le.mp hverifies.inRange).2
    dsimp only at hlate
    omega

/-! ## A token presented twice -/

/-- The checks before the nonce's depend on the time by the tolerance only. -/
theorem Verifies.later {now now' : ℚ} {request : InternalRequest} {token timestamp : String}
    (h : Verifies H config now request claims token timestamp) (hlater : now ≤ now')
    (hrange : ⌊now'⌋ ≤ claims.timestamp + config.tolerance) :
    Verifies H config now' request claims token timestamp := by
  have hfloor : ⌊now⌋ ≤ ⌊now'⌋ := Int.floor_mono hlater
  have hbefore := (abs_le.mp h.inRange).1
  have hinRange : |⌊now'⌋ - claims.timestamp| ≤ config.tolerance := by
    rw [abs_le]
    constructor <;> omega
  exact { h with inRange := hinRange }

theorem claims_unique {now now' : ℚ} {request : InternalRequest} {claims' : InternalTokenClaims}
    {token timestamp token' timestamp' : String}
    (h : Verifies H config now request claims token timestamp)
    (h' : Verifies H config now' request claims' token' timestamp') :
    claims'.serviceId = claims.serviceId ∧ claims'.nonce = claims.nonce ∧
      claims'.timestamp = claims.timestamp := by
  have hsame := (identity_of_verifies h').symm.trans (identity_of_verifies h)
  cases claims
  cases claims'
  simp_all

/-- An accepted token that is presented next at `now'` is accepted again just if its key has
expired and its timestamp is within the tolerance. -/
theorem accepted_again_iff (henforce : config.mode = .enforce)
    (h : s.verified H config p = some claims) {now' : ℚ} (hlater : p.now ≤ now') :
    (tokenStep H config s p).verified H config ⟨p.request, now'⟩ ≠ none ↔
      p.now + config.tolerance * 2 ≤ now' ∧ ⌊now'⌋ ≤ claims.timestamp + config.tolerance := by
  obtain ⟨hverify, hshort, hredis, _⟩ :=
    (verifyInternalToken_eq_some henforce).mp (verified_eq_some.mp h)
  obtain ⟨token, timestamp, hverifies⟩ := verifyRequest_eq_some.mp hverify
  have hstore : (tokenStep H config s p).nonces =
      s.nonces.setex p.now (nonceKey claims.serviceId claims.nonce) (config.tolerance * 2) () :=
    verifyInternalToken_sets henforce (verified_eq_some.mp h)
  constructor
  · intro hagain
    obtain ⟨claims', hclaims⟩ := Option.ne_none_iff_exists'.mp hagain
    obtain ⟨token', timestamp', hverifies', _, hfree⟩ := accepted_spec henforce hclaims
    have ⟨hservice, hnonce, htimestamp⟩ := claims_unique hverifies hverifies'
    rw [hservice, hnonce, hstore] at hfree
    constructor
    · by_contra hlive
      exact ExpiringStore.livesUntil_setex.get_ne_none (not_le.mp hlive) hfree
    · have hrange := (abs_le.mp hverifies'.inRange).2
      dsimp only at hrange
      omega
  · intro ⟨hexpired, hrange⟩
    apply Option.ne_none_iff_exists'.mpr
    refine ⟨claims, verified_eq_some.mpr ((verifyInternalToken_eq_some henforce).mpr
      ⟨verifyRequest_eq_some.mpr ⟨token, timestamp, hverifies.later hlater hrange⟩, hshort, hredis,
        ?_⟩)⟩
    rw [hstore]
    exact ExpiringStore.get_setex_self hexpired

/-- Requests in a run whose accepted tokens come again only while their key lives, or out of
tolerance, are accepted once, as they were signed; and a token comes too late for its key just if
it comes `2 * tolerance` seconds later and is still within the tolerance. -/
theorem tokens_are_single_use (H : TokenHashing) (config : InternalAuth)
    (henforce : config.mode = .enforce) (htolerance : 0 < config.tolerance)
    (hsha : Function.Injective H.sha256) (signed : String → SignedCall → Prop)
    (nonces : NonceStore) (requests : List Presented)
    (hunforged : ∀ p ∈ requests, Unforged H signed p.request) :
    (EachStep (tokenStep H config) (Spaced config) (.start nonces) requests →
      EachStep (tokenStep H config) (NotReplayed H config) (.start nonces) requests) ∧
    EachStep (tokenStep H config) (AsSigned H config signed) (.start nonces) requests ∧
    ∀ s p claims now', s.verified H config p = some claims → p.now ≤ now' →
      ((tokenStep H config s p).verified H config ⟨p.request, now'⟩ ≠ none ↔
        p.now + config.tolerance * 2 ≤ now' ∧ ⌊now'⌋ ≤ claims.timestamp + config.tolerance) := by
  refine ⟨?_, ?_, fun s p claims now' h hlater => accepted_again_iff henforce h hlater⟩
  · intro hspaced
    have hstep : ∀ s p, Remembered config s → Spaced config s p →
        Remembered config (tokenStep H config s p) ∧ NotReplayed H config s p :=
      fun s p h hp => ⟨remembered_step henforce htolerance.le h, notReplayed henforce h hp⟩
    have hstart : Remembered config (.start nonces) := fun a ha => absurd ha List.not_mem_nil
    exact (everyState_and_eachStep hstep hstart hspaced).2
  · exact EachStep.mono (fun s p h => asSigned henforce hsha h)
      (eachStep_of_forall hunforged _)

/-! ## An order placed twice -/

/-- Digests that show what they are of, with one secret. -/
def plainHashing : TokenHashing where
  hmac := fun secret text => if secret = "secret" then text else ""
  sha256 := fun bytes => String.ofList ('#' :: bytes.map fun b => Char.ofNat b.toNat)

theorem plainHashing_injective : Function.Injective plainHashing.sha256 := by
  intro bytes bytes' h
  have hchars := (List.cons.inj (String.ofList_injective h)).2
  refine List.map_injective_iff.mpr ?_ hchars
  intro b b' hchar
  have hsmall : ∀ b : UInt8, (Char.ofNat b.toNat).toNat = b.toNat := by
    intro b
    have hlt := b.toNat_lt
    rw [Char.ofNat, dif_pos (Or.inl (by omega))]
    rfl
  have hnat := congrArg Char.toNat hchar
  rw [hsmall, hsmall] at hnat
  exact UInt8.toNat_inj.mp hnat

def orderCall : SignedCall :=
  ⟨"orchestrator", "POST", "/api/v1/orders", "", "1000", "n-1", "alice", "", [123, 125]⟩

def orderAuth : InternalAuth := ⟨.enforce, 300, ["orchestrator"], "secret", fun _ => ""⟩

def orderRequest : InternalRequest where
  token := some (plainHashing.hmac "secret" (orderCall.payload plainHashing).text)
  timestamp := some "1000"
  nonce := some "n-1"
  serviceId := some "orchestrator"
  userId := some "alice"
  strategyId := none
  bodyHash := some (plainHashing.sha256 [123, 125])
  method := "POST"
  path := "/api/v1/orders"
  query := ""
  body := some [123, 125]
  redis := .replies

/-- Only the orchestrator has the secret, and it has signed one call. -/
theorem orderRequest_unforged :
    Unforged plainHashing (fun secret call => secret = "secret" ∧ call = orderCall)
      orderRequest := by
  intro secret text _ htoken
  by_cases hsecret : secret = "secret"
  · subst hsecret
    exact ⟨orderCall, ⟨rfl, rfl⟩, Option.some.inj htoken⟩
  · have hempty : (orderCall.payload plainHashing).text = "" := by
      have htext := Option.some.inj htoken
      simpa only [plainHashing, hsecret, if_true, if_false] using htext
    exact absurd hempty (by decide +kernel)

/-- The same request again while the key lives. -/
theorem tokens_are_single_use_order :
    EachStep (tokenStep plainHashing orderAuth) (NotReplayed plainHashing orderAuth)
        (.start .empty) [⟨orderRequest, 700⟩, ⟨orderRequest, 701⟩] ∧
      EachStep (tokenStep plainHashing orderAuth)
        (AsSigned plainHashing orderAuth fun secret call => secret = "secret" ∧ call = orderCall)
        (.start .empty) [⟨orderRequest, 700⟩, ⟨orderRequest, 701⟩] := by
  have h := tokens_are_single_use plainHashing orderAuth rfl (by decide) plainHashing_injective
    (fun secret call => secret = "secret" ∧ call = orderCall) .empty
    [⟨orderRequest, 700⟩, ⟨orderRequest, 701⟩] (by
      intro p hp
      have hrequest : p.request = orderRequest := by
        rcases List.mem_pair.mp hp with heq | heq <;> rw [heq]
      rw [hrequest]
      exact orderRequest_unforged)
  exact ⟨h.1 (by decide +kernel), h.2.1⟩

/-- The same request at the first and in the last second of its time. -/
theorem order_is_accepted_twice :
    Unforged plainHashing (fun secret call => secret = "secret" ∧ call = orderCall)
        orderRequest ∧
      ¬EachStep (tokenStep plainHashing orderAuth) (NotReplayed plainHashing orderAuth)
        (.start .empty) [⟨orderRequest, 700⟩, ⟨orderRequest, 1300⟩] := by
  refine ⟨orderRequest_unforged, ?_⟩
  intro h
  have hreplayed : NotReplayed plainHashing orderAuth
      (tokenStep plainHashing orderAuth (.start .empty) ⟨orderRequest, 700⟩)
      ⟨orderRequest, 1300⟩ := h.2.1
  exact absurd hreplayed (by decide +kernel)

end TradingPlatform.Auth
