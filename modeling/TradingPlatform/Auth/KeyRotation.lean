import TradingPlatform.Auth.SessionStore
import TradingPlatform.Base.Attempt
import TradingPlatform.Base.Base64
import TradingPlatform.Base.Run
import Mathlib.Data.Rat.Encodable
import Mathlib.Logic.Equiv.List
import Mathlib.Tactic.Linarith
import Mathlib.Tactic.Push

/-! # Keys of the session store that are rotated

A store encrypts with its primary key. While keys are rotated it also has the key before as its
secondary key, which it tries where the primary key fails with a `ValueError` or a `TypeError`. The
cipher reports a wrong key with neither.
-/

namespace TradingPlatform.Auth

open Base

/-- The classes of what a call raises. Errors of base64, of UTF-8 and of the validation are
`ValueError`s, `InvalidTag` derives from `Exception`. -/
inductive StoreError where
  | valueError | typeError | invalidTag
  deriving DecidableEq, Repr

/-- `except (ValueError, TypeError)` -/
def StoreError.caught : StoreError → Bool
  | .valueError | .typeError => true
  | .invalidTag => false

/-- AES-256 keys, whose length `__init__` checks. -/
abbrev EncryptionKey := { key : Bytes // key.length = 32 }

abbrev Nonce := { nonce : Bytes // nonce.length = 12 }

/-- `AESGCM` and the JSON of the session model. -/
structure SessionLibraries where
  encrypt : EncryptionKey → Bytes → Bytes → Bytes
  decrypt : EncryptionKey → Bytes → Bytes → Except StoreError Bytes
  modelDumpJson : SessionData → String
  modelValidateJson : String → Except StoreError SessionData

/-- The right key returns the plaintext, all else raises `InvalidTag`; a session that is dumped is
validated as the session it was. -/
structure SessionLibraries.Lawful (lib : SessionLibraries) : Prop where
  right : ∀ key nonce plain, lib.decrypt key nonce (lib.encrypt key nonce plain) = .ok plain
  wrong : ∀ key key' nonce plain, key' ≠ key →
    lib.decrypt key' nonce (lib.encrypt key nonce plain) = .error .invalidTag
  raises : ∀ key nonce text e, lib.decrypt key nonce text = .error e → e = .invalidTag
  dumped : ∀ data, lib.modelValidateJson (lib.modelDumpJson data) = .ok data

structure RedisSessionStore where
  primary : EncryptionKey
  secondary : Option EncryptionKey
  config : StoreConfig

/-- `_encrypt` -/
def SessionLibraries.encryptText (lib : SessionLibraries) (key : EncryptionKey) (nonce : Nonce)
    (text : String) : String :=
  Base64.encode (nonce.val ++ lib.encrypt key nonce.val (utf8Encode text))

/-- `cipher.decrypt(nonce, ciphertext, None).decode()` -/
def SessionLibraries.decryptText (lib : SessionLibraries) (key : EncryptionKey) (blob : Bytes) :
    Except StoreError String :=
  match lib.decrypt key (blob.take 12) (blob.drop 12) with
  | .error e => .error e
  | .ok plain =>
      match utf8Decode plain with
      | none => .error .valueError
      | some text => .ok text

/-- `_decrypt`: the secondary key is tried for the errors that are caught. -/
def RedisSessionStore.decrypt (lib : SessionLibraries) (store : RedisSessionStore)
    (encrypted : String) : Except StoreError String :=
  match Base64.decode encrypted with
  | none => .error .valueError
  | some blob =>
      match lib.decryptText store.primary blob with
      | .ok text => .ok text
      | .error e =>
          if e.caught then
            match store.secondary with
            | some key => lib.decryptText key blob
            | none => .error e
          else .error e

/-- What `get_session` does under its `try`. -/
def RedisSessionStore.load (lib : SessionLibraries) (store : RedisSessionStore)
    (stored : Bytes) : Except StoreError SessionData :=
  match utf8Decode stored with
  | none => .error .valueError
  | some encrypted =>
      match store.decrypt lib encrypted with
      | .error e => .error e
      | .ok text => lib.modelValidateJson text

/-- The value of a session's key and when it expires. -/
abbrev SealedKey := Option (Bytes × ℚ)

def readSealed (key : SealedKey) (now : ℚ) : Option Bytes :=
  match key with
  | none => none
  | some (stored, expiry) => if now < expiry then some stored else none

def RedisSessionStore.sealed (lib : SessionLibraries) (store : RedisSessionStore) (nonce : Nonce)
    (data : SessionData) : Bytes :=
  utf8Encode (lib.encryptText store.primary nonce (lib.modelDumpJson data))

/-- `redis.setex` -/
def setex (stored : Bytes) (expiry : ℚ) : Attempt SealedKey StoreError Unit :=
  Attempt.modify fun _ => some (stored, expiry)

def deleteSealed : Attempt SealedKey StoreError Unit := Attempt.modify fun _ => none

def RedisSessionStore.getSession (lib : SessionLibraries) (store : RedisSessionStore)
    (call : GetCall) (now : ℚ) (nonce : Nonce) :
    Attempt SealedKey StoreError (Option SessionData) := do
  let key ← Attempt.get
  match readSealed key now with
  | none => return none
  | some stored =>
      if stored = [] then return none
      else
        match store.load lib stored with
        | .error e => if e.caught then return none else Attempt.fail e
        | .ok data =>
            if data.refused store.config call now then
              deleteSealed
              return none
            else if call.updateActivity then
              let data := data.update (activity now)
              setex (store.sealed lib nonce data) (now + remainingSeconds store.config data now)
              return some data
            else return some data

/-- `_persist_session` reads the clock again. -/
def RedisSessionStore.updateSessionFields (lib : SessionLibraries) (store : RedisSessionStore)
    (updates : FieldUpdates) (now persistedAt : ℚ) (nonce : Nonce) :
    Attempt SealedKey StoreError Bool := do
  match ← store.getSession lib .forUpdate now nonce with
  | none => return false
  | some data =>
      let data := data.update updates
      setex (store.sealed lib nonce data)
        (persistedAt + remainingSeconds store.config data persistedAt)
      return true

def RedisSessionStore.createSession (lib : SessionLibraries) (store : RedisSessionStore)
    (data : SessionData) (now : ℚ) (nonce : Nonce) : Attempt SealedKey StoreError Unit :=
  setex (store.sealed lib nonce data) (now + ⌊store.config.absoluteTimeout⌋)

/-- A call, and the store of the process that makes it. -/
structure StoreAction where
  store : RedisSessionStore
  call : StoreCall
  now : ℚ
  persistedAt : ℚ
  nonce : Nonce

/-- What a call leaves of the key. -/
def sealedStep (lib : SessionLibraries) (key : SealedKey) (a : StoreAction) : SealedKey :=
  match a.call with
  | .getSession call => (a.store.getSession lib call a.now a.nonce key).2
  | .updateSessionFields updates =>
      (a.store.updateSessionFields lib updates a.now a.persistedAt a.nonce key).2
  | .createSession data => (a.store.createSession lib data a.now a.nonce key).2
  | .deleteSession => (deleteSealed key).2
  | .cleanupAllSessions batches => if batches = 0 then key else (deleteSealed key).2

/-! ## The promise of a rotation -/

/-- The value is a session as a store with this primary key writes it. -/
def SealedWith (lib : SessionLibraries) (key : EncryptionKey) (data : SessionData)
    (stored : Bytes) : Prop :=
  ∃ nonce : Nonce, stored = utf8Encode (lib.encryptText key nonce (lib.modelDumpJson data))

/-- The value is base64 of something that the key decrypts. -/
def Decrypts (lib : SessionLibraries) (key : EncryptionKey) (stored : Bytes) : Prop :=
  ∃ encrypted blob plain, utf8Decode stored = some encrypted ∧
    Base64.decode encrypted = some blob ∧
      lib.decrypt key (blob.take 12) (blob.drop 12) = .ok plain

/-- The value is empty, or no base64. -/
def Undecodable (stored : Bytes) : Prop :=
  stored = [] ∨ (utf8Decode stored).bind Base64.decode = none

/-- The session as a call returns it. -/
def GetCall.returned (call : GetCall) (data : SessionData) (now : ℚ) : SessionData :=
  if call.updateActivity then data.update (activity now) else data

/-- Before it expires or times out, the session is returned to every caller it is bound to. -/
def RedisSessionStore.ReadsBack (lib : SessionLibraries) (store : RedisSessionStore)
    (key : SealedKey) (data : SessionData) : Prop :=
  ∀ call now nonce, (readSealed key now).isSome → data.refused store.config call now = false →
    (store.getSession lib call now nonce key).1 = .ok (some (call.returned data now))

/-- The store after the rotation. -/
def RedisSessionStore.alone (store : RedisSessionStore) : RedisSessionStore :=
  { store with secondary := none }

/-- What a rewrite of the session leaves is read by the primary key alone. -/
structure RedisSessionStore.Rewrites (lib : SessionLibraries) (store : RedisSessionStore)
    (key : SealedKey) (data : SessionData) : Prop where
  activity : ∀ call now nonce, (readSealed key now).isSome →
    data.refused store.config call now = false → call.updateActivity →
      store.alone.ReadsBack lib (store.getSession lib call now nonce key).2
        (data.update (activity now))
  fields : ∀ updates now persistedAt nonce, (readSealed key now).isSome →
    data.refused store.config .forUpdate now = false →
      store.alone.ReadsBack lib
        (store.updateSessionFields lib updates now persistedAt nonce key).2 (data.update updates)

/-- Sessions under the secondary key are read and move to the primary key; what neither key
decrypts is no session. -/
structure RedisSessionStore.Rotates (lib : SessionLibraries) (store : RedisSessionStore)
    (key : SealedKey) : Prop where
  readable : ∀ old data stored expiry, store.secondary = some old → key = some (stored, expiry) →
    SealedWith lib old data stored → store.ReadsBack lib key data ∧ store.Rewrites lib key data
  undecryptable : ∀ stored expiry, key = some (stored, expiry) →
    ¬Decrypts lib store.primary stored →
      (∀ old, store.secondary = some old → ¬Decrypts lib old stored) →
        ∀ call now nonce, (store.getSession lib call now nonce key).1 = .ok none

/-! ## What a value is read as -/

variable {lib : SessionLibraries} {store : RedisSessionStore} {key old : EncryptionKey}
  {data : SessionData} {stored : Bytes} {expiry now : ℚ}

theorem SealedWith.decoded (h : SealedWith lib key data stored) : ∃ (encrypted : String)
    (nonce : Nonce), utf8Decode stored = some encrypted ∧ Base64.decode encrypted =
      some (nonce.val ++ lib.encrypt key nonce.val (utf8Encode (lib.modelDumpJson data))) := by
  obtain ⟨nonce, hstored⟩ := h
  refine ⟨lib.encryptText key nonce (lib.modelDumpJson data), nonce, ?_, ?_⟩
  · rw [hstored, utf8Decode_utf8Encode]
  · rw [SessionLibraries.encryptText, Base64.decode_encode]

theorem Nonce.take_append (nonce : Nonce) (text : Bytes) :
    (nonce.val ++ text).take 12 = nonce.val :=
  List.take_left' nonce.property

theorem Nonce.drop_append (nonce : Nonce) (text : Bytes) :
    (nonce.val ++ text).drop 12 = text :=
  List.drop_left' nonce.property

theorem SealedWith.not_undecodable (h : SealedWith lib key data stored) :
    ¬Undecodable stored := by
  obtain ⟨encrypted, nonce, htext, hblob⟩ := h.decoded
  have hlength := nonce.property
  rintro (hempty | hbase)
  · have hnil : utf8Decode stored = some "" := by
      rw [hempty]
      exact utf8Decode_utf8Encode ""
    have hsame : encrypted = "" := by simpa [htext] using hnil
    have hnone : Base64.decode "" = some [] := rfl
    rw [hsame, hnone, Option.some.injEq] at hblob
    have hzero := congrArg List.length hblob
    simp only [List.length_nil, List.length_append] at hzero
    omega
  · rw [htext, Option.bind_some, hblob] at hbase
    cases hbase

theorem SealedWith.decrypts (hlib : lib.Lawful) (h : SealedWith lib key data stored) :
    Decrypts lib key stored := by
  obtain ⟨encrypted, nonce, htext, hblob⟩ := h.decoded
  refine ⟨encrypted, _, utf8Encode (lib.modelDumpJson data), htext, hblob, ?_⟩
  rw [nonce.take_append, nonce.drop_append]
  exact hlib.right key _ _

/-- Only the key that a value is sealed with decrypts it. -/
theorem SealedWith.key_unique (hlib : lib.Lawful) (h : SealedWith lib old data stored)
    (hkey : Decrypts lib key stored) : key = old := by
  obtain ⟨encrypted, nonce, htext, hblob⟩ := h.decoded
  obtain ⟨encrypted', blob, plain, htext', hblob', hplain⟩ := hkey
  rw [htext, Option.some.injEq] at htext'
  rw [← htext', hblob, Option.some.injEq] at hblob'
  rw [← hblob', nonce.take_append, nonce.drop_append] at hplain
  by_contra hne
  rw [hlib.wrong old key _ _ hne] at hplain
  cases hplain

theorem load_of_sealed (hlib : lib.Lawful) (h : SealedWith lib store.primary data stored) :
    store.load lib stored = .ok data := by
  obtain ⟨encrypted, nonce, htext, hblob⟩ := h.decoded
  have hplain : lib.decryptText store.primary (nonce.val ++ lib.encrypt store.primary nonce.val
      (utf8Encode (lib.modelDumpJson data))) = .ok (lib.modelDumpJson data) := by
    simp [SessionLibraries.decryptText, nonce.take_append, nonce.drop_append, hlib.right]
  simp [RedisSessionStore.load, RedisSessionStore.decrypt, htext, hblob, hplain, hlib.dumped]

/-- A wrong primary key is not caught, so the secondary key is never tried. -/
theorem load_of_not_decrypts (hlib : lib.Lawful) (hdecodes : ¬Undecodable stored)
    (hkey : ¬Decrypts lib store.primary stored) :
    store.load lib stored = .error .invalidTag := by
  simp only [Undecodable, not_or] at hdecodes
  obtain ⟨blob, hblob⟩ := Option.ne_none_iff_exists'.mp hdecodes.2
  obtain ⟨encrypted, htext, hbase⟩ := Option.bind_eq_some_iff.mp hblob
  have htag : lib.decryptText store.primary blob = .error .invalidTag := by
    cases hplain : lib.decrypt store.primary (blob.take 12) (blob.drop 12) with
    | ok plain => exact absurd ⟨encrypted, blob, plain, htext, hbase, hplain⟩ hkey
    | error e =>
        have htag := hlib.raises _ _ _ _ hplain
        simp [SessionLibraries.decryptText, hplain, htag]
  simp [RedisSessionStore.load, RedisSessionStore.decrypt, htext, hbase, htag, StoreError.caught]

theorem load_of_undecodable (h : (utf8Decode stored).bind Base64.decode = none) :
    store.load lib stored = .error .valueError := by
  unfold RedisSessionStore.load
  cases htext : utf8Decode stored with
  | none => rfl
  | some encrypted =>
      rw [htext, Option.bind_some] at h
      simp [RedisSessionStore.decrypt, h]

/-! ## What a call returns and leaves -/

theorem readSealed_eq_some {key : SealedKey} (h : readSealed key now = some stored) :
    ∃ expiry, key = some (stored, expiry) := by
  unfold readSealed at h
  split at h
  · cases h
  · rename_i value expiry
    split at h
    · cases h
      exact ⟨expiry, rfl⟩
    · cases h

theorem getSession_of_gone {key : SealedKey} {call : GetCall} {nonce : Nonce}
    (h : readSealed key now = none) :
    store.getSession lib call now nonce key = (.ok none, key) := by
  simp [RedisSessionStore.getSession, Attempt.bind_apply, h]

theorem getSession_of_empty {key : SealedKey} {call : GetCall} {nonce : Nonce}
    (h : readSealed key now = some []) :
    store.getSession lib call now nonce key = (.ok none, key) := by
  simp [RedisSessionStore.getSession, Attempt.bind_apply, h]

theorem getSession_of_error {key : SealedKey} {call : GetCall} {nonce : Nonce} {e : StoreError}
    (h : readSealed key now = some stored) (hne : stored ≠ [])
    (hload : store.load lib stored = .error e) :
    store.getSession lib call now nonce key =
      (if e.caught then .ok none else .error e, key) := by
  cases hcaught : e.caught <;>
    simp [RedisSessionStore.getSession, Attempt.bind_apply, h, hne, hload, hcaught]

theorem getSession_of_ok {key : SealedKey} {call : GetCall} {nonce : Nonce}
    (h : readSealed key now = some stored) (hne : stored ≠ [])
    (hload : store.load lib stored = .ok data) :
    store.getSession lib call now nonce key =
      if data.refused store.config call now then (.ok none, none)
      else (.ok (some (call.returned data now)),
        if call.updateActivity then
          some (store.sealed lib nonce (data.update (activity now)),
            now + remainingSeconds store.config (data.update (activity now)) now)
        else key) := by
  cases hrefused : data.refused store.config call now <;>
    cases hactivity : call.updateActivity <;>
    simp [RedisSessionStore.getSession, Attempt.bind_apply, h, hne, hload, hrefused, hactivity,
      deleteSealed, setex, GetCall.returned]

/-! ## When a rotation keeps its promise -/

theorem ne_nil_of_sealed (h : SealedWith lib key data stored) : stored ≠ [] :=
  fun hempty => h.not_undecodable (Or.inl hempty)

theorem sealed_sealedWith (nonce : Nonce) :
    SealedWith lib store.primary data (store.sealed lib nonce data) := ⟨nonce, rfl⟩

theorem readSealed_of_isSome (h : (readSealed (some (stored, expiry)) now).isSome) :
    readSealed (some (stored, expiry)) now = some stored := by
  simp only [readSealed] at h ⊢
  split
  · rfl
  · simp_all

theorem readsBack_of_primary (hlib : lib.Lawful) (h : SealedWith lib store.primary data stored) :
    store.ReadsBack lib (some (stored, expiry)) data := by
  intro call now nonce hlive hrefused
  rw [getSession_of_ok (readSealed_of_isSome hlive) (ne_nil_of_sealed h) (load_of_sealed hlib h),
    hrefused]
  simp

theorem rewrites_of_primary (hlib : lib.Lawful) (h : SealedWith lib store.primary data stored) :
    store.Rewrites lib (some (stored, expiry)) data := by
  constructor
  · intro call now nonce hlive hrefused hactivity
    rw [getSession_of_ok (readSealed_of_isSome hlive) (ne_nil_of_sealed h)
      (load_of_sealed hlib h), hrefused]
    simp only [Bool.false_eq_true, if_false, hactivity, if_true]
    exact readsBack_of_primary hlib (sealed_sealedWith nonce)
  · intro updates now persistedAt nonce hlive hrefused
    have hread : store.getSession lib .forUpdate now nonce (some (stored, expiry)) =
        (.ok (some data), some (stored, expiry)) := by
      rw [getSession_of_ok (readSealed_of_isSome hlive) (ne_nil_of_sealed h)
        (load_of_sealed hlib h), hrefused]
      rfl
    unfold RedisSessionStore.updateSessionFields
    rw [Attempt.bind_of_ok hread]
    exact readsBack_of_primary hlib (sealed_sealedWith nonce)

/-- A time at which a session has not expired and has not timed out. -/
theorem exists_live (config : StoreConfig) (data : SessionData) (stored : Bytes) (expiry : ℚ) :
    ∃ now, (readSealed (some (stored, expiry)) now).isSome ∧
      data.refused config ⟨none, none, true⟩ now = false := by
  let limit := min (expiry - 1) (min (data.lastActivity + config.idleTimeout)
    (data.createdAt + config.absoluteTimeout))
  have hexpiry : limit < expiry := by
    have hle : limit ≤ expiry - 1 := min_le_left _ _
    linarith
  have hidle : limit - data.lastActivity ≤ config.idleTimeout := by
    have hle : limit ≤ data.lastActivity + config.idleTimeout :=
      (min_le_right _ _).trans (min_le_left _ _)
    linarith
  have habsolute : limit - data.createdAt ≤ config.absoluteTimeout := by
    have hle : limit ≤ data.createdAt + config.absoluteTimeout :=
      (min_le_right _ _).trans (min_le_right _ _)
    linarith
  refine ⟨limit, ?_, ?_⟩
  · simp [readSealed, hexpiry]
  · simp [SessionData.refused, mismatch, hidle, habsolute]

/-- The value can be read, but the primary key does not decrypt it. -/
theorem getSession_of_not_decrypts (hlib : lib.Lawful) (hdecodes : ¬Undecodable stored)
    (hkey : ¬Decrypts lib store.primary stored) (call : GetCall) (nonce : Nonce)
    (hlive : (readSealed (some (stored, expiry)) now).isSome) :
    store.getSession lib call now nonce (some (stored, expiry)) =
      (.error .invalidTag, some (stored, expiry)) := by
  have hload := load_of_not_decrypts hlib hdecodes hkey
  rw [getSession_of_error (readSealed_of_isSome hlive) (fun h => hdecodes (Or.inl h)) hload]
  rfl

theorem rotates_iff (hlib : lib.Lawful) : store.Rotates lib (some (stored, expiry)) ↔
    Undecodable stored ∨ Decrypts lib store.primary stored ∨
      ∃ old, store.secondary = some old ∧ Decrypts lib old stored ∧
        ∀ data, ¬SealedWith lib old data stored := by
  constructor
  · intro h
    by_contra hneither
    simp only [not_or, not_exists, not_and] at hneither
    obtain ⟨hdecodes, hprimary, hsealed⟩ := hneither
    by_cases hsecondary : ∃ old, store.secondary = some old ∧ Decrypts lib old stored
    · obtain ⟨old, hold, hdecrypts⟩ := hsecondary
      have hsession := hsealed old hold hdecrypts
      push Not at hsession
      obtain ⟨data, hdata⟩ := hsession
      obtain ⟨now, hlive, hrefused⟩ := exists_live store.config data stored expiry
      have hread := (h.readable old data stored expiry hold rfl hdata).1 _ now
        ⟨List.replicate 12 0, rfl⟩ hlive hrefused
      rw [getSession_of_not_decrypts hlib hdecodes hprimary _ _ hlive] at hread
      cases hread
    · have hlive : (readSealed (some (stored, expiry)) (expiry - 1)).isSome := by
        simp [readSealed]
      have hread := h.undecryptable stored expiry rfl hprimary
        (fun old hold hdecrypts => hsecondary ⟨old, hold, hdecrypts⟩) .forUpdate (expiry - 1)
        ⟨List.replicate 12 0, rfl⟩
      rw [getSession_of_not_decrypts hlib hdecodes hprimary _ _ hlive] at hread
      cases hread
  · intro h
    constructor
    · intro old data stored' expiry' hold hkey hsealed
      cases hkey
      rcases h with hdecodes | hprimary | ⟨old', hold', _, hsession⟩
      · exact absurd hdecodes hsealed.not_undecodable
      · have hsame := hsealed.key_unique hlib hprimary
        rw [← hsame] at hsealed
        exact ⟨readsBack_of_primary hlib hsealed, rewrites_of_primary hlib hsealed⟩
      · rw [hold, Option.some.injEq] at hold'
        exact absurd hsealed (hold' ▸ hsession data)
    · intro stored' expiry' hkey hprimary hsecondary call now nonce
      cases hkey
      rcases h with hdecodes | hdecrypts | ⟨old, hold, hdecrypts, _⟩
      · cases hread : readSealed (some (stored, expiry)) now with
        | none => rw [getSession_of_gone hread]
        | some value =>
            obtain ⟨_, hvalue⟩ := readSealed_eq_some hread
            cases hvalue
            by_cases hempty : stored = []
            · rw [hempty] at hread ⊢
              rw [getSession_of_empty hread]
            · have hload : store.load lib stored = .error .valueError :=
                load_of_undecodable (hdecodes.resolve_left hempty)
              rw [getSession_of_error hread hempty hload]
              rfl
      · exact absurd hdecrypts hprimary
      · exact absurd hdecrypts (hsecondary old hold)

/-! ## Runs of writers -/

/-- The key is empty or holds a session under the given key. -/
def SealedBy (lib : SessionLibraries) (key : EncryptionKey) (s : SealedKey) : Prop :=
  ∀ stored expiry, s = some (stored, expiry) → ∃ data, SealedWith lib key data stored

theorem SealedBy.none : SealedBy lib key none := by
  intro stored expiry h
  cases h

theorem SealedBy.rotates (hlib : lib.Lawful) {s : SealedKey}
    (h : SealedBy lib store.primary s) : store.Rotates lib s := by
  cases s with
  | none =>
      constructor
      · intro old data stored expiry _ h
        cases h
      · intro stored expiry h
        cases h
  | some value =>
      obtain ⟨data, hdata⟩ := h value.1 value.2 rfl
      exact (rotates_iff hlib).mpr (Or.inr (Or.inl (hdata.decrypts hlib)))

/-- A call returns a session only where its store has the key. -/
theorem SealedBy.getSession (hlib : lib.Lawful) {s : SealedKey} (h : SealedBy lib key s)
    (call : GetCall) (now : ℚ) (nonce : Nonce) :
    SealedBy lib key (store.getSession lib call now nonce s).2 ∧
      ∀ data, (store.getSession lib call now nonce s).1 = .ok (some data) →
        store.primary = key := by
  cases hread : readSealed s now with
  | none =>
      rw [getSession_of_gone hread]
      refine ⟨h, ?_⟩
      intro data hsome
      cases hsome
  | some stored =>
      obtain ⟨expiry, rfl⟩ := readSealed_eq_some hread
      obtain ⟨data, hdata⟩ := h stored expiry rfl
      by_cases hkey : store.primary = key
      · refine ⟨?_, fun _ _ => hkey⟩
        rw [← hkey] at h hdata ⊢
        rw [getSession_of_ok hread (ne_nil_of_sealed hdata) (load_of_sealed hlib hdata)]
        split
        · exact .none
        · split
          · intro stored' expiry' hwritten
            cases hwritten
            exact ⟨_, sealed_sealedWith nonce⟩
          · exact h
      · have hdecrypts : ¬Decrypts lib store.primary stored :=
          fun hdecrypts => hkey (hdata.key_unique hlib hdecrypts)
        rw [getSession_of_not_decrypts hlib hdata.not_undecodable hdecrypts call nonce (by
          rw [hread]
          rfl)]
        refine ⟨h, ?_⟩
        intro data' hsome
        cases hsome

theorem SealedBy.sealedStep (hlib : lib.Lawful) {s : SealedKey} (h : SealedBy lib key s)
    {a : StoreAction} (hcreate : ∀ data, a.call = .createSession data → a.store.primary = key) :
    SealedBy lib key (sealedStep lib s a) := by
  unfold Auth.sealedStep
  split
  · exact (h.getSession hlib _ _ _).1
  · rename_i updates _
    have hfound : SealedBy lib key (a.store.getSession lib .forUpdate a.now a.nonce s).2 ∧
        ∀ data, (a.store.getSession lib .forUpdate a.now a.nonce s).1 = .ok (some data) →
          a.store.primary = key := h.getSession hlib .forUpdate a.now a.nonce
    obtain ⟨hleft, hkey⟩ := hfound
    unfold RedisSessionStore.updateSessionFields
    cases hread : a.store.getSession lib .forUpdate a.now a.nonce s with
    | mk result left =>
        rw [hread] at hleft hkey
        cases result with
        | error e =>
            rw [Attempt.bind_of_error hread]
            exact hleft
        | ok found =>
            rw [Attempt.bind_of_ok hread]
            cases found with
            | none => exact hleft
            | some data =>
                intro stored expiry hwritten
                cases hwritten
                rw [← hkey data rfl]
                exact ⟨_, sealed_sealedWith a.nonce⟩
  · rename_i data hcall
    intro stored expiry hwritten
    cases hwritten
    rw [← hcreate data hcall]
    exact ⟨data, sealed_sealedWith a.nonce⟩
  · exact .none
  · split
    · exact h
    · exact .none

/-- A session that a store creates rotates only under the key it is created with. -/
theorem primary_eq_of_created (hlib : lib.Lawful) {s : SealedKey} {a : StoreAction}
    (h : store.Rotates lib (sealedStep lib s a)) (hcall : a.call = .createSession data) :
    a.store.primary = store.primary := by
  have hsealed : SealedWith lib a.store.primary data (a.store.sealed lib a.nonce data) :=
    sealed_sealedWith a.nonce
  have hcreated : sealedStep lib s a = some (a.store.sealed lib a.nonce data,
      a.now + ⌊a.store.config.absoluteTimeout⌋) := by
    simp [sealedStep, hcall, RedisSessionStore.createSession, setex]
  rw [hcreated, rotates_iff hlib] at h
  rcases h with hdecodes | hprimary | ⟨old, _, hdecrypts, hsession⟩
  · exact absurd hdecodes hsealed.not_undecodable
  · exact (hsealed.key_unique hlib hprimary).symm
  · rw [hsealed.key_unique hlib hdecrypts] at hsession
    exact absurd hsealed (hsession data)

theorem everyState_rotates_iff (hlib : lib.Lawful) (actions : List StoreAction) :
    EveryState (sealedStep lib) (store.Rotates lib) none actions ↔
      ∀ a ∈ actions, ∀ data, a.call = .createSession data → a.store.primary = store.primary := by
  have hactions : EachStep (sealedStep lib) (fun _ a => ∀ data, a.call = .createSession data →
      a.store.primary = store.primary) none actions ↔
        ∀ a ∈ actions, ∀ data, a.call = .createSession data → a.store.primary = store.primary :=
    eachStep_const_iff none
  rw [← hactions]
  exact everyState_iff_eachStep_of_invariant (G := SealedBy lib store.primary)
    (fun s h => h.rotates hlib) (fun s a h hcreate => h.sealedStep hlib hcreate)
    (fun s a _ h data hcall => primary_eq_of_created hlib h hcall) actions SealedBy.none

/-- Exactly the values that the primary key decrypts, and those that are no base64, are read as a
rotation promises, apart from what only the secondary key decrypts and no store wrote as a session;
in runs of writers, exactly those whose sessions are created under the primary key. -/
theorem keyRotation_iff (hlib : lib.Lawful) (store : RedisSessionStore) :
    (∀ stored expiry, store.Rotates lib (some (stored, expiry)) ↔
      Undecodable stored ∨ Decrypts lib store.primary stored ∨
        ∃ old, store.secondary = some old ∧ Decrypts lib old stored ∧
          ∀ data, ¬SealedWith lib old data stored) ∧
    ∀ actions, EveryState (sealedStep lib) (store.Rotates lib) none actions ↔
      ∀ a ∈ actions, ∀ data, a.call = .createSession data → a.store.primary = store.primary :=
  ⟨fun _ _ => rotates_iff hlib, everyState_rotates_iff hlib⟩

/-! ## Libraries to run it on -/

@[reducible] def encodableString : Encodable String :=
  letI := Encodable.ofLeftInverse Char.toNat Char.ofNat Char.ofNat_toNat
  .ofLeftInverse String.toList String.ofList fun _ => String.ofList_toList

/-- Every value of a field has a number. -/
@[reducible] def SessionField.encodable : (field : SessionField) → Encodable field.Value
  | .createdAt | .lastActivity => (inferInstance : Encodable ℚ)
  | .accessTokenExpiresAt | .stepUpRequestedAt => (inferInstance : Encodable (Option ℚ))
  | .stepUpClaims | .pendingAction => @Option.encodable _ encodableString
  | .strategies => @List.encodable _ encodableString
  | .sessionVersion => (inferInstance : Encodable ℤ)
  | .accessToken | .refreshToken | .idToken | .userId | .email | .ipAddress | .userAgent | .role =>
      encodableString

def sessionFields : List SessionField :=
  [.accessToken, .refreshToken, .idToken, .userId, .email, .createdAt, .lastActivity, .ipAddress,
    .userAgent, .accessTokenExpiresAt, .role, .strategies, .sessionVersion, .stepUpClaims,
    .stepUpRequestedAt, .pendingAction]

def SessionData.number (data : SessionData) : ℕ :=
  Encodable.encode (sessionFields.map fun field => field.encodable.encode (data field))

def SessionField.ofNumbers (numbers : List ℕ) (field : SessionField) : Option field.Value :=
  numbers[sessionFields.idxOf field]?.bind field.encodable.decode

theorem SessionField.mem_sessionFields (field : SessionField) : field ∈ sessionFields := by
  cases field <;> decide

def SessionData.ofNumber (n : ℕ) : Option SessionData :=
  match (Encodable.decode n : Option (List ℕ)) with
  | none => none
  | some numbers =>
      if h : ∀ field ∈ sessionFields, (field.ofNumbers numbers).isSome then
        some fun field => (field.ofNumbers numbers).get (h field (field.mem_sessionFields))
      else none

theorem SessionField.ofNumbers_number (data : SessionData) (field : SessionField) :
    field.ofNumbers (sessionFields.map fun field => field.encodable.encode (data field)) =
      some (data field) := by
  have hlt := List.idxOf_lt_length_of_mem field.mem_sessionFields
  have hencode := field.encodable.encodek (data field)
  simp [ofNumbers, List.getElem?_map, List.getElem?_eq_getElem hlt, List.getElem_idxOf hlt, hencode]


theorem SessionData.ofNumber_number (data : SessionData) :
    SessionData.ofNumber data.number = some data := by
  have hall : ∀ field ∈ sessionFields, (SessionField.ofNumbers
      (sessionFields.map fun field => field.encodable.encode (data field)) field).isSome := by
    intro field _
    rw [SessionField.ofNumbers_number]
    rfl
  simp only [ofNumber, number, Encodable.encodek, dif_pos hall]
  congr 1
  funext field
  simp [SessionField.ofNumbers_number]

/-- A cipher whose texts begin with key and nonce, and sessions written as so many characters. -/
def plainLibraries : SessionLibraries where
  encrypt key nonce plain := key.val ++ nonce ++ plain
  decrypt key nonce text :=
    if (key.val ++ nonce).isPrefixOf text then .ok (text.drop (key.val ++ nonce).length)
    else .error .invalidTag
  modelDumpJson data := String.ofList (List.replicate data.number 'x')
  modelValidateJson text :=
    match SessionData.ofNumber text.length with
    | some data => .ok data
    | none => .error .valueError

theorem plainLibraries_lawful : plainLibraries.Lawful := by
  constructor
  · intro key nonce plain
    have hprefix : (key.val ++ nonce).isPrefixOf (key.val ++ nonce ++ plain) = true := by
      rw [List.isPrefixOf_iff_prefix]
      exact List.prefix_append _ _
    simp only [plainLibraries, if_pos hprefix, List.drop_left]
  · intro key key' nonce plain hne
    have hprefix : ¬(key'.val ++ nonce).isPrefixOf (key.val ++ nonce ++ plain) = true := by
      rw [List.isPrefixOf_iff_prefix]
      intro hprefix
      have hstart : key'.val <+: key.val ++ nonce ++ plain :=
        (List.prefix_append _ _).trans hprefix
      have hkey := List.prefix_iff_eq_take.mp hstart
      rw [List.append_assoc, key'.property, List.take_left' key.property] at hkey
      exact hne (Subtype.ext hkey)
    exact if_neg hprefix
  · intro key nonce text e h
    simp only [plainLibraries] at h
    split at h
    · cases h
    · cases h
      rfl
  · intro data
    simp [plainLibraries, SessionData.ofNumber_number]

def keyOf (n : UInt8) : EncryptionKey := ⟨List.replicate 32 n, by simp⟩

def zeroNonce : Nonce := ⟨List.replicate 12 0, by simp⟩

def quietSession : SessionData
  | .createdAt | .lastActivity => (0 : ℚ)
  | .accessTokenExpiresAt | .stepUpRequestedAt => (none : Option ℚ)
  | .stepUpClaims | .pendingAction => (none : Option String)
  | .strategies => ([] : List String)
  | .sessionVersion => (1 : ℤ)
  | .accessToken | .refreshToken | .idToken | .userId | .email | .ipAddress | .userAgent =>
      ("" : String)
  | .role => "viewer"

/-- Four hours, and a quarter of one. -/
def rotatedStore (primary : EncryptionKey) (secondary : Option EncryptionKey) :
    RedisSessionStore :=
  ⟨primary, secondary, ⟨14400, 900⟩⟩

/-- The store with the new key first reads its own sessions. -/
theorem rotatedStore_rotates : (rotatedStore (keyOf 2) (some (keyOf 1))).Rotates plainLibraries
    (some ((rotatedStore (keyOf 2) none).sealed plainLibraries zeroNonce quietSession, 14400)) :=
  ((keyRotation_iff plainLibraries_lawful (rotatedStore (keyOf 2) (some (keyOf 1)))).1 _ _).mpr
    (Or.inr (Or.inl ((sealed_sealedWith zeroNonce).decrypts plainLibraries_lawful)))

/-- A session that is created before the rotation raises after it, and so does one under a third
key. -/
theorem rotatedStore_not_rotates : plainLibraries.Lawful ∧
    ¬(rotatedStore (keyOf 2) (some (keyOf 1))).Rotates plainLibraries
      (some ((rotatedStore (keyOf 1) none).sealed plainLibraries zeroNonce quietSession, 14400)) ∧
    ¬(rotatedStore (keyOf 2) (some (keyOf 1))).Rotates plainLibraries
      (some ((rotatedStore (keyOf 3) none).sealed plainLibraries zeroNonce quietSession,
        14400)) := by
  have hraises : ∀ n : UInt8, keyOf 2 ≠ keyOf n →
      ((rotatedStore (keyOf 2) (some (keyOf 1))).getSession plainLibraries .forUpdate 0 zeroNonce
        (some ((rotatedStore (keyOf n) none).sealed plainLibraries zeroNonce quietSession,
          14400))).1 = .error .invalidTag := by
    intro n hne
    have hsealed : SealedWith plainLibraries (keyOf n) quietSession
        ((rotatedStore (keyOf n) none).sealed plainLibraries zeroNonce quietSession) :=
      sealed_sealedWith zeroNonce
    rw [getSession_of_not_decrypts plainLibraries_lawful hsealed.not_undecodable
      (fun hkey => hne (hsealed.key_unique plainLibraries_lawful hkey)) _ _ rfl]
  refine ⟨plainLibraries_lawful, ?_, ?_⟩
  · intro h
    have hrefused : quietSession.refused ⟨14400, 900⟩ .forUpdate 0 = false := by
      simp [SessionData.refused, mismatch, GetCall.forUpdate, SessionData.lastActivity,
        SessionData.createdAt, quietSession]
    have hread := (h.readable (keyOf 1) quietSession _ _ rfl rfl (sealed_sealedWith zeroNonce)).1
      .forUpdate 0 zeroNonce rfl hrefused
    rw [hraises 1 (by decide)] at hread
    cases hread
  · intro h
    have hsealed : SealedWith plainLibraries (keyOf 3) quietSession
        ((rotatedStore (keyOf 3) none).sealed plainLibraries zeroNonce quietSession) :=
      sealed_sealedWith zeroNonce
    have hread := h.undecryptable _ _ rfl
      (fun hkey => absurd (hsealed.key_unique plainLibraries_lawful hkey) (by decide))
      (fun old hold hkey => by
        cases hold
        exact absurd (hsealed.key_unique plainLibraries_lawful hkey) (by decide))
      .forUpdate 0 zeroNonce
    rw [hraises 3 (by decide)] at hread
    cases hread

end TradingPlatform.Auth
