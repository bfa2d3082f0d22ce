import TradingPlatform.Gateway.GhostSlices

/-! # Ghost orders

What the job of a slice must not do to a live order, the order route must not do
either, and it must not release the order's reservation. The route calls the
broker once: when an acceptance is lost on the way back, every way out of the
call releases the reservation and denies the order.
-/

namespace TradingPlatform.Gateway

open Base Risk Risk.PositionReservation

/-! ## The property and the condition -/

/-- An accepted order keeps its reservation and is not denied. -/
def OrderRun.Honest (cid : String) (s : OrderRun) : Prop :=
  s.call.accepted = true → s.released = false ∧ NotDenied s.db cid

def NoGhostOrder (cfg : SubmitConfig) (cid : String) (s : OrderRun)
    (es : List (OrderRunEvent × Timestamp)) : Prop :=
  EveryState (orderStep cfg) (OrderRun.Honest cid) s es ∧
    Along (orderStep cfg) (fun s s' => FilledStays cid s.db s'.db) s es

/-- The broker takes the order and the executor does not get to know. -/
def Delivery.losesAcceptance : Delivery → Bool
  | .lost decision _ | .unreadable decision _ | .unexpected decision => decision.accepts
  | .unsent _ | .answered _ => false

/-- No acceptance is lost, and the update after an acceptance finds no filled row. -/
def SafeOrderStep (cid : String) (s : OrderRun) (e : OrderRunEvent × Timestamp) : Prop :=
  match e.1 with
  | .attempt delivery => s.sub.phase = .inserted → delivery.losesAcceptance = false
  | .answer (.write false) => ∀ brokerOrderId, s.sub.phase = .confirmed brokerOrderId →
      ∀ r, s.db.orders.find? cid = some r → r.status ≠ .filled
  | .answer _ => True
  | .fill u => SafeFill s.call s.db cid u

/-! ## Runs without a lost acceptance -/

/-- The row, if it is there, is as the insert left it. -/
def PendingRow (db : Database) (cid : String) : Prop :=
  ∀ r, db.orders.find? cid = some r → r.status = .pendingNew

/-- The executor has not returned an order. -/
def Phase.unsent : Phase → Bool
  | .reserved | .idempotencyChecked | .fatFingerChecked | .inserted | .releasing _
  | .rejecting _ | .readingExisting => true
  | .accepted _ | .confirmed _ | .readingInserted _ | .ended _ | .crashed => false

/-- The reservation was not released on the way here. -/
def Phase.reserving : Phase → Bool
  | .reserved | .idempotencyChecked | .fatFingerChecked | .inserted | .accepted _
  | .confirmed _ => true
  | .releasing _ | .rejecting _ | .readingExisting | .readingInserted _ | .ended _
  | .crashed => false

/-- The order is inserted and will be denied unless the broker takes it. -/
def Phase.denying : Phase → Bool
  | .inserted | .releasing (.reject _) | .rejecting _ => true
  | _ => false

/-- A run without a lost acceptance. -/
structure OrderRun.Clean (cid : String) (s : OrderRun) : Prop where
  addressed : s.sub.clientOrderId = cid
  unsent : s.sub.phase.unsent = true → s.call.accepted = false
  kept : s.sub.phase.reserving = true → s.released = false
  pending : s.sub.phase.denying = true → PendingRow s.db cid
  honest : s.Honest cid

section Order

variable {cfg : SubmitConfig} {cid : String} {s : OrderRun} {db : Database} {now : Timestamp}

theorem unsent_of_denying {phase : Phase} (h : phase.denying = true) : phase.unsent = true := by
  cases phase <;> first | rfl | cases h

theorem afterRelease_reserving (next : AfterRelease) : next.phase.reserving = false := by
  cases next <;> rfl

theorem afterRelease_denying {next : AfterRelease} (h : next.phase.denying = true) :
    (Phase.releasing next).denying = true := by
  cases next with
  | reject rejection => rfl
  | _ => cases h

/-- Where a segment leads, the broker call apart. -/
theorem respond_phase (cfg : SubmitConfig) (keys : SymbolKeys) (db : Database) (sub : Submission)
    (now : Timestamp) {answer : Answer} (hbroker : ∀ reply, answer ≠ .broker reply) :
    ((respond cfg keys db sub answer now).2.2.unsent = true → sub.phase.unsent = true) ∧
      ((respond cfg keys db sub answer now).2.2.reserving = true → sub.phase.reserving = true) ∧
      (sub.phase.releases answer = true → sub.phase.unsent = true ∧
        (respond cfg keys db sub answer now).2.2.reserving = false) := by
  cases hphase : sub.phase with
  | releasing next =>
      cases answer with
      | release =>
          simp only [respond, hphase]
          have hnext := afterRelease_reserving next
          exact ⟨fun _ => rfl, fun h => absurd h (by rw [hnext]; decide), fun _ => ⟨rfl, hnext⟩⟩
      | _ => simp [respond, hphase, Phase.unsent, Phase.reserving, Phase.releases]
  | inserted =>
      cases answer with
      | broker reply => exact absurd rfl (hbroker reply)
      | _ => simp [respond, hphase, Phase.unsent, Phase.reserving, Phase.releases]
  | fatFingerChecked => simp [Phase.unsent, Phase.reserving, Phase.releases]
  | reserved => simp [Phase.unsent, Phase.reserving, Phase.releases]
  | idempotencyChecked => simp [Phase.unsent, Phase.reserving, Phase.releases]
  | accepted brokerOrderId =>
      cases answer with
      | confirm raised =>
          cases raised <;> simp [respond, hphase, Phase.unsent, Phase.reserving, Phase.releases]
      | _ => simp [respond, hphase, Phase.unsent, Phase.reserving, Phase.releases]
  | confirmed brokerOrderId =>
      cases answer with
      | write raised =>
          cases raised <;> simp [respond, hphase, Phase.unsent, Phase.reserving, Phase.releases]
      | _ => simp [respond, hphase, Phase.unsent, Phase.reserving, Phase.releases]
  | rejecting rejection =>
      cases answer with
      | write raised =>
          cases raised <;> simp [respond, hphase, Phase.unsent, Phase.reserving, Phase.releases]
      | _ => simp [respond, hphase, Phase.unsent, Phase.reserving, Phase.releases]
  | readingExisting =>
      cases answer <;> simp [respond, hphase, Phase.unsent, Phase.reserving, Phase.releases]
  | readingInserted brokerOrderId =>
      cases answer <;> simp [respond, hphase, Phase.unsent, Phase.reserving, Phase.releases]
  | ended reply => simp [respond, hphase, Phase.unsent, Phase.reserving, Phase.releases]
  | crashed => simp [respond, hphase, Phase.unsent, Phase.reserving, Phase.releases]

/-- What a segment does to the table: an insert, one of the two updates, or nothing. -/
theorem respond_table (cfg : SubmitConfig) (keys : SymbolKeys) (db : Database)
    (sub : Submission) (now : Timestamp) {answer : Answer}
    (hbroker : ∀ reply, answer ≠ .broker reply) :
    (sub.phase = .fatFingerChecked ∧
      (respond cfg keys db sub answer now).2 = insertSubmitted cfg db sub now) ∨
    (∃ brokerOrderId, sub.phase = .confirmed brokerOrderId ∧ answer = .write false ∧
      (respond cfg keys db sub answer now).2 = ((updateOrderStatus db sub.clientOrderId
        .pendingNew brokerOrderId none none none now).1, .readingInserted brokerOrderId)) ∨
    (∃ rejection : Rejection, sub.phase = .rejecting rejection ∧
      (respond cfg keys db sub answer now).2 = ((updateOrderStatusCas db sub.clientOrderId
        (rejection.update now) now).1, .ended rejection.reply)) ∨
    ((respond cfg keys db sub answer now).2.1 = db ∧
      ((respond cfg keys db sub answer now).2.2.denying = true →
        sub.phase.denying = true)) := by
  cases hphase : sub.phase with
  | fatFingerChecked =>
      cases answer with
      | insert raised =>
          cases raised with
          | false =>
              left
              simp [respond, hphase]
          | true => simp [respond, hphase, Phase.denying]
      | _ => simp [respond, hphase]
  | confirmed brokerOrderId =>
      cases answer with
      | write raised =>
          cases raised with
          | false =>
              right
              left
              exact ⟨brokerOrderId, rfl, rfl, by simp [respond, hphase]⟩
          | true => simp [respond, hphase, Phase.denying]
      | _ => simp [respond, hphase]
  | rejecting rejection =>
      cases answer with
      | write raised =>
          cases raised with
          | false =>
              right
              right
              left
              exact ⟨rejection, rfl, by simp [respond, hphase]⟩
          | true => simp [respond, hphase, Phase.denying]
      | _ => simp [respond, hphase]
  | releasing next =>
      right
      right
      right
      cases answer with
      | release =>
          simp only [respond, hphase]
          exact ⟨trivial, afterRelease_denying⟩
      | _ => simp [respond, hphase]
  | inserted =>
      cases answer with
      | broker reply => exact absurd rfl (hbroker reply)
      | _ => simp [respond, hphase]
  | reserved =>
      cases answer with
      | lookup raised =>
          cases raised with
          | true => simp [respond, hphase, Phase.denying]
          | false =>
              cases hrow : getOrderByClientId db sub.clientOrderId <;>
                simp [respond, hphase, hrow, Phase.denying]
      | _ => simp [respond, hphase]
  | idempotencyChecked =>
      cases answer with
      | fatFinger outcome => cases outcome <;> simp [respond, hphase, Phase.denying]
      | _ => simp [respond, hphase]
  | accepted brokerOrderId =>
      cases answer with
      | confirm raised => cases raised <;> simp [respond, hphase, Phase.denying]
      | _ => simp [respond, hphase]
  | readingExisting => cases answer <;> simp [respond, hphase, Phase.denying]
  | readingInserted brokerOrderId => cases answer <;> simp [respond, hphase, Phase.denying]
  | ended reply => simp [respond, hphase]
  | crashed => simp [respond, hphase]

theorem PendingRow.notDenied (h : PendingRow db cid) : NotDenied db cid := by
  intro r hr
  rw [h r hr]
  rfl

theorem PendingRow.filledStays (h : PendingRow db cid) (db' : Database) :
    FilledStays cid db db' := by
  intro r hr hfilled
  rw [h r hr] at hfilled
  cases hfilled

/-- An insert that goes through finds no row and leaves its own. -/
theorem insertOrder_row {db db' : Database} {row r : OrderRow}
    (h : insertOrder db row = .ok (db', r)) :
    db.orders.find? row.clientOrderId = none ∧
      db'.orders.find? row.clientOrderId = some row := by
  unfold insertOrder at h
  split at h
  · rename_i orders hinsert
    cases h
    constructor
    · rw [Table.find?_eq_none]
      intro x hx hkey
      have htaken := Table.insert_eq_none.mpr (List.mem_map.mpr ⟨x, hx, hkey⟩)
      rw [htaken] at hinsert
      cases hinsert
    · show orders.find? row.clientOrderId = some row
      rw [Table.find?_insert hinsert, if_pos rfl]
  · cases h

/-- The insert of a submission leaves a pending row unless it is a dry run. -/
theorem insertSubmitted_table (cfg : SubmitConfig) (db : Database) (sub : Submission)
    (now : Timestamp) :
    FilledStays sub.clientOrderId db (insertSubmitted cfg db sub now).1 ∧
      ((insertSubmitted cfg db sub now).2.denying = true →
        PendingRow (insertSubmitted cfg db sub now).1 sub.clientOrderId) := by
  unfold insertSubmitted
  split
  · exact ⟨.refl _ db, fun h => by cases h⟩
  · exact ⟨.refl _ db, fun h => by cases h⟩
  · rename_i db' row hcreate
    have ⟨hfresh, hrow⟩ := insertOrder_row hcreate
    constructor
    · intro r hr
      rw [show db.orders.find? sub.clientOrderId = none from hfresh] at hr
      cases hr
    · intro hdenying r hr
      rw [show db'.orders.find? sub.clientOrderId = _ from hrow] at hr
      cases hr
      cases hdry : cfg.dryRun with
      | true =>
          rw [hdry] at hdenying
          cases hdenying
      | false => rfl

theorem pendingRow_updateOrderStatus (db : Database) (cid : String)
    (brokerOrderId : Option String) (now : Timestamp) :
    PendingRow (updateOrderStatus db cid .pendingNew brokerOrderId none none none now).1 cid := by
  intro r' hr'
  unfold updateOrderStatus at hr'
  rw [updateOrder_find?, Option.map_eq_some_iff] at hr'
  obtain ⟨r, -, rfl⟩ := hr'
  rfl

/-- Every segment but the broker call. -/
theorem clean_respond (h : s.Clean cid) {answer : Answer}
    (hbroker : ∀ reply, answer ≠ .broker reply)
    (hsafe : SafeOrderStep cid s (.answer answer, now)) :
    (s.respond cfg answer now).Clean cid ∧
      FilledStays cid s.db (s.respond cfg answer now).db := by
  have ⟨hunsent, hreserving, hreleases⟩ := respond_phase cfg s.keys s.db s.sub now hbroker
  have hkept : s.call.accepted = true → s.released = false →
      (s.released || s.sub.phase.releases answer) = false := by
    intro haccepted hreleased
    rw [hreleased, Bool.false_or, Bool.eq_false_iff]
    intro hrelease
    rw [h.unsent (hreleases hrelease).1] at haccepted
    cases haccepted
  have hclean : (s.respond cfg answer now).Honest cid →
      ((s.respond cfg answer now).sub.phase.denying = true →
        PendingRow (s.respond cfg answer now).db cid) →
      (s.respond cfg answer now).Clean cid := by
    intro hhonest hpending
    refine ⟨h.addressed, fun hu => h.unsent (hunsent hu), ?_, hpending, hhonest⟩
    intro hr
    show (s.released || s.sub.phase.releases answer) = false
    rw [h.kept (hreserving hr), Bool.false_or, Bool.eq_false_iff]
    intro hrelease
    have hnot : (s.respond cfg answer now).sub.phase.reserving = false := (hreleases hrelease).2
    rw [hnot] at hr
    cases hr
  have haddressed := h.addressed
  subst haddressed
  rcases respond_table cfg s.keys s.db s.sub now hbroker with
    ⟨hphase, hresult⟩ | ⟨brokerOrderId, hphase, hanswer, hresult⟩ | ⟨rejection, hphase, hresult⟩ |
    ⟨hdb, hdenying⟩
  · -- The insert.
    have hfresh : s.call.accepted = false := h.unsent (by rw [hphase]; rfl)
    have hdb : (s.respond cfg answer now).db = (insertSubmitted cfg s.db s.sub now).1 :=
      congrArg Prod.fst hresult
    have hnext : (s.respond cfg answer now).sub.phase = (insertSubmitted cfg s.db s.sub now).2 :=
      congrArg Prod.snd hresult
    have ⟨hstays, hpending⟩ := insertSubmitted_table cfg s.db s.sub now
    rw [← hdb] at hstays hpending
    rw [← hnext] at hpending
    refine ⟨hclean ?_ hpending, hstays⟩
    intro haccepted
    rw [show s.call.accepted = true from haccepted] at hfresh
    cases hfresh
  · -- The update after an acceptance.
    subst hanswer
    have hdb : (s.respond cfg (.write false) now).db = (updateOrderStatus s.db
        s.sub.clientOrderId .pendingNew brokerOrderId none none none now).1 :=
      congrArg Prod.fst hresult
    have hnext : (s.respond cfg (.write false) now).sub.phase = .readingInserted brokerOrderId :=
      congrArg Prod.snd hresult
    have hpending := pendingRow_updateOrderStatus s.db s.sub.clientOrderId brokerOrderId now
    rw [← hdb] at hpending
    refine ⟨hclean ?_ fun _ => hpending, ?_⟩
    · intro haccepted
      exact ⟨hkept haccepted (h.kept (by rw [hphase]; rfl)), hpending.notDenied⟩
    · intro r hr hfilled
      exact absurd hfilled (hsafe brokerOrderId hphase r hr)
  · -- The update after a failure.
    have hunsent : s.call.accepted = false := h.unsent (by rw [hphase]; rfl)
    have hpending : PendingRow s.db s.sub.clientOrderId := h.pending (by rw [hphase]; rfl)
    have hnext : (s.respond cfg answer now).sub.phase = .ended rejection.reply :=
      congrArg Prod.snd hresult
    refine ⟨hclean ?_ ?_, hpending.filledStays _⟩
    · intro haccepted
      rw [show s.call.accepted = true from haccepted] at hunsent
      cases hunsent
    · intro hdenying
      rw [hnext] at hdenying
      cases hdenying
  · have hdb : (s.respond cfg answer now).db = s.db := hdb
    rw [hdb] at hclean ⊢
    refine ⟨hclean ?_ fun hnext => h.pending (hdenying hnext), .refl _ s.db⟩
    intro haccepted
    have ⟨hreleased, hlive⟩ := h.honest haccepted
    refine ⟨hkept haccepted hreleased, ?_⟩
    rw [hdb]
    exact hlive

/-- An order that the broker takes although no acceptance is lost comes back. -/
theorem answered_of_reaches {delivery : Delivery} (hsafe : delivery.losesAcceptance = false)
    (h : delivery.reaches false = true) :
    ∃ brokerOrderId, delivery = .answered (.accept brokerOrderId) := by
  cases delivery with
  | unsent failure => cases h
  | lost decision failure => exact absurd h (Bool.eq_false_iff.mp hsafe)
  | unreadable decision message => exact absurd h (Bool.eq_false_iff.mp hsafe)
  | unexpected decision => exact absurd h (Bool.eq_false_iff.mp hsafe)
  | answered decision =>
      cases decision with
      | accept brokerOrderId => exact ⟨brokerOrderId, rfl⟩
      | refuse code message => cases h

/-- What the call's end leads to. -/
theorem clean_reply (h : s.Clean cid) (hphase : s.sub.phase = .inserted) (call : BrokerCall)
    (reply : BrokerReply)
    (hcall : call.accepted = true → ∃ brokerOrderId, reply = .accepted brokerOrderId) :
    (({ s with call } : OrderRun).respond cfg (.broker reply) now).Clean cid ∧
      FilledStays cid s.db (({ s with call } : OrderRun).respond cfg (.broker reply) now).db := by
  have hresult : respond cfg s.keys s.db s.sub (.broker reply) now =
      (s.keys, s.db, afterBroker reply) := by
    simp [respond, hphase]
  have hreleased : s.released = false := h.kept (by rw [hphase]; rfl)
  have hpending : PendingRow s.db cid := h.pending (by rw [hphase]; rfl)
  have hidle : s.sub.phase.releases (.broker reply) = false := by rw [hphase]; rfl
  simp only [OrderRun.respond, hresult, hidle, hreleased, Bool.or_false]
  refine ⟨⟨h.addressed, ?_, fun _ => rfl, fun _ => hpending, ?_⟩, .refl cid s.db⟩
  · intro hunsent
    rw [Bool.eq_false_iff]
    intro haccepted
    obtain ⟨brokerOrderId, rfl⟩ := hcall haccepted
    cases hunsent
  · exact fun _ => ⟨rfl, hpending.notDenied⟩

/-- The call of the broker, when no acceptance is lost. -/
theorem clean_attempt (h : s.Clean cid) (hphase : s.sub.phase = .inserted) {delivery : Delivery}
    (hsafe : delivery.losesAcceptance = false) :
    (orderStep cfg s (.attempt delivery, now)).Clean cid ∧
      FilledStays cid s.db (orderStep cfg s (.attempt delivery, now)).db := by
  have hunsent : s.call.accepted = false := h.unsent (by rw [hphase]; rfl)
  have hcall := tryOnce_accepted s.call delivery
  rw [hunsent] at hcall
  have hreply : ∀ call reply, s.call.tryOnce delivery = (call, reply) → call.accepted = true →
      ∃ brokerOrderId, reply = some (.accepted brokerOrderId) := by
    intro call reply htry haccepted
    rw [htry] at hcall
    rw [show call.accepted = _ from hcall] at haccepted
    obtain ⟨brokerOrderId, rfl⟩ := answered_of_reaches hsafe haccepted
    refine ⟨some brokerOrderId, ?_⟩
    have hresult := congrArg Prod.snd htry
    rw [← show _ = reply from hresult]
    simp [BrokerCall.tryOnce, Delivery.reply, decideOrder, hunsent, BrokerDecision.reply]
  simp only [orderStep, if_pos hphase]
  cases htry : s.call.tryOnce delivery with
  | mk call reply =>
      cases reply with
      | none =>
          have hnone : call.accepted = false := by
            rw [Bool.eq_false_iff]
            intro haccepted
            obtain ⟨brokerOrderId, heq⟩ := hreply call none htry haccepted
            cases heq
          refine ⟨⟨h.addressed, fun _ => hnone, h.kept, h.pending, ?_⟩, .refl cid s.db⟩
          intro haccepted
          rw [show call.accepted = true from haccepted] at hnone
          cases hnone
      | some reply =>
          refine clean_reply h hphase call reply ?_
          intro haccepted
          obtain ⟨brokerOrderId, heq⟩ := hreply call _ htry haccepted
          exact ⟨brokerOrderId, Option.some.inj heq⟩

theorem clean_step (h : s.Clean cid) (e : OrderRunEvent × Timestamp)
    (hsafe : SafeOrderStep cid s e) :
    (orderStep cfg s e).Clean cid ∧ FilledStays cid s.db (orderStep cfg s e).db := by
  obtain ⟨e, now⟩ := e
  cases e with
  | attempt delivery =>
      by_cases hphase : s.sub.phase = .inserted
      · exact clean_attempt h hphase (hsafe hphase)
      · simp only [orderStep, if_neg hphase]
        exact ⟨h, .refl cid s.db⟩
  | answer answer =>
      cases answer with
      | broker reply => exact ⟨h, .refl cid s.db⟩
      | _ => exact clean_respond h (fun _ => Answer.noConfusion) hsafe
  | fill u =>
      have haddressed := h.addressed
      subst haddressed
      refine ⟨⟨rfl, h.unsent, h.kept, ?_, ?_⟩, (safeFill_iff u now).mpr hsafe⟩
      · intro hdenying
        have hunsent := h.unsent (unsent_of_denying hdenying)
        have hsame : fillWebhook s.call s.db s.sub.clientOrderId u now = s.db := by
          rw [fillWebhook, hunsent]
          rfl
        simp only [orderStep, hsame]
        exact h.pending hdenying
      · intro haccepted
        have ⟨hreleased, hlive⟩ := h.honest haccepted
        exact ⟨hreleased, notDenied_fill u now hlive⟩

/-- A submission at its gate. -/
theorem clean_start (keys : SymbolKeys) (db : Database) (order : OrderRequest)
    (token : String) : (OrderRun.start cfg keys db order cid token).Clean cid := by
  unfold OrderRun.start
  rcases reserveForOrder_cases cfg keys db order cid token with ⟨reply, hrefused⟩ | hgranted
  · simp only [hrefused]
    exact ⟨rfl, fun _ => rfl, fun _ => rfl, fun h => (by cases h), fun h => (by cases h)⟩
  · simp only [hgranted]
    exact ⟨rfl, fun _ => rfl, fun _ => rfl, fun h => (by cases h), fun h => (by cases h)⟩

/-- Safe runs keep the property. -/
theorem noGhostOrder_of_safe (h : s.Clean cid) {es : List (OrderRunEvent × Timestamp)}
    (hsafe : EachStep (orderStep cfg) (SafeOrderStep cid) s es) : NoGhostOrder cfg cid s es := by
  have hstep : ∀ (s : OrderRun) e, s.Clean cid → SafeOrderStep cid s e →
      (orderStep cfg s e).Clean cid ∧ FilledStays cid s.db (orderStep cfg s e).db :=
    fun _ e h hsafe => clean_step h e hsafe
  have ⟨hstates, hsteps⟩ := everyState_and_eachStep hstep h hsafe
  constructor
  · exact hstates.mono fun _ h => h.honest
  · exact (along_iff_eachStep (fun s => .refl cid s.db) fun _ _ _ h h' => h.trans h').mpr hsteps

/-! ## A lost acceptance -/

/-- The broker has the order, and the handler is on its way to release the reservation. -/
def OrderRun.Doomed (s : OrderRun) : Prop :=
  s.call.accepted = true ∧
    (s.released = true ∨ s.sub.phase = .inserted ∨ ∃ next, s.sub.phase = .releasing next)

theorem tryOnce_reply {c : BrokerCall} {delivery : Delivery} {reply : BrokerReply}
    (h : (c.tryOnce delivery).2 = some reply) : reply = delivery.reply c.accepted := by
  unfold BrokerCall.tryOnce at h
  dsimp only at h
  split at h
  · rename_i hconnection
    rw [hconnection]
    split at h
    · cases h
    · exact (Option.some.inj h).symm
  · exact (Option.some.inj h).symm

/-- A known id never comes back accepted. -/
theorem afterBroker_known (delivery : Delivery) :
    ∃ next, afterBroker (delivery.reply true) = .releasing next := by
  cases delivery with
  | unsent failure => cases failure <;> exact ⟨_, rfl⟩
  | lost decision failure => cases failure <;> exact ⟨_, rfl⟩
  | _ => exact ⟨_, rfl⟩

theorem doomed_respond (h : s.Doomed) {answer : Answer}
    (hbroker : ∀ reply, answer ≠ .broker reply) : (s.respond cfg answer now).Doomed := by
  have ⟨haccepted, hphase⟩ := h
  refine ⟨haccepted, ?_⟩
  rcases hphase with hreleased | hinserted | ⟨next, hreleasing⟩
  · left
    simp [OrderRun.respond, hreleased]
  · right
    left
    cases answer with
    | broker reply => exact absurd rfl (hbroker reply)
    | _ => simp [OrderRun.respond, respond, hinserted, Submission.enter]
  · cases answer with
    | release =>
        left
        simp [OrderRun.respond, hreleasing, Phase.releases]
    | _ =>
        right
        right
        exact ⟨next, by simp [OrderRun.respond, respond, hreleasing, Submission.enter]⟩

/-- An attempt after which the broker has the order, and no order comes back. -/
theorem doomed_attempt (hphase : s.sub.phase = .inserted) {delivery : Delivery}
    (hreaches : delivery.reaches s.call.accepted = true)
    (hdenied : ∃ next, afterBroker (delivery.reply s.call.accepted) = .releasing next) :
    (orderStep cfg s (.attempt delivery, now)).Doomed := by
  have haccepted := tryOnce_accepted s.call delivery
  rw [hreaches] at haccepted
  simp only [orderStep, if_pos hphase]
  cases htry : s.call.tryOnce delivery with
  | mk call reply =>
      rw [htry] at haccepted
      cases reply with
      | none => exact ⟨haccepted, Or.inr (Or.inl hphase)⟩
      | some reply =>
          obtain ⟨next, hnext⟩ := hdenied
          rw [← tryOnce_reply (congrArg Prod.snd htry)] at hnext
          refine ⟨haccepted, Or.inr (Or.inr ⟨next, ?_⟩)⟩
          simp [OrderRun.respond, respond, hphase, hnext, Submission.enter]

theorem doomed_step (h : s.Doomed) (e : OrderRunEvent × Timestamp) :
    (orderStep cfg s e).Doomed := by
  obtain ⟨e, now⟩ := e
  cases e with
  | attempt delivery =>
      by_cases hinserted : s.sub.phase = .inserted
      · apply doomed_attempt hinserted
        · rw [h.1]
          cases delivery <;> rfl
        · rw [h.1]
          exact afterBroker_known delivery
      · simp only [orderStep, if_neg hinserted]
        exact h
  | answer answer =>
      cases answer with
      | broker reply => exact h
      | _ => exact doomed_respond h fun _ => Answer.noConfusion
  | fill u => exact h

theorem doomed_run (h : s.Doomed) (es : List (OrderRunEvent × Timestamp)) :
    (run (orderStep cfg) s es).Doomed := by
  have hall : EveryState (orderStep cfg) OrderRun.Doomed s es :=
    everyState_of_step (fun _ e h => doomed_step h e) es h
  exact hall.last

/-- A lost acceptance dooms the run. -/
theorem doomed_of_lost (hphase : s.sub.phase = .inserted) {delivery : Delivery}
    (hlost : delivery.losesAcceptance = true) :
    (orderStep cfg s (.attempt delivery, now)).Doomed := by
  apply doomed_attempt hphase
  · cases delivery with
    | unsent failure => cases hlost
    | answered decision => cases hlost
    | _ =>
        simp only [Delivery.losesAcceptance] at hlost
        simp [Delivery.reaches, hlost]
  · cases delivery with
    | unsent failure => cases hlost
    | answered decision => cases hlost
    | lost decision failure => cases failure <;> exact ⟨_, rfl⟩
    | _ => exact ⟨_, rfl⟩

/-- A doomed run that is over has released the reservation of a live order. -/
theorem doomed_not_honest {s : OrderRun} (h : s.Doomed) (hfinished : s.sub.phase.finished = true) :
    ¬ s.Honest cid := by
  intro hhonest
  have ⟨haccepted, hphase⟩ := h
  rcases hphase with hreleased | hinserted | ⟨next, hreleasing⟩
  · rw [(hhonest haccepted).1] at hreleased
    cases hreleased
  · rw [hinserted] at hfinished
    cases hfinished
  · rw [hreleasing] at hfinished
    cases hfinished

theorem orderStep_clientOrderId (e : OrderRunEvent × Timestamp) :
    (orderStep cfg s e).sub.clientOrderId = s.sub.clientOrderId := by
  obtain ⟨e, now⟩ := e
  cases e with
  | attempt delivery =>
      simp only [orderStep]
      split
      · split <;> rfl
      · rfl
  | answer answer => cases answer <;> rfl
  | fill u => rfl

/-- A step of a run that is over later is safe when it leaves no ghost order. -/
theorem safe_of_sound (haddressed : s.sub.clientOrderId = cid) {e : OrderRunEvent × Timestamp}
    {es : List (OrderRunEvent × Timestamp)}
    (hfinished : (run (orderStep cfg) s (e :: es)).sub.phase.finished = true)
    (hhonest : (run (orderStep cfg) s (e :: es)).Honest cid)
    (hstays : FilledStays cid s.db (orderStep cfg s e).db) : SafeOrderStep cid s e := by
  subst haddressed
  obtain ⟨e, now⟩ := e
  cases e with
  | attempt delivery =>
      intro hphase
      rw [Bool.eq_false_iff]
      intro hlost
      exact doomed_not_honest (doomed_run (doomed_of_lost hphase hlost) es) hfinished hhonest
  | answer answer =>
      cases answer with
      | write raised =>
          cases raised with
          | true => trivial
          | false =>
              intro brokerOrderId hphase r hr hfilled
              obtain ⟨r', hr', hfilled'⟩ := hstays r hr hfilled
              have hpending := pendingRow_updateOrderStatus s.db s.sub.clientOrderId
                brokerOrderId now
              simp only [orderStep, OrderRun.respond, respond, hphase] at hr'
              rw [hpending r' hr'] at hfilled'
              cases hfilled'
      | _ => trivial
  | fill u => exact (safeFill_iff u now).mp hstays

/-- In a run that is over every step was safe, unless it left a ghost order. -/
theorem safe_of_noGhostOrder {es : List (OrderRunEvent × Timestamp)}
    (haddressed : s.sub.clientOrderId = cid)
    (hfinished : (run (orderStep cfg) s es).sub.phase.finished = true)
    (h : NoGhostOrder cfg cid s es) : EachStep (orderStep cfg) (SafeOrderStep cid) s es := by
  have hhonest : (run (orderStep cfg) s es).Honest cid := h.1.last
  have hsteps : EachStep (orderStep cfg)
      (fun s e => FilledStays cid s.db (orderStep cfg s e).db) s es :=
    (along_iff_eachStep (fun s => .refl cid s.db) fun _ _ _ h h' => h.trans h').mp h.2
  clear h
  induction es generalizing s with
  | nil => trivial
  | cons e es ih =>
      refine ⟨safe_of_sound haddressed hfinished hhonest hsteps.1, ?_⟩
      exact ih ((orderStep_clientOrderId e).trans haddressed) hfinished hhonest hsteps.2

end Order

/-- Orders and slices, for every run. -/
theorem noGhostOrders_iff (submit : SubmitConfig) (scheduler : SchedulerConfig) :
    (∀ keys db order cid token es,
      (EachStep (orderStep submit) (SafeOrderStep cid) (.start submit keys db order cid token) es →
        NoGhostOrder submit cid (.start submit keys db order cid token) es) ∧
      ((run (orderStep submit) (.start submit keys db order cid token)
          es).sub.phase.finished = true →
        NoGhostOrder submit cid (.start submit keys db order cid token) es →
        EachStep (orderStep submit) (SafeOrderStep cid)
          (.start submit keys db order cid token) es)) ∧
    ∀ job db es, NoGhostSlice scheduler job (.start db) es ↔
      EachStep (sliceRunStep scheduler job) (SafeSliceStep scheduler job) (.start db) es := by
  refine ⟨?_, noGhostSlice_iff scheduler⟩
  intro keys db order cid token es
  have hclean : (OrderRun.start submit keys db order cid token).Clean cid :=
    clean_start keys db order token
  exact ⟨noGhostOrder_of_safe hclean, safe_of_noGhostOrder hclean.addressed⟩

/-! ## An answer that comes back, and one that does not -/

def ghostConfig : SubmitConfig := ⟨"alpha", false, true, 100, {}⟩

/-- Ten shares at the reservation gate of an empty gateway. -/
def tenSharesRun : OrderRun :=
  .start ghostConfig ⟨none, .empty⟩ .empty tenShares "order-1" "token-1"

/-- The segments up to the broker call. -/
def upToBroker : List (OrderRunEvent × Timestamp) :=
  [(.answer (.lookup false), 1), (.answer (.fatFinger .passed), 1), (.answer (.insert false), 1)]

def answeredRun : List (OrderRunEvent × Timestamp) :=
  upToBroker ++ [(.attempt (.answered (.accept "b-1")), 2), (.answer (.confirm false), 2),
    (.answer (.write false), 2), (.answer .read, 2)]

/-- The first answer is lost, so the second attempt is a duplicate. -/
def lostAnswerRun : List (OrderRunEvent × Timestamp) :=
  upToBroker ++ [(.attempt (.lost (.accept "b-1") (.networkError "timeout")), 2),
    (.attempt (.answered (.accept "b-2")), 4), (.answer .release, 4), (.answer (.write false), 4)]

/-- An answered order is over with a live row. -/
theorem noGhostOrders_iff_answered :
    (run (orderStep ghostConfig) tenSharesRun answeredRun).sub.phase.finished = true ∧
      NoGhostOrder ghostConfig "order-1" tenSharesRun answeredRun := by
  have hrow : ((run (orderStep ghostConfig) tenSharesRun (answeredRun.take 5)).db.orders.find?
      "order-1").map (·.status) = some .pendingNew := by decide +kernel
  have hsafe : EachStep (orderStep ghostConfig) (SafeOrderStep "order-1") tenSharesRun
      answeredRun := by
    refine ⟨trivial, trivial, trivial, fun _ => rfl, trivial, ?_, trivial, trivial⟩
    intro _ _ r hr hfilled
    rw [show (run (orderStep ghostConfig) tenSharesRun (answeredRun.take 5)).db.orders.find?
      "order-1" = some r from hr, Option.map_some, hfilled] at hrow
    cases hrow
  exact ⟨by decide +kernel, ((noGhostOrders_iff ghostConfig liveScheduler).1 _ _ _ _ _ _).1 hsafe⟩

/-- The job of a slice whose fill is reported before the job records the submission. -/
def fillBeforeRecord : List (SliceRunEvent × Timestamp) :=
  [(.own (.check "parent_slice_0" .clear 1), 1), (.own (.preSubmit "parent_slice_0" none 1), 1),
    (.attempt (.answered (.accept "b-1")), 2),
    (.fill { localUpdate .filled (some "b-1") none 3 with
      sourcePriority := sourcePriorityWebhook
      filledQty := some 10 }, 3),
    (.own (.record "parent_slice_0" none 4), 4)]

def sliceJob : SliceJob := recoveredJob "parent" 0 0 sliceRow

/-- A lost answer leaves a rejected row and no reservation for a live order, and a job that
records a submission takes a fill back. -/
theorem lost_answer_leaves_ghost :
    ¬ NoGhostOrder ghostConfig "order-1" tenSharesRun lostAnswerRun ∧
      ¬ NoGhostSlice liveScheduler sliceJob (.start oneSlice.db) fillBeforeRecord := by
  constructor
  · intro h
    have hlast : (run (orderStep ghostConfig) tenSharesRun lostAnswerRun).Honest "order-1" :=
      h.1.last
    have hreleased := (hlast (by decide +kernel)).1
    revert hreleased
    decide +kernel
  · intro h
    have hstays := (h.2 4 5 (by omega)).map_status (by decide +kernel)
    revert hstays
    decide +kernel

end TradingPlatform.Gateway
