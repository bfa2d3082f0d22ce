import TradingPlatform.Base.Run
import TradingPlatform.Gateway.Routes
import TradingPlatform.Gateway.SubmitOrder

/-! # What stays reserved

Runs of the gateway on one symbol whose orders are never filled. The aggregate
moves when a reservation is granted and when a release finds its token, so what
it is off by in the end is the sum of the reservations that ended in any other
way: confirmed, left by an exception or a crash, or released too late.
-/

namespace TradingPlatform.Gateway

open Base Risk Risk.PositionReservation

structure GatewayState where
  keys : SymbolKeys
  db : Database
  submissions : Table String Submission Submission.token

inductive GatewayEvent where
  | submit (order : OrderRequest) (clientOrderId token : String)
  | answer (token : String) (answer : Answer)
  | crash (token : String)
  | expire (token : String)
  | cancel (clientOrderId : String) (brokerOk : Bool)
  | webhook (e : OrderEvent)

/-- Nothing was submitted yet; the aggregate may be missing. -/
def opening (aggregate : Option ℤ) (db : Database) : GatewayState :=
  ⟨⟨aggregate, .empty⟩, db, .empty⟩

def GatewayState.enter (s : GatewayState) (token : String) (phase : Phase) :
    Table String Submission Submission.token :=
  s.submissions.update token (·.enter phase) (·.enter_token phase)

theorem find?_enter (s : GatewayState) (token token' : String) (phase : Phase) :
    (s.enter token phase).find? token' =
      if token' = token then (s.submissions.find? token).map (·.enter phase)
      else s.submissions.find? token' := by
  rw [GatewayState.enter]
  split
  · rename_i htoken
    rw [htoken, Table.find?_update]
  · rename_i htoken
    rw [Table.find?_update_ne _ _ _ htoken]

def symbolStep (cfg : SubmitConfig) (s : GatewayState) (a : GatewayEvent × Timestamp) :
    GatewayState :=
  match a.1 with
  | .submit order clientOrderId token =>
      let (keys, sub) := reserveForOrder cfg s.keys s.db order clientOrderId token
      ⟨keys, s.db, s.submissions.upsert sub⟩
  | .answer token answer =>
      match s.submissions.find? token with
      | none => s
      | some sub =>
          let (keys, db, phase) := respond cfg s.keys s.db sub answer a.2
          ⟨keys, db, s.enter token phase⟩
  | .crash token =>
      match s.submissions.find? token with
      | none => s
      | some _ => { s with submissions := s.enter token .crashed }
  | .expire token => { s with keys := s.keys.expire token }
  | .cancel clientOrderId brokerOk =>
      { s with db := (cancelOrder s.db clientOrderId brokerOk a.2).1 }
  | .webhook e => { s with db := committed s.db (handleOrderWebhook s.db e a.2) }

/-- Orders are for the symbol, tokens are new, and the broker reports no fill. -/
def Unfilled (symbol : String) (s : GatewayState) (a : GatewayEvent × Timestamp) : Prop :=
  match a.1 with
  | .submit order _ token => order.symbol = symbol ∧ s.submissions.find? token = none
  | .webhook e => e.fillInfo? = none
  | _ => True

instance (symbol : String) (s : GatewayState) : DecidablePred (Unfilled symbol s)
  | (.submit order _ token, _) =>
      inferInstanceAs (Decidable (order.symbol = symbol ∧ s.submissions.find? token = none))
  | (.webhook e, _) => inferInstanceAs (Decidable (e.fillInfo? = none))
  | (.answer _ _, _) | (.crash _, _) | (.expire _, _) | (.cancel _ _, _) => .isTrue trivial

/-- Every submission is over, and every order they speak of is terminal and unfilled. -/
def Settled (s : GatewayState) : Prop :=
  ∀ sub ∈ s.submissions.rows, sub.phase.finished = true ∧
    (s.db.orders.find? sub.clientOrderId).all
      (fun row => row.status.terminal && row.filledQty.sameValue 0) = true

instance : DecidablePred Settled := fun s =>
  inferInstanceAs (Decidable (∀ sub ∈ s.submissions.rows, sub.phase.finished = true ∧
    (s.db.orders.find? sub.clientOrderId).all
      (fun row => row.status.terminal && row.filledQty.sameValue 0) = true))

/-- The aggregate is back at `p`, and no order that fits the limit from there is refused. -/
def NothingReserved (cfg : SubmitConfig) (p : ℤ) (s : GatewayState) : Prop :=
  reservedPosition s.keys p = p ∧
    ∀ (order : OrderRequest) (token : String),
      |p + reservationDelta order.side order.qty| ≤ cfg.maxPositionSize →
        (cfg.reservation.reserve s.keys token order.side order.qty cfg.maxPositionSize
          p).1.success = true

/-! ## What a step leaves behind -/

/-- The delta that a submission keeps in the aggregate for good with this answer. -/
def leftBehind (keys : SymbolKeys) (sub : Submission) (answer : Answer) : ℤ :=
  match sub.phase, answer with
  | .idempotencyChecked, .fatFinger .raised => sub.delta
  | .accepted _, .confirm _ => sub.delta
  | .releasing _, .release => if (keys.tokens.find? sub.token).isSome then 0 else sub.delta
  | _, _ => 0

/-- What a submission has in the aggregate until it settles its reservation. -/
def Submission.held (sub : Submission) : ℤ := if sub.phase.holding then sub.delta else 0

@[simp] theorem held_enter (sub : Submission) (phase : Phase) :
    (sub.enter phase).held = if phase.holding then sub.delta else 0 := rfl

def strandedBy (s : GatewayState) (a : GatewayEvent × Timestamp) : ℤ :=
  match a.1 with
  | .answer token answer =>
      (s.submissions.find? token).elim 0 fun sub => leftBehind s.keys sub answer
  | .crash token => (s.submissions.find? token).elim 0 Submission.held
  | _ => 0

/-- The aggregate stays, and no token is new. -/
structure Keeps (keys keys' : SymbolKeys) : Prop where
  position : keys'.position = keys.position
  tokens : ∀ token key, keys'.tokens.find? token = some key → keys.tokens.find? token = some key

@[simp] theorem Keeps.refl (keys : SymbolKeys) : Keeps keys keys := ⟨rfl, fun _ _ h => h⟩

theorem keeps_delete (keys : SymbolKeys) (token : String) :
    Keeps keys ⟨keys.position, keys.tokens.delete token⟩ := by
  refine ⟨rfl, ?_⟩
  intro token' key h
  rw [Table.find?_delete] at h
  split at h
  · cases h
  · exact h

theorem keeps_confirm (keys : SymbolKeys) (token : String) :
    Keeps keys (confirm keys token).2 := by
  cases hlive : keys.tokens.find? token with
  | none =>
      rw [confirm_of_gone hlive]
      exact Keeps.refl keys
  | some key =>
      rw [confirm_of_live hlive]
      exact keeps_delete keys token

section Respond

variable {cfg : SubmitConfig} {keys : SymbolKeys} {db : Database} {sub : Submission}
  {now : Timestamp}

theorem insertSubmitted_holding : (insertSubmitted cfg db sub now).2.holding = true := by
  unfold insertSubmitted
  split
  · rfl
  · rfl
  · dsimp only
    split
    · rfl
    · split <;> rfl

theorem afterBroker_holding (reply : BrokerReply) : (afterBroker reply).holding = true := by
  cases reply <;> rfl

theorem afterRelease_not_holding (next : AfterRelease) : next.phase.holding = false := by
  cases next <;> rfl

/-- An answer other than a release leaves the aggregate, and the submission lets go of nothing
but what it leaves behind. -/
theorem respond_keeps (cfg : SubmitConfig) (keys : SymbolKeys) (db : Database)
    (now : Timestamp) (answer : Answer)
    (hrelease : answer = .release → ∀ next, sub.phase ≠ .releasing next) :
    Keeps keys (respond cfg keys db sub answer now).1 ∧
      (sub.enter (respond cfg keys db sub answer now).2.2).held =
        sub.held - leftBehind keys sub answer := by
  have hheld : sub.held = if sub.phase.holding then sub.delta else 0 := rfl
  cases hphase : sub.phase with
  | reserved =>
      cases answer with
      | lookup raised =>
          cases raised with
          | true => simp [respond, hphase, leftBehind, Phase.holding, hheld]
          | false =>
              cases hrow : getOrderByClientId db sub.clientOrderId <;>
                simp [respond, hphase, hrow, leftBehind, Phase.holding, hheld]
      | _ => simp [respond, hphase, leftBehind, Phase.holding, hheld]
  | idempotencyChecked =>
      cases answer with
      | fatFinger outcome =>
          cases outcome <;> simp [respond, hphase, leftBehind, Phase.holding, hheld]
      | _ => simp [respond, hphase, leftBehind, Phase.holding, hheld]
  | fatFingerChecked =>
      cases answer with
      | insert raised =>
          cases raised with
          | true => simp [respond, hphase, leftBehind, Phase.holding, hheld]
          | false =>
              have hbefore : sub.held = sub.delta := by
                rw [hheld, hphase]
                rfl
              simp [respond, hphase, leftBehind, insertSubmitted_holding, hbefore]
      | _ => simp [respond, hphase, leftBehind, Phase.holding, hheld]
  | inserted =>
      cases answer with
      | broker reply =>
          have hbefore : sub.held = sub.delta := by
            rw [hheld, hphase]
            rfl
          simp [respond, hphase, leftBehind, afterBroker_holding, hbefore]
      | _ => simp [respond, hphase, leftBehind, Phase.holding, hheld]
  | accepted brokerOrderId =>
      cases answer with
      | confirm raised =>
          cases raised with
          | true => simp [respond, hphase, leftBehind, Phase.holding, hheld]
          | false => simp [respond, hphase, leftBehind, keeps_confirm, Phase.holding, hheld]
      | _ => simp [respond, hphase, leftBehind, Phase.holding, hheld]
  | releasing next =>
      cases answer with
      | release => exact absurd hphase (hrelease rfl next)
      | _ => simp [respond, hphase, leftBehind, Phase.holding, hheld]
  | confirmed brokerOrderId =>
      cases answer with
      | write raised =>
          cases raised <;> simp [respond, hphase, leftBehind, Phase.holding, hheld]
      | _ => simp [respond, hphase, leftBehind, Phase.holding, hheld]
  | rejecting rejection =>
      cases answer with
      | write raised =>
          cases raised <;> simp [respond, hphase, leftBehind, Phase.holding, hheld]
      | _ => simp [respond, hphase, leftBehind, Phase.holding, hheld]
  | readingExisting =>
      cases answer <;> simp [respond, hphase, leftBehind, Phase.holding, hheld]
  | readingInserted brokerOrderId =>
      cases answer <;> simp [respond, hphase, leftBehind, Phase.holding, hheld]
  | ended reply =>
      simp [respond, hphase, leftBehind, Phase.holding, hheld]
  | crashed =>
      simp [respond, hphase, leftBehind, Phase.holding, hheld]

/-- A release that finds its token takes the delta back. -/
theorem respond_release {next : AfterRelease} {key : TokenKey}
    (hphase : sub.phase = .releasing next) (hlive : keys.tokens.find? sub.token = some key) :
    respond cfg keys db sub .release now =
      (⟨some (keys.position.getD 0 - key.delta), keys.tokens.delete sub.token⟩, db,
        next.phase) := by
  simp [respond, hphase, release_of_live hlive]

/-- One that does not changes no key. -/
theorem respond_release_late {next : AfterRelease} (hphase : sub.phase = .releasing next)
    (hgone : keys.tokens.find? sub.token = none) :
    respond cfg keys db sub .release now = (keys, db, next.phase) := by
  simp [respond, hphase, release_of_gone hgone]

theorem insertSubmitted_positions :
    (insertSubmitted cfg db sub now).1.positions = db.positions := by
  unfold insertSubmitted
  split
  · rfl
  · rfl
  · rename_i db' r hcreate
    exact insertOrder_positions hcreate

/-- No segment moves a position. -/
theorem respond_positions (answer : Answer) :
    (respond cfg keys db sub answer now).2.1.positions = db.positions := by
  unfold respond
  split
  all_goals first
    | rfl
    | exact insertSubmitted_positions
    | exact (updateOrderStatusCas_frame db _ _ now).2.1
    | (split <;> rfl)

end Respond

/-! ## The balance -/

/-- What the submissions under way have in the aggregate. -/
def GatewayState.held (s : GatewayState) : ℤ := (s.submissions.rows.map Submission.held).sum

/-- The aggregate is the starting position with what was left behind and what is still under
way; a live token belongs to a submission. -/
structure Balances (symbol : String) (p left : ℤ) (s : GatewayState) : Prop where
  aggregate : reservedPosition s.keys p = p + left + s.held
  backed : ∀ token key, s.keys.tokens.find? token = some key →
    ∃ sub, s.submissions.find? token = some sub ∧ sub.delta = key.delta
  present : s.keys.position = none → ∀ token, s.keys.tokens.find? token = none
  position : s.db.positionQty symbol = p

section Step

variable {cfg : SubmitConfig} {symbol : String} {p left : ℤ} {s : GatewayState}

theorem held_enter_of_mem {token : String} {sub : Submission}
    (h : s.submissions.find? token = some sub) (keys : SymbolKeys) (db : Database)
    (phase : Phase) :
    GatewayState.held ⟨keys, db, s.enter token phase⟩ =
      s.held - sub.held + (sub.enter phase).held :=
  Table.sum_update h (·.enter phase) (·.enter_token phase) Submission.held

/-- The submission of a token is there in every phase. -/
theorem backed_enter {keys : SymbolKeys} (h : Balances symbol p left s)
    (hkeys : ∀ token key, keys.tokens.find? token = some key →
      s.keys.tokens.find? token = some key) (token : String) (phase : Phase) :
    ∀ token' key, keys.tokens.find? token' = some key →
      ∃ sub, (s.enter token phase).find? token' = some sub ∧ sub.delta = key.delta := by
  intro token' key hkey
  obtain ⟨sub, hsub, hdelta⟩ := h.backed token' key (hkeys token' key hkey)
  rw [find?_enter]
  by_cases htoken : token' = token
  · rw [if_pos htoken, ← htoken, hsub]
    exact ⟨_, rfl, hdelta⟩
  · rw [if_neg htoken]
    exact ⟨sub, hsub, hdelta⟩

theorem Keeps.present {keys keys' : SymbolKeys} (h : Keeps keys keys')
    (hpresent : keys.position = none → ∀ token, keys.tokens.find? token = none) :
    keys'.position = none → ∀ token, keys'.tokens.find? token = none := by
  intro hnone token
  rw [h.position] at hnone
  cases hkey : keys'.tokens.find? token with
  | none => rfl
  | some key =>
      have hold := h.tokens token key hkey
      rw [hpresent hnone token] at hold
      cases hold

/-- A step of a submission that leaves the aggregate. -/
theorem balances_enter {keys : SymbolKeys} {db : Database} {token : String} {sub : Submission}
    (phase : Phase) (h : Balances symbol p left s) (hsub : s.submissions.find? token = some sub)
    (hkeys : Keeps s.keys keys) (hdb : db.positionQty symbol = s.db.positionQty symbol) :
    Balances symbol p (left + (sub.held - (sub.enter phase).held))
      ⟨keys, db, s.enter token phase⟩ := by
  refine ⟨?_, backed_enter h hkeys.tokens token phase, hkeys.present h.present,
    hdb.trans h.position⟩
  have hold := h.aggregate
  rw [held_enter_of_mem hsub]
  simp only [reservedPosition, hkeys.position] at hold ⊢
  omega

/-- No key is live under a token that no submission has. -/
theorem token_free (h : Balances symbol p left s) {token : String}
    (hfresh : s.submissions.find? token = none) : s.keys.tokens.find? token = none := by
  cases hkey : s.keys.tokens.find? token with
  | none => rfl
  | some key =>
      obtain ⟨sub, hsub, -⟩ := h.backed token key hkey
      rw [hfresh] at hsub
      cases hsub

theorem held_upsert_of_fresh {sub : Submission} (hfresh : s.submissions.find? sub.token = none)
    (keys : SymbolKeys) (db : Database) :
    GatewayState.held ⟨keys, db, s.submissions.upsert sub⟩ = s.held + sub.held := by
  have hrows := Table.upsert_rows_of_fresh (t := s.submissions) (r := sub) hfresh
  simp only [GatewayState.held, hrows, List.map_append, List.sum_append, List.map_singleton,
    List.sum_singleton]

theorem backed_upsert (h : Balances symbol p left s) {sub : Submission}
    (hfresh : s.submissions.find? sub.token = none) :
    ∀ token key, s.keys.tokens.find? token = some key →
      ∃ sub', (s.submissions.upsert sub).find? token = some sub' ∧ sub'.delta = key.delta := by
  intro token key hkey
  obtain ⟨sub', hsub, hdelta⟩ := h.backed token key hkey
  have hne : token ≠ sub.token := by
    intro htoken
    rw [htoken, token_free h hfresh] at hkey
    cases hkey
  rw [Table.find?_upsert, if_neg hne]
  exact ⟨sub', hsub, hdelta⟩

theorem balances_submit (h : Balances symbol p left s) {order : OrderRequest}
    {clientOrderId token : String} (hsymbol : order.symbol = symbol)
    (hfresh : s.submissions.find? token = none) (now : Timestamp) :
    Balances symbol p left (symbolStep cfg s (.submit order clientOrderId token, now)) := by
  have hold := h.aggregate
  have hposition : s.db.positionQty order.symbol = p := by
    rw [hsymbol]
    exact h.position
  rcases reserveForOrder_cases cfg s.keys s.db order clientOrderId token with
    ⟨reply, hcase⟩ | hcase
  · simp only [symbolStep, hcase]
    refine ⟨?_, backed_upsert h hfresh, h.present, h.position⟩
    have hnone : Submission.held ⟨token, clientOrderId, order, .ended reply⟩ = 0 := rfl
    rw [held_upsert_of_fresh hfresh, hnone, Int.add_zero]
    exact hold
  · simp only [symbolStep, hcase, hposition]
    refine ⟨?_, ?_, (fun hnone => by cases hnone), h.position⟩
    · have hnew : Submission.held ⟨token, clientOrderId, order, .reserved⟩ =
          reservationDelta order.side order.qty := rfl
      rw [held_upsert_of_fresh hfresh, hnew, ← Int.add_assoc, ← hold]
      rfl
    · intro token' key hkey
      rw [Table.find?_upsert] at hkey
      split at hkey
      · rename_i htoken
        cases hkey
        rw [Table.find?_upsert, if_pos htoken]
        exact ⟨_, rfl, rfl⟩
      · exact backed_upsert h hfresh token' key hkey

theorem balances_release (cfg : SubmitConfig) (h : Balances symbol p left s)
    {token : String} {sub : Submission} {next : AfterRelease}
    (hsub : s.submissions.find? token = some sub) (hphase : sub.phase = .releasing next)
    (now : Timestamp) :
    Balances symbol p (left + leftBehind s.keys sub .release)
      (symbolStep cfg s (.answer token .release, now)) := by
  have htoken := Table.find?_key hsub
  have hheld : sub.held = sub.delta := by
    rw [Submission.held, hphase]
    rfl
  have hafter : (sub.enter next.phase).held = 0 := by
    rw [held_enter, afterRelease_not_holding]
    rfl
  cases hlive : s.keys.tokens.find? sub.token with
  | none =>
      have hleft : leftBehind s.keys sub .release = sub.delta := by
        simp [leftBehind, hphase, hlive]
      have hstep := balances_enter next.phase h hsub (Keeps.refl s.keys) rfl
      rw [hheld, hafter, sub_zero] at hstep
      simp only [symbolStep, hsub, respond_release_late hphase hlive, hleft]
      exact hstep
  | some key =>
      have hleft : leftBehind s.keys sub .release = 0 := by
        simp [leftBehind, hphase, hlive]
      obtain ⟨sub', hsub', hdelta⟩ := h.backed _ key hlive
      rw [htoken, hsub] at hsub'
      cases hsub'
      have hpresent : s.keys.position.getD 0 = reservedPosition s.keys p := by
        cases hposition : s.keys.position with
        | some a => simp [reservedPosition, hposition]
        | none =>
            rw [h.present hposition] at hlive
            cases hlive
      have hold := h.aggregate
      simp only [symbolStep, hsub, respond_release hphase hlive, hleft, Int.add_zero]
      refine ⟨?_, backed_enter h (keeps_delete s.keys sub.token).tokens token next.phase,
        (fun hnone => by cases hnone), h.position⟩
      rw [held_enter_of_mem hsub, hheld, hafter]
      simp only [reservedPosition, Option.getD_some] at hold hpresent ⊢
      omega

theorem balances_step (h : Balances symbol p left s) (a : GatewayEvent × Timestamp)
    (ha : Unfilled symbol s a) :
    Balances symbol p (left + strandedBy s a) (symbolStep cfg s a) := by
  obtain ⟨event, now⟩ := a
  cases event with
  | submit order clientOrderId token =>
      rw [strandedBy, Int.add_zero]
      exact balances_submit h ha.1 ha.2 now
  | answer token answer =>
      cases hsub : s.submissions.find? token with
      | none =>
          simp only [strandedBy, symbolStep, hsub, Option.elim_none, Int.add_zero]
          exact h
      | some sub =>
          by_cases hrelease : ∃ next, answer = .release ∧ sub.phase = .releasing next
          · obtain ⟨next, rfl, hphase⟩ := hrelease
            have hrun := balances_release cfg h hsub hphase now
            simpa [strandedBy, hsub] using hrun
          · obtain ⟨hkeys, hheld⟩ := respond_keeps cfg s.keys s.db now answer
              fun hanswer next hphase => hrelease ⟨next, hanswer, hphase⟩
            have hpositions : (respond cfg s.keys s.db sub answer now).2.1.positionQty symbol =
                s.db.positionQty symbol := by
              simp only [Database.positionQty, respond_positions]
            have hstep := balances_enter (respond cfg s.keys s.db sub answer now).2.2 h hsub
              hkeys hpositions
            rw [hheld, sub_sub_cancel] at hstep
            simp only [strandedBy, symbolStep, hsub, Option.elim_some]
            exact hstep
  | crash token =>
      cases hsub : s.submissions.find? token with
      | none =>
          simp only [strandedBy, symbolStep, hsub, Option.elim_none, Int.add_zero]
          exact h
      | some sub =>
          have hstep := balances_enter .crashed h hsub (Keeps.refl s.keys) rfl
          have hafter : (sub.enter .crashed).held = 0 := rfl
          rw [hafter, sub_zero] at hstep
          simp only [strandedBy, symbolStep, hsub, Option.elim_some]
          exact hstep
  | expire token =>
      have hkeys := keeps_delete s.keys token
      rw [strandedBy, Int.add_zero]
      refine ⟨h.aggregate, ?_, hkeys.present h.present, h.position⟩
      intro token' key hkey
      exact h.backed token' key (hkeys.tokens token' key hkey)
  | cancel clientOrderId brokerOk =>
      rw [strandedBy, Int.add_zero]
      refine ⟨h.aggregate, h.backed, h.present, ?_⟩
      rw [← h.position]
      simp only [Database.positionQty, symbolStep, cancelOrder_positions]
  | webhook e =>
      rw [strandedBy, Int.add_zero]
      refine ⟨h.aggregate, h.backed, h.present, ?_⟩
      rw [← h.position]
      simp only [Database.positionQty, symbolStep, statusWebhook_positions s.db ha now]

end Step

/-! ## Runs -/

theorem held_of_settled {s : GatewayState} (h : Settled s) : s.held = 0 := by
  apply List.sum_eq_zero
  intro x hx
  obtain ⟨sub, hsub, rfl⟩ := List.mem_map.mp hx
  have hfinished := (h sub hsub).1
  rw [Submission.held]
  cases hphase : sub.phase with
  | ended reply => rfl
  | crashed => rfl
  | _ => simp [hphase, Phase.finished] at hfinished

/-- An order that fits from the position is granted as soon as the aggregate is there. -/
theorem nothingReserved_iff (cfg : SubmitConfig) (p : ℤ) (s : GatewayState) :
    NothingReserved cfg p s ↔ reservedPosition s.keys p = p := by
  refine ⟨fun h => h.1, ?_⟩
  intro h
  refine ⟨h, ?_⟩
  intro order token hfits
  rw [reserve_success_iff, h]
  exact hfits

def liveConfig : SubmitConfig := ⟨"alpha", false, true, 100, {}⟩

/-- A buy for the whole limit is accepted by the broker and canceled before it fills. -/
def canceledBuy : List (GatewayEvent × Timestamp) :=
  [(.submit (sampleRequest .buy 100 (by decide)) "o-1" "a", 1),
    (.answer "a" (.lookup false), 2),
    (.answer "a" (.fatFinger .passed), 3),
    (.answer "a" (.insert false), 4),
    (.answer "a" (.broker (.accepted (some "b-1"))), 5),
    (.answer "a" (.confirm false), 6),
    (.answer "a" (.write false), 7),
    (.answer "a" .read, 8),
    (.cancel "o-1" true, 9)]

end TradingPlatform.Gateway
