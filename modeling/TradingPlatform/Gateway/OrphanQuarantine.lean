import TradingPlatform.Base.Interleaving
import TradingPlatform.Gateway.TwapSubmission

/-! # Quarantine of orphan orders

A reconciliation run takes orders of the broker that have no row in the database for orphans and
quarantines their symbols. Submissions, replacements and reconciliation runs take their database,
broker and Redis operations one at a time, in any order. No code takes a quarantine key away.
-/

namespace TradingPlatform.Gateway

open Base

/-! ## Orphans -/

/-- An order as the broker returns it; a field that is missing or empty is `none`. -/
structure BrokerOrderData where
  id : Option String
  clientOrderId : Option String
  symbol : Option String
  side : Option String
  qty : Option ℚ
  notional : Option ℚ
  limitPrice : Option ℚ
  filledAvgPrice : Option ℚ
  status : Option String
  deriving DecidableEq

structure OrphanOrder where
  brokerOrderId : String
  clientOrderId : Option String
  symbol : String
  strategyId : String
  side : String
  qty : ℤ
  estimatedNotional : ℚ
  status : String
  resolvedAt : Option Timestamp
  deriving DecidableEq

def quarantineStrategySentinel : String := "external"

def terminalTexts : List String :=
  ["filled", "canceled", "expired", "failed", "rejected", "replaced", "done_for_day",
    "blocked_kill_switch", "blocked_circuit_breaker"]

def estimateNotional (order : BrokerOrderData) : ℚ :=
  match order.notional with
  | some notional => notional
  | none =>
      let qty := order.qty.getD 0
      match order.limitPrice with
      | some limitPrice => qty * limitPrice
      | none =>
          match order.filledAvgPrice with
          | some filledAvgPrice => qty * filledAvgPrice
          | none => 0

/-- `int(qty)`, towards zero -/
def wholeQty (qty : ℚ) : ℤ := if 0 ≤ qty then ⌊qty⌋ else ⌈qty⌉

def orphanStatus (order : BrokerOrderData) : String := order.status.getD "untracked"

/-- The columns have their types: an integer, and a number with two places. -/
def orphanRow (order : BrokerOrderData) (brokerOrderId symbol : String) : OrphanOrder where
  brokerOrderId
  clientOrderId := order.clientOrderId
  symbol
  strategyId := quarantineStrategySentinel
  side := order.side.getD "unknown"
  qty := wholeQty (order.qty.getD 0)
  estimatedNotional := toScale 2 (estimateNotional order)
  status := orphanStatus order
  resolvedAt := none

/-! ## The system -/

structure QuarantineState where
  /-- The client ids of the rows of `orders`. -/
  orderIds : List String
  /-- The client ids of the orders at the broker. -/
  held : List (Option String)
  orphans : Table String OrphanOrder (·.brokerOrderId)
  /-- The keys `quarantine:{strategy_id}:{symbol}` by strategy and symbol. -/
  quarantine : List (String × String)
  /-- The value of `orphan_exposure:{strategy_id}:{symbol}`. -/
  orphanExposure : String × String → Option ℚ
  /-- The new client ids in `order_modifications`. -/
  modifications : List String

def createOrphanOrder (s : QuarantineState) (row : OrphanOrder) : QuarantineState :=
  { s with orphans := (s.orphans.insert row).getD s.orphans }

def updateOrphanOrderStatus (s : QuarantineState) (brokerOrderId status : String)
    (resolvedAt : Option Timestamp) : QuarantineState :=
  { s with
    orphans := s.orphans.update brokerOrderId
      (fun row => { row with status, resolvedAt := resolvedAt <|> row.resolvedAt })
      fun _ => rfl }

def getOrphanExposure (s : QuarantineState) (symbol strategyId : String) : ℚ :=
  ((s.orphans.select fun row =>
      row.resolvedAt.isNone && row.symbol = symbol &&
        (row.strategyId = strategyId || row.strategyId = "external")).map
    (·.estimatedNotional)).sum

/-- An order that was not found in the database, and whether a terminal one is resolved. -/
structure Detection where
  order : BrokerOrderData
  resolveTerminal : Bool
  deriving DecidableEq

/-- The operations that `handle_orphan_order` is at. -/
inductive OrphanStage where
  | create | update | quarantine | readExposure
  | writeExposure (exposure : ℚ)

/-- Where a caller is. The run of a reconciliation holds what it has read. -/
inductive QuarantineCall where
  | idle
  | inserted (clientOrderId : String)
  | proposed (clientOrderId : String)
  | replaced (clientOrderId : String)
  | pulledOpen (openOrders : List BrokerOrderData)
  | pulled (openOrders recentOrders : List BrokerOrderData)
  | handling (stage : OrphanStage) (detection : Detection) (brokerOrderId symbol : String)
      (rest : List Detection)

inductive QuarantineAction where
  /-- `create_order`, before the order is submitted -/
  | insert (clientOrderId : String)
  /-- A slice that is due: its row is read. -/
  | pickSlice (clientOrderId : String)
  | submit (accepted : Bool)
  /-- The pending modification is inserted. -/
  | propose (clientOrderId : String)
  | replace (accepted : Bool)
  /-- The transaction that inserts the row of the replacement. -/
  | finalize (ok : Bool)
  /-- The recovery of modifications inserts the row of a replacement. -/
  | recover (clientOrderId : String)
  /-- Somebody else places an order at the broker. -/
  | placeForeign (clientOrderId : Option String)
  | pullOpen (answer : List BrokerOrderData)
  | pullRecent (answer : List BrokerOrderData)
  | readKnown
  | handle (ok : Bool) (now : Timestamp)
  /-- An exception or a crash ends the call. -/
  | stop

/-- The broker returns orders that it holds. -/
def heldOrders (s : QuarantineState) (answer : List BrokerOrderData) : List BrokerOrderData :=
  answer.filter fun order => order.clientOrderId ∈ s.held

def isKnown (s : QuarantineState) (order : BrokerOrderData) : Bool :=
  order.clientOrderId.any fun clientOrderId => clientOrderId ∈ s.orderIds

/-- Open orders first, which are not resolved, then the recent ones. -/
def detectOrphans (s : QuarantineState) (openOrders recentOrders : List BrokerOrderData) :
    List Detection :=
  (openOrders.filter fun order => !isKnown s order).map (⟨·, false⟩) ++
    (recentOrders.filter fun order => !isKnown s order).map (⟨·, true⟩)

/-- The next order that has a symbol and an id. -/
def nextOrphan : List Detection → QuarantineCall
  | [] => .idle
  | detection :: rest =>
      match detection.order.symbol, detection.order.id with
      | some symbol, some brokerOrderId => .handling .create detection brokerOrderId symbol rest
      | _, _ => nextOrphan rest

/-- One operation of `handle_orphan_order`: a failing statement ends the run, a failing write to
Redis or read of the exposure is logged. -/
def handleOrphanOrder (s : QuarantineState) (stage : OrphanStage) (detection : Detection)
    (brokerOrderId symbol : String) (rest : List Detection) (ok : Bool) (now : Timestamp) :
    QuarantineState × QuarantineCall :=
  let order := detection.order
  match stage with
  | .create =>
      if ok then
        (createOrphanOrder s (orphanRow order brokerOrderId symbol),
          .handling .update detection brokerOrderId symbol rest)
      else (s, .idle)
  | .update =>
      let resolved := detection.resolveTerminal && orphanStatus order ∈ terminalTexts
      if ok then
        (updateOrphanOrderStatus s brokerOrderId (orphanStatus order)
            (if resolved then some now else none),
          .handling .quarantine detection brokerOrderId symbol rest)
      else (s, .idle)
  | .quarantine =>
      (if ok then { s with quarantine := ("*", symbol) :: s.quarantine } else s,
        .handling .readExposure detection brokerOrderId symbol rest)
  | .readExposure =>
      (s,
        if ok then
          .handling (.writeExposure (getOrphanExposure s symbol quarantineStrategySentinel))
            detection brokerOrderId symbol rest
        else nextOrphan rest)
  | .writeExposure exposure =>
      (if ok then
          { s with
            orphanExposure := Function.update s.orphanExposure
              (quarantineStrategySentinel, symbol) (some exposure) }
        else s,
        nextOrphan rest)

def quarantineAct (_ : ℕ) (s : QuarantineState) :
    QuarantineCall → QuarantineAction → QuarantineState × QuarantineCall
  | .idle, .insert clientOrderId =>
      ({ s with orderIds := clientOrderId :: s.orderIds }, .inserted clientOrderId)
  | .idle, .pickSlice clientOrderId =>
      (s, if clientOrderId ∈ s.orderIds then .inserted clientOrderId else .idle)
  | .inserted clientOrderId, .submit accepted =>
      (if accepted then { s with held := some clientOrderId :: s.held } else s, .idle)
  | .idle, .propose clientOrderId =>
      ({ s with modifications := clientOrderId :: s.modifications }, .proposed clientOrderId)
  | .proposed clientOrderId, .replace accepted =>
      if accepted then
        ({ s with held := some clientOrderId :: s.held }, .replaced clientOrderId)
      else (s, .idle)
  | .replaced clientOrderId, .finalize ok =>
      (if ok then { s with orderIds := clientOrderId :: s.orderIds } else s, .idle)
  | .idle, .recover clientOrderId =>
      (if clientOrderId ∈ s.modifications then
          { s with orderIds := clientOrderId :: s.orderIds }
        else s,
        .idle)
  | .idle, .placeForeign clientOrderId => ({ s with held := clientOrderId :: s.held }, .idle)
  | .idle, .pullOpen answer => (s, .pulledOpen (heldOrders s answer))
  | .pulledOpen openOrders, .pullRecent answer => (s, .pulled openOrders (heldOrders s answer))
  | .pulled openOrders recentOrders, .readKnown =>
      (s, nextOrphan (detectOrphans s openOrders recentOrders))
  | .handling stage detection brokerOrderId symbol rest, .handle ok now =>
      handleOrphanOrder s stage detection brokerOrderId symbol rest ok now
  | _, .stop => (s, .idle)
  | call, _ => (s, call)

abbrev QuarantineRun := Threads ℕ QuarantineState QuarantineCall

def quarantineStep (s : QuarantineRun) (move : ℕ × QuarantineAction) : QuarantineRun :=
  interleave quarantineAct s move

/-- The broker holds orders of the database and orders of others. -/
def noOrphans (orderIds : List String) (foreign : List (Option String)) : QuarantineRun where
  shared :=
    { orderIds
      held := orderIds.map some ++ foreign
      orphans := Table.empty
      quarantine := []
      orphanExposure := fun _ => none
      modifications := [] }
  loc := fun _ => .idle

/-- What the gate reads for a strategy and a symbol. -/
def readQuarantine (s : QuarantineState) (strategyId symbol : String) : QuarantineRead :=
  .values ((strategyId, symbol) ∈ s.quarantine) (("*", symbol) ∈ s.quarantine)

/-! ## Nothing is taken away -/

structure Grows (s s' : QuarantineState) : Prop where
  orderIds : s.orderIds ⊆ s'.orderIds
  held : s.held ⊆ s'.held
  modifications : s.modifications ⊆ s'.modifications
  quarantine : s.quarantine ⊆ s'.quarantine
  orphans : ∀ row ∈ s.orphans.rows,
    ∃ row' ∈ s'.orphans.rows, row'.brokerOrderId = row.brokerOrderId

section Growth

variable {s s' : QuarantineState} {call : QuarantineCall} {action : QuarantineAction} {i : ℕ}

theorem Grows.refl (s : QuarantineState) : Grows s s :=
  ⟨fun _ h => h, fun _ h => h, fun _ h => h, fun _ h => h, fun row h => ⟨row, h, rfl⟩⟩

theorem mem_createOrphanOrder {row x : OrphanOrder}
    (h : x ∈ (createOrphanOrder s row).orphans.rows) : x ∈ s.orphans.rows ∨ x = row :=
  Table.mem_insert_getD h

theorem grows_createOrphanOrder (row : OrphanOrder) : Grows s (createOrphanOrder s row) := by
  refine { Grows.refl s with orphans := fun x hx => ⟨x, ?_, rfl⟩ }
  unfold createOrphanOrder
  cases hinsert : s.orphans.insert row with
  | none => exact hx
  | some t =>
      show x ∈ t.rows
      rw [Table.insert_rows hinsert]
      exact List.mem_append_left _ hx

/-- The row of the order is there afterwards, whether it is new or not. -/
theorem exists_createOrphanOrder (row : OrphanOrder) :
    ∃ x ∈ (createOrphanOrder s row).orphans.rows, x.brokerOrderId = row.brokerOrderId := by
  unfold createOrphanOrder
  cases hinsert : s.orphans.insert row with
  | none =>
      obtain ⟨x, hx, hkey⟩ := List.mem_map.1 (Table.insert_eq_none.1 hinsert)
      exact ⟨x, hx, hkey⟩
  | some t =>
      refine ⟨row, ?_, rfl⟩
      show row ∈ t.rows
      rw [Table.insert_rows hinsert]
      exact List.mem_append_right _ List.mem_cons_self

theorem mem_updateOrphanOrderStatus {brokerOrderId status : String} {resolvedAt : Option Timestamp}
    {row : OrphanOrder}
    (h : row ∈ (updateOrphanOrderStatus s brokerOrderId status resolvedAt).orphans.rows) :
    ∃ x ∈ s.orphans.rows, row.brokerOrderId = x.brokerOrderId ∧
      row.clientOrderId = x.clientOrderId := by
  rw [updateOrphanOrderStatus, Table.update, Table.mem_updateWhere] at h
  obtain ⟨x, hx, heq⟩ := h
  refine ⟨x, hx, ?_⟩
  rw [← heq]
  split <;> exact ⟨rfl, rfl⟩

theorem grows_updateOrphanOrderStatus (brokerOrderId status : String)
    (resolvedAt : Option Timestamp) :
    Grows s (updateOrphanOrderStatus s brokerOrderId status resolvedAt) := by
  refine { Grows.refl s with orphans := fun x hx => ?_ }
  simp only [updateOrphanOrderStatus, Table.update, Table.mem_updateWhere]
  refine ⟨_, ⟨x, hx, rfl⟩, ?_⟩
  split <;> rfl

theorem grows_handleOrphanOrder {stage : OrphanStage} {detection : Detection}
    {brokerOrderId symbol : String} {rest : List Detection} {ok : Bool} {now : Timestamp} :
    Grows s (handleOrphanOrder s stage detection brokerOrderId symbol rest ok now).1 := by
  have hrefl := Grows.refl s
  unfold handleOrphanOrder
  cases stage with
  | create =>
      cases ok with
      | false => exact hrefl
      | true => exact grows_createOrphanOrder _
  | update =>
      cases ok with
      | false => exact hrefl
      | true => exact grows_updateOrphanOrderStatus ..
  | quarantine =>
      cases ok with
      | false => exact hrefl
      | true => exact { hrefl with quarantine := List.subset_cons_self _ _ }
  | readExposure => exact hrefl
  | writeExposure exposure =>
      cases ok with
      | false => exact hrefl
      | true => exact { hrefl with }

theorem grows_quarantineAct : Grows s (quarantineAct i s call action).1 := by
  have hrefl := Grows.refl s
  unfold quarantineAct
  split
  · exact { hrefl with orderIds := List.subset_cons_self _ _ }
  · exact hrefl
  · split
    · exact { hrefl with held := List.subset_cons_self _ _ }
    · exact hrefl
  · exact { hrefl with modifications := List.subset_cons_self _ _ }
  · split
    · exact { hrefl with held := List.subset_cons_self _ _ }
    · exact hrefl
  · split
    · exact { hrefl with orderIds := List.subset_cons_self _ _ }
    · exact hrefl
  · split
    · exact { hrefl with orderIds := List.subset_cons_self _ _ }
    · exact hrefl
  · exact { hrefl with held := List.subset_cons_self _ _ }
  · exact hrefl
  · exact hrefl
  · exact hrefl
  · exact grows_handleOrphanOrder
  · exact hrefl
  · exact hrefl

end Growth

/-! ## Where orphans come from -/

section Origins

variable {A : Option String → Prop} {s s' : QuarantineState} {call : QuarantineCall}
  {action : QuarantineAction} {i : ℕ}

/-- The symbol of the key is that of an order that has a row as an orphan. -/
def Justified (A : Option String → Prop) (s : QuarantineState) (key : String × String) : Prop :=
  key.1 = "*" ∧ ∃ order : BrokerOrderData, order.symbol = some key.2 ∧ A order.clientOrderId ∧
    ∃ row ∈ s.orphans.rows, order.id = some row.brokerOrderId

structure QuarantineInv (A : Option String → Prop) (s : QuarantineState) : Prop where
  held : ∀ c ∈ s.held, A c ∨
    ∃ clientOrderId, c = some clientOrderId ∧
      (clientOrderId ∈ s.orderIds ∨ clientOrderId ∈ s.modifications)
  rows : ∀ row ∈ s.orphans.rows, A row.clientOrderId
  keys : ∀ key ∈ s.quarantine, Justified A s key

structure HandlingInv (A : Option String → Prop) (s : QuarantineState) (stage : OrphanStage)
    (detection : Detection) (brokerOrderId symbol : String) (rest : List Detection) : Prop where
  stray : A detection.order.clientOrderId
  symbol : detection.order.symbol = some symbol
  id : detection.order.id = some brokerOrderId
  row : stage ≠ .create → ∃ row ∈ s.orphans.rows, row.brokerOrderId = brokerOrderId
  rest : ∀ x ∈ rest, A x.order.clientOrderId

def CallInv (A : Option String → Prop) (s : QuarantineState) : QuarantineCall → Prop
  | .inserted clientOrderId => clientOrderId ∈ s.orderIds
  | .proposed clientOrderId => clientOrderId ∈ s.modifications
  | .pulledOpen openOrders => ∀ order ∈ openOrders, order.clientOrderId ∈ s.held
  | .pulled openOrders recentOrders =>
      ∀ order ∈ openOrders ++ recentOrders, order.clientOrderId ∈ s.held
  | .handling stage detection brokerOrderId symbol rest =>
      HandlingInv A s stage detection brokerOrderId symbol rest
  | _ => True

theorem Justified.mono {key : String × String} (h : Justified A s key) (hgrows : Grows s s') :
    Justified A s' key := by
  obtain ⟨hstar, order, hsymbol, hA, row, hrow, hid⟩ := h
  obtain ⟨row', hrow', hkey⟩ := hgrows.orphans row hrow
  exact ⟨hstar, order, hsymbol, hA, row', hrow', by rw [hkey]; exact hid⟩

theorem CallInv.mono (h : CallInv A s call) (hgrows : Grows s s') : CallInv A s' call := by
  cases call with
  | idle => trivial
  | inserted => exact hgrows.orderIds h
  | proposed => exact hgrows.modifications h
  | replaced => trivial
  | pulledOpen => exact fun order horder => hgrows.held (h order horder)
  | pulled => exact fun order horder => hgrows.held (h order horder)
  | handling =>
      refine { h with row := fun hstage => ?_ }
      obtain ⟨row, hrow, hid⟩ := h.row hstage
      obtain ⟨row', hrow', hkey⟩ := hgrows.orphans row hrow
      exact ⟨row', hrow', hkey.trans hid⟩

theorem callInv_nextOrphan {rest : List Detection} (h : ∀ x ∈ rest, A x.order.clientOrderId) :
    CallInv A s (nextOrphan rest) := by
  induction rest with
  | nil => trivial
  | cons detection rest ih =>
      have hrest : ∀ x ∈ rest, A x.order.clientOrderId :=
        fun x hx => h x (List.mem_cons_of_mem _ hx)
      rw [nextOrphan]
      split
      · rename_i symbol brokerOrderId hsymbol hid
        exact ⟨h detection List.mem_cons_self, hsymbol, hid, fun hne => absurd rfl hne, hrest⟩
      · exact ih hrest

theorem quarantineInv_handle {stage : OrphanStage} {detection : Detection}
    {brokerOrderId symbol : String} {rest : List Detection} (ok : Bool) (now : Timestamp)
    (hI : QuarantineInv A s) (hJ : HandlingInv A s stage detection brokerOrderId symbol rest) :
    QuarantineInv A (handleOrphanOrder s stage detection brokerOrderId symbol rest ok now).1 ∧
      CallInv A (handleOrphanOrder s stage detection brokerOrderId symbol rest ok now).1
        (handleOrphanOrder s stage detection brokerOrderId symbol rest ok now).2 := by
  unfold handleOrphanOrder
  cases stage with
  | create =>
      cases ok with
      | false => exact ⟨hI, trivial⟩
      | true =>
          have hgrows : Grows s
              (createOrphanOrder s (orphanRow detection.order brokerOrderId symbol)) :=
            grows_createOrphanOrder _
          refine ⟨⟨hI.held, fun row hrow => ?_, fun key hkey => (hI.keys key hkey).mono hgrows⟩,
            { hJ with row := fun _ => exists_createOrphanOrder _ }⟩
          rcases mem_createOrphanOrder hrow with hold | hnew
          · exact hI.rows row hold
          · rw [hnew]
            exact hJ.stray
  | update =>
      cases ok with
      | false => exact ⟨hI, trivial⟩
      | true =>
          have hgrows : Grows s (updateOrphanOrderStatus s brokerOrderId
              (orphanStatus detection.order)
              (if detection.resolveTerminal && orphanStatus detection.order ∈ terminalTexts then
                some now else none)) := grows_updateOrphanOrderStatus ..
          refine ⟨⟨hI.held, fun row hrow => ?_, fun key hkey => (hI.keys key hkey).mono hgrows⟩,
            { hJ with row := fun _ => ?_ }⟩
          · obtain ⟨x, hx, _, hsame⟩ := mem_updateOrphanOrderStatus hrow
            rw [hsame]
            exact hI.rows x hx
          · obtain ⟨row, hrow, hid⟩ := hJ.row (by simp)
            obtain ⟨row', hrow', hkey⟩ := hgrows.orphans row hrow
            exact ⟨row', hrow', hkey.trans hid⟩
  | quarantine =>
      have hJ' : HandlingInv A s .readExposure detection brokerOrderId symbol rest :=
        { hJ with row := fun _ => hJ.row (by simp) }
      cases ok with
      | false => exact ⟨hI, hJ'⟩
      | true =>
          refine ⟨{ hI with keys := fun key hkey => ?_ }, { hJ' with }⟩
          rcases List.mem_cons.1 hkey with hnew | hold
          · obtain ⟨row, hrow, hid⟩ := hJ.row (by simp)
            rw [hnew]
            exact ⟨rfl, detection.order, hJ.symbol, hJ.stray, row, hrow, by rw [hid]; exact hJ.id⟩
          · exact hI.keys key hold
  | readExposure =>
      cases ok with
      | false => exact ⟨hI, callInv_nextOrphan hJ.rest⟩
      | true => exact ⟨hI, { hJ with row := fun _ => hJ.row (by simp) }⟩
  | writeExposure exposure =>
      cases ok with
      | false => exact ⟨hI, callInv_nextOrphan hJ.rest⟩
      | true => exact ⟨{ hI with }, callInv_nextOrphan hJ.rest⟩

/-- An order that the broker holds and that has no row is a stray or an unfinished replacement. -/
theorem detectOrphans_stray (hI : QuarantineInv A s)
    {openOrders recentOrders : List BrokerOrderData}
    (hheld : ∀ order ∈ openOrders ++ recentOrders, order.clientOrderId ∈ s.held)
    (hread : ∀ order ∈ openOrders ++ recentOrders, ∀ clientOrderId,
      order.clientOrderId = some clientOrderId → clientOrderId ∈ s.modifications →
        clientOrderId ∉ s.orderIds → A (some clientOrderId)) :
    ∀ x ∈ detectOrphans s openOrders recentOrders, A x.order.clientOrderId := by
  have hstray : ∀ order ∈ openOrders ++ recentOrders, isKnown s order = false →
      A order.clientOrderId := by
    intro order horder hunknown
    rcases hI.held _ (hheld order horder) with hA | ⟨clientOrderId, hid, hrow⟩
    · exact hA
    · have hnone : clientOrderId ∉ s.orderIds := by simpa [isKnown, hid] using hunknown
      rcases hrow with hin | hmodified
      · exact absurd hin hnone
      · rw [hid]
        exact hread order horder clientOrderId hid hmodified hnone
  intro x hx
  rcases List.mem_append.1 hx with hopen | hrecent
  · obtain ⟨order, horder, heq⟩ := List.mem_map.1 hopen
    obtain ⟨hmem, hunknown⟩ := List.mem_filter.1 horder
    rw [← heq]
    exact hstray order (List.mem_append_left _ hmem) (by simpa using hunknown)
  · obtain ⟨order, horder, heq⟩ := List.mem_map.1 hrecent
    obtain ⟨hmem, hunknown⟩ := List.mem_filter.1 horder
    rw [← heq]
    exact hstray order (List.mem_append_right _ hmem) (by simpa using hunknown)

theorem heldOrders_held (answer : List BrokerOrderData) :
    ∀ order ∈ heldOrders s answer, order.clientOrderId ∈ s.held :=
  fun order horder => by simpa using (List.mem_filter.1 horder).2

theorem quarantineAct_inv (hI : QuarantineInv A s) (hJ : CallInv A s call)
    (hforeign : ∀ c, call = .idle → action = .placeForeign c → A c)
    (hread : ∀ openOrders recentOrders, call = .pulled openOrders recentOrders →
      action = .readKnown → ∀ order ∈ openOrders ++ recentOrders, ∀ clientOrderId,
        order.clientOrderId = some clientOrderId → clientOrderId ∈ s.modifications →
          clientOrderId ∉ s.orderIds → A (some clientOrderId)) :
    QuarantineInv A (quarantineAct i s call action).1 ∧
      CallInv A (quarantineAct i s call action).1 (quarantineAct i s call action).2 := by
  -- More rows and modifications explain no fewer of the orders at the broker.
  have hknown : ∀ {s' : QuarantineState}, Grows s s' → ∀ c ∈ s.held, A c ∨
      ∃ clientOrderId, c = some clientOrderId ∧
        (clientOrderId ∈ s'.orderIds ∨ clientOrderId ∈ s'.modifications) := by
    intro s' hgrows c hc
    rcases hI.held c hc with hA | ⟨clientOrderId, hid, hin⟩
    · exact .inl hA
    · exact .inr ⟨clientOrderId, hid, hin.imp (@hgrows.orderIds _) (@hgrows.modifications _)⟩
  have hgrows : Grows s (quarantineAct i s call action).1 := grows_quarantineAct
  cases call with
  | idle =>
      cases action with
      | insert clientOrderId =>
          exact ⟨{ hI with held := hknown hgrows }, List.mem_cons_self⟩
      | pickSlice clientOrderId =>
          refine ⟨hI, ?_⟩
          show CallInv A s (if clientOrderId ∈ s.orderIds then .inserted clientOrderId else .idle)
          split
          · assumption
          · trivial
      | propose clientOrderId =>
          exact ⟨{ hI with held := hknown hgrows }, List.mem_cons_self⟩
      | recover clientOrderId =>
          refine ⟨?_, trivial⟩
          show QuarantineInv A (if clientOrderId ∈ s.modifications then
            { s with orderIds := clientOrderId :: s.orderIds } else s)
          split
          · rename_i hin
            refine { hI with held := hknown { Grows.refl s with
              orderIds := List.subset_cons_self _ _ } }
          · exact hI
      | placeForeign clientOrderId =>
          refine ⟨{ hI with held := fun c hc => ?_ }, trivial⟩
          rcases List.mem_cons.1 hc with hnew | hold
          · exact .inl (hnew ▸ hforeign clientOrderId rfl rfl)
          · exact hI.held c hold
      | pullOpen answer => exact ⟨hI, heldOrders_held answer⟩
      | _ => exact ⟨hI, trivial⟩
  | inserted clientOrderId =>
      cases action with
      | submit accepted =>
          cases accepted with
          | false => exact ⟨hI, trivial⟩
          | true =>
              refine ⟨{ hI with held := fun c hc => ?_ }, trivial⟩
              rcases List.mem_cons.1 hc with hnew | hold
              · exact .inr ⟨clientOrderId, hnew, .inl hJ⟩
              · exact hI.held c hold
      | stop => exact ⟨hI, trivial⟩
      | _ => exact ⟨hI, hJ⟩
  | proposed clientOrderId =>
      cases action with
      | replace accepted =>
          cases accepted with
          | false => exact ⟨hI, trivial⟩
          | true =>
              refine ⟨{ hI with held := fun c hc => ?_ }, trivial⟩
              rcases List.mem_cons.1 hc with hnew | hold
              · exact .inr ⟨clientOrderId, hnew, .inr hJ⟩
              · exact hI.held c hold
      | stop => exact ⟨hI, trivial⟩
      | _ => exact ⟨hI, hJ⟩
  | replaced clientOrderId =>
      cases action with
      | finalize ok =>
          cases ok with
          | false => exact ⟨hI, trivial⟩
          | true => exact ⟨{ hI with held := hknown hgrows }, trivial⟩
      | _ => exact ⟨hI, trivial⟩
  | pulledOpen openOrders =>
      cases action with
      | pullRecent answer =>
          refine ⟨hI, fun order horder => ?_⟩
          rcases List.mem_append.1 horder with hopen | hrecent
          · exact hJ order hopen
          · exact heldOrders_held answer order hrecent
      | stop => exact ⟨hI, trivial⟩
      | _ => exact ⟨hI, hJ⟩
  | pulled openOrders recentOrders =>
      cases action with
      | readKnown =>
          exact ⟨hI, callInv_nextOrphan
            (detectOrphans_stray hI hJ (hread openOrders recentOrders rfl rfl))⟩
      | stop => exact ⟨hI, trivial⟩
      | _ => exact ⟨hI, hJ⟩
  | handling stage detection brokerOrderId symbol rest =>
      cases action with
      | handle ok now => exact quarantineInv_handle ok now hI hJ
      | stop => exact ⟨hI, trivial⟩
      | _ => exact ⟨hI, hJ⟩

/-- Somebody else places an order under the client id. -/
def Places (c : Option String) (s : QuarantineRun) (move : ℕ × QuarantineAction) : Prop :=
  s.loc move.1 = .idle ∧ move.2 = .placeForeign c

/-- A reconciliation that was given the replacement by the broker reads the known ids before the row
of the replacement is inserted. -/
def ReadsUnfinished (clientOrderId : String) (s : QuarantineRun) (move : ℕ × QuarantineAction) :
    Prop :=
  move.2 = .readKnown ∧ clientOrderId ∈ s.shared.modifications ∧
    clientOrderId ∉ s.shared.orderIds ∧
    ∃ openOrders recentOrders, s.loc move.1 = .pulled openOrders recentOrders ∧
      ∃ order ∈ openOrders ++ recentOrders, order.clientOrderId = some clientOrderId

theorem quarantineInv_run {s : QuarantineRun} {moves : List (ℕ × QuarantineAction)}
    (h : AllThreads (QuarantineInv A) (fun _ => CallInv A) s)
    (hforeign : ∀ c, SomeStep quarantineStep (Places c) s moves → A c)
    (hread : ∀ clientOrderId,
      SomeStep quarantineStep (ReadsUnfinished clientOrderId) s moves → A (some clientOrderId)) :
    AllThreads (QuarantineInv A) (fun _ => CallInv A) (run quarantineStep s moves) := by
  induction moves generalizing s with
  | nil => exact h
  | cons move moves ih =>
      refine ih (AllThreads.step h ?_ fun j _ hj => hj.mono grows_quarantineAct)
        (fun c hc => hforeign c (.inr hc)) fun clientOrderId hid => hread clientOrderId (.inr hid)
      refine quarantineAct_inv h.shared (h.thread move.1)
        (fun c hidle hc => hforeign c (.inl ⟨hidle, hc⟩)) ?_
      intro openOrders recentOrders hcall hknown order horder clientOrderId hid hmodified hnone
      exact hread clientOrderId (.inl ⟨hknown, hmodified, hnone, openOrders, recentOrders, hcall,
        order, horder, hid⟩)

end Origins

section Lasting

variable {s : QuarantineState} {order : BrokerOrderData} {brokerOrderId symbol : String}

def beforeQuarantine : OrphanStage → Bool
  | .create | .update | .quarantine => true
  | .readExposure | .writeExposure _ => false

/-- The run of the reconciliation has the order ahead of it. -/
def OrphanAhead (order : BrokerOrderData) (symbol : String) : QuarantineCall → Prop
  | .handling stage detection _ symbol' rest =>
      (beforeQuarantine stage = true ∧ detection.order = order ∧ symbol' = symbol) ∨
        ∃ x ∈ rest, x.order = order
  | _ => False

theorem orphanAhead_nextOrphan (hid : order.id = some brokerOrderId)
    (hsymbol : order.symbol = some symbol) {rest : List Detection}
    (h : ∃ x ∈ rest, x.order = order) : OrphanAhead order symbol (nextOrphan rest) := by
  induction rest with
  | nil =>
      obtain ⟨x, hx, _⟩ := h
      cases hx
  | cons detection rest ih =>
      obtain ⟨x, hx, hsame⟩ := h
      rcases List.mem_cons.1 hx with hfirst | hrest
      · rw [← hfirst, nextOrphan, hsame, hid, hsymbol]
        exact .inl ⟨rfl, hsame, rfl⟩
      · rw [nextOrphan]
        split
        · exact .inr ⟨x, hrest, hsame⟩
        · exact ih ⟨x, hrest, hsame⟩

theorem orphanAhead_detect (hid : order.id = some brokerOrderId)
    (hsymbol : order.symbol = some symbol) {openOrders recentOrders : List BrokerOrderData}
    (horder : order ∈ openOrders ++ recentOrders) (hunknown : isKnown s order = false) :
    OrphanAhead order symbol (nextOrphan (detectOrphans s openOrders recentOrders)) := by
  refine orphanAhead_nextOrphan hid hsymbol ?_
  have hkeep : (!isKnown s order) = true := by rw [hunknown]; rfl
  rcases List.mem_append.1 horder with hopen | hrecent
  · exact ⟨⟨order, false⟩, List.mem_append_left _
      (List.mem_map.2 ⟨order, List.mem_filter.2 ⟨hopen, hkeep⟩, rfl⟩), rfl⟩
  · exact ⟨⟨order, true⟩, List.mem_append_right _
      (List.mem_map.2 ⟨order, List.mem_filter.2 ⟨hrecent, hkeep⟩, rfl⟩), rfl⟩

theorem orphanAhead_handle (hid : order.id = some brokerOrderId)
    (hsymbol : order.symbol = some symbol) {stage : OrphanStage} {detection : Detection}
    {brokerOrderId' symbol' : String} {rest : List Detection} (now : Timestamp)
    (h : OrphanAhead order symbol (.handling stage detection brokerOrderId' symbol' rest)) :
    ("*", symbol) ∈ (handleOrphanOrder s stage detection brokerOrderId' symbol' rest true
        now).1.quarantine ∨
      OrphanAhead order symbol
        (handleOrphanOrder s stage detection brokerOrderId' symbol' rest true now).2 := by
  cases stage with
  | create => exact .inr (h.imp (fun hfirst => ⟨rfl, hfirst.2⟩) id)
  | update => exact .inr (h.imp (fun hfirst => ⟨rfl, hfirst.2⟩) id)
  | quarantine =>
      rcases h with ⟨_, _, hsame⟩ | hrest
      · refine .inl ?_
        show ("*", symbol) ∈ ("*", symbol') :: s.quarantine
        rw [hsame]
        exact List.mem_cons_self
      · exact .inr (.inr hrest)
  | readExposure =>
      rcases h with ⟨hstage, _⟩ | hrest
      · cases hstage
      · exact .inr (.inr hrest)
  | writeExposure exposure =>
      rcases h with ⟨hstage, _⟩ | hrest
      · cases hstage
      · exact .inr (orphanAhead_nextOrphan hid hsymbol hrest)

/-- While the run goes on without a failure, the order stays ahead until its key is written. -/
theorem quarantined_or_ahead {s : QuarantineRun} {i : ℕ} (hid : order.id = some brokerOrderId)
    (hsymbol : order.symbol = some symbol) {moves : List (ℕ × QuarantineAction)}
    (hgood : ∀ move ∈ moves, move.1 = i → move.2 ≠ .stop ∧ ∀ now, move.2 ≠ .handle false now)
    (h : ("*", symbol) ∈ s.shared.quarantine ∨ OrphanAhead order symbol (s.loc i)) :
    ("*", symbol) ∈ (run quarantineStep s moves).shared.quarantine ∨
      OrphanAhead order symbol ((run quarantineStep s moves).loc i) := by
  induction moves generalizing s with
  | nil => exact h
  | cons move moves ih =>
      refine ih (fun m hm => hgood m (List.mem_cons_of_mem _ hm)) ?_
      rcases h with hkey | hahead
      · exact .inl (grows_quarantineAct.quarantine hkey)
      · by_cases hmine : move.1 = i
        · obtain ⟨hstop, hfail⟩ := hgood move List.mem_cons_self hmine
          have hloc : (quarantineStep s move).loc i =
              (quarantineAct move.1 s.shared (s.loc i) move.2).2 := by
            rw [← hmine]
            exact interleave_loc_self s move
          have hshared : (quarantineStep s move).shared =
              (quarantineAct move.1 s.shared (s.loc i) move.2).1 := by
            rw [quarantineStep, interleave, hmine]
          rw [hloc, hshared]
          cases hcall : s.loc i with
          | handling stage detection brokerOrderId' symbol' rest =>
              rw [hcall] at hahead
              cases haction : move.2 with
              | handle ok now =>
                  cases ok with
                  | false => exact absurd haction (hfail now)
                  | true => exact orphanAhead_handle hid hsymbol now hahead
              | stop => exact absurd haction hstop
              | _ => exact .inr hahead
          | _ =>
              rw [hcall] at hahead
              exact hahead.elim
        · refine .inr ?_
          have hloc : (quarantineStep s move).loc i = s.loc i :=
            interleave_loc_of_ne (Ne.symm hmine)
          rw [hloc]
          exact hahead

theorem quarantine_lasts {s : QuarantineRun} (moves : List (ℕ × QuarantineAction)) :
    s.shared.quarantine ⊆ (run quarantineStep s moves).shared.quarantine := by
  induction moves generalizing s with
  | nil => exact fun _ h => h
  | cons move moves ih => exact fun _ h => ih (grows_quarantineAct.quarantine h)

end Lasting

/-- A replacement as the broker shows it before its row is inserted. -/
def replacementShown : BrokerOrderData where
  id := some "b-2"
  clientOrderId := some "o1-r1"
  symbol := some "AAPL"
  side := some "buy"
  qty := some 10
  notional := none
  limitPrice := some 190
  filledAvgPrice := none
  status := some "new"

/-- The reconciliation has its orders while the replacement of the other call waits for its row. -/
def replacementPulled : QuarantineRun :=
  run quarantineStep (noOrphans ["o1"] [])
    [(1, .propose "o1-r1"), (1, .replace true), (0, .pullOpen [replacementShown]),
      (0, .pullRecent [])]

end TradingPlatform.Gateway
