import StockBank.Lib.Run
import StockBank.Server.Account
import StockBank.Server.StockExchange
import StockBank.Stock.Messages
import StockBank.Stock.Simulator

/-!
# The poll thread against the stock service

The thread of `StockExchange.run` and the Python service it polls, one step at a
time.  A round iterates the map in any order; the visit of an entry is a request
built, a call answered by the service, and a `put`.  A call may also fail, before or
after the service has served it, and then the thread is over.  In between, clients
ask premium accounts for loans, which read the map and take no lock.

The steps are made of the parts of `visit`: `visit_steps` takes a visit apart into
steps.

The bank's request is a list and the service reads a single record.  The bank always
sends one element, and that is what the service reads.
-/

namespace StockBank.Server

open Lib Java

/-- The Python service behind the stub, with the draws of one call.  A list of records
is merged into the single one its schema has, so the last element wins, and the empty
list lacks a required field; what the service raises arrives as a failed call. -/
def stockService (draw : Stock.Currency → Stock.Draw) : Stub Stock.Table := fun currencies t ↦
  match currencies.getLast? with
  | none => (.error ⟨13⟩, t)
  | some data =>
    match Stock.getUpdatedCurrencies ⟨data, draw⟩ t with
    | (.ok reply, t') => (.ok [reply], t')
    | (.error _, t') => (.error ⟨2⟩, t')

/-- Where the thread is. -/
inductive PollPC
  | /-- Before `setAvailableCurrencies`. -/
    started
  | /-- Between its two `put`s. -/
    eurSet
  | /-- In a round, with the entries still to visit. -/
    polling (todo : List Demo.Currency)
  | /-- The request for `k` is built. -/
    calling (k : Demo.Currency) (currencies : StockRequest) (todo : List Demo.Currency)
  | /-- The response for `k` is there; `after` is the service's table when it answered. -/
    answered (k : Demo.Currency) (currencies : StockRequest) (after : Stock.Table) (result : ℚ)
      (todo : List Demo.Currency)
  | /-- The call for `k` has failed, and the thread is over. -/
    dead (k : Demo.Currency)

/-- The thread, the map, and the table of the service. -/
structure Poll where
  /-- Where the thread is. -/
  pc : PollPC
  exchange : Exchange Stock.Table

/-- The thread before its first step, and a service that holds `table`. -/
def Poll.start (table : Stock.Table) : Poll := ⟨.started, ⟨PMap.empty, table⟩⟩

/-- What a step shows. -/
inductive PollEvent
  | set (k : Demo.Currency)
  | round (keys : List Demo.Currency)
  | ask (k : Demo.Currency) (currencies : StockRequest)
  | answer (k : Demo.Currency)
  | put (k : Demo.Currency) (currencies : StockRequest) (after : Stock.Table) (result : ℚ)
  | fail (k : Demo.Currency)
  | loan (account : PremiumAccount) (currency : Demo.Currency) (value periodLength : ℤ)
      (cost : Except NullPointerException Double)

/-- One step of the thread, or of a client. -/
inductive PollStep : Poll → PollEvent → Poll → Prop
  | /-- `availableCurrencies.put(Currency.EUR, 0.0)`. -/
    setEur {s : Poll} : s.pc = .started →
      PollStep s (.set .EUR) ⟨.eurSet, ((put .EUR 0).exec s.exchange).2⟩
  | /-- `availableCurrencies.put(Currency.USD, 0.0)`. -/
    setUsd {s : Poll} : s.pc = .eurSet →
      PollStep s (.set .USD) ⟨.polling [], ((put .USD 0).exec s.exchange).2⟩
  | /-- The next round, in any order. -/
    round {s : Poll} {keys : List Demo.Currency} : s.pc = .polling [] →
      Iterates s.exchange.availableCurrencies keys →
      PollStep s (.round keys) ⟨.polling keys, s.exchange⟩
  | /-- The request for the next entry. -/
    ask {s : Poll} {k : Demo.Currency} {todo : List Demo.Currency} {currencies : StockRequest}
      {exchange : Exchange Stock.Table} : s.pc = .polling (k :: todo) →
      (request k).exec s.exchange = (.ok currencies, exchange) →
      PollStep s (.ask k currencies) ⟨.calling k currencies todo, exchange⟩
  | /-- The call returns. -/
    answer {s : Poll} {k : Demo.Currency} {todo : List Demo.Currency} {currencies : StockRequest}
      {draw : Stock.Currency → Stock.Draw} {result : ℚ} {exchange : Exchange Stock.Table} :
      s.pc = .calling k currencies todo →
      (runStockExchangeService (stockService draw) currencies).exec s.exchange =
        (.ok result, exchange) →
      PollStep s (.answer k) ⟨.answered k currencies exchange.service result todo, exchange⟩
  | /-- The call fails: it has not reached the service, or the service has served it. -/
    fail {s : Poll} {k : Demo.Currency} {todo : List Demo.Currency} {currencies : StockRequest}
      {table : Stock.Table} : s.pc = .calling k currencies todo →
      (table = s.exchange.service ∨
        ∃ draw, table = (stockService draw currencies s.exchange.service).2) →
      PollStep s (.fail k) ⟨.dead k, { s.exchange with service := table }⟩
  | /-- The response is stored. -/
    put {s : Poll} {k : Demo.Currency} {todo : List Demo.Currency} {currencies : StockRequest}
      {after : Stock.Table} {result : ℚ} : s.pc = .answered k currencies after result todo →
      PollStep s (.put k currencies after result)
        ⟨.polling todo, ((put k result).exec s.exchange).2⟩
  | /-- A loan is priced, on the rates as they are. -/
    loan {s : Poll} {account : PremiumAccount} {currency : Demo.Currency}
      {value periodLength : ℤ} :
      PollStep s (.loan account currency value periodLength
        (account.getLoan s.exchange.availableCurrencies currency value periodLength)) s

/-! ## The steps of a visit -/

@[simp] theorem exec_put {σ : Type} (k : Demo.Currency) (rate : ℚ) (x : Exchange σ) :
    ((put k rate).exec x).2 = { x with availableCurrencies := x.availableCurrencies.put k rate } :=
  rfl

theorem stockService_singleton (draw : Stock.Currency → Stock.Draw) (data : Stock.CurrencyData ℚ)
    (t : Stock.Table) :
    stockService draw [data] t =
      (.ok [{ data with value := Stock.Request.rate ⟨data, draw⟩ t }],
        Stock.Request.after ⟨data, draw⟩ t) := by
  simp only [stockService, List.getLast?_singleton, Stock.Request.getUpdatedCurrencies_eq]

/-- The element that `stockService` takes is the one that the service reads of the bytes
of the request, and it fails where reading them fails. -/
theorem stockService_reads (bits : ℚ → BitVec 64) (draw : Stock.Currency → Stock.Draw)
    (currencies : StockRequest) (t : Stock.Table) :
    match Stock.ServiceSchema.readStockRequest (Stock.BankSchema.writeStockRequest
        (currencies.map fun data ↦ ⟨data.curr, bits data.value⟩)) with
    | .error _ => stockService draw currencies t = (.error ⟨13⟩, t)
    | .ok read => ∃ data, read = ⟨data.curr, bits data.value⟩ ∧
        stockService draw currencies t = stockService draw [data] t := by
  rw [Stock.ServiceSchema.readStockRequest, Stock.BankSchema.writeStockRequest,
    Stock.readRequired_writeRepeated, List.getLast?_map]
  cases hlast : currencies.getLast? with
  | none =>
      change stockService draw currencies t = (.error ⟨13⟩, t)
      simp only [stockService, hlast]
  | some data =>
      refine ⟨data, rfl, ?_⟩
      simp only [stockService, hlast, List.getLast?_singleton]

/-- A call with one element returns what the service answers. -/
theorem exec_call (draw : Stock.Currency → Stock.Draw) (data : Stock.CurrencyData ℚ)
    (x : Exchange Stock.Table) :
    (runStockExchangeService (stockService draw) [data]).exec x =
      (.ok (Stock.Request.rate ⟨data, draw⟩ x.service),
        { x with service := Stock.Request.after ⟨data, draw⟩ x.service }) :=
  exec_runStockExchangeService_of_ok (stockService_singleton draw data x.service)

/-- **Visits are steps.**  What a visit does when no call fails, the thread does in
three steps. -/
theorem visit_steps {s : Poll} {k : Demo.Currency} {todo : List Demo.Currency}
    {draw : Stock.Currency → Stock.Draw} {exchange : Exchange Stock.Table}
    (hpc : s.pc = .polling (k :: todo))
    (h : (visit (stockService draw) k).exec s.exchange = (.ok (), exchange)) :
    ∃ es, Run PollStep s es ⟨.polling todo, exchange⟩ := by
  rw [visit, Code.exec_bind] at h
  rcases hreq : (request k).exec s.exchange with ⟨_ | currencies, x₁⟩ <;> simp only [hreq] at h
  · cases h
  rw [Code.exec_bind] at h
  rcases hcall : (runStockExchangeService (stockService draw) currencies).exec x₁
    with ⟨_ | result, x₂⟩ <;> simp only [hcall] at h
  · cases h
  have hput : ((put k result).exec x₂).2 = exchange := congrArg Prod.snd h
  rw [← hput]
  exact ⟨_, ((Run.nil.snoc (.ask hpc hreq)).snoc (.answer rfl hcall)).snoc (.put rfl)⟩

/-- **Rounds are steps** in the same way. -/
theorem round_steps {draw : Stock.Currency → Stock.Draw} {keys : List Demo.Currency}
    {x x' : Exchange Stock.Table}
    (h : (round (stockService draw) keys).exec x = (.ok (), x')) :
    ∃ es, Run PollStep ⟨.polling keys, x⟩ es ⟨.polling [], x'⟩ := by
  induction keys generalizing x with
  | nil =>
      obtain rfl : x = x' := congrArg Prod.snd h
      exact ⟨[], .nil⟩
  | cons k keys ih =>
      have hround : (round (stockService draw) (k :: keys)).exec x =
          Code.exec (visit (stockService draw) k >>= fun _ ↦ round (stockService draw) keys) x := rfl
      rw [hround, Code.exec_bind] at h
      rcases hvisit : (visit (stockService draw) k).exec x with ⟨_ | _, x₁⟩ <;>
        simp only [hvisit] at h
      · cases h
      · obtain ⟨es₁, h₁⟩ := visit_steps (s := ⟨.polling (k :: keys), x⟩) rfl hvisit
        obtain ⟨es₂, h₂⟩ := ih h
        exact ⟨es₁ ++ es₂, h₁.append h₂⟩

/-! ## What is asked for -/

/-- What the map holds at each place of the thread. -/
def Place (m : PMap Demo.Currency ℚ) : PollPC → Prop
  | .started => ∀ k, m.get k = none
  | .eurSet => m.get .USD = none
  | .polling todo => ∀ k ∈ todo, (m.get k).isSome
  | .calling k currencies todo =>
    (∃ val, m.get k = some val ∧ currencies = [⟨polled k, val⟩]) ∧ ∀ k' ∈ todo, (m.get k').isSome
  | .answered k currencies _ _ todo =>
    (∃ val, m.get k = some val ∧ currencies = [⟨polled k, val⟩]) ∧ ∀ k' ∈ todo, (m.get k').isSome
  | .dead _ => True

/-- The thread polls entries that are there, and `PLN` is not one of them. -/
structure Addressed (s : Poll) : Prop where
  keys : ∀ k, (s.exchange.availableCurrencies.get k).isSome → k ≠ .PLN
  place : Place s.exchange.availableCurrencies s.pc

theorem addressed_start (table : Stock.Table) : Addressed (.start table) where
  keys _ h := nomatch h
  place _ := rfl

/-- The request for the next entry carries the value of the entry. -/
theorem Addressed.ask_inv {s : Poll} (hs : Addressed s) {k : Demo.Currency}
    {todo : List Demo.Currency} {currencies : StockRequest} {exchange : Exchange Stock.Table}
    (hpc : s.pc = .polling (k :: todo))
    (h : (request k).exec s.exchange = (.ok currencies, exchange)) :
    exchange = s.exchange ∧ ∃ val, s.exchange.availableCurrencies.get k = some val ∧
      currencies = [⟨polled k, val⟩] := by
  have hplace := hs.place
  rw [hpc] at hplace
  obtain ⟨val, hval⟩ := Option.isSome_iff_exists.mp (hplace k List.mem_cons_self)
  rw [exec_request hval] at h
  obtain ⟨hc, hx⟩ := Prod.mk.inj h
  exact ⟨hx.symm, val, hval, (Except.ok.inj hc).symm⟩

/-- The call under way asks for the currency polled, and carries the value of the entry. -/
theorem Addressed.calling_inv {s : Poll} (hs : Addressed s) {k : Demo.Currency}
    {todo : List Demo.Currency} {currencies : StockRequest} (hpc : s.pc = .calling k currencies todo) :
    ∃ val, s.exchange.availableCurrencies.get k = some val ∧ currencies = [⟨polled k, val⟩] := by
  have hplace := hs.place
  rw [hpc] at hplace
  exact hplace.1

/-- A call that returns has the service serve the request, and brings its answer. -/
theorem Addressed.answer_inv {s : Poll} (hs : Addressed s) {k : Demo.Currency}
    {todo : List Demo.Currency} {currencies : StockRequest} {draw : Stock.Currency → Stock.Draw}
    {result : ℚ} {exchange : Exchange Stock.Table} (hpc : s.pc = .calling k currencies todo)
    (h : (runStockExchangeService (stockService draw) currencies).exec s.exchange =
      (.ok result, exchange)) :
    ∃ val, s.exchange.availableCurrencies.get k = some val ∧
      result = Stock.Request.rate ⟨⟨polled k, val⟩, draw⟩ s.exchange.service ∧
      exchange = { s.exchange with
        service := Stock.Request.after ⟨⟨polled k, val⟩, draw⟩ s.exchange.service } := by
  obtain ⟨val, hval, rfl⟩ := hs.calling_inv hpc
  rw [exec_call] at h
  obtain ⟨hresult, hexchange⟩ := Prod.mk.inj h
  exact ⟨val, hval, (Except.ok.inj hresult).symm, hexchange.symm⟩

/-- A call that fails has not reached the service, or the service has served it. -/
theorem Addressed.fail_inv {s : Poll} (hs : Addressed s) {k : Demo.Currency}
    {todo : List Demo.Currency} {currencies : StockRequest} {table : Stock.Table}
    (hpc : s.pc = .calling k currencies todo)
    (h : table = s.exchange.service ∨
      ∃ draw, table = (stockService draw currencies s.exchange.service).2) :
    table = s.exchange.service ∨ ∃ val draw, s.exchange.availableCurrencies.get k = some val ∧
      table = Stock.Request.after ⟨⟨polled k, val⟩, draw⟩ s.exchange.service := by
  obtain ⟨val, hval, rfl⟩ := hs.calling_inv hpc
  refine h.imp_right fun ⟨draw, hdraw⟩ ↦ ⟨val, draw, hval, ?_⟩
  rw [hdraw, stockService_singleton]

theorem Addressed.step {s s' : Poll} {e : PollEvent} (hs : Addressed s) (h : PollStep s e s') :
    Addressed s' := by
  obtain ⟨hkeys, hplace⟩ := hs
  cases h with
  | setEur hpc =>
      have hempty : ∀ k, s.exchange.availableCurrencies.get k = none := by rwa [hpc] at hplace
      constructor
      · rintro k hk rfl
        simp [hempty] at hk
      · simp [Place, hempty]
  | setUsd hpc =>
      constructor
      · rintro k hk rfl
        exact hkeys .PLN (by simpa using hk) rfl
      · intro k hk
        exact absurd hk List.not_mem_nil
  | round hpc horder => exact ⟨hkeys, fun k hk ↦ (horder.mem k).mp hk⟩
  | @ask k todo currencies exchange hpc hreq =>
      obtain ⟨rfl, hval⟩ := Addressed.ask_inv ⟨hkeys, hplace⟩ hpc hreq
      rw [hpc] at hplace
      exact ⟨hkeys, hval, fun k' hk' ↦ hplace k' (List.mem_cons_of_mem k hk')⟩
  | answer hpc hcall =>
      obtain ⟨val, -, -, rfl⟩ := Addressed.answer_inv ⟨hkeys, hplace⟩ hpc hcall
      rw [hpc] at hplace
      exact ⟨hkeys, hplace⟩
  | fail hpc htable => exact ⟨hkeys, trivial⟩
  | @put k todo currencies after result hpc =>
      rw [hpc] at hplace
      obtain ⟨⟨val, hval, -⟩, htodo⟩ := hplace
      have hk : (s.exchange.availableCurrencies.get k).isSome := by rw [hval]; rfl
      constructor
      · intro k' hk'
        rw [exec_put, isSome_get_put hk] at hk'
        exact hkeys k' hk'
      · exact isSome_put_of_mem hk htodo result
  | loan => exact ⟨hkeys, hplace⟩

theorem Addressed.run {table : Stock.Table} {es : List PollEvent} {s : Poll}
    (h : Run PollStep (.start table) es s) : Addressed s :=
  h.invariant (addressed_start table) fun _ _ _ hs hstep ↦ hs.step hstep

/-- A response that is stored was asked for under the currency polled, for a key
other than `PLN`. -/
theorem polled_of_put {table : Stock.Table} {es : List PollEvent} {s : Poll}
    (h : Run PollStep (.start table) es s) {k : Demo.Currency} {currencies : StockRequest}
    {after : Stock.Table} {result : ℚ} (he : .put k currencies after result ∈ es) :
    k ≠ .PLN ∧ currencies.map (·.curr) = [polled k] := by
  obtain ⟨es₁, es₂, rfl⟩ := List.append_of_mem he
  obtain ⟨s₁, s₂, hrun, hstep, -⟩ := h.split
  cases hstep with
  | put hpc =>
      obtain ⟨hkeys, hplace⟩ := Addressed.run hrun
      rw [hpc] at hplace
      obtain ⟨⟨val, hval, rfl⟩, -⟩ := hplace
      exact ⟨hkeys k (by rw [hval]; rfl), rfl⟩

/-- The shift takes every key but `PLN` to a currency of another name. -/
theorem name_polled_ne {k : Demo.Currency} (h : k ≠ .PLN) : (polled k).name ≠ k.name := by
  cases k with
  | PLN => exact absurd rfl h
  | USD => decide
  | EUR => decide

/-- Every response processed was asked for under the name of its key, and what was
stored is the rate the service held under that name when it answered. -/
def StoredUnderOwnName (es : List PollEvent) : Prop :=
  ∀ k currencies after result, .put k currencies after result ∈ es →
    ∃ curr, currencies.map (·.curr) = [curr] ∧ curr.name = k.name ∧ after.get curr = some result

def ProcessesResponse (es : List PollEvent) : Prop :=
  ∃ k currencies after result, .put k currencies after result ∈ es

/-- **Rates are stored under another name.**  A run stores its rates under their own
names only if it processes no response at all; each response it processes was asked
for under a currency of another name than its key. -/
theorem storedUnderOwnName_iff {table : Stock.Table} {es : List PollEvent} {s : Poll}
    (h : Run PollStep (.start table) es s) :
    (StoredUnderOwnName es ↔ ¬ ProcessesResponse es) ∧
      ∀ k currencies after result, .put k currencies after result ∈ es →
        ∃ curr, currencies.map (·.curr) = [curr] ∧ curr.name ≠ k.name := by
  have hother : ∀ k currencies after result, .put k currencies after result ∈ es →
      ∃ curr, currencies.map (·.curr) = [curr] ∧ curr.name ≠ k.name := by
    intro k currencies after result he
    obtain ⟨hk, hcurr⟩ := polled_of_put h he
    exact ⟨polled k, hcurr, name_polled_ne hk⟩
  refine ⟨⟨?_, ?_⟩, hother⟩
  · rintro hown ⟨k, currencies, after, result, he⟩
    obtain ⟨curr, hcurr, hne⟩ := hother k currencies after result he
    obtain ⟨curr', hcurr', heq, -⟩ := hown k currencies after result he
    rw [hcurr'] at hcurr
    obtain rfl := List.singleton_inj.mp hcurr
    exact hne heq
  · intro hnone k currencies after result he
    exact absurd ⟨k, currencies, after, result, he⟩ hnone

/-- A call whose draw of `1 / 10` is accepted. -/
theorem exec_call_tenth {c : Stock.Currency} {rate : ℚ} {x : Exchange Stock.Table}
    (h : x.service.get c = some rate)
    (hb : rate + 1 / 10 > Stock.MIN_BOUND ∧ rate + 1 / 10 < Stock.MAX_BOUND) (value : ℚ) :
    (runStockExchangeService (stockService fun _ ↦ Stock.tenth) [⟨c, value⟩]).exec x =
      (.ok (rate + 1 / 10), { x with service := x.service.set c (rate + 1 / 10) }) := by
  have hacc : Stock.Request.accepted ⟨⟨c, value⟩, fun _ ↦ Stock.tenth⟩ x.service =
      some (rate + 1 / 10) :=
    Stock.Request.accepted_eq_some_iff.mpr ⟨rate, h, rfl, hb⟩
  rw [exec_call, Stock.Request.rate, Stock.Request.after, hacc]
  rfl

def firstResponse : List PollEvent :=
  [.set .EUR, .set .USD, .round [.EUR, .USD], .ask .EUR [⟨.CHF, 0⟩], .answer .EUR,
    .put .EUR [⟨.CHF, 0⟩] (Stock.allCurrencies.set .CHF (374 / 100 + 1 / 10)) (374 / 100 + 1 / 10)]

/-- The first response: the rate of `CHF` is stored under `EUR`. -/
theorem firstResponse_run : Run PollStep (.start Stock.allCurrencies) firstResponse
    ⟨.polling [.USD], ⟨initialCurrencies.put .EUR (374 / 100 + 1 / 10),
      Stock.allCurrencies.set .CHF (374 / 100 + 1 / 10)⟩⟩ := by
  have h₀ : Run PollStep (.start Stock.allCurrencies) [] (.start Stock.allCurrencies) := .nil
  have h₁ := h₀.snoc (.setEur rfl)
  have h₂ := h₁.snoc (.setUsd rfl)
  have h₃ := h₂.snoc (.round rfl eurUsd.property)
  have h₄ := h₃.snoc (.ask rfl (exec_request (show initialCurrencies.get .EUR = some 0 from rfl)))
  have hb : 374 / 100 + 1 / 10 > Stock.MIN_BOUND ∧ 374 / 100 + 1 / 10 < Stock.MAX_BOUND := by
    norm_num [Stock.MIN_BOUND, Stock.MAX_BOUND]
  have h₅ := h₄.snoc (.answer rfl (exec_call_tenth Stock.get_allCurrencies_CHF hb 0))
  exact h₅.snoc (.put rfl)

/-- The first response already breaks the rule. -/
theorem storedUnderOwnName_iff_first : ¬ StoredUnderOwnName firstResponse := by
  rw [(storedUnderOwnName_iff firstResponse_run).1, not_not]
  exact ⟨_, _, _, _, List.mem_of_getLast? rfl⟩

/-- The rate of `CHF` is stored under `EUR`. -/
theorem not_storedUnderOwnName :
    (∃ s, Run PollStep (.start Stock.allCurrencies) firstResponse s) ∧
      ¬ StoredUnderOwnName firstResponse := by
  refine ⟨⟨_, firstResponse_run⟩, ?_⟩
  intro h
  obtain ⟨curr, hcurr, hname, -⟩ := h .EUR _ _ _ (List.mem_of_getLast? rfl)
  obtain rfl := List.singleton_inj.mp hcurr
  exact absurd hname (by decide)

end StockBank.Server
