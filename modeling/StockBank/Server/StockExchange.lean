import StockBank.Lib.Code
import StockBank.Lib.Dict
import StockBank.Lib.Serial
import StockBank.Demo
import StockBank.Stock.Proto

/-!
# The poll thread of the bank

`Server.StockExchange` and `CurrencyService`: the thread that keeps
`availableCurrencies`, the rates on which the bank prices its loans, by asking the
stock service for one rate after the other, round after round.

The far end is an object `Stub σ`, whatever it is.  The code of the thread is
`run`; what one entry of the map makes it do is said once, by `exec_visit_of_ok`
and `exec_visit_of_error`.

The only exception the loop handles is the `InterruptedException` of its `sleep`.
A call that fails raises a `StatusRuntimeException`, which leaves the `for`, the
`synchronized` block, the `while` and `run`: the thread is over.
-/

namespace StockBank.Server

open Lib

/-- `stock.stockRequest`, as the bank's copy of the protocol has it. -/
abbrev StockRequest := List (Stock.CurrencyData ℚ)

/-- `stock.stockResponse`, as the bank's copy of the protocol has it. -/
abbrev StockResponse := List (Stock.CurrencyData ℚ)

/-- The exception of a call that fails. -/
structure StatusRuntimeException where
  status : ℕ
  deriving DecidableEq, Repr

/-- The exceptions that can leave `StockExchange.run`. -/
inductive Throwable
  | /-- A call of the stock service failed. -/
    statusRuntimeException (e : StatusRuntimeException)
  | /-- A null currency was set in a request, or there was no value to read. -/
    nullPointerException
  | /-- A response had no first element. -/
    indexOutOfBoundsException
  deriving DecidableEq, Repr

/-- `StockExchangeBlockingStub.getUpdatedCurrencies`, over the state behind it. -/
abbrev Stub (σ : Type) := Object σ StockRequest (Except StatusRuntimeException StockResponse)

/-- What the thread reads and writes. -/
structure Exchange (σ : Type) where
  availableCurrencies : PMap Demo.Currency ℚ
  service : σ

abbrev ExchangeM (σ : Type) := Code Throwable (Exchange σ)

variable {σ : Type}

/-- `blockingStub.getUpdatedCurrencies`. -/
def getUpdatedCurrencies (blockingStub : Stub σ) (currencies : StockRequest) :
    ExchangeM σ StockResponse := do
  let s ← get
  let (response, service) := blockingStub currencies s.service
  modify fun s ↦ { s with service := service }
  match response with
  | .ok response => return response
  | .error e => throw (.statusRuntimeException e)

/-- `CurrencyService.runStockExchangeService`. -/
def runStockExchangeService (blockingStub : Stub σ) (currencies : StockRequest) :
    ExchangeM σ ℚ := do
  let updatedCurrencies ← getUpdatedCurrencies blockingStub currencies
  match updatedCurrencies[0]? with
  | some data => return data.value
  | none => throw .indexOutOfBoundsException

/-- `availableCurrencies.put`. -/
def put (k : Demo.Currency) (rate : ℚ) : ExchangeM σ Unit :=
  modify fun s ↦ { s with availableCurrencies := s.availableCurrencies.put k rate }

/-- The request for an entry: `valueOf` finds the currency whose number is one more
than the ordinal of the key. -/
def request (k : Demo.Currency) : ExchangeM σ StockRequest := do
  let c := k.value + 1
  match (← get).availableCurrencies.get k with
  | none => throw .nullPointerException
  | some val =>
    match Stock.Currency.forNumber c with
    | none => throw .nullPointerException
    | some curr => return [⟨curr, val⟩]

/-- The body of the `for`: one entry is asked for and stored. -/
def visit (stockService : Stub σ) (k : Demo.Currency) : ExchangeM σ Unit := do
  let currencies ← request k
  let result ← runStockExchangeService stockService currencies
  put k result

/-- The `for`, over the keys in the order in which the map is iterated. -/
def round (stockService : Stub σ) (keys : List Demo.Currency) : ExchangeM σ Unit :=
  keys.forM (visit stockService)

/-- `StockExchange.setAvailableCurrencies`. -/
def setAvailableCurrencies : ExchangeM σ Unit := do
  put .EUR 0
  put .USD 0

/-- `StockExchange.run`, through as many rounds as there are orders. -/
def run (stockService : Stub σ) (orders : List (List Demo.Currency)) : ExchangeM σ Unit := do
  setAvailableCurrencies
  orders.forM (round stockService)

/-- `keys` is an order in which the entries of `m` can be iterated. -/
structure Iterates {V : Type} (m : PMap Demo.Currency V) (keys : List Demo.Currency) : Prop where
  nodup : keys.Nodup
  mem : ∀ k, k ∈ keys ↔ (m.get k).isSome

/-- The map after `setAvailableCurrencies`. -/
def initialCurrencies : PMap Demo.Currency ℚ := (PMap.empty.put .EUR 0).put .USD 0

/-! ## One entry -/

/-- The currency of the stock service that is asked for a key. -/
def polled : Demo.Currency → Stock.Currency
  | .PLN => .PLN
  | .USD => .EUR
  | .EUR => .CHF

/-- The shift always finds a currency. -/
@[simp] theorem forNumber_value_succ (k : Demo.Currency) :
    Stock.Currency.forNumber (k.value + 1) = some (polled k) := by
  cases k <;> rfl

theorem polled_injective : Function.Injective polled := by
  intro k k' h
  cases k <;> cases k' <;> simp_all [polled]

/-- The request for an entry names the currency polled and carries the value stored. -/
theorem exec_request {s : Exchange σ} {k : Demo.Currency} {val : ℚ}
    (h : s.availableCurrencies.get k = some val) :
    (request k).exec s = (.ok [⟨polled k, val⟩], s) := by
  rw [request, Code.exec_get_bind, h, forNumber_value_succ]
  rfl

/-- A call that succeeds returns the value of the first element. -/
theorem exec_runStockExchangeService_of_ok {stub : Stub σ} {currencies : StockRequest}
    {s : Exchange σ} {data : Stock.CurrencyData ℚ} {rest : StockResponse} {service : σ}
    (h : stub currencies s.service = (.ok (data :: rest), service)) :
    (runStockExchangeService stub currencies).exec s =
      (.ok data.value, { s with service := service }) := by
  have hcall : (getUpdatedCurrencies stub currencies).exec s =
      (.ok (data :: rest), { s with service := service }) := by
    rw [getUpdatedCurrencies, Code.exec_get_bind, h]
    rfl
  rw [runStockExchangeService, Code.exec_bind_of_ok hcall]
  rfl

theorem exec_runStockExchangeService_of_error {stub : Stub σ} {currencies : StockRequest}
    {s : Exchange σ} {e : StatusRuntimeException} {service : σ}
    (h : stub currencies s.service = (.error e, service)) :
    (runStockExchangeService stub currencies).exec s =
      (.error (.statusRuntimeException e), { s with service := service }) := by
  have hcall : (getUpdatedCurrencies stub currencies).exec s =
      (.error (.statusRuntimeException e), { s with service := service }) := by
    rw [getUpdatedCurrencies, Code.exec_get_bind, h]
    rfl
  rw [runStockExchangeService, Code.exec_bind_of_error hcall]

/-- An entry whose call succeeds is replaced by the rate of the response. -/
theorem exec_visit_of_ok {stub : Stub σ} {s : Exchange σ} {k : Demo.Currency} {val : ℚ}
    {data : Stock.CurrencyData ℚ} {rest : StockResponse} {service : σ}
    (hval : s.availableCurrencies.get k = some val)
    (h : stub [⟨polled k, val⟩] s.service = (.ok (data :: rest), service)) :
    (visit stub k).exec s = (.ok (), ⟨s.availableCurrencies.put k data.value, service⟩) := by
  rw [visit, Code.exec_bind_of_ok (exec_request hval),
    Code.exec_bind_of_ok (exec_runStockExchangeService_of_ok h)]
  rfl

/-- An entry whose call fails stays as it is, and ends the thread. -/
theorem exec_visit_of_error {stub : Stub σ} {s : Exchange σ} {k : Demo.Currency} {val : ℚ}
    {e : StatusRuntimeException} {service : σ} (hval : s.availableCurrencies.get k = some val)
    (h : stub [⟨polled k, val⟩] s.service = (.error e, service)) :
    (visit stub k).exec s =
      (.error (.statusRuntimeException e), ⟨s.availableCurrencies, service⟩) := by
  rw [visit, Code.exec_bind_of_ok (exec_request hval),
    Code.exec_bind_of_error (exec_runStockExchangeService_of_error h)]

/-- Rounds in a row are one round over all their entries. -/
theorem exec_rounds (stub : Stub σ) (orders : List (List Demo.Currency)) (s : Exchange σ) :
    Code.exec (orders.forM (round stub)) s = (round stub orders.flatten).exec s := by
  induction orders generalizing s with
  | nil => rfl
  | cons keys orders ih =>
      rw [List.flatten_cons, round, Code.exec_forM_append, Code.exec_bind]
      change Code.exec (round stub keys >>= fun _ ↦ orders.forM (round stub)) s = _
      rw [Code.exec_bind]
      simp only [round] at ih ⊢
      rcases Code.exec (keys.forM (visit stub)) s with ⟨_ | _, s'⟩
      · rfl
      · exact ih s'

/-- The thread sets the two entries, and then makes its rounds. -/
theorem exec_run (stub : Stub σ) (orders : List (List Demo.Currency)) (service : σ) :
    (run stub orders).exec ⟨PMap.empty, service⟩ =
      (round stub orders.flatten).exec ⟨initialCurrencies, service⟩ := by
  rw [← exec_rounds]
  rfl

/-- A `put` under a key that is there adds no key. -/
theorem isSome_get_put {m : PMap Demo.Currency ℚ} {k : Demo.Currency} (hk : (m.get k).isSome)
    (rate : ℚ) (k' : Demo.Currency) : ((m.put k rate).get k').isSome = (m.get k').isSome := by
  rw [PMap.get_put]
  split
  · next h => rw [h, hk]; rfl
  · rfl

/-- The entries still to visit are there after a `put` under the one visited. -/
theorem isSome_put_of_mem {m : PMap Demo.Currency ℚ} {k : Demo.Currency}
    {keys : List Demo.Currency} (hk : (m.get k).isSome) (hkeys : ∀ k' ∈ keys, (m.get k').isSome)
    (rate : ℚ) : ∀ k' ∈ keys, ((m.put k rate).get k').isSome := by
  intro k' hk'
  rw [isSome_get_put hk]
  exact hkeys k' hk'

/-! ## Calls that fail -/

/-- What a call of the stock service ends with: a rate, in the record that the
response carries, or an exception. -/
abbrev Outcome := Except StatusRuntimeException (Stock.CurrencyData ℚ)

/-- A stub that answers its calls by given outcomes, and keeps the requests it gets. -/
def replay (outcomes : ℕ → Outcome) : Stub (List StockRequest) := fun currencies asked ↦
  ((outcomes asked.length).map fun data ↦ [data], asked ++ [currencies])

/-- The map after the outcomes from number `n` on, one for each key: a rate replaces
the entry of its key, an exception leaves it. -/
def applyOutcomes (outcomes : ℕ → Outcome) :
    ℕ → List Demo.Currency → PMap Demo.Currency ℚ → PMap Demo.Currency ℚ
  | _, [], m => m
  | n, k :: keys, m =>
    match outcomes n with
    | .ok data => applyOutcomes outcomes (n + 1) keys (m.put k data.value)
    | .error _ => applyOutcomes outcomes (n + 1) keys m

variable {outcomes : ℕ → Outcome}

theorem exec_round_cons_of_ok {s : Exchange (List StockRequest)} {k : Demo.Currency} {val : ℚ}
    {data : Stock.CurrencyData ℚ} (hval : s.availableCurrencies.get k = some val)
    (h : outcomes s.service.length = .ok data) (keys : List Demo.Currency) :
    (round (replay outcomes) (k :: keys)).exec s = (round (replay outcomes) keys).exec
      ⟨s.availableCurrencies.put k data.value, s.service ++ [[⟨polled k, val⟩]]⟩ := by
  have hcall : replay outcomes [⟨polled k, val⟩] s.service =
      (.ok [data], s.service ++ [[⟨polled k, val⟩]]) := by rw [replay, h]; rfl
  exact Code.exec_bind_of_ok (exec_visit_of_ok hval hcall) fun _ ↦ round (replay outcomes) keys

theorem exec_round_cons_of_error {s : Exchange (List StockRequest)} {k : Demo.Currency} {val : ℚ}
    {e : StatusRuntimeException} (hval : s.availableCurrencies.get k = some val)
    (h : outcomes s.service.length = .error e) (keys : List Demo.Currency) :
    (round (replay outcomes) (k :: keys)).exec s = (.error (.statusRuntimeException e),
      ⟨s.availableCurrencies, s.service ++ [[⟨polled k, val⟩]]⟩) := by
  have hcall : replay outcomes [⟨polled k, val⟩] s.service =
      (.error e, s.service ++ [[⟨polled k, val⟩]]) := by rw [replay, h]; rfl
  exact Code.exec_bind_of_error (exec_visit_of_error hval hcall) fun _ ↦ round (replay outcomes) keys

/-- The currencies named in the requests sent. -/
def named (asked : List StockRequest) : List (List Stock.Currency) :=
  asked.map fun currencies ↦ currencies.map (·.curr)

/-- Of the `n` calls from number `m` on none fails, except possibly the last. -/
def OnlyLastFailsFrom (outcomes : ℕ → Outcome) (m n : ℕ) : Prop :=
  ∀ i, i + 1 < n → ∃ data, outcomes (m + i) = .ok data

/-- A first call that succeeds may be left out. -/
theorem onlyLastFailsFrom_succ {m n : ℕ} {data : Stock.CurrencyData ℚ}
    (h : outcomes m = .ok data) :
    OnlyLastFailsFrom outcomes m (n + 1) ↔ OnlyLastFailsFrom outcomes (m + 1) n := by
  constructor
  · intro hok i hi
    rw [Nat.add_assoc, Nat.add_comm 1 i]
    exact hok (i + 1) (by omega)
  · intro hok i hi
    cases i with
    | zero => exact ⟨data, h⟩
    | succ i =>
        rw [Nat.add_comm i 1, ← Nat.add_assoc]
        exact hok i (by omega)

/-- A first call that fails must be the only one. -/
theorem not_onlyLastFailsFrom {m n : ℕ} {e : StatusRuntimeException} (h : outcomes m = .error e) :
    ¬ OnlyLastFailsFrom outcomes m (n + 2) := by
  intro hok
  obtain ⟨data, hdata⟩ := hok 0 (by omega)
  rw [Nat.add_zero, h] at hdata
  cases hdata

/-- From a state in which the entries are there, a round asks for all of them and
applies all the outcomes exactly when no call fails, except possibly the last. -/
theorem round_complete_iff {keys : List Demo.Currency} {s : Exchange (List StockRequest)}
    (hkeys : ∀ k ∈ keys, (s.availableCurrencies.get k).isSome) :
    (named ((round (replay outcomes) keys).exec s).2.service =
        named s.service ++ keys.map (fun k ↦ [polled k]) ∧
      ((round (replay outcomes) keys).exec s).2.availableCurrencies =
        applyOutcomes outcomes s.service.length keys s.availableCurrencies) ↔
      OnlyLastFailsFrom outcomes s.service.length keys.length := by
  induction keys generalizing s with
  | nil => exact iff_of_true ⟨by simp [round], rfl⟩ fun i hi ↦ absurd hi (Nat.not_lt_zero _)
  | cons k keys ih =>
      obtain ⟨hk, htodo⟩ := List.forall_mem_cons.mp hkeys
      obtain ⟨val, hval⟩ := Option.isSome_iff_exists.mp hk
      cases h : outcomes s.service.length with
      | ok data =>
          have hrest := ih (s := ⟨s.availableCurrencies.put k data.value,
            s.service ++ [[⟨polled k, val⟩]]⟩) (isSome_put_of_mem hk htodo data.value)
          rw [exec_round_cons_of_ok hval h, applyOutcomes, h]
          simp only [named, List.map_append, List.map_cons, List.map_nil, List.append_assoc,
            List.cons_append, List.nil_append, List.length_append, List.length_cons,
            List.length_nil, zero_add] at hrest ⊢
          rw [hrest, onlyLastFailsFrom_succ h]
      | error e =>
          rw [exec_round_cons_of_error hval h, applyOutcomes, h]
          cases keys with
          | nil => exact iff_of_true ⟨by simp [named], rfl⟩ fun i hi ↦ absurd hi (by simp)
          | cons k' keys =>
              -- the next key is never asked for
              refine iff_of_false ?_ (not_onlyLastFailsFrom h)
              rintro ⟨hasked, -⟩
              have := congrArg List.length hasked
              simp [named] at this

/-- A round that completes has made one call for each entry, and kept the keys. -/
theorem length_of_round_ok {keys : List Demo.Currency} {s s' : Exchange (List StockRequest)}
    (hkeys : ∀ k ∈ keys, (s.availableCurrencies.get k).isSome)
    (h : (round (replay outcomes) keys).exec s = (.ok (), s')) :
    s'.service.length = s.service.length + keys.length ∧
      ∀ k, (s'.availableCurrencies.get k).isSome = (s.availableCurrencies.get k).isSome := by
  induction keys generalizing s with
  | nil =>
      obtain rfl : s = s' := congrArg Prod.snd h
      exact ⟨rfl, fun _ ↦ rfl⟩
  | cons k keys ih =>
      obtain ⟨hk, htodo⟩ := List.forall_mem_cons.mp hkeys
      obtain ⟨val, hval⟩ := Option.isSome_iff_exists.mp hk
      cases ho : outcomes s.service.length with
      | error e =>
          rw [exec_round_cons_of_error hval ho] at h
          cases h
      | ok data =>
          rw [exec_round_cons_of_ok hval ho] at h
          obtain ⟨hlength, hsome⟩ := ih (isSome_put_of_mem hk htodo data.value) h
          constructor
          · rw [hlength, List.length_append, List.length_singleton, List.length_cons]
            omega
          · intro k'
            rw [hsome, isSome_get_put hk]

/-- Whatever was asked before, a call that fails does not change the map. -/
theorem exec_round_snoc_of_error {keys : List Demo.Currency} {k : Demo.Currency}
    {s : Exchange (List StockRequest)} {e : StatusRuntimeException}
    (hkeys : ∀ k' ∈ keys ++ [k], (s.availableCurrencies.get k').isSome)
    (h : outcomes (s.service.length + keys.length) = .error e) :
    ((round (replay outcomes) (keys ++ [k])).exec s).2.availableCurrencies =
      ((round (replay outcomes) keys).exec s).2.availableCurrencies := by
  rw [round, Code.exec_forM_append, Code.exec_bind]
  change _ = ((keys.forM (visit (replay outcomes))).exec s).2.availableCurrencies
  rcases hround : (keys.forM (visit (replay outcomes))).exec s with ⟨_ | _, s'⟩
  · rfl
  · obtain ⟨hlength, hsome⟩ := length_of_round_ok
      (fun k' hk' ↦ hkeys k' (List.mem_append_left _ hk')) hround
    obtain ⟨val, hval⟩ := Option.isSome_iff_exists.mp
      ((hsome k).trans (hkeys k (List.mem_append_right _ (List.mem_singleton_self k))))
    exact congrArg (·.2.availableCurrencies)
      (exec_round_cons_of_error hval (hlength ▸ h) [])

/-- An order in which a round of the thread can visit the entries. -/
abbrev Order := { keys : List Demo.Currency // Iterates initialCurrencies keys }

/-- The keys visited in some rounds. -/
def visited (orders : List Order) : List Demo.Currency := (orders.map (·.val)).flatten

theorem isSome_of_mem_visited {orders : List Order} {k : Demo.Currency} (h : k ∈ visited orders) :
    (initialCurrencies.get k).isSome := by
  obtain ⟨_, hkeys, hk⟩ := List.mem_flatten.mp h
  obtain ⟨o, -, rfl⟩ := List.mem_map.mp hkeys
  exact (o.property.mem k).mp hk

/-- The state of the thread when it is to have visited the given keys. -/
def afterVisits (outcomes : ℕ → Outcome) (keys : List Demo.Currency) :
    Exchange (List StockRequest) :=
  ((round (replay outcomes) keys).exec ⟨initialCurrencies, []⟩).2

/-- The state of the thread when it is to have made some rounds. -/
def afterRounds (outcomes : ℕ → Outcome) (orders : List Order) : Exchange (List StockRequest) :=
  ((run (replay outcomes) (orders.map (·.val))).exec ⟨PMap.empty, []⟩).2

theorem afterRounds_eq (outcomes : ℕ → Outcome) (orders : List Order) :
    afterRounds outcomes orders = afterVisits outcomes (visited orders) := by
  rw [afterRounds, exec_run]
  rfl

/-- Failed calls do not stop the updates, in the rounds of these orders. -/
structure SurvivesFailures (outcomes : ℕ → Outcome) (orders : List Order) : Prop where
  entryKept : ∀ keys k rest e, visited orders = keys ++ k :: rest → outcomes keys.length = .error e →
    (afterVisits outcomes (keys ++ [k])).availableCurrencies.get k =
      (afterVisits outcomes keys).availableCurrencies.get k
  asked : named (afterRounds outcomes orders).service = (visited orders).map fun k ↦ [polled k]
  /-- The map holds what the outcomes, in the order they were asked for, leave of the
  initial map. -/
  folded : (afterRounds outcomes orders).availableCurrencies =
    applyOutcomes outcomes 0 (visited orders) initialCurrencies

/-- No call but possibly the last of these rounds fails. -/
def OnlyLastFails (outcomes : ℕ → Outcome) (orders : List Order) : Prop :=
  ∀ i, i + 1 < (visited orders).length → ∃ data, outcomes i = .ok data

/-- **Failed calls do not stop the updates** exactly when no call but possibly the
last one fails: any other failure ends the thread. -/
theorem survivesFailures_iff (outcomes : ℕ → Outcome) (orders : List Order) :
    SurvivesFailures outcomes orders ↔ OnlyLastFails outcomes orders := by
  have hround := @round_complete_iff outcomes (visited orders) ⟨initialCurrencies, []⟩
    fun _ ↦ isSome_of_mem_visited
  simp only [named, OnlyLastFailsFrom, List.map_nil, List.nil_append, List.length_nil,
    zero_add] at hround
  constructor
  · rintro ⟨-, hasked, hfolded⟩
    rw [afterRounds_eq] at hasked hfolded
    exact hround.mp ⟨hasked, hfolded⟩
  · intro h
    obtain ⟨hasked, hfolded⟩ := hround.mpr h
    constructor
    · intro keys k rest e hsplit he
      have hkeys : ∀ k' ∈ keys ++ [k], (initialCurrencies.get k').isSome := by
        intro k' hk'
        have hmem : k' ∈ visited orders := by
          rw [hsplit, List.append_cons]
          exact List.mem_append_left _ hk'
        exact isSome_of_mem_visited hmem
      exact congrArg (·.get k) (exec_round_snoc_of_error (s := ⟨initialCurrencies, []⟩) hkeys
        (by simpa using he))
    · rw [afterRounds_eq]; exact hasked
    · rw [afterRounds_eq]; exact hfolded

def eurUsd : Order := ⟨[.EUR, .USD], by decide, fun k ↦ by cases k <;> decide⟩

/-- The first call fails, every later one would not. -/
def firstFails : ℕ → Outcome
  | 0 => .error ⟨14⟩
  | _ + 1 => .ok ⟨.EUR, 427 / 100⟩

/-- After a first call that fails, the second key of the round is not asked for. -/
theorem not_survivesFailures : ¬ SurvivesFailures firstFails [eurUsd] := by
  intro h
  have hlength := congrArg List.length h.asked
  exact absurd hlength (by decide)

end StockBank.Server
