import StockBank.Server.Loan
import StockBank.Server.Remote
import StockBank.Stock.Workers

/-!
# The bank and the stock service, deployed

The two servers together, one step at a time: the poll thread of the bank, the threads of
the stock service, of which the poll thread is one client among others, and the messages
that are delivered to the bank.  Any of them can take the next step.

With other clients of the service about, a response need not bring a rate: the service may
send back the value that it was asked with, and before the first rate that is the
placeholder.  So a loan is priced within the bounds of the service, or it costs nothing.
-/

namespace StockBank

variable {ι : Type}

namespace Stock

open Lib

variable [DecidableEq ι] {calls : ι → Request}

/-! ## What the service answers -/

/-- The response to `q` names its currency, and brings a rate of the table, or the value of
`q`. -/
def Reply.Answers (q : Request) : Reply → Prop
  | .ok data => data.curr = q.currencies.curr ∧ (data.value = q.currencies.value ∨
      (data.curr ≠ .PLN → MIN_BOUND < data.value ∧ data.value < MAX_BOUND))
  | .error _ => False

/-- A call that is over has a response to its request. -/
def PC.Answers (q : Request) : PC → Prop
  | .done reply | .returned reply => reply.Answers q
  | _ => True

/-- The responses are answers, in every state that a step leads to. -/
theorem answers_step {s s' : Workers ι} {e : Action ι} (hs : Kept calls s)
    (ha : ∀ i, (s.pc i).Answers (calls i)) (h : Step calls s e s') :
    ∀ i, (s'.pc i).Answers (calls i) := by
  cases h with
  | invoke hpc | pass hpc | skip hpc | write hpc => exact Threads.forall_move trivial ha
  | miss hpc hrate =>
      exact absurd hrate (hs.get_ne_none ((hs.visiting hpc).2 _ List.mem_cons_self))
  | exhaust hpc => exact Threads.forall_move ⟨rfl, .inl rfl⟩ ha
  | @reread i c cond rate hpc hrate =>
      obtain ⟨rfl, -⟩ := hs.rereading hpc
      exact Threads.forall_move ⟨rfl, .inr fun hc ↦ hs.table.bounds hc hrate⟩ ha
  | rereadMiss hpc hrate => exact absurd hrate (hs.get_ne_none (hs.rereading hpc).2)
  | @reply i r hpc =>
      have hreply := ha i
      rw [hpc] at hreply
      exact Threads.forall_move (P := fun i pc ↦ PC.Answers (calls i) pc) hreply ha

end Stock

namespace Server

open Lib Bytes Ice Java

/-! ## The steps -/

/-- Where the poll thread is.  A call that is under way is one of the calls of the service. -/
inductive ThreadPC (ι : Type)
  | started
  | eurSet
  | polling (todo : List Demo.Currency)
  | calling (k : Demo.Currency) (i : ι) (todo : List Demo.Currency)
  | answered (k : Demo.Currency) (result : ℚ) (todo : List Demo.Currency)
  | dead (k : Demo.Currency)

/-- The poll thread, the rates, the stock service, and the servants of the bank. -/
structure Deployment (ι : Type) where
  pc : ThreadPC ι
  exchange : Exchange (Stock.Workers ι)
  bank : Bank

/-- Both servers when they are started. -/
def Deployment.start : Deployment ι := ⟨.started, ⟨PMap.empty, Stock.Workers.init⟩, Server.start⟩

/-- What a step shows. -/
inductive DeploymentEvent (ι : Type)
  | set (k : Demo.Currency)
  | round (keys : List Demo.Currency)
  | ask (k : Demo.Currency) (i : ι)
  | answer (k : Demo.Currency) (result : ℚ)
  | put (k : Demo.Currency) (result : ℚ)
  | fail (k : Demo.Currency)
  | service (action : Stock.Action ι)
  | deliver (delivery : Delivery) (reply : Except FatalException (Option (List UInt8)))

variable (calls : ι → Stock.Request)

section

variable [DecidableEq ι] [Runtime] [StackTraces] (reference : Reference)

/-- One step of the poll thread, of the stock service, or of a dispatch of the bank. -/
inductive DeploymentStep : Deployment ι → DeploymentEvent ι → Deployment ι → Prop
  | setEur {s : Deployment ι} : s.pc = .started →
      DeploymentStep s (.set .EUR)
        { s with pc := .eurSet, exchange := ((put .EUR 0).exec s.exchange).2 }
  | setUsd {s : Deployment ι} : s.pc = .eurSet →
      DeploymentStep s (.set .USD)
        { s with pc := .polling [], exchange := ((put .USD 0).exec s.exchange).2 }
  | round {s : Deployment ι} {keys : List Demo.Currency} : s.pc = .polling [] →
      Iterates s.exchange.availableCurrencies keys →
      DeploymentStep s (.round keys) { s with pc := .polling keys }
  | /-- The request is sent, as a call that the service has not received yet. -/
    ask {s : Deployment ι} {k : Demo.Currency} {todo : List Demo.Currency} {i : ι}
      {currencies : StockRequest} {exchange : Exchange (Stock.Workers ι)} :
      s.pc = .polling (k :: todo) →
      (request k).exec s.exchange = (.ok currencies, exchange) →
      currencies.getLast? = some (calls i).currencies → s.exchange.service.pc i = .idle →
      DeploymentStep s (.ask k i) { s with pc := .calling k i todo, exchange := exchange }
  | /-- The response of the service arrives. -/
    answer {s : Deployment ι} {k : Demo.Currency} {todo : List Demo.Currency} {i : ι}
      {data : Stock.CurrencyData ℚ} : s.pc = .calling k i todo →
      s.exchange.service.pc i = .returned (.ok data) →
      DeploymentStep s (.answer k data.value) { s with pc := .answered k data.value todo }
  | /-- The call fails, wherever the service is with it. -/
    fail {s : Deployment ι} {k : Demo.Currency} {todo : List Demo.Currency} {i : ι} :
      s.pc = .calling k i todo →
      DeploymentStep s (.fail k) { s with pc := .dead k }
  | put {s : Deployment ι} {k : Demo.Currency} {todo : List Demo.Currency} {result : ℚ} :
      s.pc = .answered k result todo →
      DeploymentStep s (.put k result)
        { s with pc := .polling todo, exchange := ((put k result).exec s.exchange).2 }
  | /-- The service does one access for one of its calls, of this client or of another. -/
    service {s : Deployment ι} {action : Stock.Action ι} {service : Stock.Workers ι} :
      Stock.Step calls s.exchange.service action service →
      DeploymentStep s (.service action) { s with exchange := { s.exchange with service } }
  | /-- A message is delivered, and dispatched on the rates as they are. -/
    deliver {s : Deployment ι} {delivery : Delivery} :
      delivery.moment.availableCurrencies = s.exchange.availableCurrencies →
      DeploymentStep s (.deliver delivery (serve reference delivery s.bank).1)
        { s with bank := (serve reference delivery s.bank).2 }

end

/-! ## The rates -/

/-- A rate within the bounds of the service. -/
def Quote (rate : ℚ) : Prop := Stock.MIN_BOUND < rate ∧ rate < Stock.MAX_BOUND

/-- What the poll thread carries from one step to the next: the response for `k` is its entry,
or a rate. -/
def ThreadPC.Carries (m : PMap Demo.Currency ℚ) : ThreadPC ι → Prop
  | .started => ∀ k, m.get k = none
  | .eurSet => m.get .USD = none
  | .polling todo => ∀ k ∈ todo, (m.get k).isSome
  | .calling k i todo => (m.get k = some (calls i).currencies.value ∧
      (calls i).currencies.curr = polled k) ∧ ∀ k' ∈ todo, (m.get k').isSome
  | .answered k result todo => (∃ val, m.get k = some val ∧ (result = val ∨ Quote result)) ∧
      ∀ k' ∈ todo, (m.get k').isSome
  | .dead _ => True

/-- What every step of the deployment keeps. -/
structure Deployment.Kept (s : Deployment ι) : Prop where
  service : Stock.Kept calls s.exchange.service
  answers : ∀ i, (s.exchange.service.pc i).Answers (calls i)
  /-- There is no entry for `PLN`, and the others are placeholders, or rates. -/
  rates : ∀ {k rate}, s.exchange.availableCurrencies.get k = some rate →
    k ≠ .PLN ∧ (rate = 0 ∨ Quote rate)
  carries : s.pc.Carries calls s.exchange.availableCurrencies

variable {calls}

theorem Deployment.kept_start : (Deployment.start : Deployment ι).Kept calls where
  service := Stock.kept_init
  answers _ := trivial
  rates h := nomatch h
  carries _ := rfl

namespace Deployment.Kept

variable {s : Deployment ι} (hs : s.Kept calls)
include hs

/-- The entries after a `put`. -/
theorem rates_put {k : Demo.Currency} (hk : k ≠ .PLN) {result : ℚ} (hr : result = 0 ∨ Quote result)
    {k' : Demo.Currency} {rate : ℚ}
    (h : (s.exchange.availableCurrencies.put k result).get k' = some rate) :
    k' ≠ .PLN ∧ (rate = 0 ∨ Quote rate) := by
  rw [PMap.get_put] at h
  split at h
  · next hkk =>
    obtain rfl := Option.some.inj h
    exact ⟨hkk ▸ hk, hr⟩
  · exact hs.rates h

/-- A response brings a rate, or the entry that it was asked with. -/
theorem value_of_returned {k : Demo.Currency} {i : ι} {todo : List Demo.Currency}
    {data : Stock.CurrencyData ℚ} (hpc : s.pc = .calling k i todo)
    (h : s.exchange.service.pc i = .returned (.ok data)) :
    ∃ val, s.exchange.availableCurrencies.get k = some val ∧
      (data.value = val ∨ Quote data.value) := by
  have hcarries := hs.carries
  rw [hpc] at hcarries
  obtain ⟨⟨hentry, hcurr⟩, -⟩ := hcarries
  have hanswer := hs.answers i
  rw [h] at hanswer
  obtain ⟨hname, hvalue⟩ := hanswer
  refine ⟨_, hentry, hvalue.imp_right fun hquote ↦ hquote ?_⟩
  rw [hname, hcurr]
  exact polled_ne_pln (hs.rates hentry).1

variable [DecidableEq ι] [Runtime] [StackTraces] {reference : Reference}

theorem step {s' : Deployment ι} {e : DeploymentEvent ι}
    (h : DeploymentStep calls reference s e s') : s'.Kept calls := by
  have hcarries := hs.carries
  cases h with
  | setEur hpc =>
      rw [hpc] at hcarries
      refine ⟨hs.service, hs.answers, hs.rates_put (by decide) (.inl rfl), ?_⟩
      exact (PMap.get_put_of_ne _ (show Demo.Currency.USD ≠ .EUR by decide) _).trans (hcarries .USD)
  | setUsd hpc =>
      exact ⟨hs.service, hs.answers, hs.rates_put (by decide) (.inl rfl),
        fun k hk ↦ absurd hk List.not_mem_nil⟩
  | round hpc horder =>
      exact ⟨hs.service, hs.answers, hs.rates, fun k hk ↦ (horder.mem k).mp hk⟩
  | @ask k todo i currencies exchange hpc hreq hcall hidle =>
      rw [hpc] at hcarries
      obtain ⟨val, hval⟩ := Option.isSome_iff_exists.mp (hcarries k List.mem_cons_self)
      rw [exec_request hval] at hreq
      obtain ⟨hc, rfl⟩ := Prod.mk.inj hreq
      obtain rfl := Except.ok.inj hc
      have hdata : ⟨polled k, val⟩ = (calls i).currencies := Option.some.inj hcall
      refine ⟨hs.service, hs.answers, hs.rates, ⟨?_, ?_⟩, ?_⟩
      · rw [← hdata, hval]
      · rw [← hdata]
      · exact fun k' hk' ↦ hcarries k' (List.mem_cons_of_mem k hk')
  | answer hpc hret =>
      have hvalue := hs.value_of_returned hpc hret
      rw [hpc] at hcarries
      exact ⟨hs.service, hs.answers, hs.rates, hvalue, hcarries.2⟩
  | fail hpc => exact ⟨hs.service, hs.answers, hs.rates, trivial⟩
  | @put k todo result hpc =>
      rw [hpc] at hcarries
      obtain ⟨⟨val, hval, hresult⟩, htodo⟩ := hcarries
      obtain ⟨hpln, hrate⟩ := hs.rates hval
      have hentry : (s.exchange.availableCurrencies.get k).isSome := by rw [hval]; rfl
      refine ⟨hs.service, hs.answers, hs.rates_put hpln ?_, isSome_put_of_mem hentry htodo _⟩
      rcases hresult with rfl | hquote
      · exact hrate
      · exact .inr hquote
  | service hstep =>
      exact ⟨hs.service.step hstep, Stock.answers_step hs.service hs.answers hstep, hs.rates,
        hcarries⟩
  | deliver hmoment => exact ⟨hs.service, hs.answers, hs.rates, hcarries⟩

/-- A rate is only ever replaced by a rate. -/
theorem quote_step {s' : Deployment ι} {e : DeploymentEvent ι}
    (h : DeploymentStep calls reference s e s') {k : Demo.Currency}
    (hk : ∃ rate, s.exchange.availableCurrencies.get k = some rate ∧ Quote rate) :
    ∃ rate, s'.exchange.availableCurrencies.get k = some rate ∧ Quote rate := by
  have hcarries := hs.carries
  obtain ⟨rate, hrate, hquote⟩ := hk
  cases h with
  | setEur hpc =>
      rw [hpc] at hcarries
      cases (hcarries k).symm.trans hrate
  | setUsd hpc =>
      rw [hpc] at hcarries
      have hne : k ≠ .USD := by
        rintro rfl
        cases hcarries.symm.trans hrate
      exact ⟨rate, (PMap.get_put_of_ne _ hne _).trans hrate, hquote⟩
  | @ask k' todo i currencies exchange hpc hreq hcall hidle =>
      rw [hpc] at hcarries
      obtain ⟨val, hval⟩ := Option.isSome_iff_exists.mp (hcarries k' List.mem_cons_self)
      rw [exec_request hval] at hreq
      obtain ⟨-, rfl⟩ := Prod.mk.inj hreq
      exact ⟨rate, hrate, hquote⟩
  | @put k' todo result hpc =>
      rw [hpc] at hcarries
      obtain ⟨⟨val, hval, hresult⟩, -⟩ := hcarries
      by_cases hkk : k = k'
      · subst hkk
        obtain rfl := Option.some.inj (hval.symm.trans hrate)
        refine ⟨result, PMap.get_put_self _ _ _, ?_⟩
        rcases hresult with rfl | hresult
        · exact hquote
        · exact hresult
      · exact ⟨rate, (PMap.get_put_of_ne _ hkk _).trans hrate, hquote⟩
  | round hpc | answer hpc | fail hpc | service hstep | deliver hmoment =>
      exact ⟨rate, hrate, hquote⟩

end Deployment.Kept

section

variable [DecidableEq ι] [Runtime] [StackTraces] {reference : Reference}

theorem Deployment.Kept.run {es : List (DeploymentEvent ι)} {s : Deployment ι}
    (h : Run (DeploymentStep calls reference) .start es s) : s.Kept calls :=
  h.invariant Deployment.kept_start fun _ _ _ hs hstep ↦ hs.step hstep

/-- **The rates under any load.**  Whatever the other clients of the service do, an entry of the
map is a placeholder or a rate within the bounds, and once it is a rate it stays one. -/
theorem rates_under_load {es es' : List (DeploymentEvent ι)} {s s' : Deployment ι}
    (h : Run (DeploymentStep calls reference) .start es s)
    (h' : Run (DeploymentStep calls reference) s es' s') {k : Demo.Currency} {rate : ℚ}
    (hrate : s.exchange.availableCurrencies.get k = some rate) :
    k ≠ .PLN ∧ (rate = 0 ∨ Quote rate ∧
      ∃ rate', s'.exchange.availableCurrencies.get k = some rate' ∧ Quote rate') := by
  have hs := Deployment.Kept.run h
  obtain ⟨hpln, hzero | hquote⟩ := hs.rates hrate
  · exact ⟨hpln, .inl hzero⟩
  · refine ⟨hpln, .inr ⟨hquote, ?_⟩⟩
    exact h'.invariant_relative (I := Deployment.Kept calls)
      (J := fun s ↦ ∃ rate, s.exchange.availableCurrencies.get k = some rate ∧ Quote rate)
      hs (fun _ _ _ hs hstep ↦ hs.step hstep) ⟨rate, hrate, hquote⟩
      fun _ _ _ hs hk hstep ↦ hs.quote_step hstep hk

/-! ## What is told -/

/-- The message that an event delivers. -/
def DeploymentEvent.delivery : DeploymentEvent ι → Option Delivery
  | .deliver delivery _ => some delivery
  | _ => none

/-- The messages that are delivered in a history. -/
def delivered (es : List (DeploymentEvent ι)) : List Delivery :=
  es.filterMap DeploymentEvent.delivery

/-- The bank is where the messages have led it. -/
theorem bank_of_run {es : List (DeploymentEvent ι)} {s : Deployment ι}
    (h : Run (DeploymentStep calls reference) .start es s) :
    s.bank = (serve reference).exec (delivered es) Server.start := by
  induction h with
  | nil => rfl
  | snoc hrun hstep ih =>
      rw [delivered, List.filterMap_append, Object.exec_append]
      cases hstep with
      | deliver hmoment => exact congrArg (fun s ↦ (serve reference _ s).2) ih
      | setEur hpc | setUsd hpc | round hpc | ask hpc | answer hpc | fail hpc | put hpc
      | service hstep => exact ih

/-- What the bank holds can be sent, at any time. -/
theorem sendable_of_run {es : List (DeploymentEvent ι)} {s : Deployment ι}
    (h : Run (DeploymentStep calls reference) .start es s) : Sendable s.bank := by
  rw [bank_of_run h]
  exact Object.exec_invariant (fun delivery _ hs ↦ hs.serve reference delivery) sendable_start _

omit [Runtime] [StackTraces] in
/-- A price at a rate is neither tiny nor huge, so a `double` is close to it. -/
theorem exists_nearest_of_withinBounds {value periodLength : Int32} {q : ℚ}
    (hvalue : 0 < value.toInt) (hperiod : 0 < periodLength.toInt)
    (h : WithinBounds value.toInt periodLength.toInt (.finite q)) :
    ∃ q', (Double.finite q).nearest = .finite q' ∧ 2 ^ 53 * |q - q'| ≤ |q| := by
  obtain ⟨_, hq, hlow, hhigh⟩ := h
  obtain rfl := Double.finite.inj hq
  have hvalue' : (1 : ℚ) ≤ value.toInt ∧ (value.toInt : ℚ) ≤ 2 ^ 31 :=
    ⟨by exact_mod_cast hvalue, by exact_mod_cast value.toInt_lt.le⟩
  have hperiod' : (1 : ℚ) ≤ periodLength.toInt ∧ (periodLength.toInt : ℚ) ≤ 2 ^ 31 :=
    ⟨by exact_mod_cast hperiod, by exact_mod_cast periodLength.toInt_lt.le⟩
  have hpos : (0 : ℚ) < periodLength.toInt := by linarith
  rw [div_lt_iff₀ hpos, Stock.MIN_BOUND] at hlow
  rw [lt_div_iff₀ hpos, Stock.MAX_BOUND] at hhigh
  have hq : 0 < q := pos_of_mul_pos_left (by linarith) hpos.le
  apply exists_nearest_of_le
  all_goals rw [abs_of_pos hq]
  · have hle := mul_le_mul_of_nonneg_left hperiod'.2 hq.le
    linarith
  · have hle := mul_le_mul_of_nonneg_left hperiod'.1 hq.le
    linarith

/-- **A loan that a client is told of**, in any run of the two servers, is a loan of an account
that an earlier message has created with an income of at least `PREMIUM_MIN_LIMIT`; and it costs
nothing, or between what it costs at the bounds of the stock service, as far as a `double` can
tell. -/
theorem loan_told {es es' : List (DeploymentEvent ι)} {s : Deployment ι} {moment : Moment}
    {id : Identity} {facet : String} {requestId : Int32} {ctx : List (String × String)}
    {encoding : Encoding} {currency : Demo.Currency} {value periodLength : Int32}
    {reply : Except FatalException (Option (List UInt8))} {cost : Double}
    (h : Run (DeploymentStep calls reference) .start (es ++ .deliver (deliver (moment,
      ⟨id, facet, requestId, ctx, encoding, .getLoan currency value periodLength⟩)) reply :: es') s)
    (hr : (⟨id, facet, requestId, ctx, encoding,
      .getLoan currency value periodLength⟩ : Request).Sendable)
    (htold : Reports ⟨id, facet, requestId, ctx, encoding, .getLoan currency value periodLength⟩
      reply cost)
    (hvalue : 0 < value.toInt) (hperiod : 0 < periodLength.toInt) :
    (∃ delivery ∈ delivered es, ∃ a, delivery.Asks factoryIdentity a ∧
      id = ⟨a.pesel, "premium"⟩ ∧ PREMIUM_MIN_LIMIT ≤ a.declaredIncome.value) ∧
    ∃ q q' : ℚ, (q = 0 ∨ WithinBounds value.toInt periodLength.toInt (.finite q)) ∧
      cost = .finite q' ∧ 2 ^ 53 * |q - q'| ≤ |q| := by
  obtain ⟨s₁, s₂, hrun, hstep, -⟩ := h.split
  have hkept := Deployment.Kept.run hrun
  cases hstep with
  | deliver hmoment =>
      obtain ⟨servant, c, hfind, hret, hcost⟩ := htold.performed reference (sendable_of_run hrun) hr
      obtain ⟨self, rfl, hloan⟩ := premiumAccount_of_getLoan hret
      constructor
      · rw [bank_of_run hrun] at hfind
        obtain ⟨delivery, hmem, a, hasks, hid, hservant⟩ := asked_of_find reference hfind
        have hpremium : a.premium = true := by
          rw [← Creation.servant_isPremium, hservant]
          rfl
        refine ⟨delivery, hmem, a, hasks, ?_, ?_⟩
        · obtain rfl : a.identity = id := hid
          rw [Creation.identity, hpremium]
          rfl
        · exact of_decide_eq_true hpremium
      · obtain ⟨rate, hrate, rfl⟩ := getLoan_ok_inv hloan
        have hmap : s₁.exchange.availableCurrencies.get currency = some rate := by
          rw [← hmoment]
          exact hrate
        rcases (hkept.rates hmap).2 with rfl | hquote
        · refine ⟨0, 0, .inl rfl, ?_, by simp⟩
          rw [← hcost, ← nearest_zero]
          simp [Java.div, hperiod.ne', Demo.Invocation.received]
        · have hbounds := (withinBounds_div_iff hvalue hperiod rate).mpr hquote
          rw [Java.div, if_pos hperiod.ne'] at hbounds hcost
          obtain ⟨q', hq', herror⟩ := exists_nearest_of_withinBounds hvalue hperiod hbounds
          exact ⟨_, q', .inr hbounds, hcost.symm.trans hq', herror⟩

end

section

local instance : Runtime := sampleRuntime

local instance : StackTraces := sampleStackTraces

/-- The bank after a premium account has been created over the wire. -/
def createdBank : Bank := (serve sampleReference (deliver (sampleMoment, createRequest)) start).2

theorem createdBank_eq : createdBank = (call (sampleMoment, createRequest) start).2 :=
  (serve_deliver sampleReference sendable_start sendable_createRequest).1

theorem sendable_createdBank : Sendable createdBank := sendable_start.serve sampleReference _

/-- The poll thread has set its placeholders, and an account has been created. -/
def creationHistory : List (DeploymentEvent (Fin 2)) :=
  [.set .EUR, .set .USD, .deliver (deliver (sampleMoment, createRequest))
    (serve sampleReference (deliver (sampleMoment, createRequest)) start).1]

theorem creationHistory_run :
    Run (DeploymentStep Stock.pairRequests sampleReference) .start creationHistory
      ⟨.polling [], ⟨initialCurrencies, Stock.Workers.init⟩, createdBank⟩ := by
  have h₀ : Run (DeploymentStep Stock.pairRequests sampleReference) .start [] .start := .nil
  exact ((h₀.snoc (.setEur rfl)).snoc (.setUsd rfl)).snoc (.deliver rfl)

/-- The rate of `EUR` after one poll, for which the thread asks for `CHF`. -/
def polledRate : ℚ := 374 / 100 + 1 / 10

/-- The first call of the poll thread, from the request to the map. -/
def pollHistory {ι : Type} (i : ι) : List (DeploymentEvent ι) :=
  [.round [.EUR, .USD], .ask .EUR i, .service (.inv i), .service (.tau i), .service (.tau i),
    .service (.tau i), .service (.write i .CHF), .service (.tau i),
    .service (.ret i (.ok ⟨.CHF, polledRate⟩)), .answer .EUR polledRate, .put .EUR polledRate]

/-- The servers after that poll. -/
abbrev polledDeployment (service : Stock.Workers (Fin 2)) : Deployment (Fin 2) :=
  ⟨.polling [.USD], ⟨initialCurrencies.put .EUR polledRate, service⟩, createdBank⟩

theorem pollHistory_run : ∃ service : Stock.Workers (Fin 2), service.pc 0 = .idle ∧
    Run (DeploymentStep Stock.pairRequests sampleReference) .start
      (creationHistory ++ pollHistory 1) (polledDeployment service) := by
  have horder : Iterates initialCurrencies [.EUR, .USD] := by
    refine ⟨by decide, fun k ↦ ?_⟩
    cases k <;> decide
  have h₀ := creationHistory_run
  have h₁ := h₀.snoc (.round rfl horder)
  have h₂ := h₁.snoc (.ask (i := 1) rfl rfl rfl rfl)
  have h₃ := h₂.snoc (.service (.invoke (i := 1) rfl))
  have h₄ := h₃.snoc (.service (.skip (i := 1) rfl rfl fun h ↦ nomatch h.eq))
  have h₅ := h₄.snoc (.service (.skip (i := 1) rfl rfl Stock.skips_EUR))
  have h₆ := h₅.snoc (.service (.pass (i := 1) rfl rfl Stock.passes_CHF))
  have h₇ := h₆.snoc (.service (.write (i := 1) rfl))
  have h₈ := h₇.snoc (.service (.reread (i := 1) rfl rfl))
  have h₉ := h₈.snoc (.service (.reply (i := 1) rfl))
  have h₁₀ := h₉.snoc (.answer rfl rfl)
  exact ⟨_, rfl, h₁₀.snoc (.put rfl)⟩

/-- A moment after that poll. -/
def polledMoment : Moment :=
  { sampleMoment with availableCurrencies := initialCurrencies.put .EUR polledRate }

/-- A loan is asked for, and the second call of the poll thread is under way. -/
def loanHistory {ι : Type} (i : ι) : List (DeploymentEvent ι) :=
  [.deliver (deliver (polledMoment, loanRequest))
    (serve sampleReference (deliver (polledMoment, loanRequest)) createdBank).1,
    .ask .USD i, .service (.inv i)]

theorem loanHistory_run {service : Stock.Workers (Fin 2)} (hidle : service.pc 0 = .idle) :
    ∃ s, Run (DeploymentStep Stock.pairRequests sampleReference) (polledDeployment service)
      (loanHistory 0) s := by
  have h₀ : Run (DeploymentStep Stock.pairRequests sampleReference) (polledDeployment service) []
    (polledDeployment service) := .nil
  have hrates : (deliver (polledMoment, loanRequest)).moment.availableCurrencies =
    (polledDeployment service).exchange.availableCurrencies := rfl
  have h₁ := h₀.snoc (.deliver hrates)
  have h₂ := h₁.snoc (.ask rfl rfl rfl hidle)
  exact ⟨_, h₂.snoc (.service (.invoke hidle))⟩

/-- The entry of `EUR` after its first poll, and after the loan. -/
theorem rates_under_load_sample : ∃ service, ∃ s : Deployment (Fin 2),
    Run (DeploymentStep Stock.pairRequests sampleReference) .start
        (creationHistory ++ pollHistory 1) (polledDeployment service) ∧
      Run (DeploymentStep Stock.pairRequests sampleReference) (polledDeployment service)
        (loanHistory 0) s ∧
      Demo.Currency.EUR ≠ .PLN ∧ (polledRate = 0 ∨ Quote polledRate ∧
        ∃ rate', s.exchange.availableCurrencies.get .EUR = some rate' ∧ Quote rate') := by
  obtain ⟨service, hidle, hrun⟩ := pollHistory_run
  obtain ⟨s, hlater⟩ := loanHistory_run hidle
  exact ⟨service, s, hrun, hlater, rates_under_load hrun hlater rfl⟩

/-- How the loan of the account ends. -/
def loanOutcome : Except DispatchException Double :=
  ((loanRequest.perform polledMoment).exec (call (sampleMoment, createRequest) start).2).1

theorem loanOutcome_eq : loanOutcome = .ok (.finite 384) := by decide +kernel

theorem nearest_384 : (Double.finite 384).nearest = .finite 384 := by decide +kernel

theorem reports_loanRequest : Reports loanRequest
    (serve sampleReference (deliver (polledMoment, loanRequest)) createdBank).1 (.finite 384) := by
  rw [← nearest_384]
  exact reports_of_performed sampleReference sendable_createdBank sendable_loanRequest (by decide)
    (by rw [createdBank_eq]; exact loanOutcome_eq)
    (lt_of_lt_of_le (show _ < 2 ^ 10 by decide +kernel) (by decide))

/-- A loan that is told of, of the premium account, at the rate of the first poll. -/
theorem loan_told_sample : ∃ s : Deployment (Fin 2),
    Run (DeploymentStep Stock.pairRequests sampleReference) .start
        (creationHistory ++ pollHistory 1 ++ loanHistory 0) s ∧
      (∃ delivery ∈ delivered (creationHistory ++ pollHistory 1), ∃ a,
        delivery.Asks factoryIdentity a ∧
        (⟨"44051401458", "premium"⟩ : Identity) = ⟨a.pesel, "premium"⟩ ∧
        PREMIUM_MIN_LIMIT ≤ a.declaredIncome.value) ∧
      ∃ q q' : ℚ, (q = 0 ∨ WithinBounds (1000 : Int32).toInt (10 : Int32).toInt (.finite q)) ∧
        Double.finite 384 = .finite q' ∧ 2 ^ 53 * |q - q'| ≤ |q| := by
  obtain ⟨service, hidle, hrun⟩ := pollHistory_run
  obtain ⟨s, hlater⟩ := loanHistory_run hidle
  have hwhole := hrun.append hlater
  exact ⟨s, hwhole, loan_told hwhole sendable_loanRequest reports_loanRequest (by decide)
    (by decide)⟩

end

section

variable [DecidableEq ι] [Runtime] [StackTraces] {reference : Reference}

/-- A client is told the balance `m` of `id` in this history. -/
def BalanceTold (es : List (DeploymentEvent ι)) (id : Identity) (m : Demo.Money) : Prop :=
  ∃ moment facet requestId ctx encoding reply,
    .deliver (deliver (moment, ⟨id, facet, requestId, ctx, encoding, .getAccountStatus⟩)) reply ∈
      es ∧
    (⟨id, facet, requestId, ctx, encoding, .getAccountStatus⟩ : Request).Sendable ∧
    Reports ⟨id, facet, requestId, ctx, encoding, .getAccountStatus⟩ reply m

/-- A balance that a client is told is that of the account, then and ever after. -/
theorem find_of_balanceTold {es : List (DeploymentEvent ι)} {s : Deployment ι}
    (h : Run (DeploymentStep calls reference) .start es s) {id : Identity} {m : Demo.Money}
    (hm : BalanceTold es id m) :
    ∃ self, s.bank.adapter.find id = some (.account self) ∧ self.getAccountStatus = m := by
  obtain ⟨moment, facet, requestId, ctx, encoding, reply, hmem, hr, htold⟩ := hm
  obtain ⟨before, after, rfl⟩ := List.append_of_mem hmem
  obtain ⟨s₁, s₂, hrun, hstep, -⟩ := h.split
  cases hstep with
  | deliver hmoment =>
      obtain ⟨servant, ret, hfind, hret, rfl⟩ := htold.performed reference (sendable_of_run hrun) hr
      obtain ⟨self, rfl, hstatus⟩ := account_of_getAccountStatus hret
      refine ⟨self, ?_, hstatus⟩
      rw [bank_of_run h, delivered, List.filterMap_append, Object.exec_append]
      rw [bank_of_run hrun] at hfind
      exact find_serve_exec reference hfind _

/-- **A balance that a client is told** is the one that the account was created with, by a
message that was delivered, and no client is told another. -/
theorem balance_told {es : List (DeploymentEvent ι)} {s : Deployment ι}
    (h : Run (DeploymentStep calls reference) .start es s) {id : Identity} {m : Demo.Money}
    (hm : BalanceTold es id m) :
    (∃ delivery ∈ delivered es, ∃ a, delivery.Asks factoryIdentity a ∧ a.identity = id ∧
      a.balance = m) ∧
    ∀ m', BalanceTold es id m' → m' = m := by
  obtain ⟨self, hfind, hstatus⟩ := find_of_balanceTold h hm
  constructor
  · rw [bank_of_run h] at hfind
    obtain ⟨delivery, hmem, a, hasks, hid, hservant⟩ := asked_of_find reference hfind
    exact ⟨delivery, hmem, a, hasks, hid, by
      rw [← Creation.servant_getAccountStatus, hservant, hstatus]⟩
  · intro m' hm'
    obtain ⟨self', hfind', hstatus'⟩ := find_of_balanceTold h hm'
    rw [hfind] at hfind'
    cases hfind'
    exact hstatus'.symm.trans hstatus

end

section

local instance : Runtime := sampleRuntime

local instance : StackTraces := sampleStackTraces

/-- What the account answers to a request for its balance. -/
def statusOutcome : Except DispatchException Demo.Money :=
  ((statusRequest.perform sampleMoment).exec (call (sampleMoment, createRequest) start).2).1

theorem statusOutcome_eq : statusOutcome = .ok ⟨.PLN, 0⟩ := by decide +kernel

theorem reports_statusRequest : Reports statusRequest
    (serve sampleReference (deliver (sampleMoment, statusRequest)) createdBank).1
      (⟨.PLN, 0⟩ : Demo.Money) :=
  reports_of_performed sampleReference sendable_createdBank sendable_statusRequest (by decide)
    (by rw [createdBank_eq]; exact statusOutcome_eq)
    (lt_of_lt_of_le (show _ < 2 ^ 10 by decide +kernel) (by decide))

/-- The balance of the account, told after its creation. -/
theorem balance_told_sample : ∃ es : List (DeploymentEvent (Fin 2)),
    (∃ delivery ∈ delivered es, ∃ a, delivery.Asks factoryIdentity a ∧
      a.identity = ⟨"44051401458", "premium"⟩ ∧ a.balance = ⟨.PLN, 0⟩) ∧
    ∀ m', BalanceTold es ⟨"44051401458", "premium"⟩ m' → m' = ⟨.PLN, 0⟩ :=
  ⟨_, balance_told (creationHistory_run.snoc (.deliver rfl))
    ⟨sampleMoment, "", 3, [], currentEncoding, _, List.mem_append_right _ List.mem_cons_self,
      sendable_statusRequest, reports_statusRequest⟩⟩

end

end Server

end StockBank
