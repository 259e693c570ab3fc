import StockBank.Lib.Code
import StockBank.Lib.Dict
import StockBank.Lib.Serial
import StockBank.Stock.Proto
import Mathlib.Algebra.Order.Ring.Rat
import Mathlib.Tactic.Linarith
import Mathlib.Tactic.NormNum

/-!
# The stock service

`stock_server.py`: the table of rates, and the simulator that answers a request by
letting the rate of the requested currency make one step of a bounded random walk.

The loop of `simulate` walks the whole table and draws once for every currency it
visits, but only the requested one can pass the test.  When its new rate is within
the bounds the rate is stored and sent; otherwise the table stays as it is and the
request is sent back, with the value the client put there.
-/

namespace StockBank.Stock

open Lib

/-- The rates, under the names of the currencies. -/
abbrev Table := Dict Currency ℚ

/-- `allCurrencies`, when the service is started. -/
def allCurrencies : Table :=
  ((Dict.empty.set .PLN 1).set .EUR (427 / 100)).set .CHF (374 / 100)

def MIN_BOUND : ℚ := 3

def MAX_BOUND : ℚ := 6

/-- A value `uniform(bottom, up)` can return. -/
structure Uniform (bottom up : ℚ) where
  val : ℚ
  bottom_le : bottom ≤ val
  le_up : val ≤ up

/-- `CurrencyChangesSimulator`. -/
structure CurrencyChangesSimulator where
  bottom : ℚ
  up : ℚ

/-- The exception of a dictionary access. -/
inductive KeyError
  | missing (c : Currency)
  deriving DecidableEq, Repr

/-- Code of the service: it reads and writes the table. -/
abbrev ServiceM := Code KeyError Table

/-- `allCurrencies[c]`, read. -/
def readRate (c : Currency) : ServiceM ℚ := do
  match (← get).get c with
  | some rate => return rate
  | none => throw (.missing c)

/-- `allCurrencies[c]`, written. -/
def writeRate (c : Currency) (rate : ℚ) : ServiceM Unit := modify fun t ↦ t.set c rate

/-- The bounds of the walk, and the test of the currency. -/
def Passes (cur c : Currency) (cond : ℚ) : Prop :=
  c.number = cur.number ∧ cond > MIN_BOUND ∧ cond < MAX_BOUND

instance (cur c : Currency) (cond : ℚ) : Decidable (Passes cur c cond) := by
  unfold Passes
  infer_instance

namespace CurrencyChangesSimulator

variable (self : CurrencyChangesSimulator)

/-- The loop of `simulate`, over the currencies still to visit. -/
def loop (draw : Currency → Uniform self.bottom self.up) (currencies : CurrencyData ℚ) :
    List Currency → ServiceM (CurrencyData ℚ)
  | [] => return currencies
  | c :: rest => do
    let cond := (← readRate c) + (draw c).val
    if Passes currencies.curr c cond then
      writeRate c cond
      return { currencies with value := ← readRate c }
    else
      loop draw currencies rest

/-- `CurrencyChangesSimulator.simulate`.  `draw c` is what `uniform` returns when the
loop visits `c`, which it does at most once. -/
def simulate (draw : Currency → Uniform self.bottom self.up) (currencies : CurrencyData ℚ) :
    ServiceM (CurrencyData ℚ) := do
  self.loop draw currencies (← get).keys

end CurrencyChangesSimulator

/-- `StockExchangeServicer.currenciesChangesSimulator`. -/
def currenciesChangesSimulator : CurrencyChangesSimulator := ⟨-1 / 2, 1 / 2⟩

/-- A draw of the service's simulator. -/
abbrev Draw := Uniform (-1 / 2) (1 / 2)

def tenth : Draw := ⟨1 / 10, by norm_num, by norm_num⟩

/-- A request that reaches the service, with the draws its loop makes. -/
structure Request where
  currencies : CurrencyData ℚ
  /-- What `uniform` returns for each currency the loop visits. -/
  draw : Currency → Draw

/-- `StockExchangeServicer.getUpdatedCurrencies`, serving one request at a time. -/
def getUpdatedCurrencies : Object Table Request (Except KeyError (CurrencyData ℚ)) :=
  fun q t ↦ (currenciesChangesSimulator.simulate q.draw q.currencies).exec t

/-! ## The table at the start -/

@[simp] theorem keys_allCurrencies : allCurrencies.keys = [.PLN, .EUR, .CHF] := rfl

@[simp] theorem get_allCurrencies_PLN : allCurrencies.get .PLN = some 1 := rfl

@[simp] theorem get_allCurrencies_EUR : allCurrencies.get .EUR = some (427 / 100) := rfl

@[simp] theorem get_allCurrencies_CHF : allCurrencies.get .CHF = some (374 / 100) := rfl

/-! ## What a request does -/

/-- The new rate of the requested currency, when the draw is accepted. -/
def Request.accepted (q : Request) (t : Table) : Option ℚ :=
  (t.get q.currencies.curr).bind fun rate ↦
    let cond := rate + (q.draw q.currencies.curr).val
    if cond > MIN_BOUND ∧ cond < MAX_BOUND then some cond else none

theorem Request.accepted_eq_some_iff {q : Request} {t : Table} {cond : ℚ} :
    q.accepted t = some cond ↔ ∃ rate, t.get q.currencies.curr = some rate ∧
      rate + (q.draw q.currencies.curr).val = cond ∧ cond > MIN_BOUND ∧ cond < MAX_BOUND := by
  rw [accepted, Option.bind_eq_some_iff]
  apply exists_congr
  intro rate
  refine and_congr_right fun _ ↦ ?_
  rw [Option.ite_none_right_eq_some, Option.some.injEq]
  constructor
  · rintro ⟨hb, rfl⟩
    exact ⟨rfl, hb⟩
  · rintro ⟨rfl, hb⟩
    exact ⟨hb, rfl⟩

/-- A draw that leads out of the bounds is not accepted. -/
theorem Request.accepted_eq_none {q : Request} {t : Table} {rate : ℚ}
    (h : t.get q.currencies.curr = some rate)
    (hb : ¬ (MIN_BOUND < rate + (q.draw q.currencies.curr).val ∧
      rate + (q.draw q.currencies.curr).val < MAX_BOUND)) : q.accepted t = none := by
  rw [accepted, h]
  exact if_neg hb

/-- Only the requested currency passes the test. -/
theorem Passes.eq {cur c : Currency} {cond : ℚ} (h : Passes cur c cond) : c = cur :=
  Currency.number_injective h.1

theorem exec_readRate {c : Currency} {rate : ℚ} {t : Table} (h : t.get c = some rate) :
    (readRate c).exec t = (.ok rate, t) := by
  rw [readRate, Code.exec_get_bind, h]
  rfl

namespace CurrencyChangesSimulator

variable (self : CurrencyChangesSimulator) (draw : Currency → Uniform self.bottom self.up)
  (currencies : CurrencyData ℚ)

/-- One turn of the loop, at a currency that is in the table. -/
theorem exec_loop_cons {c : Currency} {rate : ℚ} {t : Table} (h : t.get c = some rate)
    (rest : List Currency) :
    (self.loop draw currencies (c :: rest)).exec t =
      if Passes currencies.curr c (rate + (draw c).val) then
        (.ok { currencies with value := rate + (draw c).val }, t.set c (rate + (draw c).val))
      else (self.loop draw currencies rest).exec t := by
  rw [loop, Code.exec_bind_of_ok (exec_readRate h)]
  by_cases hpass : Passes currencies.curr c (rate + (draw c).val)
  · simp only [if_pos hpass]
    exact Code.exec_bind_of_ok (exec_readRate (t.get_set_self c _)) _
  · simp only [if_neg hpass]

/-- A loop that never passes the test sends the request back. -/
theorem exec_loop_of_rejected {t : Table} {todo : List Currency}
    (hmem : ∀ c ∈ todo, (t.get c).isSome)
    (hrej : ∀ c ∈ todo, ∀ rate, t.get c = some rate →
      ¬ Passes currencies.curr c (rate + (draw c).val)) :
    (self.loop draw currencies todo).exec t = (.ok currencies, t) := by
  induction todo with
  | nil => rfl
  | cons c rest ih =>
      obtain ⟨rate, hrate⟩ := Option.isSome_iff_exists.mp (hmem c List.mem_cons_self)
      rw [exec_loop_cons self draw currencies hrate, if_neg (hrej c List.mem_cons_self rate hrate)]
      exact ih (fun d hd ↦ hmem d (List.mem_cons_of_mem c hd))
        fun d hd ↦ hrej d (List.mem_cons_of_mem c hd)

/-- A loop that is to visit the requested currency, and accepts its new rate,
stores that rate and sends it. -/
theorem exec_loop_of_accepted {t : Table} {rate : ℚ} {todo : List Currency}
    (hmem : ∀ c ∈ todo, (t.get c).isSome) (hcur : currencies.curr ∈ todo)
    (hrate : t.get currencies.curr = some rate)
    (hacc : Passes currencies.curr currencies.curr (rate + (draw currencies.curr).val)) :
    (self.loop draw currencies todo).exec t =
      (.ok { currencies with value := rate + (draw currencies.curr).val },
        t.set currencies.curr (rate + (draw currencies.curr).val)) := by
  induction todo with
  | nil => exact absurd hcur List.not_mem_nil
  | cons c rest ih =>
      by_cases hc : c = currencies.curr
      · subst hc
        rw [exec_loop_cons self draw currencies hrate, if_pos hacc]
      · obtain ⟨rate', hrate'⟩ := Option.isSome_iff_exists.mp (hmem c List.mem_cons_self)
        rw [exec_loop_cons self draw currencies hrate', if_neg fun h ↦ hc h.eq]
        exact ih (fun d hd ↦ hmem d (List.mem_cons_of_mem c hd))
          ((List.mem_cons.mp hcur).resolve_left (Ne.symm hc))

end CurrencyChangesSimulator

/-- A request whose draw is accepted moves the rate of its currency, and is answered
with the new rate. -/
theorem getUpdatedCurrencies_of_accepted {q : Request} {t : Table} {cond : ℚ}
    (h : q.accepted t = some cond) :
    getUpdatedCurrencies q t =
      (.ok { q.currencies with value := cond }, t.set q.currencies.curr cond) := by
  obtain ⟨rate, hrate, rfl, hlow, hhigh⟩ := Request.accepted_eq_some_iff.mp h
  exact currenciesChangesSimulator.exec_loop_of_accepted q.draw q.currencies
    (fun c ↦ (t.mem_keys c).mp) (Dict.mem_keys_of_get hrate) hrate ⟨rfl, hlow, hhigh⟩

/-- Any other request leaves the table as it is, and is sent back. -/
theorem getUpdatedCurrencies_of_not_accepted {q : Request} {t : Table} (h : q.accepted t = none) :
    getUpdatedCurrencies q t = (.ok q.currencies, t) := by
  apply currenciesChangesSimulator.exec_loop_of_rejected q.draw q.currencies
    fun c ↦ (t.mem_keys c).mp
  intro c _ rate hrate hpass
  obtain rfl := hpass.eq
  rw [Request.accepted_eq_some_iff.mpr ⟨rate, hrate, rfl, hpass.2⟩] at h
  cases h

/-! ## The rates a table can hold -/

/-- The table has the keys it started with, `PLN` at its first rate, and every
other rate within the bounds. -/
structure Table.InBounds (t : Table) : Prop where
  keys : t.keys = allCurrencies.keys
  pln : t.get .PLN = some 1
  bounds : ∀ {c rate}, c ≠ .PLN → t.get c = some rate → MIN_BOUND < rate ∧ rate < MAX_BOUND

theorem Table.inBounds_allCurrencies : allCurrencies.InBounds where
  keys := rfl
  pln := rfl
  bounds {c rate} hc h := by
    have hmem : c ∈ allCurrencies.keys := Dict.mem_keys_of_get h
    cases c <;> simp at hc hmem
    · obtain rfl : 427 / 100 = rate := by simpa using h
      norm_num [MIN_BOUND, MAX_BOUND]
    · obtain rfl : 374 / 100 = rate := by simpa using h
      norm_num [MIN_BOUND, MAX_BOUND]

theorem Table.InBounds.set {t : Table} (h : t.InBounds) {c : Currency} {cond : ℚ}
    (hmem : c ∈ t.keys) (hpln : c ≠ .PLN) (hb : MIN_BOUND < cond ∧ cond < MAX_BOUND) :
    Table.InBounds (t.set c cond) where
  keys := by rw [Dict.keys_set_of_mem _ hmem, h.keys]
  pln := by rw [Dict.get_set_of_ne _ hpln.symm, h.pln]
  bounds {d rate} hd hrate := by
    by_cases hdc : d = c
    · subst hdc
      obtain rfl : cond = rate := by simpa using hrate
      exact hb
    · exact h.bounds hd (by rwa [Dict.get_set_of_ne _ hdc] at hrate)

/-- A new rate that passes the test is not that of `PLN`: one draw does not take it
from 1 over the lower bound. -/
theorem Table.InBounds.ne_pln_of_passes {t : Table} (h : t.InBounds) {cur c : Currency} {rate : ℚ}
    {draw : Draw} (hrate : t.get c = some rate) (hpass : Passes cur c (rate + draw.val)) :
    c ≠ .PLN := by
  rintro rfl
  obtain rfl : 1 = rate := by simpa [h.pln] using hrate
  have hlow := hpass.2.1
  have hup := draw.le_up
  norm_num [MIN_BOUND] at hlow hup
  linarith

/-! ## The rate a request is answered with -/

namespace Request

variable (q : Request) (t : Table)

/-- The value of the response: the new rate, or the value of the request. -/
def rate : ℚ := (q.accepted t).getD q.currencies.value

def after : Table :=
  match q.accepted t with
  | some cond => t.set q.currencies.curr cond
  | none => t

variable {q t}

/-- What a request is answered, and what it leaves, in either case. -/
theorem getUpdatedCurrencies_eq :
    getUpdatedCurrencies q t = (.ok { q.currencies with value := q.rate t }, q.after t) := by
  cases h : q.accepted t with
  | none => simp [getUpdatedCurrencies_of_not_accepted h, rate, after, h]
  | some cond => simp [getUpdatedCurrencies_of_accepted h, rate, after, h]

/-- A request leaves the rates of the other currencies alone. -/
theorem get_after_of_ne {c : Currency} (h : c ≠ q.currencies.curr) :
    (q.after t).get c = t.get c := by
  unfold after
  split
  · exact t.get_set_of_ne h _
  · rfl

/-- A request adds no currency to the table, and moves none. -/
theorem keys_after : (q.after t).keys = t.keys := by
  unfold after
  split
  · next cond hacc =>
      obtain ⟨rate, hrate, -⟩ := accepted_eq_some_iff.mp hacc
      exact t.keys_set_of_mem (Dict.mem_keys_of_get hrate) cond
  · rfl

/-- What a request does depends on the rate of its currency alone. -/
theorem accepted_congr {t' : Table} (h : t'.get q.currencies.curr = t.get q.currencies.curr) :
    q.accepted t' = q.accepted t := by
  rw [accepted, accepted, h]

theorem rate_congr {t' : Table} (h : t'.get q.currencies.curr = t.get q.currencies.curr) :
    q.rate t' = q.rate t := by
  rw [rate, rate, accepted_congr h]

theorem get_after_congr {t' : Table} (h : t'.get q.currencies.curr = t.get q.currencies.curr) :
    (q.after t').get q.currencies.curr = (q.after t).get q.currencies.curr := by
  rw [after, after, accepted_congr h]
  cases q.accepted t with
  | none => exact h
  | some cond => simp

/-- A request that carries the rate of its currency, or whose draw is accepted, is
answered with the rate the table then holds. -/
theorem get_after_curr
    (h : t.get q.currencies.curr = some q.currencies.value ∨ q.accepted t ≠ none) :
    (q.after t).get q.currencies.curr = some (q.rate t) := by
  cases hacc : q.accepted t with
  | none => simpa [rate, after, hacc] using h
  | some cond => simp [rate, after, hacc]

/-- A request keeps the table within its bounds. -/
theorem inBounds_after (h : t.InBounds) : (q.after t).InBounds := by
  unfold after
  split
  · next cond hacc =>
      obtain ⟨rate, hrate, rfl, hb⟩ := accepted_eq_some_iff.mp hacc
      exact h.set (Dict.mem_keys_of_get hrate) (h.ne_pln_of_passes hrate ⟨rfl, hb⟩) hb
  · exact h

/-- The first draw for a currency other than `PLN` is accepted, whatever it is: the
first rates are more than one draw away from the bounds. -/
theorem accepted_ne_none (hmem : q.currencies.curr ∈ allCurrencies.keys)
    (hpln : q.currencies.curr ≠ .PLN)
    (h : t.get q.currencies.curr = allCurrencies.get q.currencies.curr) : q.accepted t ≠ none := by
  obtain ⟨rate, hrate⟩ := Dict.exists_get_of_mem hmem
  have hnear : 35 / 10 < rate ∧ rate < 55 / 10 := by
    generalize q.currencies.curr = c at hmem hpln hrate
    cases c <;> simp at hmem hpln hrate <;> subst hrate <;> norm_num
  have hlow := (q.draw q.currencies.curr).bottom_le
  have hup := (q.draw q.currencies.curr).le_up
  rw [accepted_eq_some_iff.mpr ⟨rate, h.trans hrate, rfl, ?_, ?_⟩]
  · exact Option.some_ne_none _
  · norm_num [MIN_BOUND]
    linarith
  · norm_num [MAX_BOUND]
    linarith

end Request

/-! ## The value of a response

The service keeps its own rates, but a response carries one only when the draw was
accepted.  The other responses carry whatever the client has put in its request. -/

/-- The response to the request carries the rate that the table then holds. -/
def AnswersRate (q : Request) (t : Table) : Prop :=
  ∃ reply rate, (getUpdatedCurrencies q t).1 = .ok reply ∧
    (getUpdatedCurrencies q t).2.get q.currencies.curr = some rate ∧ reply.value = rate

/-- **Answers are current rates** exactly when the request already carried the rate, or
its draw keeps the rate within the bounds. -/
theorem answersRate_iff {requests : List Request} {q : Request} {rate : ℚ}
    (h : (getUpdatedCurrencies.exec requests allCurrencies).get q.currencies.curr = some rate) :
    AnswersRate q (getUpdatedCurrencies.exec requests allCurrencies) ↔
      q.currencies.value = rate ∨
        MIN_BOUND < rate + (q.draw q.currencies.curr).val ∧
          rate + (q.draw q.currencies.curr).val < MAX_BOUND := by
  generalize getUpdatedCurrencies.exec requests allCurrencies = t at h
  by_cases hb : MIN_BOUND < rate + (q.draw q.currencies.curr).val ∧
      rate + (q.draw q.currencies.curr).val < MAX_BOUND
  · refine iff_of_true ?_ (.inr hb)
    have hacc : q.accepted t = some (rate + (q.draw q.currencies.curr).val) :=
      Request.accepted_eq_some_iff.mpr ⟨rate, h, rfl, hb⟩
    rw [AnswersRate, getUpdatedCurrencies_of_accepted hacc]
    exact ⟨_, _, rfl, Dict.get_set_self _ _ _, rfl⟩
  · rw [AnswersRate, getUpdatedCurrencies_of_not_accepted (Request.accepted_eq_none h hb)]
    constructor
    · rintro ⟨reply, rate', hreply, hrate', hvalue⟩
      obtain rfl := Except.ok.inj hreply
      obtain rfl := Option.some.inj (h.symm.trans hrate')
      exact .inl hvalue
    · intro hor
      exact ⟨_, rate, rfl, h, hor.resolve_right hb⟩

/-- The request of a bank that has just been started, for `CHF`, and a draw that goes
all the way down. -/
def startedBank : Request := ⟨⟨.CHF, 0⟩, fun _ ↦ ⟨-1 / 2, le_rfl, by norm_num⟩⟩

theorem accepted_startedBank : startedBank.accepted allCurrencies = some (374 / 100 + -1 / 2) := by
  refine Request.accepted_eq_some_iff.mpr ⟨374 / 100, rfl, rfl, ?_⟩
  norm_num [MIN_BOUND, MAX_BOUND]

/-- The first request of a bank is answered with the rate. -/
theorem answersRate_iff_first :
    AnswersRate startedBank (getUpdatedCurrencies.exec [] allCurrencies) := by
  have hrate : (getUpdatedCurrencies.exec [] allCurrencies).get startedBank.currencies.curr =
      some (374 / 100) := get_allCurrencies_CHF
  refine (answersRate_iff hrate).mpr (.inr ?_)
  norm_num [startedBank, MIN_BOUND, MAX_BOUND]

/-- A bank that is started again asks once more, and gets back its own placeholder. -/
theorem not_answersRate :
    ¬ AnswersRate startedBank (getUpdatedCurrencies.exec [startedBank] allCurrencies) := by
  have hrate : (getUpdatedCurrencies.exec [startedBank] allCurrencies).get
      startedBank.currencies.curr = some (374 / 100 + -1 / 2) := by
    rw [Object.exec_cons, Object.exec_nil, getUpdatedCurrencies_of_accepted accepted_startedBank]
    exact Dict.get_set_self _ _ _
  have hrej : startedBank.accepted
      (getUpdatedCurrencies.exec [startedBank] allCurrencies) = none := by
    refine Request.accepted_eq_none hrate ?_
    norm_num [startedBank, MIN_BOUND]
  rintro ⟨reply, rate, hreply, hrate', hvalue⟩
  rw [getUpdatedCurrencies_of_not_accepted hrej] at hreply hrate'
  obtain rfl := Except.ok.inj hreply
  obtain rfl := Option.some.inj (hrate.symm.trans hrate')
  norm_num [startedBank] at hvalue

end StockBank.Stock
