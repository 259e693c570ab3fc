import Mathlib.Data.Rat.Defs

/-!
# The rate protocol

The types of `stock.proto` (package `stock`), of which the bank and the stock
service each have a copy.  The copies agree on the currencies and on
`currencyData`.  They differ in the two envelopes: where the bank's copy says
`repeated currencyData`, the service's says `required currencyData`, so a request
is a list on one side and a single record on the other.
-/

namespace StockBank.Stock

/-- `enum currency { PLN = 1; EUR = 2; CHF = 3; USD = 4; GBP = 5; }`. -/
inductive Currency
  | PLN
  | EUR
  | CHF
  | USD
  | GBP
  deriving DecidableEq, Repr

namespace Currency

def number : Currency → ℕ
  | PLN => 1
  | EUR => 2
  | CHF => 3
  | USD => 4
  | GBP => 5

/-- `currency.Name`: the name of an enumerator. -/
def name : Currency → String
  | PLN => "PLN"
  | EUR => "EUR"
  | CHF => "CHF"
  | USD => "USD"
  | GBP => "GBP"

/-- `currency.forNumber`, which `currency.valueOf` calls: null for any other number. -/
def forNumber : ℕ → Option Currency
  | 1 => some PLN
  | 2 => some EUR
  | 3 => some CHF
  | 4 => some USD
  | 5 => some GBP
  | _ => none

theorem number_injective : Function.Injective number := by
  intro c c' h
  cases c <;> cases c' <;> simp_all [number]

end Currency

/-- `message currencyData`, for a type of values. -/
structure CurrencyData (Value : Type) where
  curr : Currency
  value : Value
  deriving DecidableEq, Repr

end StockBank.Stock
