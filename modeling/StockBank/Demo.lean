import Mathlib.Data.Rat.Floor

/-!
# The bank's interface

The types of `slice/bank.ice` (module `Demo`) and of the part of Ice that the
bank uses, as the generated Java code has them: the enumeration of currencies
with its ordinals, amounts of money, identities, proxies, and the record a client
gets back when an account is created or looked up.
-/

namespace StockBank

namespace Demo

/-- `enum Currency {PLN, USD, EUR}`. -/
inductive Currency
  | PLN
  | USD
  | EUR
  deriving DecidableEq, Repr

/-- The number Slice gives an enumerator: its position. -/
def Currency.value : Currency → ℕ
  | .PLN => 0
  | .USD => 1
  | .EUR => 2

def Currency.name : Currency → String
  | .PLN => "PLN"
  | .USD => "USD"
  | .EUR => "EUR"

/-- `struct Money`. -/
structure Money where
  currency : Currency
  value : ℤ
  deriving DecidableEq, Repr

end Demo

namespace Ice

/-- An object identity: a name within a category. -/
structure Identity where
  name : String
  category : String
  deriving DecidableEq, Repr

/-- A proxy for the object of some identity. -/
structure ObjectPrx where
  ident : Identity
  deriving DecidableEq, Repr

end Ice

namespace Demo

/-- A proxy after the cast that gave it an interface. -/
inductive AccountPrx
  | /-- `AccountPrx.uncheckedCast`. -/
    account (proxy : Ice.ObjectPrx)
  | /-- `PremiumAccountPrx.uncheckedCast`. -/
    premiumAccount (proxy : Ice.ObjectPrx)
  deriving DecidableEq, Repr

/-- The identity a cast proxy denotes: a cast does not change it. -/
def AccountPrx.ident : AccountPrx → Ice.Identity
  | .account proxy => proxy.ident
  | .premiumAccount proxy => proxy.ident

/-- `struct CreatedAccount`.  A Slice proxy may be null. -/
structure CreatedAccount where
  account : Option AccountPrx
  key : String
  isPremium : Bool
  deriving DecidableEq, Repr

/-- What a null `CreatedAccount` is marshalled as: the default-constructed record. -/
def CreatedAccount.nullMarshalValue : CreatedAccount where
  account := none
  key := ""
  isPremium := false

end Demo

end StockBank
