import StockBank.Demo
import StockBank.Ice.Proxy

/-!
# The bank's types on the wire

`ice_write` and `ice_read` of the classes generated from `slice/bank.ice`: `Currency`,
`Money` and `CreatedAccount`.

The interface declares the proxy of a created account as one of `Account`, so that is
what the receiver casts it to, whatever the sender's cast was: `CreatedAccount.received`.
-/

namespace StockBank.Demo

open Lib Bytes Ice

/-! ## Currencies and money -/

/-- `Currency.valueOf`. -/
def Currency.valueOf : ℤ → Option Currency
  | 0 => some .PLN
  | 1 => some .USD
  | 2 => some .EUR
  | _ => none

@[simp] theorem Currency.valueOf_value (v : Currency) : valueOf v.value = some v := by
  cases v <;> rfl

def Currency.ice_write (encoding : Encoding) (v : Currency) : List UInt8 :=
  writeEnum encoding v.value

/-- `Currency.validate`. -/
def Currency.validate (v : ℤ) : InputStream Currency :=
  match valueOf v with
  | none => throw (.marshal ("enumerator value " ++ toString v ++ " is out of range"))
  | some e => return e

def Currency.ice_read (encoding : Encoding) : InputStream Currency := do
  let v ← readEnum encoding
  validate v

def Money.ice_write (encoding : Encoding) (v : Money) : List UInt8 :=
  v.currency.ice_write encoding ++ writeInt (Int32.ofInt v.value)

def Money.ice_read (encoding : Encoding) : InputStream Money := do
  let currency ← Currency.ice_read encoding
  let value ← readInt
  return ⟨currency, value.toInt⟩

/-- The value is one of a Java `int`. -/
def Money.IsInt (v : Money) : Prop := -2 ^ 31 ≤ v.value ∧ v.value < 2 ^ 31

theorem reads_currency (encoding : Encoding) (v : Currency) :
    Reads (Currency.ice_read encoding) (v.ice_write encoding) v := by
  have hv : v.value < 127 := by cases v <;> decide
  refine (reads_readEnum encoding hv).bind_last ?_
  rw [Currency.validate, Currency.valueOf_value]
  exact Reads.pure v

theorem reads_money (encoding : Encoding) {v : Money} (h : v.IsInt) :
    Reads (Money.ice_read encoding) (v.ice_write encoding) v := by
  have hvalue : (Int32.ofInt v.value).toInt = v.value := Int32.toInt_ofInt_of_le h.1 h.2
  refine (reads_currency encoding v.currency).bind ?_
  simpa only [hvalue] using (reads_readInt (Int32.ofInt v.value)).map fun n ↦ Money.mk _ n.toInt

/-! ## Created accounts -/

/-- The proxy, without its cast. -/
def AccountPrx.proxy : AccountPrx → ObjectPrx
  | account proxy => proxy
  | premiumAccount proxy => proxy

/-- `CreatedAccount.ice_write`, by a sender whose proxies have this reference. -/
def CreatedAccount.ice_write (encoding : Encoding) (reference : Reference)
    (v : Option CreatedAccount) : List UInt8 :=
  let v := v.getD CreatedAccount.nullMarshalValue
  writeProxy encoding reference (v.account.map AccountPrx.proxy) ++
    (writeString v.key ++ writeBool v.isPremium)

def CreatedAccount.ice_read [Runtime] (encoding : Encoding) : InputStream CreatedAccount := do
  let account ← readProxy encoding
  let key ← readString
  let isPremium ← readBool
  return ⟨account.map fun proxy ↦ .account proxy.1, key, isPremium⟩

/-- The record that arrives: the proxy is cast to `AccountPrx`, and null is a record too. -/
def CreatedAccount.received (v : Option CreatedAccount) : CreatedAccount :=
  let v := v.getD CreatedAccount.nullMarshalValue
  { v with account := v.account.map fun account ↦ .account account.proxy }

/-- The proxy, unless it or the record is null, has an identity. -/
def CreatedAccount.Named (v : Option CreatedAccount) : Prop :=
  ∀ e ∈ v, ∀ account ∈ e.account, account.ident.name ≠ ""

theorem AccountPrx.ident_proxy (v : AccountPrx) : v.proxy.ident = v.ident := by
  cases v <;> rfl

theorem reads_createdAccount [Runtime] {encoding : Encoding} {reference : Reference}
    {v : Option CreatedAccount} (h : Fits (CreatedAccount.ice_write encoding reference v))
    (hnamed : CreatedAccount.Named v) :
    Reads (CreatedAccount.ice_read encoding) (CreatedAccount.ice_write encoding reference v)
      (CreatedAccount.received v) := by
  have hnull : ∀ proxy ∈ (v.getD CreatedAccount.nullMarshalValue).account.map AccountPrx.proxy,
      ¬ (proxy.ident.name = "" ∧ proxy.ident.category = "") := by
    rintro proxy hproxy ⟨hname, -⟩
    obtain ⟨account, haccount, rfl⟩ := Option.mem_map.mp hproxy
    cases v with
    | none => cases haccount
    | some e => exact hnamed e rfl account haccount (account.ident_proxy ▸ hname)
  refine (reads_proxy h.left hnull).bind ((reads_readString h.right.left).bind
    ((reads_readBool _).bind_last ?_))
  rw [CreatedAccount.received, Option.map_map, Option.map_map]
  exact Reads.pure _

end StockBank.Demo
